import AlpnOverlay.Flight.Edit
import AlpnOverlay.Wire.Hello
import AlpnOverlay.Wire.ProtocolList

/-!
The client's offer: adding it to the hello that opens a flight, and reading it from one. A hello
that runs past its first record is sent and taken without an offer.
-/
namespace AlpnOverlay.Flight

open Wire

/-- The message type of a whole message. -/
def messageType? (message : Bytes) : Except Error (Option MessageType) :=
  (Message.Header.parse message).map Message.Header.type?

/-- The first message of a payload and what follows it; `none` if the payload ends too early. -/
def splitWhole (payload : Bytes) : Except Error (Option (Bytes × Bytes)) :=
  match Message.split payload with
  | .ok parts => .ok (some parts)
  | .error .fragmented => .ok none
  | .error e => .error e

/-- The first message of a payload with what follows it, if it is a whole client hello. -/
def clientHello? (payload : Bytes) : Except Error (Option (Bytes × Bytes × Hello)) := do
  let some (message, rest) ← splitWhole payload | return none
  if (← messageType? message) ≠ some .clientHello then return none
  return some (message, rest, ← Hello.parse .client message)

/-- Offers `protocols` in the client hello at the head of `data`. Nothing is done when there is no
whole client hello, or when it makes an offer already. -/
def addOffer (data : Bytes) (protocols : List Bytes) : Except Error (Option Edit) := do
  match ← Record.split data with
  | [] => return none
  | first :: tail =>
    if !first.isEditable then return none
    let some (message, rest, hello) ← clientHello? first.payload | return none
    if hello.has Extension.alpn then return none
    let names ← ProtocolList.encode protocols
    let outer ← hello.writeWith ⟨Extension.alpn, names⟩
    return some {
      carrier := first
      head := Record.carrying first.type first.version (outer ++ rest)
      tail, inner := message, outer }

/-- The protocols offered at the head of `data`, of which only the first record has to be there.
Bytes that are no TLS handshake are left to the engine. -/
def offer? (data : Bytes) : Except Error (Option (List Bytes)) := do
  if data.length < headerLength then throw (.underflow headerLength data.length)
  if data.head? ≠ some ContentType.handshake.code then return none
  let (first, _) ← Record.first data
  let some (_, _, hello) ← clientHello? first.payload | return none
  match hello.find? Extension.alpn with
  | none => return none
  | some e => return some (← ProtocolList.decode e.data)

/-- The server's choice: the first protocol of the offer that is configured. -/
def choose (offered : List Bytes) (configured : List String) : Option String :=
  offered.findSome? fun name => configured.find? fun protocol => utf8 protocol == name

end AlpnOverlay.Flight
