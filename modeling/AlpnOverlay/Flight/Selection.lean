import AlpnOverlay.Flight.Edit
import AlpnOverlay.Wire.Hello
import AlpnOverlay.Wire.ProtocolList

/-!
The server's selection: taking it out of the hello that opens a flight, for an engine that did not
ask for it, and adding it for a peer that did.
-/
namespace AlpnOverlay.Flight

open Wire

/-- A server hello without its selection. -/
structure Stripped where
  message : Bytes
  /-- `none` when the server selected nothing. -/
  selection : Option Bytes
  deriving DecidableEq, Repr

/-- Takes the selection out of a whole server hello; it has to name one protocol. -/
def strip (message : Bytes) : Except Error Stripped := do
  let hello ← Hello.parse .server message
  match hello.find? Extension.alpn with
  | none => return ⟨message, none⟩
  | some e =>
    match ← ProtocolList.decode e.data with
    | [name] => return ⟨← (hello.remove Extension.alpn).write, some name⟩
    | names => throw (.malformed (.selectionCount names.length))

/-- Names `protocol` in a whole server hello that names none. -/
def select (message protocol : Bytes) : Except Error Bytes := do
  let hello ← Hello.parse .server message
  if hello.has Extension.alpn then throw (.malformed .selectionPresent)
  hello.writeWith ⟨Extension.alpn, ← ProtocolList.encode [protocol]⟩

/-- The first record of a flight that opens with a server hello, and the records behind it. -/
def serverFlight? (data : Bytes) : Except Error (Option (Record × List Record)) := do
  match ← Record.split data with
  | [] => return none
  | first :: tail =>
    if !first.isEditable then return none
    let header ← Message.Header.parse first.payload
    if header.type? ≠ some .serverHello then return none
    return some (first, tail)

/-- Takes the selection out of the server hello at the head of `data`. Every record has to be
whole; a hello that runs past its record cannot be edited and is an error, because the engine must
not meet a selection it did not ask for. -/
def takeSelection (data : Bytes) : Except Error (Option (Edit × Bytes)) := do
  let some (first, tail) ← serverFlight? data | return none
  let (message, rest) ← Message.split first.payload
  let stripped ← strip message
  match stripped.selection with
  | none => return none
  | some name =>
    let edit : Edit := {
      carrier := first
      head := Record.carrying first.type first.version (stripped.message ++ rest)
      tail, inner := stripped.message, outer := message }
    return some (edit, name)

/-- Names `protocol` in the server hello at the head of `data`. -/
def addSelection (data protocol : Bytes) : Except Error (Option Edit) := do
  let some (first, tail) ← serverFlight? data | return none
  let (message, rest) ← Message.split first.payload
  let outer ← select message protocol
  return some {
    carrier := first
    head := Record.carrying first.type first.version (outer ++ rest)
    tail, inner := message, outer }

end AlpnOverlay.Flight
