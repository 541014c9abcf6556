import AlpnOverlay.Role
import AlpnOverlay.Wire.Extension
import AlpnOverlay.Wire.Message
import AlpnOverlay.Wire.Record

/-!
Hello messages as data: the fields in their order on the wire, and edits of the extensions. A
hello is written from its fields, so every length follows from what it covers.
-/
namespace AlpnOverlay.Wire

/-- The message type in which a side says hello. -/
def helloType : Role → MessageType
  | .client => .clientHello
  | .server => .serverHello

structure Hello where
  sender : Role
  version : Version
  random : Bytes
  sessionId : Bytes
  /-- The suites a client offers, or the one suite a server picks. -/
  suites : Bytes
  /-- The methods a client offers, or the one method a server picks. -/
  compression : Bytes
  /-- `none` when the message ends in front of the extensions block. -/
  extensions : Option (List Extension)
  deriving DecidableEq, Repr

namespace Hello

/-- Suites and compression: lists behind their lengths from a client, bare values from a server. -/
def encodeChoices (h : Hello) : Bytes :=
  match h.sender with
  | .client =>
    BigEndian.encode 2 h.suites.length ++ h.suites ++
      (UInt8.ofNat h.compression.length :: h.compression)
  | .server => h.suites ++ h.compression

/-- The fields in front of the extensions. -/
def encodeFields (h : Hello) : Bytes :=
  h.version.major :: h.version.minor :: h.random ++
    (UInt8.ofNat h.sessionId.length :: h.sessionId) ++ h.encodeChoices

def encodeBlock (h : Hello) : Bytes :=
  match h.extensions with
  | none => []
  | some es => BigEndian.encode 2 (Extension.encodeAll es).length ++ Extension.encodeAll es

def body (h : Hello) : Bytes := h.encodeFields ++ h.encodeBlock

def encode (h : Hello) : Bytes := Message.frame (helloType h.sender) h.body

/-- The written form, when every length fits its field. -/
def write (h : Hello) : Except Error Bytes :=
  if h.body.length > Message.maxBody then .error (.malformed .longMessage)
  else if (Extension.encodeAll (h.extensions.getD [])).length > maxLength16 then
    .error (.malformed .longExtensionBlock)
  else .ok h.encode

def readSessionId : Read Bytes := do
  let sessionId ← Read.vector 1 "session id"
  if sessionId.length > 32 then Read.fault .longSessionId else return sessionId

def readChoices : Role → Read (Bytes × Bytes)
  | .client => do
    let suites ← Read.vector 2 "cipher suites"
    if suites.isEmpty || suites.length % 2 != 0 then Read.fault .suiteListLength
    else return (suites, ← Read.vector 1 "compression methods")
  | .server => do
    let suite ← Read.take 2 "cipher suite"
    return (suite, ← Read.take 1 "compression method")

def readBlock : Read (Option (List Extension)) := do
  if ← Read.isEmpty then return none
  let block ← Read.vector 2 "extensions block"
  let left ← Read.rest
  if left.isEmpty then
    match Extension.parseAll block with
    | .ok es => return some es
    | .error e => throw e
  else Read.fault (.bytesAfterExtensions left.length)

/-- The fields of a hello, in order, to the end of its body. -/
def read (sender : Role) : Read Hello := do
  let major ← Read.byte "hello version"
  let minor ← Read.byte "hello version"
  let random ← Read.take 32 "hello random"
  let sessionId ← readSessionId
  let (suites, compression) ← readChoices sender
  let extensions ← readBlock
  return { sender, version := ⟨major, minor⟩, random, sessionId, suites, compression, extensions }

/-- Reads a whole message, header included. -/
def parse (sender : Role) (message : Bytes) : Except Error Hello :=
  match Message.Header.parse message with
  | .error e => .error e
  | .ok header =>
    let body := message.drop Message.headerLength
    if header.code ≠ (helloType sender).code then
      .error (.malformed (.otherMessage (helloType sender).name header.code))
    else if body.length ≠ header.length then
      .error (.malformed (.bodyLength header.length body.length))
    else Read.on body (read sender)

/-- The first extension of a type. -/
def find? (h : Hello) (type : UInt16) : Option Extension :=
  (h.extensions.getD []).find? fun e => e.type == type

def has (h : Hello) (type : UInt16) : Bool := (h.find? type).isSome

/-- The hello with one more extension at the end; a missing block is created. -/
def add (h : Hello) (e : Extension) : Hello :=
  { h with extensions := some (h.extensions.getD [] ++ [e]) }

/-- The hello without its extensions of a type; a block left empty is dropped. -/
def remove (h : Hello) (type : UInt16) : Hello :=
  match (h.extensions.getD []).filter fun e => e.type != type with
  | [] => { h with extensions := none }
  | kept => { h with extensions := some kept }

/-- The message with one more extension. -/
def writeWith (h : Hello) (e : Extension) : Except Error Bytes :=
  if e.data.length > maxLength16 then .error (.malformed .longExtension) else (h.add e).write

/-- The message without its extensions of a type, or `none` when it has none of them. -/
def writeWithout (h : Hello) (type : UInt16) : Except Error (Option Bytes) :=
  if h.has type then (h.remove type).write.map some else .ok none

end Hello
end AlpnOverlay.Wire
