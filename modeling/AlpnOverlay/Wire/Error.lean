import AlpnOverlay.Bytes
import AlpnOverlay.Text.Braced
import AlpnOverlay.Text.Lossy
import AlpnOverlay.Text.Quoted

/-!
Why bytes from the wire are refused: more of them are needed, they contradict themselves, or a
message does not fit its record.
-/
namespace AlpnOverlay.Wire

/-- A contradiction in handshake bytes, or a value that no length field can carry. -/
inductive Fault where
  /-- A field runs past the end of what holds it. -/
  | short (field : String) (needed left : Nat)
  | unknownRecordType (code : UInt8)
  | longRecord (length : Nat)
  | truncatedMessageHeader
  | longMessage
  | otherMessage (expected : String) (found : UInt8)
  | bodyLength (declared available : Nat)
  | longSessionId
  | suiteListLength
  | bytesAfterExtensions (count : Nat)
  | longExtension
  | longExtensionBlock
  | noProtocolNames
  | emptyProtocolName
  | longProtocolName
  | longProtocolList
  | bytesAfterProtocolList
  | selectionCount (count : Nat)
  | selectionPresent
  | unofferedSelection (name : Bytes)
  /-- Anything else, in the words of who reports it. -/
  | stated (text : String)
  deriving DecidableEq, Repr

def Fault.text : Fault → String
  | short field needed left => s!"{field}: need {needed} bytes, {left} left"
  | unknownRecordType code => s!"unknown record type {code.toNat}"
  | longRecord length => s!"record length {length} exceeds maximum"
  | truncatedMessageHeader => "truncated handshake header"
  | longMessage => "handshake length overflow"
  | otherMessage expected found => s!"expected {expected}, found handshake type {found.toNat}"
  | bodyLength declared available =>
    s!"hello body length {declared} disagrees with {available} available bytes"
  | longSessionId => "session id longer than 32 bytes"
  | suiteListLength => "bad cipher suite list length"
  | bytesAfterExtensions count => s!"{count} bytes after extensions block"
  | longExtension => "extension payload too long"
  | longExtensionBlock => "extensions block too long"
  | noProtocolNames => "empty ALPN protocol list"
  | emptyProtocolName => "empty ALPN protocol name"
  | longProtocolName => "ALPN protocol name longer than 255 bytes"
  | longProtocolList => "ALPN protocol list too long"
  | bytesAfterProtocolList => "trailing bytes after ALPN protocol list"
  | selectionCount count => s!"ServerHello ALPN must name one protocol, found {count}"
  | selectionPresent => "ServerHello already carries ALPN"
  | unofferedSelection name =>
    "server selected " ++ Text.quoted (Text.lossy name) ++ ", which was never offered"
  | stated text => text

inductive Error where
  /-- More bytes are needed; the same call may succeed once they are there. -/
  | underflow (needed available : Nat)
  | malformed (fault : Fault)
  /-- A message runs past the record it starts in. -/
  | fragmented
  deriving DecidableEq, Repr

namespace Error

def message : Error → String
  | underflow needed available => s!"buffer underflow: need {needed} bytes, have {available}"
  | malformed fault => "malformed handshake data: " ++ fault.text
  | fragmented => "handshake message fragmented across records"

def describe : Error → String
  | underflow needed available =>
    Text.record "Underflow"
      [Text.field "needed" (toString needed), Text.field "available" (toString available)]
  | malformed fault => Text.applied "Malformed" (Text.quoted fault.text)
  | fragmented => "Fragmented"

def isUnderflow : Error → Bool
  | underflow _ _ => true
  | _ => false

/-- The same error seen from `count` bytes further in front. -/
def shift (count : Nat) : Error → Error
  | underflow needed available => underflow (count + needed) (count + available)
  | e => e

end Error
end AlpnOverlay.Wire
