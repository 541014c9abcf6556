import AlpnOverlay.Wire.Cursor

/-!
Handshake messages: a type and a 24-bit length in front of a body. A record payload may hold
several of them.
-/
namespace AlpnOverlay.Wire

inductive MessageType where
  | helloRequest
  | clientHello
  | serverHello
  | newSessionTicket
  | certificate
  | serverKeyExchange
  | certificateRequest
  | serverHelloDone
  | certificateVerify
  | clientKeyExchange
  | finished
  deriving DecidableEq, Repr

namespace MessageType

def code : MessageType → UInt8
  | helloRequest => 0
  | clientHello => 1
  | serverHello => 2
  | newSessionTicket => 4
  | certificate => 11
  | serverKeyExchange => 12
  | certificateRequest => 13
  | serverHelloDone => 14
  | certificateVerify => 15
  | clientKeyExchange => 16
  | finished => 20

def all : List MessageType :=
  [helloRequest, clientHello, serverHello, newSessionTicket, certificate, serverKeyExchange,
    certificateRequest, serverHelloDone, certificateVerify, clientKeyExchange, finished]

def ofCode? (b : UInt8) : Option MessageType := all.find? fun t => t.code == b

def name : MessageType → String
  | helloRequest => "HelloRequest"
  | clientHello => "ClientHello"
  | serverHello => "ServerHello"
  | newSessionTicket => "NewSessionTicket"
  | certificate => "Certificate"
  | serverKeyExchange => "ServerKeyExchange"
  | certificateRequest => "CertificateRequest"
  | serverHelloDone => "ServerHelloDone"
  | certificateVerify => "CertificateVerify"
  | clientKeyExchange => "ClientKeyExchange"
  | finished => "Finished"

theorem ofCode?_code (t : MessageType) : ofCode? t.code = some t := by
  cases t <;> rfl

theorem code_of_ofCode? {b : UInt8} {t : MessageType} (h : ofCode? b = some t) : t.code = b := by
  simpa using List.find?_some h

end MessageType

namespace Message

/-- The length of a message header. -/
def headerLength : Nat := 4

/-- The longest body that a 24-bit length can announce. -/
def maxBody : Nat := 0xffffff

structure Header where
  code : UInt8
  length : Nat
  deriving DecidableEq, Repr

namespace Header

def type? (h : Header) : Option MessageType := MessageType.ofCode? h.code

def parse : Bytes → Except Error Header
  | code :: high :: middle :: low :: _ => .ok ⟨code, BigEndian.decode [high, middle, low]⟩
  | _ => .error (.malformed .truncatedMessageHeader)

def encode (h : Header) : Except Error Bytes :=
  if h.length ≤ maxBody then .ok (h.code :: BigEndian.encode 3 h.length)
  else .error (.malformed .longMessage)

end Header

/-- A body behind its header; the body is at most `maxBody` long. -/
def frame (type : MessageType) (body : Bytes) : Bytes :=
  type.code :: BigEndian.encode 3 body.length ++ body

/-- The first message of a record payload, header included, and what follows it. -/
def split (payload : Bytes) : Except Error (Bytes × Bytes) :=
  match Header.parse payload with
  | .error e => .error e
  | .ok h =>
    let length := headerLength + h.length
    if payload.length < length then .error .fragmented
    else .ok (payload.take length, payload.drop length)

end Message
end AlpnOverlay.Wire
