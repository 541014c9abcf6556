import AlpnOverlay.Engine
import AlpnOverlay.Transcript.RunningHash
import AlpnOverlay.Wire.Hello

/-!
A plaintext peer that goes through a TLS 1.2 handshake without negotiating protocols. Its last
message proves that both sides have hashed the same handshake.
-/
namespace AlpnOverlay

open Wire

namespace Peer

inductive Item where
  | clientHello
  /-- The hello shares its record with the end of the server's first flight, if that is due. -/
  | serverHello (done : Bool)
  | clientKeyExchange
  | changeCipherSpec
  | finished
  deriving DecidableEq, Repr

def Item.describe : Item → String
  | clientHello => "ClientHello"
  | serverHello done => Text.record "ServerHello" [Text.field "with_done" (Text.truth done)]
  | clientKeyExchange => "ClientKeyExchange"
  | changeCipherSpec => "ChangeCipherSpec"
  | finished => "Finished"

inductive Turn where
  | send (item : Item)
  | receive (item : Item)
  deriving DecidableEq, Repr

/-- The other side's view of a turn. -/
def Turn.opposite : Turn → Turn
  | send item => receive item
  | receive item => send item

/-- The client's turns. A resumed session leaves out the key exchange and lets the server finish
first. -/
def clientTurns : (resumed : Bool) → List Turn
  | false =>
    [.send .clientHello, .receive (.serverHello true), .send .clientKeyExchange,
      .send .changeCipherSpec, .send .finished, .receive .changeCipherSpec, .receive .finished]
  | true =>
    [.send .clientHello, .receive (.serverHello false), .receive .changeCipherSpec,
      .receive .finished, .send .changeCipherSpec, .send .finished]

def turnsOf : Role → (resumed : Bool) → List Turn
  | .client, resumed => clientTurns resumed
  | .server, resumed => (clientTurns resumed).map Turn.opposite

def helloOf : Role → Hello
  | .client => {
      sender := .client
      version := .tls12
      random := List.replicate 32 0xc1
      sessionId := List.replicate 32 0x5e
      suites := (List.range 16).flatMap fun i => BigEndian.encode 2 (0xc02b + i)
      compression := [0]
      extensions := some [⟨Extension.renegotiationInfo, [0]⟩] }
  | .server => {
      sender := .server
      version := .tls12
      random := List.replicate 32 0x5f
      sessionId := List.replicate 32 0x5e
      suites := [0xc0, 0x2f]
      compression := [0]
      extensions := some [⟨Extension.renegotiationInfo, [0]⟩] }

/-- The end of the server's first flight. -/
def helloDone : Bytes := Message.frame .serverHelloDone []

end Peer

structure Peer where
  role : Role
  turns : List Peer.Turn
  hash : RunningHash := .start .sha256
  closed : Bool := false

namespace Peer

def start (role : Role) (resumed : Bool) : Peer := { role, turns := turnsOf role resumed }

/-- What the last message of `sender` proves: a label and the hash of the handshake so far. -/
def proof (p : Peer) (sender : Role) : Bytes :=
  let label :=
    match sender with
    | .client => "client finished"
    | .server => "server finished"
  Digest.sha256.digest (utf8 label ++ p.hash.current)

/-- The type and the payload of the record in which an item travels. -/
def encode (p : Peer) : Item → ContentType × Bytes
  | .clientHello => (.handshake, (helloOf .client).encode)
  | .serverHello done =>
    (.handshake, (helloOf .server).encode ++ if done then helloDone else [])
  | .clientKeyExchange =>
    (.handshake, Message.frame .clientKeyExchange (List.replicate 66 0x42))
  | .changeCipherSpec => (.changeCipherSpec, [1])
  | .finished => (.handshake, Message.frame .finished (p.proof p.role))

/-- A payload behind a header of TLS 1.2. -/
def recordOf (type : ContentType) (payload : Bytes) : Bytes :=
  type.code :: 3 :: 3 :: BigEndian.encode 2 payload.length ++ payload

def refuse {α : Type} (text : String) : Except Cause α := .error (.stated text)

/-- Checks the first message of a handshake payload and what follows it. -/
def checkMessage (p : Peer) (expected : Item) (message rest : Bytes) : Except Cause Unit := do
  let whole : Except Cause Unit := if rest.isEmpty then .ok () else refuse "trailing handshake data"
  let code := message.headD 0
  match expected with
  | .clientHello =>
    let _ ← (Hello.parse .client message).mapError .wire
    whole
  | .serverHello done =>
    let hello ← (Hello.parse .server message).mapError .wire
    if hello.has Extension.alpn then refuse "unsolicited ALPN extension in ServerHello"
    else if done && rest != helloDone then refuse "ServerHelloDone missing"
    else .ok ()
  | .finished =>
    if code ≠ MessageType.finished.code
        || message.drop Message.headerLength ≠ p.proof p.role.peer then
      refuse "Finished verification failed"
    else whole
  | _ =>
    if code = MessageType.clientKeyExchange.code then whole
    else refuse s!"unexpected handshake message {code.toNat}"

def check (p : Peer) (expected : Item) (record : Record) : Except Cause Unit :=
  let type := if expected = .changeCipherSpec then .changeCipherSpec else .handshake
  if record.type ≠ type then
    refuse s!"expected {expected.describe}, got content type {record.type.code.toNat}"
  else if expected = .changeCipherSpec then .ok ()
  else
    match Message.split record.payload with
    | .error e => .error (.wire e)
    | .ok (message, rest) => p.checkMessage expected message rest

/-- What the next turn waits for. -/
def nextPhase (p : Peer) : Phase :=
  match p.turns with
  | .send _ :: _ => .needWrap
  | .receive _ :: _ => .needUnwrap
  | [] => .finished

def phase (p : Peer) : Phase :=
  match p.nextPhase with
  | .finished => .notHandshaking
  | phase => phase

/-- Ends a turn in which a record with this payload has crossed. -/
def advance (p : Peer) (type : ContentType) (payload : Bytes) : Peer :=
  { p with
    turns := p.turns.tail
    hash := if type = .handshake then p.hash.update payload else p.hash }

/-- The record to produce next, if it is the own turn, and the application bytes it takes. -/
def outgoing? (p : Peer) (source : List Bytes) : Option (ContentType × Bytes × Nat) :=
  match p.turns with
  | .send item :: _ =>
    let (type, payload) := p.encode item
    some (type, payload, 0)
  | .receive _ :: _ => none
  | [] => some (.applicationData, source.flatten, source.flatten.length)

def wrap (p : Peer) (source : List Bytes) (buffer : Bytes) : Reply Peer Bytes Cause :=
  if p.closed then ⟨p, buffer, .ok (.closed p.phase)⟩
  else
    match p.outgoing? source with
    | none => ⟨p, buffer, .ok ⟨.ok, .needUnwrap, 0, 0⟩⟩
    | some (type, payload, consumed) =>
      let record := recordOf type payload
      if buffer.length < record.length then ⟨p, buffer, .ok ⟨.overflow, p.phase, 0, 0⟩⟩
      else
        let buffer := record ++ buffer.drop record.length
        if p.turns.isEmpty then
          ⟨p, buffer, .ok ⟨.ok, .notHandshaking, consumed, record.length⟩⟩
        else
          let p := p.advance type payload
          ⟨p, buffer, .ok ⟨.ok, p.nextPhase, consumed, record.length⟩⟩

/-- Hands application data to the first buffer. -/
def receive (p : Peer) (record : Record) (buffers : List Bytes) : Reply Peer (List Bytes) Cause :=
  if record.type ≠ .applicationData then
    ⟨p, buffers, refuse "handshake record after completion"⟩
  else
    match buffers with
    | [] => ⟨p, buffers, .ok ⟨.overflow, .notHandshaking, 0, 0⟩⟩
    | buffer :: others =>
      if buffer.length < record.payload.length then
        ⟨p, buffers, .ok ⟨.overflow, .notHandshaking, 0, 0⟩⟩
      else
        ⟨p, (record.payload ++ buffer.drop record.payload.length) :: others,
          .ok ⟨.ok, .notHandshaking, record.size, record.payload.length⟩⟩

def unwrap (p : Peer) (source : Bytes) (buffers : List Bytes) : Reply Peer (List Bytes) Cause :=
  if p.closed then ⟨p, buffers, .ok (.closed p.phase)⟩
  else
    match Record.first source with
    | .error _ => ⟨p, buffers, .ok .underflow⟩
    | .ok (record, _) =>
      match p.turns with
      | .send _ :: _ => ⟨p, buffers, refuse "peer sent a record out of turn"⟩
      | [] => p.receive record buffers
      | .receive expected :: _ =>
        match p.check expected record with
        | .error cause => ⟨p, buffers, .error cause⟩
        | .ok () =>
          let p := p.advance record.type record.payload
          ⟨p, buffers, .ok ⟨.ok, p.nextPhase, record.size, 0⟩⟩

theorem length_wrap (p : Peer) (source : List Bytes) (buffer : Bytes) :
    (p.wrap source buffer).buffer.length = buffer.length := by
  unfold wrap
  dsimp only
  repeat' split
  all_goals try rfl
  all_goals
    simp only [List.length_append, List.length_drop]
    omega

theorem lengths_unwrap (p : Peer) (source : Bytes) (buffers : List Bytes) :
    (p.unwrap source buffers).buffer.map List.length = buffers.map List.length := by
  unfold unwrap receive
  dsimp only
  repeat' split
  all_goals try rfl
  simp only [List.map_cons, List.length_append, List.length_drop, List.cons.injEq, and_true]
  omega

instance : Engine Peer where
  role := role
  wrap := wrap
  unwrap := unwrap
  phase := phase
  closeOutbound p := { p with closed := true }
  transcript? _ := some (RunningHash.transcript.within hash fun p hash => { p with hash })
  wrap_length := length_wrap
  unwrap_lengths := lengths_unwrap

end Peer
end AlpnOverlay
