import AlpnOverlay.Engine

/-!
Two engines joined by a pipe in each direction. A handshake alternates between them: each side goes
on until it waits for the other one.
-/
namespace AlpnOverlay

structure Connection (σ τ : Type) where
  client : σ
  server : τ
  toServer : Bytes := []
  toClient : Bytes := []
  /-- The buffer that each call for output gets. -/
  capacity : Nat

namespace Connection

/-- One engine between its two pipes. -/
structure End (σ : Type) where
  engine : σ
  inbound : Bytes
  outbound : Bytes

/-- Runs one side until it waits for its peer, and tells whether anything moved. A side that does
not come to wait within `rounds` calls is an error, so no answer depends on the bound. -/
def pump {σ : Type} [Engine σ] (capacity : Nat) :
    (rounds : Nat) → End σ → (moved : Bool) → End σ × Except Cause Bool
  | 0, s, _ => (s, .error (.stated "side does not come to rest"))
  | rounds + 1, s, moved =>
    match Engine.phase s.engine with
    | .needWrap =>
      let reply := Engine.wrap s.engine [] (List.replicate capacity 0)
      let s := { s with engine := reply.engine }
      match reply.result with
      | .error cause => (s, .error cause)
      | .ok progress =>
        if progress.produced = 0 then (s, .ok moved)
        else
          let outbound := s.outbound ++ reply.buffer.take progress.produced
          pump capacity rounds { s with outbound } true
    | .needUnwrap =>
      if s.inbound.isEmpty then (s, .ok moved)
      else
        let reply := Engine.unwrap s.engine s.inbound []
        let s := { s with engine := reply.engine }
        match reply.result with
        | .error cause => (s, .error cause)
        | .ok progress =>
          if progress.consumed = 0 then (s, .ok moved)
          else pump capacity rounds { s with inbound := s.inbound.drop progress.consumed } true
    | _ => (s, .ok moved)

variable {σ τ : Type} [Engine σ] [Engine τ]

/-- More calls than one side can make before it waits: each of them consumes a byte that was
waiting, delivers a byte of an edited hello, of which there are fewer than `2 ^ 17`, or ends one of
the handshake's few turns. -/
def rounds (waiting : Bytes) : Nat := 0x40000 + waiting.length

def pumpClient (c : Connection σ τ) : Connection σ τ × Except Cause Bool :=
  let (s, moved) :=
    pump c.capacity (rounds c.toClient) ⟨c.client, c.toClient, c.toServer⟩ false
  ({ c with client := s.engine, toClient := s.inbound, toServer := s.outbound }, moved)

def pumpServer (c : Connection σ τ) : Connection σ τ × Except Cause Bool :=
  let (s, moved) :=
    pump c.capacity (rounds c.toServer) ⟨c.server, c.toServer, c.toClient⟩ false
  ({ c with server := s.engine, toServer := s.inbound, toClient := s.outbound }, moved)

def isHandshaking (c : Connection σ τ) : Bool :=
  (Engine.phase c.client).isHandshaking || (Engine.phase c.server).isHandshaking

def handshakeWithin : (exchanges : Nat) → Connection σ τ → Connection σ τ × Except Cause Unit
  | 0, c => (c, .error (.stated "handshake did not complete"))
  | exchanges + 1, c =>
    match c.pumpClient with
    | (c, .error cause) => (c, .error cause)
    | (c, .ok clientMoved) =>
      match c.pumpServer with
      | (c, .error cause) => (c, .error cause)
      | (c, .ok serverMoved) =>
        if !c.isHandshaking then (c, .ok ())
        else if !clientMoved && !serverMoved then (c, .error (.stated "handshake stalled"))
        else handshakeWithin exchanges c

/-- Runs a handshake to its end. -/
def handshake (c : Connection σ τ) : Connection σ τ × Except Cause Unit := handshakeWithin 64 c

/-- The bytes that wait for a side. -/
def waiting (c : Connection σ τ) : Role → Bytes
  | .client => c.toClient
  | .server => c.toServer

def setWaiting (c : Connection σ τ) (side : Role) (bytes : Bytes) : Connection σ τ :=
  match side with
  | .client => { c with toClient := bytes }
  | .server => { c with toServer := bytes }

/-- Exchanges `count` of the bytes that wait for a side, from `start` on, for others. -/
def splice (c : Connection σ τ) (side : Role) (start count : Nat) (bytes : Bytes) :
    Connection σ τ :=
  let pipe := c.waiting side
  c.setWaiting side (pipe.take start ++ bytes ++ (pipe.drop start).drop count)

end Connection
end AlpnOverlay
