import AlpnOverlay.Failure
import AlpnOverlay.Role
import AlpnOverlay.Transcript

/-!
What a TLS engine offers: records are produced into and consumed from buffers of the caller, one
call at a time, and a call that fails may leave the engine changed.
-/
namespace AlpnOverlay

inductive Status where
  | ok
  /-- The input holds no whole record; nothing was consumed. -/
  | underflow
  /-- The buffer cannot take the next record. -/
  | overflow
  | closed
  deriving DecidableEq, Repr

def Status.name : Status → String
  | ok => "Ok"
  | underflow => "BufferUnderflow"
  | overflow => "BufferOverflow"
  | closed => "Closed"

/-- What a handshake waits for. -/
inductive Phase where
  | notHandshaking
  /-- Reported once, by the call that completes the handshake. -/
  | finished
  | needTask
  | needWrap
  | needUnwrap
  deriving DecidableEq, Repr

namespace Phase

def name : Phase → String
  | notHandshaking => "NotHandshaking"
  | finished => "Finished"
  | needTask => "NeedTask"
  | needWrap => "NeedWrap"
  | needUnwrap => "NeedUnwrap"

def isHandshaking : Phase → Bool
  | needTask | needWrap | needUnwrap => true
  | notHandshaking | finished => false

end Phase

/-- What a call that moves bytes achieved. -/
structure Progress where
  status : Status
  phase : Phase
  consumed : Nat
  produced : Nat
  deriving DecidableEq, Repr

namespace Progress

/-- More input is needed and none of it was consumed. -/
def underflow : Progress := ⟨.underflow, .needUnwrap, 0, 0⟩

def closed (phase : Phase) : Progress := ⟨.closed, phase, 0, 0⟩

def describe (p : Progress) : String :=
  Text.record "EngineResult"
    [Text.field "status" p.status.name, Text.field "handshake_status" p.phase.name,
      Text.field "bytes_consumed" (toString p.consumed),
      Text.field "bytes_produced" (toString p.produced)]

end Progress

/-- The engine and the caller's buffer after a call, and how the call ended. -/
structure Reply (σ β ε : Type) where
  engine : σ
  buffer : β
  result : Except ε Progress

/-- Picks a protocol from an offer, or none. -/
abbrev Selector := List String → Option String

/-- A TLS engine with states `σ`. An engine that leaves its hellos to be edited gives access to its
transcript, and produces and consumes one record in a call. Buffers keep their size. -/
class Engine (σ : Type) where
  role : σ → Role
  /-- Produces a record: of the handshake while there is one, of `source` afterwards. -/
  wrap (e : σ) (source : List Bytes) (buffer : Bytes) : Reply σ Bytes Cause
  /-- Consumes a record of `source`; application data goes to the buffers. -/
  unwrap (e : σ) (source : Bytes) (buffers : List Bytes) : Reply σ (List Bytes) Cause
  phase : σ → Phase
  start (e : σ) : σ × Except Cause Unit := (e, .ok ())
  closeInbound (e : σ) : σ := e
  closeOutbound (e : σ) : σ := e
  /-- Whether the engine negotiates protocols itself. -/
  isNative (_ : σ) : Bool := false
  setProtocols (e : σ) (_ : List String) : σ × Except Cause Unit :=
    (e, .error (.stated "engine has no native ALPN support"))
  /-- What the engine itself has negotiated so far. -/
  protocol? (_ : σ) : Option String := none
  setSelector (e : σ) (_ : Selector) : σ × Except Cause Unit :=
    (e, .error (.stated "engine has no handshake protocol selector"))
  selector? (_ : σ) : Option Selector := none
  transcript? (_ : σ) : Option (Transcript σ) := none
  wrap_length (e : σ) (source : List Bytes) (buffer : Bytes) :
    (wrap e source buffer).buffer.length = buffer.length := by intros; rfl
  unwrap_lengths (e : σ) (source : Bytes) (buffers : List Bytes) :
    (unwrap e source buffers).buffer.map List.length = buffers.map List.length := by intros; rfl

end AlpnOverlay
