import AlpnOverlay.Engine
import AlpnOverlay.Transcript.RunningHash
import AlpnOverlay.Wire.Record

/-!
An engine that plays a script: what it produces and how it takes input is written down beforehand.
-/
namespace AlpnOverlay

namespace Scripted

/-- What a call for output does. -/
inductive Output where
  | fail (text : String)
  /-- Produces `bytes` and hashes `hashed`. -/
  | produce (bytes hashed : Bytes) (status : Status) (phase : Phase) (consumed : Nat)
  deriving DecidableEq, Repr

/-- Produces a record and hashes its payload. -/
def Output.record (bytes : Bytes) : Output :=
  .produce bytes (bytes.drop Wire.headerLength) .ok .needUnwrap 0

/-- What a call with input does. -/
inductive Input where
  | fail (text : String)
  /-- Consumes `count` bytes, whatever they are, and hashes `hashed`. -/
  | consume (count : Nat) (hashed : Bytes) (status : Status) (phase : Phase)
  deriving DecidableEq, Repr

/-- The calls that are refused, each with the reason given. -/
structure Refusals where
  protocols : Option String := none
  selector : Option String := none
  start : Option String := none
  deriving DecidableEq, Repr

end Scripted

structure Scripted where
  role : Role
  native : Bool := false
  /-- Whether the running hash can be reached from outside. -/
  exposed : Bool := true
  phase : Phase := .needWrap
  protocol : Option String := none
  outputs : List Scripted.Output := []
  inputs : List Scripted.Input := []
  refusals : Scripted.Refusals := {}
  hash : RunningHash := .start .sha256
  /-- The last list that was not refused. -/
  protocols : Option (List String) := none
  selector : Option Selector := none

namespace Scripted

def feed (e : Scripted) (bytes : Bytes) : Scripted := { e with hash := e.hash.update bytes }

/-- Plays the next output; one that does not fit the buffer stays next. -/
def wrap (e : Scripted) (buffer : Bytes) : Reply Scripted Bytes Cause :=
  match e.outputs with
  | [] => ⟨e, buffer, .ok ⟨.ok, .needUnwrap, 0, 0⟩⟩
  | .fail text :: outputs => ⟨{ e with outputs }, buffer, .error (.stated text)⟩
  | .produce bytes hashed status phase consumed :: outputs =>
    if buffer.length < bytes.length then ⟨e, buffer, .ok ⟨.overflow, .needWrap, 0, 0⟩⟩
    else
      ⟨{ e with outputs }.feed hashed, bytes ++ buffer.drop bytes.length,
        .ok ⟨status, phase, consumed, bytes.length⟩⟩

/-- Plays the next input; when none is left, takes the first record of a stream of records. -/
def unwrap (e : Scripted) (source : Bytes) (buffers : List Bytes) :
    Reply Scripted (List Bytes) Cause :=
  match e.inputs with
  | .fail text :: inputs => ⟨{ e with inputs }, buffers, .error (.stated text)⟩
  | .consume count hashed status phase :: inputs =>
    ⟨{ e with inputs }.feed hashed, buffers, .ok ⟨status, phase, count, 0⟩⟩
  | [] =>
    match Wire.Record.split source with
    | .ok (first :: _) => ⟨e.feed first.payload, buffers, .ok ⟨.ok, .needWrap, first.size, 0⟩⟩
    | .ok [] | .error _ => ⟨e, buffers, .ok .underflow⟩

/-- Carries a call out unless it is refused. -/
def unlessRefused (e changed : Scripted) (refusal : Option String) :
    Scripted × Except Cause Unit :=
  match refusal with
  | some text => (e, .error (.stated text))
  | none => (changed, .ok ())

theorem length_wrap (e : Scripted) (buffer : Bytes) :
    (e.wrap buffer).buffer.length = buffer.length := by
  unfold wrap
  repeat' split
  all_goals try rfl
  simp only [List.length_append, List.length_drop]
  omega

theorem buffer_unwrap (e : Scripted) (source : Bytes) (buffers : List Bytes) :
    (e.unwrap source buffers).buffer = buffers := by
  unfold unwrap
  repeat' split
  all_goals rfl

instance : Engine Scripted where
  role := role
  wrap e _ buffer := e.wrap buffer
  unwrap := unwrap
  phase := phase
  start e := e.unlessRefused e e.refusals.start
  isNative := native
  setProtocols e protocols :=
    e.unlessRefused { e with protocols := some protocols } e.refusals.protocols
  protocol? := protocol
  setSelector e selector :=
    e.unlessRefused { e with selector := some selector } e.refusals.selector
  selector? := selector
  transcript? e :=
    if e.exposed then some (RunningHash.transcript.within hash fun e hash => { e with hash })
    else none
  wrap_length e _ buffer := e.length_wrap buffer
  unwrap_lengths e source buffers := congrArg _ (e.buffer_unwrap source buffers)

end Scripted
end AlpnOverlay
