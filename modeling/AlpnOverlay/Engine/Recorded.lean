import AlpnOverlay.Engine.Call

/-!
An engine that behaves like another one and keeps a record of what is done to it and what it
answers, oldest first. How often something is done, and with which bytes, is read off the record.
-/
namespace AlpnOverlay

inductive Event where
  | called (call : Call) (answer : Answer Cause)
  | transcriptReset
  | transcriptAppended (bytes : Bytes)

structure Recorded (σ : Type) where
  engine : σ
  events : List Event := []

namespace Recorded

variable {σ : Type}

/-- Something was done and left the engine as given. -/
def after (r : Recorded σ) (event : Event) (engine : σ) : Recorded σ :=
  ⟨engine, r.events ++ [event]⟩

def calls (r : Recorded σ) : List Call :=
  r.events.filterMap fun
    | .called call _ => some call
    | _ => none

/-- The bytes that the engine has produced, one string for each call for output that succeeded. -/
def outputs (r : Recorded σ) : List Bytes :=
  r.events.filterMap fun
    | .called (.wrap _ _) (.moved [buffer] (.ok progress)) => some (buffer.take progress.produced)
    | _ => none

/-- The inputs that were handed in. -/
def received (r : Recorded σ) : List Bytes :=
  r.calls.filterMap fun
    | .unwrap source _ => some source
    | _ => none

def transcript (t : Transcript σ) : Transcript (Recorded σ) where
  captured r := t.captured r.engine
  reset r := r.after .transcriptReset (t.reset r.engine)
  append r bytes := r.after (.transcriptAppended bytes) (t.append r.engine bytes)

variable [Engine σ]

instance : Engine (Recorded σ) where
  role r := Engine.role r.engine
  wrap r source buffer :=
    let reply := Engine.wrap r.engine source buffer
    let answer := .moved [reply.buffer] reply.result
    ⟨r.after (.called (.wrap source buffer) answer) reply.engine, reply.buffer, reply.result⟩
  unwrap r source buffers :=
    let reply := Engine.unwrap r.engine source buffers
    let answer := .moved reply.buffer reply.result
    ⟨r.after (.called (.unwrap source buffers) answer) reply.engine, reply.buffer, reply.result⟩
  phase r := Engine.phase r.engine
  start r :=
    let (engine, result) := Engine.start r.engine
    (r.after (.called .start (.done result)) engine, result)
  closeInbound r := r.after (.called .closeInbound (.done (.ok ()))) (Engine.closeInbound r.engine)
  closeOutbound r :=
    r.after (.called .closeOutbound (.done (.ok ()))) (Engine.closeOutbound r.engine)
  isNative r := Engine.isNative r.engine
  setProtocols r protocols :=
    let (engine, result) := Engine.setProtocols r.engine protocols
    (r.after (.called (.setProtocols protocols) (.done result)) engine, result)
  protocol? r := Engine.protocol? r.engine
  setSelector r selector :=
    let (engine, result) := Engine.setSelector r.engine selector
    (r.after (.called (.setSelector selector) (.done result)) engine, result)
  selector? r := Engine.selector? r.engine
  transcript? r := (Engine.transcript? r.engine).map transcript
  wrap_length r source buffer := Engine.wrap_length r.engine source buffer
  unwrap_lengths r source buffers := Engine.unwrap_lengths r.engine source buffers

end Recorded
end AlpnOverlay
