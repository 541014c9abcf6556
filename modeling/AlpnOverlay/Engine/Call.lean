import AlpnOverlay.Engine

/-! The calls that may change an engine, as data, and what they answer. -/
namespace AlpnOverlay

inductive Call where
  | wrap (source : List Bytes) (buffer : Bytes)
  | unwrap (source : Bytes) (buffers : List Bytes)
  | start
  | closeInbound
  | closeOutbound
  | setProtocols (protocols : List String)
  | setSelector (selector : Selector)

inductive Answer (ε : Type) where
  /-- Bytes may have moved: the caller's buffers after the call, and how it ended. -/
  | moved (buffers : List Bytes) (result : Except ε Progress)
  | done (result : Except ε Unit)

namespace Engine

variable {σ : Type} [Engine σ]

def perform (e : σ) : Call → σ × Answer Cause
  | .wrap source buffer =>
    let reply := wrap e source buffer
    (reply.engine, .moved [reply.buffer] reply.result)
  | .unwrap source buffers =>
    let reply := unwrap e source buffers
    (reply.engine, .moved reply.buffer reply.result)
  | .start =>
    let (e, result) := start e
    (e, .done result)
  | .closeInbound => (closeInbound e, .done (.ok ()))
  | .closeOutbound => (closeOutbound e, .done (.ok ()))
  | .setProtocols protocols =>
    let (e, result) := setProtocols e protocols
    (e, .done result)
  | .setSelector selector =>
    let (e, result) := setSelector e selector
    (e, .done result)

/-- Performs calls one after the other. -/
def run (e : σ) : List Call → σ × List (Answer Cause)
  | [] => (e, [])
  | call :: calls =>
    let (e, answer) := perform e call
    let (e, answers) := run e calls
    (e, answer :: answers)

end Engine
end AlpnOverlay
