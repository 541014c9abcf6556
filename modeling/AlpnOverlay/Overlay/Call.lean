import AlpnOverlay.Engine.Call
import AlpnOverlay.Overlay.Unwrap
import AlpnOverlay.Overlay.Wrap

/-! The calls that may change an overlay, performed one by one or in a row. -/
namespace AlpnOverlay.Overlay

variable {σ : Type} [Engine σ]

def perform (o : Overlay σ) : Call → Overlay σ × Answer Failure
  | .wrap source buffer =>
    let reply := o.wrap source buffer
    (reply.engine, .moved [reply.buffer] reply.result)
  | .unwrap source buffers =>
    let reply := o.unwrap source buffers
    (reply.engine, .moved reply.buffer reply.result)
  | .start =>
    let (o, result) := o.start
    (o, .done result)
  | .closeInbound => (o.closeInbound, .done (.ok ()))
  | .closeOutbound => (o.closeOutbound, .done (.ok ()))
  | .setProtocols protocols =>
    let (o, result) := o.setProtocols protocols
    (o, .done result)
  | .setSelector selector =>
    let (o, result) := o.setSelector selector
    (o, .done result)

/-- Performs calls one after the other. -/
def run (o : Overlay σ) : List Call → Overlay σ × List (Answer Failure)
  | [] => (o, [])
  | call :: calls =>
    let (o, answer) := o.perform call
    let (o, answers) := o.run calls
    (o, answer :: answers)

end AlpnOverlay.Overlay
