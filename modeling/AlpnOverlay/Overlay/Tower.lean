import AlpnOverlay.Overlay.Unwrap
import AlpnOverlay.Overlay.Wrap

/-!
An overlay is an engine that negotiates itself, so overlays can stand on each other. The failures
of one level are the causes of the next.
-/
namespace AlpnOverlay

/-- The same reply with its failure as a cause. -/
def Reply.toCause {σ β : Type} (r : Reply σ β Failure) : Reply σ β Cause :=
  ⟨r.engine, r.buffer, r.result.mapError Failure.toCause⟩

namespace Overlay

variable {σ : Type} [Engine σ]

instance : Engine (Overlay σ) where
  role := role
  wrap o source buffer := (o.wrap source buffer).toCause
  unwrap o source buffers := (o.unwrap source buffers).toCause
  phase := phase
  start o :=
    let (o, result) := o.start
    (o, result.mapError Failure.toCause)
  closeInbound := closeInbound
  closeOutbound := closeOutbound
  isNative _ := true
  setProtocols o protocols :=
    let (o, result) := o.setProtocols protocols
    (o, result.mapError Failure.toCause)
  protocol? o :=
    match o.strategy with
    | .native => Engine.protocol? o.engine
    | .overlay => o.session.selected
  setSelector o selector :=
    let (o, result) := o.setSelector selector
    (o, result.mapError Failure.toCause)
  selector? o :=
    match o.selector with
    | .ok selector => selector
    | .error _ => none
  wrap_length := length_wrap
  unwrap_lengths := lengths_unwrap

end Overlay
end AlpnOverlay
