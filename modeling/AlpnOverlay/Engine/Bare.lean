import AlpnOverlay.Engine

/-! The least an engine can be: it moves nothing and has nothing beyond what every engine has. -/
namespace AlpnOverlay

structure Bare where
  role : Role
  native : Bool
  deriving DecidableEq, Repr

namespace Bare

instance : Engine Bare where
  role := role
  wrap e _ buffer := ⟨e, buffer, .ok ⟨.ok, .notHandshaking, 0, 0⟩⟩
  unwrap e source buffers := ⟨e, buffers, .ok ⟨.ok, .notHandshaking, source.length, 0⟩⟩
  phase _ := .notHandshaking
  isNative := native

end Bare
end AlpnOverlay
