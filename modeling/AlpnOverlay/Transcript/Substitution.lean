import AlpnOverlay.Bytes

/-! Replacing the first occurrence of one byte string by another. -/
namespace AlpnOverlay

/-- What stands before and behind the first occurrence of `needle`. The empty string occurs
nowhere. -/
def cutAt? (needle : Bytes) : Bytes → Option (Bytes × Bytes)
  | [] => none
  | b :: bytes =>
    if !needle.isEmpty && needle.isPrefixOf (b :: bytes) then
      some ([], (b :: bytes).drop needle.length)
    else (cutAt? needle bytes).map fun (before, behind) => (b :: before, behind)

/-- A hello in the form the engine knows and in the form that crosses the wire. -/
structure Substitution where
  inner : Bytes
  outer : Bytes
  deriving DecidableEq, Repr

namespace Substitution

def isNoop (s : Substitution) : Bool := s.inner == s.outer

/-- The transcript with the outer form in the place of the inner one. -/
def replace? (s : Substitution) (transcript : Bytes) : Option Bytes :=
  (cutAt? s.inner transcript).map fun (before, behind) => before ++ s.outer ++ behind

end Substitution
end AlpnOverlay
