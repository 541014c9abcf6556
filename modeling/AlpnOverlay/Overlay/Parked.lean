import AlpnOverlay.Bytes
import AlpnOverlay.Text.Braced
import AlpnOverlay.Text.Quoted

/-!
Outbound bytes that did not fit the caller's buffer. They go out before the engine is asked for
more, so nothing is lost, repeated or reordered.
-/
namespace AlpnOverlay

/-- The bytes still to be delivered; none of them when nothing is parked. -/
structure Parked where
  bytes : Bytes := []
  deriving DecidableEq, Repr

namespace Parked

def isEmpty (p : Parked) : Bool := p.bytes.isEmpty

def length (p : Parked) : Nat := p.bytes.length

def occupied : String := "carry-over slot already occupied"

/-- Puts bytes into the slot, which has room for one chunk; it may not be in use. -/
def park (p : Parked) (bytes : Bytes) : Except String Parked :=
  if p.isEmpty then .ok ⟨bytes⟩ else .error occupied

/-- Moves as many bytes as fit to the front of a buffer. -/
def drain (p : Parked) (buffer : Bytes) : Parked × Bytes × Nat :=
  let count := min p.bytes.length buffer.length
  (⟨p.bytes.drop count⟩, p.bytes.take count ++ buffer.drop count, count)

theorem isEmpty_iff {p : Parked} : p.isEmpty = true ↔ p.bytes = [] := List.isEmpty_iff

@[simp]
theorem park_of_isEmpty {p : Parked} (h : p.isEmpty = true) (bytes : Bytes) :
    p.park bytes = .ok ⟨bytes⟩ := if_pos h

theorem length_drain (p : Parked) (buffer : Bytes) :
    (p.drain buffer).2.1.length = buffer.length := by
  simp only [drain, List.length_append, List.length_take, List.length_drop]
  omega

def describe (p : Parked) : String :=
  Text.record "CarryOver"
    [Text.field "pending"
      (Text.optional (if p.isEmpty then none else some (Text.quotedBytes p.bytes)))]

end Parked
end AlpnOverlay
