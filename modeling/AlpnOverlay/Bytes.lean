/-! Byte strings, big-endian numbers of a fixed width, and the bytes of a text. -/
namespace AlpnOverlay

abbrev Bytes := List UInt8

namespace BigEndian

/-- The low `width` bytes of `n`, most significant first. -/
def encode : (width : Nat) → (n : Nat) → Bytes
  | 0, _ => []
  | width + 1, n => encode width (n / 256) ++ [UInt8.ofNat n]

/-- Continues reading a number whose leading bytes gave `n`. -/
def decodeFrom (n : Nat) : Bytes → Nat
  | [] => n
  | b :: bytes => decodeFrom (256 * n + b.toNat) bytes

def decode (bytes : Bytes) : Nat := decodeFrom 0 bytes

theorem length_encode (width n : Nat) : (encode width n).length = width := by
  induction width generalizing n with
  | zero => rfl
  | succ width ih => simp [encode, ih]

theorem decodeFrom_append (n : Nat) (xs ys : Bytes) :
    decodeFrom n (xs ++ ys) = decodeFrom (decodeFrom n xs) ys := by
  induction xs generalizing n with
  | nil => rfl
  | cons x xs ih => simp [decodeFrom, ih]

end BigEndian

/-- The UTF-8 bytes of a text. -/
def utf8 (text : String) : Bytes := text.toByteArray.data.toList

theorem utf8_inj {s t : String} : utf8 s = utf8 t ↔ s = t := by
  simp only [utf8, Array.toList_inj]
  exact ⟨fun h => String.toByteArray_inj.1 (ByteArray.ext h), fun h => h ▸ rfl⟩

end AlpnOverlay
