import Mathlib.Algebra.Group.Nat.Defs
import AlpnOverlay.Bytes

/-!
Numbers of a fixed width: every number that fits is read back, and every string of bytes is the
written form of one.
-/
namespace AlpnOverlay.BigEndian

/-- A number below `256 ^ width` is read back from its bytes. -/
theorem decode_encode {width n : Nat} (h : n < 256 ^ width) : decode (encode width n) = n := by
  induction width generalizing n with
  | zero => simp at h; simp [h, encode, decode, decodeFrom]
  | succ width ih =>
    have hn : n / 256 < 256 ^ width := by
      rw [Nat.pow_succ] at h
      exact Nat.div_lt_of_lt_mul (by omega)
    have hi := ih hn
    simp only [decode] at hi
    simp only [encode, decode, decodeFrom_append, hi, decodeFrom, UInt8.toNat_ofNat']
    omega

theorem encode_decodeFrom (width n : Nat) (bytes : Bytes) :
    encode (width + bytes.length) (decodeFrom n bytes) = encode width n ++ bytes := by
  induction bytes generalizing width n with
  | nil => simp [decodeFrom]
  | cons b bytes ih =>
    have hb : b.toNat < 256 := b.toNat_lt
    have hd : (256 * n + b.toNat) / 256 = n := by omega
    have ho : UInt8.ofNat (256 * n + b.toNat) = b := by
      apply UInt8.toNat_inj.1
      rw [UInt8.toNat_ofNat']
      omega
    have hl : width + (b :: bytes).length = width + 1 + bytes.length := by
      simp only [List.length_cons]
      omega
    rw [hl, decodeFrom, ih, encode, hd, ho, List.append_assoc, List.singleton_append]

/-- Every string of bytes is written from the number it is read as. -/
theorem encode_decode (bytes : Bytes) : encode bytes.length (decode bytes) = bytes := by
  simpa [encode, decode] using encode_decodeFrom 0 0 bytes

theorem decodeFrom_lt {width n : Nat} {bytes : Bytes} (hn : n < 256 ^ width) :
    decodeFrom n bytes < 256 ^ (width + bytes.length) := by
  induction bytes generalizing width n with
  | nil => simpa [decodeFrom] using hn
  | cons b bytes ih =>
    have hb : b.toNat < 256 := b.toNat_lt
    have := @ih (width + 1) (256 * n + b.toNat) (by rw [Nat.pow_succ]; omega)
    simpa [decodeFrom, Nat.add_assoc, Nat.add_comm 1] using this

theorem decode_lt (bytes : Bytes) : decode bytes < 256 ^ bytes.length := by
  simpa [decode] using @decodeFrom_lt 0 0 bytes (by simp)

end AlpnOverlay.BigEndian
