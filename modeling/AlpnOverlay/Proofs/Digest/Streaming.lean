import AlpnOverlay.Transcript.RunningHash

/-!
A running digest depends on the bytes alone and not on the pieces in which they came.
-/
namespace AlpnOverlay

namespace BlockHash.Running

variable {h : BlockHash} {chain : h.Chain} {xs ys : Bytes}

theorem absorb_short (hl : xs.length < h.blockLength) : absorb chain xs = (chain, xs) := by
  rw [absorb, dif_pos]
  rw [List.length_take]
  omega

theorem absorb_block (hl : h.blockLength ≤ xs.length) :
    absorb chain xs =
      absorb (h.compress chain (xs.take h.blockLength)) (xs.drop h.blockLength) := by
  rw [absorb, dif_neg]
  rw [List.length_take]
  omega

theorem absorb_append (chain : h.Chain) (xs ys : Bytes) :
    absorb chain (xs ++ ys) = absorb (absorb chain xs).1 ((absorb chain xs).2 ++ ys) := by
  fun_induction absorb chain xs with
  | case1 => rfl
  | case2 chain xs hl ih =>
    have hb : h.blockLength ≤ xs.length := by
      rw [List.length_take] at hl
      omega
    rw [absorb_block (by rw [List.length_append]; omega), List.take_append_of_le_length hb,
      List.drop_append_of_le_length hb, ih]

/-- What is carried behind the whole blocks of `data` is folded from them. -/
theorem absorb_chain (chain : h.Chain) (data : Bytes) :
    (absorb chain data).1 = (h.blocks data).foldl h.compress chain := by
  fun_induction absorb chain data with
  | case1 chain data hl =>
    rw [blocks, dif_pos hl]
    rfl
  | case2 chain data hl ih =>
    rw [ih, blocks.eq_1 h data, dif_neg hl, List.foldl_cons]

theorem update_update (r : Running h) (xs ys : Bytes) :
    (r.update xs).update ys = r.update (xs ++ ys) := by
  have ha := absorb_append r.chain (r.pending ++ xs) ys
  rw [List.append_assoc] at ha
  simp only [update, ha, List.length_append, Nat.add_assoc]

theorem update_nil : (start : Running h).update [] = start := by
  simp only [update, start, List.append_nil,
    absorb_short (show [].length < _ from h.blockLength_pos)]
  rfl

/-- Finishing what was fed in one piece gives the digest of the whole message. -/
theorem finish_update_start (message : Bytes) :
    ((start : Running h).update message).finish = h.digest message := by
  simp only [finish, update, start, List.nil_append, Nat.zero_add]
  rw [← absorb_append, absorb_chain, digest]

end BlockHash.Running

namespace BlockHash

variable (h : BlockHash)

/-- A digest folds whole blocks, which are the message and its padding and nothing else. -/
def Folds (message digest : Bytes) : Prop :=
  ∃ blocks : List Bytes, (∀ block ∈ blocks, block.length = h.blockLength) ∧
    blocks.flatten = message ++ h.padding message.length ∧
    digest = h.output (blocks.foldl h.compress h.initial)

theorem length_of_mem_blocks (data : Bytes) :
    ∀ block ∈ h.blocks data, block.length = h.blockLength := by
  fun_induction blocks h data with
  | case1 => simp
  | case2 data hl ih =>
    refine List.forall_mem_cons.2 ⟨?_, ih⟩
    rw [List.length_take] at hl ⊢
    omega

theorem flatten_blocks {data : Bytes} (hd : h.blockLength ∣ data.length) :
    (h.blocks data).flatten = data := by
  fun_induction blocks h data with
  | case1 data hl =>
    have hlt : data.length < h.blockLength := by
      rw [List.length_take] at hl
      omega
    have hempty := List.length_eq_zero_iff.1 (Nat.eq_zero_of_dvd_of_lt hd hlt)
    rw [hempty]
    rfl
  | case2 data hl ih =>
    have hdrop : h.blockLength ∣ (data.drop h.blockLength).length := by
      rw [List.length_drop]
      exact Nat.dvd_sub hd (Nat.dvd_refl _)
    rw [List.flatten_cons, ih hdrop, List.take_append_drop]

/-- The padding ends at the end of a block. -/
theorem blockLength_dvd_padded (message : Bytes) :
    h.blockLength ∣ (message ++ h.padding message.length).length := by
  let known := message.length + 1 + h.countLength
  have hlength : (message ++ h.padding message.length).length =
      known + (h.blockLength - known % h.blockLength) % h.blockLength := by
    simp only [padding, List.length_append, List.length_cons, List.length_replicate,
      BigEndian.length_encode, known]
    omega
  have hlt := Nat.mod_lt known h.blockLength_pos
  have hsplit := Nat.mod_add_div known h.blockLength
  have hblocks : known + (h.blockLength - known % h.blockLength) =
      h.blockLength * (known / h.blockLength + 1) := by
    rw [Nat.mul_add_one]
    omega
  apply Nat.dvd_of_mod_eq_zero
  rw [hlength, Nat.add_mod_mod, hblocks, Nat.mul_mod_right]

theorem folds_digest (message : Bytes) : h.Folds message (h.digest message) :=
  ⟨_, h.length_of_mem_blocks _, h.flatten_blocks (h.blockLength_dvd_padded message), rfl⟩

end BlockHash

namespace RunningHash

theorem update_update (h : RunningHash) (xs ys : Bytes) :
    (h.update xs).update ys = h.update (xs ++ ys) := by
  simp only [update, BlockHash.Running.update_update, List.append_assoc]

theorem start_update_nil (algorithm : Digest.Algorithm) :
    (start algorithm).update [] = start algorithm := by
  simp only [update, start, BlockHash.Running.update_nil, List.append_nil]

/-- The hash of a byte string. -/
def of (data : Bytes) : RunningHash := (start .sha256).update data

theorem of_nil : of [] = start .sha256 := start_update_nil .sha256

theorem update_of (xs ys : Bytes) : (of xs).update ys = of (xs ++ ys) := update_update ..

end RunningHash

namespace Digest

open BlockHash

theorem length_compress_le (chain : List UInt32) (block : Bytes) :
    (narrow.compress chain block).length ≤ chain.length := by
  simp only [Sha2.compress, List.length_zipWith]
  exact Nat.min_le_left _ _

theorem length_foldl_compress_le (chain : List UInt32) (blocks : List Bytes) :
    (blocks.foldl narrow.compress chain).length ≤ chain.length := by
  induction blocks generalizing chain with
  | nil => exact Nat.le_refl _
  | cons block blocks ih => exact Nat.le_trans (ih _) (length_compress_le ..)

theorem length_output (chain : List UInt32) : (sha256.output chain).length = 4 * chain.length := by
  induction chain with
  | nil => rfl
  | cons word chain ih =>
    simp only [sha256, List.flatMap_cons, List.length_append, BigEndian.length_encode,
      List.length_cons] at ih ⊢
    omega

theorem length_sha256_le (message : Bytes) : (sha256.digest message).length ≤ 32 := by
  let chain : List UInt32 := (sha256.blocks (message ++ sha256.padding message.length)).foldl
    sha256.compress sha256.initial
  have hl : chain.length ≤ 8 := length_foldl_compress_le (squareRoots.map upperHalf) _
  have ho : (sha256.digest message).length = 4 * chain.length := length_output chain
  omega

end Digest
end AlpnOverlay
