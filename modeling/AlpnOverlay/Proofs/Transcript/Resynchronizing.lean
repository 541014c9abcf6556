import AlpnOverlay.Proofs.Digest.Streaming
import AlpnOverlay.Proofs.Transcript.FirstMatch
import Mathlib.Order.Bounds.Basic

/-!
A running hash put right where it stands. Either the first occurrence of the inner hello becomes the
outer one, and the digest is that of the bytes as they are now, or nothing at all happens to it.
-/
namespace AlpnOverlay

variable {needle data front before behind : Bytes} {i : Nat}

/-- The needle stands in `data` behind its first `i` bytes. -/
def OccursAt (needle data : Bytes) (i : Nat) : Prop :=
  ∃ before behind, data = before ++ needle ++ behind ∧ before.length = i

theorem OccursAt.add_length_le (h : OccursAt needle data i) : i + needle.length ≤ data.length := by
  obtain ⟨before, behind, rfl, rfl⟩ := h
  simp only [List.length_append]
  omega

theorem cutAt?_nil (data : Bytes) : cutAt? [] data = none := by
  induction data with
  | nil => rfl
  | cons b data ih =>
    simp only [cutAt?, List.isEmpty_nil, Bool.not_true, Bool.false_and, Bool.false_eq_true,
      if_false, ih, Option.map_none]

theorem take_drop_of_eq (h : data = before ++ needle ++ behind) :
    data.take before.length = before ∧ data.drop (before.length + needle.length) = behind := by
  rw [h]
  constructor
  · rw [List.append_assoc]
    exact List.take_left' rfl
  · rw [← List.length_append]
    exact List.drop_left' rfl

/-- The cut is made at the least place where the needle occurs. -/
theorem isLeast_of_cutAt? (hn : needle ≠ []) (h : cutAt? needle data = some (before, behind)) :
    IsLeast {i | OccursAt needle data i} before.length := by
  refine ⟨⟨before, behind, eq_of_cutAt? h, rfl⟩, ?_⟩
  rintro j ⟨x, y, hx, rfl⟩
  exact length_le_of_cutAt? hn h hx

theorem cutAt?_of_isLeast (hn : needle ≠ []) (h : IsLeast {i | OccursAt needle data i} i) :
    cutAt? needle data = some (data.take i, data.drop (i + needle.length)) := by
  obtain ⟨x, y, hx, -⟩ := h.1
  obtain ⟨before, behind, hc⟩ := exists_cutAt? hn x y
  rw [← hx] at hc
  obtain rfl := h.unique (isLeast_of_cutAt? hn hc)
  obtain ⟨hbefore, hbehind⟩ := take_drop_of_eq (eq_of_cutAt? hc)
  rw [hc, hbefore, hbehind]

theorem exists_isLeast (hn : needle ≠ []) (h : ∃ i, OccursAt needle data i) :
    ∃ i, IsLeast {i | OccursAt needle data i} i := by
  obtain ⟨_, x, y, rfl, -⟩ := h
  obtain ⟨before, behind, hc⟩ := exists_cutAt? hn x y
  exact ⟨_, isLeast_of_cutAt? hn hc⟩

theorem cutAt?_eq_none_iff :
    cutAt? needle data = none ↔ needle = [] ∨ ∀ i, ¬ OccursAt needle data i := by
  constructor
  · intro hc
    by_cases hn : needle = []
    · exact .inl hn
    · right
      rintro i ⟨before, behind, rfl, -⟩
      obtain ⟨x, y, hxy⟩ := exists_cutAt? hn before behind
      cases hc.symm.trans hxy
  · rintro (rfl | h)
    · exact cutAt?_nil data
    · cases hc : cutAt? needle data with
      | none => rfl
      | some parts => exact absurd ⟨_, _, eq_of_cutAt? hc, rfl⟩ (h parts.1.length)

/-- Where nothing is found earlier, the first occurrence is the one that is known. -/
theorem isLeast_length (hd : data = front ++ needle ++ behind)
    (hfirst : ∀ j < front.length, ¬ OccursAt needle data j) :
    IsLeast {i | OccursAt needle data i} front.length := by
  refine ⟨⟨front, behind, hd, rfl⟩, ?_⟩
  intro j hj
  by_contra hlt
  exact hfirst j (Nat.lt_of_not_le hlt) hj

namespace Transcript

variable {σ : Type}

/-- Puts a transcript right where it stands: what it holds is captured, and only when the inner
hello is among it, taken back and replayed. -/
def resynchronizing (t : Transcript σ) (s : Substitution) : EStateM Failure σ Unit := do
  if s.isNoop then return
  let captured := t.captured (← get)
  match s.replace? captured with
  | none => throw (.handshake (.transcriptMismatch s.inner.length captured.length))
  | some corrected =>
    modify t.reset
    modify (t.append · corrected)

/-- The new state in the place of the old one, which a failure leaves there. -/
def inPlace (state : σ) : Except Failure σ → EStateM.Result Failure σ Unit
  | .ok after => .ok () after
  | .error f => .error f state

theorem resynchronizing_eq (t : Transcript σ) (s : Substitution) (state : σ) :
    t.resynchronizing s state = inPlace state (t.resynchronize state s) := by
  simp only [resynchronizing, resynchronize]
  cases s.isNoop with
  | true => rfl
  | false =>
    have hread : ∀ f : σ → EStateM Failure σ Unit, (get >>= f) state = f state state := fun _ => rfl
    simp only [Bool.false_eq_true, if_false, hread]
    cases s.replace? (t.captured state) with
    | none => rfl
    | some corrected => rfl

end Transcript

namespace RunningHash

variable {h : RunningHash} {s : Substitution}

/-- A hash that came to what it holds by being fed, and perhaps by starting over. -/
inductive Fed : RunningHash → Prop where
  | start (algorithm : Digest.Algorithm) : Fed (start algorithm)
  | update {h : RunningHash} (hf : Fed h) (bytes : Bytes) : Fed (h.update bytes)
  | reset {h : RunningHash} (hf : Fed h) : Fed h.reset

/-- A fed hash is the hash of its bytes, in whatever pieces they came. -/
theorem Fed.eq (hf : Fed h) : h = (RunningHash.start h.algorithm).update h.data := by
  induction hf with
  | start algorithm => exact (start_update_nil algorithm).symm
  | @update h hf bytes ih =>
    have halgorithm : (h.update bytes).algorithm = h.algorithm := rfl
    have hdata : (h.update bytes).data = h.data ++ bytes := rfl
    rw [halgorithm, hdata, ← update_update, ← ih]
  | @reset h hf ih => exact (start_update_nil h.algorithm).symm

theorem resynchronize_noop (hs : s.inner = s.outer) : transcript.resynchronize h s = .ok h :=
  if_pos (beq_iff_eq.2 hs)

theorem resynchronize_of_ne (hs : s.inner ≠ s.outer) :
    transcript.resynchronize h s =
      match s.replace? h.data with
      | none => .error (.handshake (.transcriptMismatch s.inner.length h.data.length))
      | some corrected => .ok ((RunningHash.start h.algorithm).update corrected) := by
  have hnoop : ¬ s.isNoop = true := fun h => hs (beq_iff_eq.1 h)
  rw [Transcript.resynchronize, if_neg hnoop]
  rfl

theorem resynchronize_of_isLeast (hs : s.inner ≠ s.outer) (hn : s.inner ≠ [])
    (hi : IsLeast {i | OccursAt s.inner h.data i} i) :
    transcript.resynchronize h s = .ok ((RunningHash.start h.algorithm).update
      (h.data.take i ++ s.outer ++ h.data.drop (i + s.inner.length))) := by
  simp only [resynchronize_of_ne hs, Substitution.replace?, cutAt?_of_isLeast hn hi,
    Option.map_some]

theorem resynchronize_missing (hs : s.inner ≠ s.outer)
    (hm : s.inner = [] ∨ ∀ i, ¬ OccursAt s.inner h.data i) :
    transcript.resynchronize h s =
      .error (.handshake (.transcriptMismatch s.inner.length h.data.length)) := by
  simp only [resynchronize_of_ne hs, Substitution.replace?, cutAt?_eq_none_iff.2 hm,
    Option.map_none]

/-- A hash that met the inner hello becomes the hash that would have met the outer one. -/
theorem resynchronize_fed (hf : Fed h) (hn : s.inner ≠ [])
    (hd : h.data = front ++ s.inner ++ behind)
    (hfirst : ∀ j < front.length, ¬ OccursAt s.inner h.data j) :
    transcript.resynchronize h s =
      .ok ((((RunningHash.start h.algorithm).update front).update s.outer).update behind) := by
  rw [update_update, update_update, ← List.append_assoc]
  by_cases hs : s.inner = s.outer
  · rw [resynchronize_noop hs, ← hs, ← hd]
    exact congrArg Except.ok hf.eq
  · obtain ⟨hfront, hbehind⟩ := take_drop_of_eq hd
    rw [resynchronize_of_isLeast hs hn (isLeast_length hd hfirst), hfront, hbehind]

/-- A running hash is put right at the first place where the inner hello occurs, or left exactly as
it is; it is left with a failure when there is no such place and there should be one. Nothing is
taken from a length that is not there. A hash that was fed and is put right is the hash that would
have been fed the outer hello, and so is its digest. -/
theorem resynchronized_or_untouched (h : RunningHash) (s : Substitution) :
    transcript.resynchronizing s h = Transcript.inPlace h (transcript.resynchronize h s) ∧
    (s.inner = s.outer → transcript.resynchronizing s h = .ok () h) ∧
    (s.inner ≠ s.outer → s.inner ≠ [] → (∃ i, OccursAt s.inner h.data i) →
      ∃ i after, IsLeast {j | OccursAt s.inner h.data j} i ∧
        transcript.resynchronizing s h = .ok () after ∧
        after = (RunningHash.start h.algorithm).update after.data ∧
        after.data = h.data.take i ++ s.outer ++ h.data.drop (i + s.inner.length) ∧
        i + s.inner.length ≤ h.data.length ∧
        after.data.length = h.data.length - s.inner.length + s.outer.length) ∧
    (s.inner ≠ s.outer → (s.inner = [] ∨ ∀ i, ¬ OccursAt s.inner h.data i) →
      ∃ f, transcript.resynchronizing s h = .error f h ∧ f.kind = .handshake ∧
        f.isTranscriptMismatch = true ∧ f.isMalformed = false) ∧
    ∀ front behind, Fed h → s.inner ≠ [] → h.data = front ++ s.inner ++ behind →
      (∀ j < front.length, ¬ OccursAt s.inner h.data j) →
      transcript.resynchronizing s h =
        .ok () ((((RunningHash.start h.algorithm).update front).update s.outer).update behind) := by
  have hplace := transcript.resynchronizing_eq s h
  refine ⟨hplace, ?_, ?_, ?_, ?_⟩
  · intro hs
    rw [hplace, resynchronize_noop hs, Transcript.inPlace]
  · intro hs hn hoccurs
    obtain ⟨i, hi⟩ := exists_isLeast hn hoccurs
    have hle := hi.1.add_length_le
    refine ⟨i, _, hi, by rw [hplace, resynchronize_of_isLeast hs hn hi]; rfl, rfl, rfl, hle,
      ?_⟩
    simp only [update, RunningHash.start, List.length_append, List.length_nil, List.length_take,
      List.length_drop]
    omega
  · intro hs hm
    exact ⟨_, by rw [hplace, resynchronize_missing hs hm]; rfl, rfl, rfl, rfl⟩
  · intro front behind hf hn hd hfirst
    rw [hplace, resynchronize_fed hf hn hd hfirst, Transcript.inPlace]

/-- A hello that begins again inside itself is found where it is complete, and one that is not there
leaves the hash alone. -/
theorem resynchronized_or_untouched_overlapping :
    let h := (RunningHash.start .sha256).update [1, 1, 1, 2, 9]
    transcript.resynchronizing ⟨[1, 1, 2], [7]⟩ h =
        .ok () (((((RunningHash.start .sha256).update [1]).update [7])).update [9]) ∧
      ∃ f, transcript.resynchronizing ⟨[2, 1], [7]⟩ h = .error f h ∧
        f.isTranscriptMismatch = true := by
  intro h
  obtain ⟨-, -, -, -, hfed⟩ := resynchronized_or_untouched h ⟨[1, 1, 2], [7]⟩
  obtain ⟨-, -, -, hmissing, -⟩ := resynchronized_or_untouched h ⟨[2, 1], [7]⟩
  constructor
  · apply hfed [1] [9] (.update (.start _) _) (by simp) rfl
    rintro j hj ⟨before, behind, hd, rfl⟩
    obtain rfl : before = [] := List.length_eq_zero_iff.1 (Nat.lt_one_iff.1 hj)
    cases hd
  · obtain ⟨f, hf, -, hmismatch, -⟩ := hmissing (by simp) (cutAt?_eq_none_iff.1 rfl)
    exact ⟨f, hf, hmismatch⟩

end RunningHash
end AlpnOverlay
