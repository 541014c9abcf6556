import AlpnOverlay.Transcript.Substitution

/-!
The first occurrence of a byte string. A substitution meant for the end of a transcript hits the
end exactly when the string does not occur earlier.
-/
namespace AlpnOverlay

variable {needle data front rest before behind : Bytes}

/-- The needle occurs in `front ++ needle` in front of its place at the end. -/
def Earlier (needle front : Bytes) : Prop :=
  ∃ before behind, front ++ needle = before ++ needle ++ behind ∧ before.length < front.length

theorem eq_append_of_isPrefixOf (h : needle.isPrefixOf data = true) :
    data = needle ++ data.drop needle.length :=
  (List.prefix_iff_eq_append.1 (List.isPrefixOf_iff_prefix.1 h)).symm

theorem eq_of_cutAt? (h : cutAt? needle data = some (before, behind)) :
    data = before ++ needle ++ behind := by
  induction data generalizing before with
  | nil => cases h
  | cons b data ih =>
    simp only [cutAt?] at h
    split at h
    · rename_i hp
      cases h
      exact eq_append_of_isPrefixOf (Bool.and_eq_true_iff.1 hp).2
    · obtain ⟨⟨before, behind⟩, hc, he⟩ := Option.map_eq_some_iff.1 h
      cases he
      rw [ih hc]
      rfl

theorem length_le_of_cutAt? (hn : needle ≠ []) (h : cutAt? needle data = some (before, behind))
    {x y : Bytes} (hx : data = x ++ needle ++ y) : before.length ≤ x.length := by
  induction data generalizing before x with
  | nil => cases h
  | cons b data ih =>
    simp only [cutAt?] at h
    split at h
    · cases h
      exact Nat.zero_le _
    · rename_i hp
      obtain ⟨⟨before, behind⟩, hc, he⟩ := Option.map_eq_some_iff.1 h
      cases he
      cases x with
      | nil =>
        have hpre : needle.isPrefixOf (b :: data) = true :=
          List.isPrefixOf_iff_prefix.2 ⟨y, hx.symm⟩
        simp [hpre, hn] at hp
      | cons a x =>
        have := ih hc (List.cons.inj hx).2
        simp only [List.length_cons]
        omega

theorem exists_cutAt? (hn : needle ≠ []) (front rest : Bytes) :
    ∃ x y, cutAt? needle (front ++ needle ++ rest) = some (x, y) := by
  induction front with
  | nil =>
    have hp : needle.isPrefixOf (needle ++ rest) = true :=
      List.isPrefixOf_iff_prefix.2 (List.prefix_append ..)
    cases needle with
    | nil => exact absurd rfl hn
    | cons b needle =>
      refine ⟨[], (b :: needle ++ rest).drop (b :: needle).length, ?_⟩
      simp only [List.nil_append, List.cons_append] at hp ⊢
      simp only [cutAt?, hp, List.isEmpty_cons, Bool.not_false, Bool.and_self, if_true]
  | cons b front ih =>
    simp only [List.cons_append, cutAt?]
    split
    · exact ⟨_, _, rfl⟩
    · obtain ⟨x, y, hc⟩ := ih
      exact ⟨b :: x, y, by rw [hc]; rfl⟩

/-- Whatever follows the needle does not make an earlier occurrence. -/
theorem earlier_of_append (h : front ++ needle ++ rest = before ++ needle ++ behind)
    (hl : before.length < front.length) : Earlier needle front := by
  rcases List.append_eq_append_iff.1 h with ⟨more, hm, -⟩ | ⟨more, hm, -⟩
  · have := congrArg List.length hm
    simp only [List.length_append] at this
    omega
  · exact ⟨before, more, hm, hl⟩

/-- The cut is made at the end of `front` exactly when the needle does not occur earlier. -/
theorem cutAt?_append_iff (hn : needle ≠ []) :
    cutAt? needle (front ++ needle ++ rest) = some (front, rest) ↔ ¬ Earlier needle front := by
  constructor
  · rintro hc ⟨before, behind, he, hl⟩
    have heq : front ++ needle ++ rest = before ++ needle ++ (behind ++ rest) := by
      rw [he, List.append_assoc]
    have hle := length_le_of_cutAt? hn hc heq
    omega
  · intro hearly
    obtain ⟨x, y, hc⟩ := exists_cutAt? hn front rest
    have heq := eq_of_cutAt? hc
    have hle := length_le_of_cutAt? hn hc (x := front) rfl
    have hlen : x.length = front.length := by
      by_cases hlt : x.length < front.length
      · exact absurd (earlier_of_append heq hlt) hearly
      · omega
    obtain ⟨hfront, hrest⟩ := List.append_inj heq (by simp only [List.length_append, hlen])
    rw [hc, List.append_cancel_right hfront, hrest]

/-- No occurrence of `mark` begins in `front` when `tail` follows it. -/
def Clear (mark : Bytes) : (front tail : Bytes) → Prop
  | [], _ => True
  | b :: front, tail => ¬ mark <+: b :: (front ++ tail) ∧ Clear mark front tail

theorem clear_append_iff {mark xs ys tail : Bytes} :
    Clear mark (xs ++ ys) tail ↔ Clear mark xs (ys ++ tail) ∧ Clear mark ys tail := by
  induction xs with
  | nil => simp [Clear]
  | cons b xs ih => simp only [List.cons_append, Clear, ih, List.append_assoc, and_assoc]

theorem clear_of_not_mem {b : UInt8} {mark tail : Bytes} (h : b ∉ front) :
    Clear (b :: mark) front tail := by
  induction front with
  | nil => trivial
  | cons c front ih =>
    obtain ⟨hc, hf⟩ := not_or.1 (mt List.mem_cons.2 h)
    refine ⟨?_, ih hf⟩
    intro hp
    exact hc (List.cons_prefix_cons.1 hp).1

/-- A string does not occur earlier when its beginning does not. -/
theorem not_earlier_of_clear {mark : Bytes} (hm : mark <+: needle) (h : Clear mark front needle) :
    ¬ Earlier needle front := by
  rintro ⟨before, behind, he, hl⟩
  induction front generalizing before with
  | nil => cases hl
  | cons b front ih =>
    cases before with
    | nil =>
      refine h.1 ?_
      have hp : needle <+: b :: (front ++ needle) := ⟨behind, he.symm⟩
      exact hm.trans hp
    | cons a before => exact ih h.2 before (List.cons.inj he).2 (Nat.lt_of_succ_lt_succ hl)

/-- A string that goes on after `shift` as it began is made of `shift`, over and over. -/
theorem take_eq_of_shift {shift xs ys as bs cs ds : Bytes} (hs : shift ≠ [])
    (hx : xs ++ as = shift ++ (xs ++ bs)) (hy : ys ++ cs = shift ++ (ys ++ ds)) (n : Nat)
    (hnx : n ≤ xs.length) (hny : n ≤ ys.length) : xs.take n = ys.take n := by
  induction n using Nat.strongRecOn with
  | ind n ih =>
    have hpos : 0 < shift.length := List.length_pos_iff.2 hs
    have hstep : ∀ {zs es fs : Bytes}, n ≤ zs.length → zs ++ es = shift ++ (zs ++ fs) →
        zs.take n = shift.take n ++ zs.take (n - shift.length) := by
      intro zs es fs hn h
      have ht := congrArg (List.take n) h
      rwa [List.take_append_of_le_length hn, List.take_append,
        List.take_append_of_le_length (by omega)] at ht
    rw [hstep hnx hx, hstep hny hy]
    by_cases h0 : n = 0
    · subst h0
      simp
    · rw [ih (n - shift.length) (by omega) (by omega) (by omega)]

/-- Two strings that begin differently cannot be exchanged at an earlier place without a trace. -/
theorem append_ne_of_lt {inner outer : Bytes} {n : Nat} (hni : n ≤ inner.length)
    (hno : n ≤ outer.length) (hd : inner.take n ≠ outer.take n)
    (hi : front ++ inner ++ rest = before ++ inner ++ behind)
    (hl : before.length < front.length) :
    before ++ outer ++ behind ≠ front ++ outer ++ rest := by
  intro ho
  obtain ⟨shift, hf⟩ : ∃ shift, front = before ++ shift := by
    rw [List.append_assoc, List.append_assoc] at hi
    rcases List.append_eq_append_iff.1 hi with ⟨shift, hf, -⟩ | ⟨shift, hf, -⟩
    · have := congrArg List.length hf
      simp only [List.length_append] at this
      omega
    · exact ⟨shift, hf⟩
  have hs : shift ≠ [] := by
    rintro rfl
    rw [hf, List.append_nil] at hl
    exact Nat.lt_irrefl _ hl
  subst hf
  simp only [List.append_assoc, List.append_cancel_left_eq] at hi ho
  exact hd (take_eq_of_shift hs hi.symm ho n hni hno)

namespace Substitution

variable {s : Substitution}

/-- A hello that begins like no other is put right at the end of a transcript exactly when its
inner form does not occur earlier. -/
theorem replace?_append_iff {n : Nat} (hn : 0 < n) (hni : n ≤ s.inner.length)
    (hno : n ≤ s.outer.length) (hd : s.inner.take n ≠ s.outer.take n) :
    s.replace? (front ++ s.inner ++ rest) = some (front ++ s.outer ++ rest) ↔
      ¬ Earlier s.inner front := by
  have hne : s.inner ≠ [] := List.length_pos_iff.1 (by omega)
  constructor
  · intro h
    obtain ⟨⟨x, y⟩, hc, he⟩ := Option.map_eq_some_iff.1 h
    have heq := eq_of_cutAt? hc
    have hle := length_le_of_cutAt? hne hc (x := front) rfl
    by_cases hlt : x.length < front.length
    · exact absurd he (append_ne_of_lt hni hno hd heq hlt)
    · obtain ⟨hfront, hrest⟩ := List.append_inj heq (by simp only [List.length_append]; omega)
      have hx : x = front := (List.append_cancel_right hfront).symm
      subst hx
      subst hrest
      exact (cutAt?_append_iff hne).1 hc
  · intro h
    simp only [replace?, (cutAt?_append_iff hne).2 h, Option.map_some]

/-- Some occurrence is replaced whenever there is one. -/
theorem exists_replace? (hn : s.inner ≠ []) :
    ∃ corrected, s.replace? (front ++ s.inner ++ rest) = some corrected := by
  obtain ⟨x, y, hc⟩ := exists_cutAt? hn front rest
  exact ⟨x ++ s.outer ++ y, by simp only [replace?, hc, Option.map_some]⟩

end Substitution
end AlpnOverlay
