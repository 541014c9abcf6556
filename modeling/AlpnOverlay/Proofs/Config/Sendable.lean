import AlpnOverlay.Config
import AlpnOverlay.Proofs.Wire.Reading

/-!
Lists of protocols that pass the check. They are the lists of distinct graphic names that can be
written as a protocol list.
-/
namespace AlpnOverlay.Config

open Wire

variable {name : String} {names earlier : List String}

/-- A name that can be sent. -/
structure Sendable (name : String) : Prop where
  fits : ProtocolList.Fits (utf8 name)
  graphic : (utf8 name).all isGraphic = true

theorem length_utf8 (name : String) : (utf8 name).length = name.utf8ByteSize := by
  simp only [utf8, Array.length_toList]
  rfl

theorem isEmpty_iff_length : name.isEmpty = true ↔ (utf8 name).length = 0 := by
  rw [length_utf8]
  simp [String.isEmpty]

theorem checkName_eq_ok_iff : checkName name = .ok () ↔ Sendable name := by
  have hsize := length_utf8 name
  have hmax : maxName = 255 := rfl
  have hempty := @isEmpty_iff_length name
  simp only [checkName]
  constructor
  · intro h
    split at h
    · cases h
    · rename_i he
      split at h
      · cases h
      · split at h
        · rename_i hg
          rw [hempty] at he
          exact ⟨⟨by omega, by omega⟩, hg⟩
        · cases h
  · rintro ⟨⟨hpos, hle⟩, hg⟩
    have he : ¬ name.isEmpty = true := by
      rw [hempty]
      omega
    rw [if_neg he, if_neg (by omega), if_pos hg]

theorem checkFrom_eq_ok_iff :
    checkFrom earlier names = .ok () ↔
      (∀ name ∈ names, Sendable name) ∧ names.Nodup ∧ ∀ name ∈ names, name ∉ earlier := by
  induction names generalizing earlier with
  | nil => simp [checkFrom]
  | cons name names ih =>
    simp only [checkFrom]
    constructor
    · intro h
      split at h
      · cases h
      · rename_i hname
        split at h
        · cases h
        · rename_i hnew
          obtain ⟨hs, hd, hn⟩ := ih.1 h
          have hnew : name ∉ earlier := by simpa using hnew
          refine ⟨?_, ?_, ?_⟩
          · exact List.forall_mem_cons.2 ⟨checkName_eq_ok_iff.1 hname, hs⟩
          · refine List.nodup_cons.2 ⟨fun hm => hn name hm List.mem_cons_self, hd⟩
          · refine List.forall_mem_cons.2 ⟨hnew, ?_⟩
            intro other ho he
            exact hn other ho (List.mem_cons_of_mem _ he)
    · rintro ⟨hs, hd, hn⟩
      obtain ⟨hname, hs⟩ := List.forall_mem_cons.1 hs
      obtain ⟨hnot, hd⟩ := List.nodup_cons.1 hd
      obtain ⟨hnew, hn⟩ := List.forall_mem_cons.1 hn
      rw [checkName_eq_ok_iff.2 hname]
      simp only
      rw [if_neg (by simpa using hnew)]
      refine ih.2 ⟨hs, hd, ?_⟩
      intro other ho he
      rcases List.mem_cons.1 he with rfl | he
      · exact hnot ho
      · exact hn other ho he

/-- A list passes the check exactly when it can be sent and repeats no name. -/
theorem checkList_eq_ok_iff :
    checkList names = .ok () ↔
      (∀ name ∈ names, Sendable name) ∧ names.Nodup ∧ listSize names ≤ maxList := by
  simp only [checkList]
  constructor
  · intro h
    split at h
    · cases h
    · rename_i hc
      obtain ⟨hs, hd, -⟩ := checkFrom_eq_ok_iff.1 hc
      split at h
      · cases h
      · exact ⟨hs, hd, by omega⟩
  · rintro ⟨hs, hd, hl⟩
    rw [checkFrom_eq_ok_iff.2 ⟨hs, hd, by simp⟩]
    simp only
    rw [if_neg (by omega)]

theorem length_entries (names : List String) :
    (ProtocolList.entries (names.map utf8)).length = listSize names := by
  induction names with
  | nil => rfl
  | cons name names ih =>
    rw [List.map_cons, ProtocolList.entries_cons, List.length_append, ih, listSize,
      List.length_cons, length_utf8, Nat.add_comm 1]

/-- No byte of a list that can be sent is zero. -/
theorem zero_not_mem_entries (hs : ∀ name ∈ names, Sendable name) :
    0 ∉ ProtocolList.entries (names.map utf8) := by
  induction names with
  | nil => simp [ProtocolList.entries]
  | cons name names ih =>
    obtain ⟨⟨⟨hpos, hle⟩, hg⟩, hs⟩ := List.forall_mem_cons.1 hs
    rw [List.map_cons, ProtocolList.entries_cons, List.mem_append, List.mem_cons]
    rintro ((hz | hz) | hz)
    · have := congrArg UInt8.toNat hz
      rw [UInt8.toNat_ofNat', UInt8.toNat_zero] at this
      omega
    · have := List.all_eq_true.1 hg 0 hz
      exact absurd this (by decide)
    · exact ih hs hz

end AlpnOverlay.Config
