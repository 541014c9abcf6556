import AlpnOverlay.Proofs.Transcript.Resynchronizing

/-!
A running hash among everything that is done with one. Whatever the order, it cannot be told from
the bytes that it keeps, digested as a whole whenever the digest is read.
-/
namespace AlpnOverlay.RunningHash

/-- What is done with a hash. Clones are numbered in the order in which they were taken. -/
inductive Operation where
  | update (bytes : Bytes)
  | append (bytes : Bytes)
  | reset
  | clone
  /-- A clone takes the place of the hash, and stays a clone. -/
  | restore (number : Nat)
  | read
  | resynchronize (s : Substitution)
  deriving DecidableEq

/-- What an operation answers: a digest, where one was read. -/
abbrev Outcome := Except Failure (Option Bytes)

/-- What is worked on, and the clones that were taken of it. -/
structure InUse (σ : Type) where
  held : σ
  clones : List σ := []

namespace InUse

variable {σ τ : Type}

def hold (u : InUse σ) (held : σ) : InUse σ := { u with held }

def clone (u : InUse σ) : InUse σ := { u with clones := u.clones ++ [u.held] }

/-- A number that no clone has changes nothing. -/
def restore (u : InUse σ) (number : Nat) : InUse σ := u.hold (u.clones.getD number u.held)

def map (f : σ → τ) (u : InUse σ) : InUse τ := ⟨f u.held, u.clones.map f⟩

/-- Performs operations one after the other. -/
def run (perform : InUse σ → Operation → InUse σ × Outcome) (u : InUse σ) :
    List Operation → InUse σ × List Outcome
  | [] => (u, [])
  | operation :: operations =>
    let (u, outcome) := perform u operation
    let (u, outcomes) := run perform u operations
    (u, outcome :: outcomes)

theorem run_append (perform : InUse σ → Operation → InUse σ × Outcome) (u : InUse σ)
    (before behind : List Operation) :
    u.run perform (before ++ behind) =
      (((u.run perform before).1.run perform behind).1,
        (u.run perform before).2 ++ ((u.run perform before).1.run perform behind).2) := by
  induction before generalizing u with
  | nil => rfl
  | cons operation before ih => simp only [List.cons_append, run, ih]

theorem map_restore (f : σ → τ) (u : InUse σ) (number : Nat) :
    (u.map f).restore number = (u.restore number).map f := by
  simp only [restore, hold, map, List.getD_eq_getElem?_getD, List.getElem?_map, Option.getD_map]

end InUse

def perform (u : InUse RunningHash) : Operation → InUse RunningHash × Outcome
  | .update bytes => (u.hold (u.held.update bytes), .ok none)
  | .append bytes => (u.hold (transcript.append u.held bytes), .ok none)
  | .reset => (u.hold (transcript.reset u.held), .ok none)
  | .clone => (u.clone, .ok none)
  | .restore number => (u.restore number, .ok none)
  | .read => (u, .ok (some u.held.current))
  | .resynchronize s =>
    match transcript.resynchronize u.held s with
    | .ok held => (u.hold held, .ok none)
    | .error f => (u, .error f)

/-- The same with nothing but bytes: they are digested as a whole when the digest is read. -/
def performPlain (algorithm : Digest.Algorithm) (u : InUse Bytes) :
    Operation → InUse Bytes × Outcome
  | .update bytes => (u.hold (u.held ++ bytes), .ok none)
  | .append bytes => (u.hold (u.held ++ bytes), .ok none)
  | .reset => (u.hold [], .ok none)
  | .clone => (u.clone, .ok none)
  | .restore number => (u.restore number, .ok none)
  | .read => (u, .ok (some (algorithm.blockHash.digest u.held)))
  | .resynchronize s =>
    if s.isNoop then (u, .ok none)
    else
      match s.replace? u.held with
      | some corrected => (u.hold corrected, .ok none)
      | none => (u, .error (.handshake (.transcriptMismatch s.inner.length u.held.length)))

variable {h : RunningHash} {algorithm : Digest.Algorithm} {u : InUse RunningHash}

/-- A hash whose digest is that of all the bytes it keeps, cut into whole blocks and folded. -/
structure Matches (algorithm : Digest.Algorithm) (h : RunningHash) : Prop where
  same : h.algorithm = algorithm
  current : h.current = algorithm.blockHash.digest (transcript.captured h)
  folds : algorithm.blockHash.Folds (transcript.captured h) h.current
  length : h.length = (transcript.captured h).length
  counted : h.running.length = h.length

theorem Fed.current_eq (hf : Fed h) : h.current = h.algorithm.blockHash.digest h.data :=
  (congrArg current hf.eq).trans (BlockHash.Running.finish_update_start h.data)

theorem Fed.counted (hf : Fed h) : h.running.length = h.data.length :=
  (congrArg (fun h => h.running.length) hf.eq).trans (Nat.zero_add h.data.length)

theorem Fed.matches (hf : Fed h) : Matches h.algorithm h := by
  refine ⟨rfl, hf.current_eq, ?_, rfl, hf.counted⟩
  rw [hf.current_eq]
  exact h.algorithm.blockHash.folds_digest h.data

/-- Every hash in use was fed, and all of them work with one algorithm. -/
def Sound (algorithm : Digest.Algorithm) (u : InUse RunningHash) : Prop :=
  ∀ h ∈ u.held :: u.clones, Fed h ∧ h.algorithm = algorithm

theorem sound_start (algorithm : Digest.Algorithm) : Sound algorithm ⟨start algorithm, []⟩ :=
  List.forall_mem_singleton.2 ⟨.start algorithm, rfl⟩

theorem Sound.hold (hu : Sound algorithm u) (hh : Fed h ∧ h.algorithm = algorithm) :
    Sound algorithm (u.hold h) :=
  List.forall_mem_cons.2 ⟨hh, (List.forall_mem_cons.1 hu).2⟩

theorem Sound.clone (hu : Sound algorithm u) : Sound algorithm u.clone := by
  obtain ⟨hheld, hclones⟩ := List.forall_mem_cons.1 hu
  refine List.forall_mem_cons.2 ⟨hheld, ?_⟩
  intro h hh
  rcases List.mem_append.1 hh with hh | hh
  · exact hclones h hh
  · rw [List.mem_singleton.1 hh]
    exact hheld

theorem Sound.restore (hu : Sound algorithm u) (number : Nat) :
    Sound algorithm (u.restore number) := by
  apply hu.hold
  rw [List.getD_eq_getElem?_getD]
  cases hc : u.clones[number]? with
  | none => exact hu _ List.mem_cons_self
  | some h => exact hu h (List.mem_cons_of_mem _ (List.mem_of_getElem? hc))

/-- What a hash does when it is put right is what its bytes do. -/
theorem resynchronize_plain {s : Substitution} (hu : Sound algorithm u) :
    Sound algorithm (perform u (.resynchronize s)).1 ∧
    performPlain algorithm (u.map data) (.resynchronize s) =
      ((perform u (.resynchronize s)).1.map data, (perform u (.resynchronize s)).2) := by
  by_cases hs : s.inner = s.outer
  · have hnoop : s.isNoop = true := beq_iff_eq.2 hs
    simp only [perform, performPlain, resynchronize_noop hs, if_pos hnoop]
    exact ⟨hu, rfl⟩
  · have hnoop : ¬ s.isNoop = true := fun h => hs (beq_iff_eq.1 h)
    have hheld := hu _ List.mem_cons_self
    simp only [perform, performPlain, resynchronize_of_ne hs, if_neg hnoop]
    have hdata : (u.map data).held = u.held.data := rfl
    rw [hdata]
    cases s.replace? u.held.data with
    | none => exact ⟨hu, rfl⟩
    | some corrected => exact ⟨hu.hold ⟨.update (.start _) corrected, hheld.2⟩, rfl⟩

/-- An operation keeps the hashes sound, and does and answers what it does with their bytes. -/
theorem perform_plain (hu : Sound algorithm u) (operation : Operation) :
    Sound algorithm (perform u operation).1 ∧
    performPlain algorithm (u.map data) operation =
      ((perform u operation).1.map data, (perform u operation).2) := by
  obtain ⟨hf, ha⟩ := hu _ List.mem_cons_self
  cases operation with
  | update bytes => exact ⟨hu.hold ⟨hf.update bytes, ha⟩, rfl⟩
  | append bytes => exact ⟨hu.hold ⟨hf.update bytes, ha⟩, rfl⟩
  | reset => exact ⟨hu.hold ⟨hf.reset, ha⟩, rfl⟩
  | clone =>
    refine ⟨hu.clone, ?_⟩
    simp only [performPlain, perform, InUse.clone, InUse.map, List.map_append, List.map_singleton]
  | restore number => exact ⟨hu.restore number, by simp only [performPlain, perform, u.map_restore]⟩
  | read =>
    refine ⟨hu, ?_⟩
    simp only [performPlain, perform, hf.current_eq, ha]
    rfl
  | resynchronize s => exact resynchronize_plain hu

theorem run_plain (hu : Sound algorithm u) (operations : List Operation) :
    Sound algorithm (u.run perform operations).1 ∧
    (u.map data).run (performPlain algorithm) operations =
      ((u.run perform operations).1.map data, (u.run perform operations).2) := by
  induction operations generalizing u with
  | nil => exact ⟨hu, rfl⟩
  | cons operation operations ih =>
    obtain ⟨hnext, hplain⟩ := perform_plain hu operation
    obtain ⟨hlast, hrest⟩ := ih hnext
    refine ⟨hlast, ?_⟩
    simp only [InUse.run, hplain, hrest]

/-- After any operations a running hash, and every clone of it, has the digest of the bytes that it
keeps, and these are the bytes that the operations leave of a plain string. Everything that was
answered on the way is what the string would have answered, and a digest that is read in between
changes nothing that comes later. -/
theorem digest_of_kept_bytes (algorithm : Digest.Algorithm) (operations : List Operation) :
    let begun : InUse RunningHash := ⟨start algorithm, []⟩
    let plain : InUse Bytes := ⟨[], []⟩
    let u := (begun.run perform operations).1
    let outcomes := (begun.run perform operations).2
    (∀ h ∈ u.held :: u.clones, Matches algorithm h) ∧
    plain.run (performPlain algorithm) operations = (u.map transcript.captured, outcomes) ∧
    ∀ behind,
      let v := (u.run perform behind).1
      let later := (u.run perform behind).2
      begun.run perform (operations ++ behind) = (v, outcomes ++ later) ∧
      begun.run perform (operations ++ .read :: behind) =
        (v, outcomes ++
          .ok (some (algorithm.blockHash.digest (transcript.captured u.held))) :: later) := by
  intro begun plain u outcomes
  obtain ⟨hsound, hplain⟩ := run_plain (sound_start algorithm) operations
  refine ⟨?_, hplain, ?_⟩
  · intro h hh
    obtain ⟨hf, rfl⟩ := hsound h hh
    exact hf.matches
  · intro behind v later
    obtain ⟨hf, ha⟩ := hsound _ List.mem_cons_self
    have hread : u.held.current = algorithm.blockHash.digest u.held.data := by
      rw [hf.current_eq, ha]
    refine ⟨begun.run_append perform operations behind, ?_⟩
    rw [begun.run_append perform operations (.read :: behind)]
    have hbehind : u.run perform (.read :: behind) = (v, .ok (some u.held.current) :: later) := rfl
    rw [hread] at hbehind
    exact congrArg (fun r => (r.1, outcomes ++ r.2)) hbehind

/-- Bytes that came in pieces and were put right are digested as one string, and a clone from before
is still the hash of what it was taken of. -/
theorem digest_of_kept_bytes_corrected :
    let u := (InUse.run perform ⟨start .sha1, []⟩
      [.update [1, 2], .clone, .append [3, 4], .resynchronize ⟨[2, 3], [9]⟩]).1
    u.held.current = Digest.sha1.digest [1, 9, 4] ∧
      ∃ h, u.clones = [h] ∧ h.current = Digest.sha1.digest [1, 2] := by
  intro u
  obtain ⟨hmatches, -, -⟩ := digest_of_kept_bytes .sha1
    [.update [1, 2], .clone, .append [3, 4], .resynchronize ⟨[2, 3], [9]⟩]
  have hclone : (start .sha1).update [1, 2] ∈ u.clones := List.mem_singleton.2 rfl
  refine ⟨(hmatches u.held List.mem_cons_self).current, _, rfl, ?_⟩
  exact (hmatches _ (List.mem_cons_of_mem _ hclone)).current

end AlpnOverlay.RunningHash
