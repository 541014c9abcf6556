import AlpnOverlay.Draft
import AlpnOverlay.Engine.Bare
import AlpnOverlay.Engine.Recorded
import AlpnOverlay.Proofs.Config.Sendable
import Mathlib.Algebra.GroupWithZero.Nat
import Mathlib.Data.Nat.Find
import Mathlib.Order.Bounds.Basic

/-!
What is wrong with a list that does not pass the check. The first name that cannot be sent, or that
repeats one before it, is the one reported; the size of the list counts only where there is none.
-/
namespace AlpnOverlay

namespace Config

variable {name : String} {names earlier others : List String} {e : Error} {i : Nat}

/-- The bytes of a name, when all of them are graphic and neither too few nor too many. -/
def Proper (name : String) : Prop :=
  1 ≤ (utf8 name).length ∧ (utf8 name).length ≤ 255 ∧ ∀ b ∈ utf8 name, 0x21 ≤ b ∧ b ≤ 0x7e

/-- What can be wrong with a name behind `earlier` names, and how it is reported. -/
inductive Offence (earlier : List String) (name : String) : Error → Prop where
  | empty (h : (utf8 name).length = 0) : Offence earlier name .emptyName
  | long (h : 255 < (utf8 name).length) : Offence earlier name (.longName name)
  | unprintable (hpos : 1 ≤ (utf8 name).length) (hle : (utf8 name).length ≤ 255)
      (h : ∃ b ∈ utf8 name, ¬ (0x21 ≤ b ∧ b ≤ 0x7e)) : Offence earlier name (.unprintableName name)
  | repeated (hp : Proper name) (h : name ∈ earlier) : Offence earlier name (.repeatedName name)

/-- The name at a place of the list is not to be sent there. -/
def Offends (earlier names : List String) (i : Nat) : Prop :=
  ∃ name e, names[i]? = some name ∧ Offence (earlier ++ names.take i) name e

theorem proper_iff : Proper name ↔ Sendable name := by
  have hg : (∀ b ∈ utf8 name, 0x21 ≤ b ∧ b ≤ 0x7e) ↔ (utf8 name).all isGraphic = true := by
    simp only [isGraphic, List.all_eq_true, Bool.and_eq_true, decide_eq_true_eq]
  rw [Proper, hg]
  exact ⟨fun ⟨hpos, hle, h⟩ => ⟨⟨hpos, hle⟩, h⟩, fun ⟨⟨hpos, hle⟩, h⟩ => ⟨hpos, hle, h⟩⟩

theorem Offence.congr (h : Offence earlier name e) (hm : ∀ n, n ∈ earlier → n ∈ others) :
    Offence others name e := by
  cases h with
  | empty h => exact .empty h
  | long h => exact .long h
  | unprintable hpos hle h => exact .unprintable hpos hle h
  | repeated hp h => exact .repeated hp (hm _ h)

/-- A name that cannot be sent is an invalid protocol, one that comes again a conflict. -/
theorem Offence.category_eq (h : Offence earlier name e) :
    e.category = .invalidProtocol ∧ ¬ Proper name ∨
      e.category = .conflict ∧ Proper name ∧ name ∈ earlier := by
  cases h with
  | empty h => exact .inl ⟨rfl, fun hp => by have := hp.1; omega⟩
  | long h => exact .inl ⟨rfl, fun hp => by have := hp.2.1; omega⟩
  | unprintable _ _ h =>
    obtain ⟨b, hb, hn⟩ := h
    exact .inl ⟨rfl, fun hp => hn (hp.2.2 b hb)⟩
  | repeated hp h => exact .inr ⟨rfl, hp, h⟩

theorem offence_of_checkName (h : checkName name = .error e) : Offence earlier name e := by
  have hsize := length_utf8 name
  have hmax : maxName = 255 := rfl
  have hempty := @isEmpty_iff_length name
  simp only [checkName] at h
  split at h
  · cases h
    exact .empty (hempty.1 ‹_›)
  · rename_i he
    rw [hempty] at he
    split at h
    · cases h
      exact .long (by omega)
    · split at h
      · cases h
      · rename_i hg
        cases h
        refine .unprintable (by omega) (by omega) ?_
        simpa [isGraphic] using hg

/-- A name is refused on its own, or because it stands in the list already. -/
theorem offence_iff :
    Offence earlier name e ↔ checkName name = .error e ∨
      checkName name = .ok () ∧ name ∈ earlier ∧ e = .repeatedName name := by
  have hsize := length_utf8 name
  have hmax : maxName = 255 := rfl
  have hempty := @isEmpty_iff_length name
  constructor
  · intro h
    cases h with
    | empty h => exact .inl (if_pos (hempty.2 h))
    | long h =>
      left
      rw [checkName, if_neg (by rw [hempty]; omega), if_pos (by omega)]
    | unprintable hpos hle h =>
      left
      have hg : ¬ (utf8 name).all isGraphic = true := by simpa [isGraphic] using h
      rw [checkName, if_neg (by rw [hempty]; omega), if_neg (by omega), if_neg hg]
    | repeated hp h => exact .inr ⟨checkName_eq_ok_iff.2 (proper_iff.1 hp), h, rfl⟩
  · rintro (h | ⟨h, hm, rfl⟩)
    · exact offence_of_checkName h
    · exact .repeated (proper_iff.2 (checkName_eq_ok_iff.1 h)) hm

/-- The next name of a list is reported, or passed over when nothing is wrong with it. -/
theorem checkFrom_cons_eq_error_iff :
    checkFrom earlier (name :: names) = .error e ↔
      Offence earlier name e ∨
        (∀ e', ¬ Offence earlier name e') ∧ checkFrom (name :: earlier) names = .error e := by
  simp only [checkFrom, offence_iff]
  cases hname : checkName name with
  | error e' =>
    constructor
    · intro h
      exact .inl (.inl h)
    · rintro ((h | ⟨h, -⟩) | ⟨h, -⟩)
      · exact h
      · cases h
      · exact absurd (.inl rfl) (h e')
  | ok u =>
    by_cases hm : name ∈ earlier
    · simp [hm, eq_comm]
    · simp [hm]

/-- A name that was passed over counts among those in front. -/
theorem offence_shift_iff {found : String} :
    Offence (earlier ++ name :: others) found e ↔
      Offence ((name :: earlier) ++ others) found e := by
  have hm : ∀ n, n ∈ earlier ++ name :: others ↔ n ∈ (name :: earlier) ++ others := by
    intro n
    simp only [List.mem_append, List.mem_cons, List.cons_append]
    exact or_left_comm
  exact ⟨fun h => h.congr fun n => (hm n).1, fun h => h.congr fun n => (hm n).2⟩

theorem offends_zero_iff :
    Offends earlier (name :: names) 0 ↔ ∃ e, Offence earlier name e := by
  simp [Offends]

theorem offends_succ_iff :
    Offends earlier (name :: names) (i + 1) ↔ Offends (name :: earlier) names i := by
  simp only [Offends, List.getElem?_cons_succ, List.take_succ_cons, offence_shift_iff]

/-- The first name of a list that is not to be sent, and what is wrong with it. -/
def FirstOffence (earlier names : List String) (e : Error) : Prop :=
  ∃ i name, IsLeast {j | Offends earlier names j} i ∧ names[i]? = some name ∧
    Offence (earlier ++ names.take i) name e

theorem isLeast_succ_iff (hn : ∀ e, ¬ Offence earlier name e) :
    IsLeast {j | Offends earlier (name :: names) j} (i + 1) ↔
      IsLeast {j | Offends (name :: earlier) names j} i := by
  constructor
  · rintro ⟨ho, hl⟩
    refine ⟨offends_succ_iff.1 ho, fun j hj => ?_⟩
    exact Nat.le_of_succ_le_succ (hl (offends_succ_iff.2 hj))
  · rintro ⟨ho, hl⟩
    refine ⟨offends_succ_iff.2 ho, fun j hj => ?_⟩
    cases j with
    | zero =>
      obtain ⟨e, he⟩ := offends_zero_iff.1 hj
      exact absurd he (hn e)
    | succ j => exact Nat.succ_le_succ (hl (offends_succ_iff.1 hj))

theorem firstOffence_cons_iff :
    FirstOffence earlier (name :: names) e ↔
      Offence earlier name e ∨
        (∀ e', ¬ Offence earlier name e') ∧ FirstOffence (name :: earlier) names e := by
  constructor
  · rintro ⟨i, found, hl, hf, ho⟩
    cases i with
    | zero =>
      cases hf
      exact .inl (by simpa using ho)
    | succ i =>
      have hn : ∀ e', ¬ Offence earlier name e' := by
        intro e' he
        exact absurd (hl.2 (offends_zero_iff.2 ⟨e', he⟩)) (Nat.not_succ_le_zero i)
      exact .inr ⟨hn, i, found, (isLeast_succ_iff hn).1 hl, hf, offence_shift_iff.1 ho⟩
  · rintro (ho | ⟨hn, i, found, hl, hf, ho⟩)
    · refine ⟨0, name, ⟨offends_zero_iff.2 ⟨e, ho⟩, fun _ _ => Nat.zero_le _⟩, rfl, ?_⟩
      simpa using ho
    · exact ⟨i + 1, found, (isLeast_succ_iff hn).2 hl, hf, offence_shift_iff.2 ho⟩

theorem checkFrom_eq_error_iff :
    checkFrom earlier names = .error e ↔ FirstOffence earlier names e := by
  induction names generalizing earlier with
  | nil => simp [checkFrom, FirstOffence]
  | cons name names ih => rw [checkFrom_cons_eq_error_iff, firstOffence_cons_iff, ih]

/-- Where any name offends, one is the first. -/
theorem exists_firstOffence (h : Offends earlier names i) : ∃ e, FirstOffence earlier names e := by
  classical
  have hex : ∃ j, Offends earlier names j := ⟨i, h⟩
  obtain ⟨name, e, hf, ho⟩ := Nat.find_spec hex
  exact ⟨e, Nat.find hex, name, ⟨Nat.find_spec hex, fun j hj => Nat.find_min' hex hj⟩, hf, ho⟩

theorem checkFrom_eq_ok_iff_forall :
    checkFrom earlier names = .ok () ↔ ∀ i, ¬ Offends earlier names i := by
  constructor
  · intro hok i hi
    obtain ⟨e, he⟩ := exists_firstOffence hi
    cases hok.symm.trans (checkFrom_eq_error_iff.2 he)
  · intro hn
    cases hc : checkFrom earlier names with
    | ok u => rfl
    | error e =>
      obtain ⟨i, -, hl, -⟩ := checkFrom_eq_error_iff.1 hc
      exact absurd hl.1 (hn i)

theorem listSize_eq (names : List String) :
    listSize names = (names.map fun name => 1 + (utf8 name).length).sum := by
  induction names with
  | nil => rfl
  | cons name names ih => rw [listSize, List.map_cons, List.sum_cons, ih, length_utf8]

/-- The whole check fails for the first offence, or for the size where there is none. -/
theorem checkList_eq_error_iff :
    checkList names = .error e ↔
      FirstOffence [] names e ∨
        (∀ i, ¬ Offends [] names i) ∧ 65533 < listSize names ∧ e = .longList (listSize names) := by
  rw [← checkFrom_eq_error_iff, ← checkFrom_eq_ok_iff_forall]
  have hmax : maxList = 65533 := rfl
  simp only [checkList, hmax]
  cases checkFrom [] names with
  | error e' => simp
  | ok u =>
    by_cases hl : listSize names > 65533
    · simp [hl, eq_comm]
    · simp [hl]

theorem category_of_checkList (h : checkList names = .error e) :
    e.category = .invalidParameter ↔ ∀ i, ¬ Offends [] names i := by
  rcases checkList_eq_error_iff.1 h with ⟨i, name, hl, -, ho⟩ | ⟨hn, -, rfl⟩
  · refine iff_of_false ?_ fun hn => hn i hl.1
    rcases ho.category_eq with ⟨hc, -⟩ | ⟨hc, -⟩ <;> simp [hc]
  · exact iff_of_true rfl hn

end Config

namespace Overlay

open Config

variable {σ : Type} [Engine σ] {config : Config} {names : List String} {f : Failure}

theorem kind_of_strategyFor {engine : σ} (h : strategyFor engine config = .error f) :
    f.kind = .environment := by
  simp only [strategyFor] at h
  repeat' split at h
  all_goals first | (cases h; rfl) | cases h

/-- A list that is refused does not reach the engine, and nothing else is done to it. -/
theorem prepare_of_refused (engine : σ) {e : Config.Error}
    (h : checkList config.protocols = .error e) :
    prepare engine config = (engine, .error (.ofConfig e)) := by
  simp only [prepare, check, h]

theorem kind_of_prepare {engine : σ} (hc : checkList config.protocols = .ok ())
    (h : (prepare engine config).2 = .error f) : f.kind ≠ .configuration := by
  simp only [prepare, check, hc] at h
  split at h
  · rename_i hs
    cases h
    simp [kind_of_strategyFor hs]
  · split at h
    · split at h
      · cases h
        exact FailureKind.noConfusion
      · cases h
    · cases h

theorem of_eq_error_iff {engine : σ} :
    Overlay.of engine config = .error f ↔ (prepare engine config).2 = .error f := by
  simp only [Overlay.of]
  split
  · rename_i h
    simp [h]
  · rename_i h
    simp [h]

omit [Engine σ] in
/-- What passes on the report on a list, and has no other of that kind, is refused for its
configuration exactly when the list is. -/
theorem refused_iff {α : Type} {result : Except Failure α}
    (hreport : ∀ e, checkList names = .error e → result = .error (.ofConfig e))
    (hother : checkList names = .ok () → ∀ f, result = .error f → f.kind ≠ .configuration) :
    (result = .error f ∧ f.kind = .configuration) ↔
      ∃ e, checkList names = .error e ∧ f = .ofConfig e := by
  cases hc : checkList names with
  | error e =>
    rw [hreport e hc]
    constructor
    · rintro ⟨h, -⟩
      cases h
      exact ⟨e, rfl, rfl⟩
    · rintro ⟨e', h, rfl⟩
      cases h
      exact ⟨rfl, rfl⟩
  | ok u =>
    refine iff_of_false ?_ (by simp)
    rintro ⟨h, hk⟩
    exact hother hc f h hk

/-- An overlay is refused for its configuration exactly when the list is, whatever the engine. -/
theorem of_refused_iff (engine : σ) :
    (Overlay.of engine config = .error f ∧ f.kind = .configuration) ↔
      ∃ e, checkList config.protocols = .error e ∧ f = .ofConfig e := by
  refine refused_iff ?_ ?_
  · intro e h
    rw [of_eq_error_iff, prepare_of_refused engine h]
  · intro hc f h
    exact kind_of_prepare hc (of_eq_error_iff.1 h)

theorem setProtocols_refused_iff {o : Overlay σ} (hs : o.session.started = false) :
    ((o.setProtocols names).2 = .error f ∧ f.kind = .configuration) ↔
      ∃ e, checkList names = .error e ∧ f = .ofConfig e := by
  simp only [setProtocols, hs, Bool.false_eq_true, if_false]
  refine refused_iff ?_ ?_
  · intro e h
    rw [h]
  · intro hc f h
    rw [hc] at h
    simp only at h
    split at h
    · split at h
      · cases h
        exact FailureKind.noConfusion
      · cases h
    · cases h

/-- A list that is refused does not reach the engine. -/
theorem setProtocols_of_refused (o : Overlay σ) {e : Config.Error}
    (h : checkList names = .error e) : (o.setProtocols names).1 = o := by
  simp only [setProtocols, h]
  split <;> rfl

end Overlay

namespace Config

theorem draft_refused_iff {mode : Mode} {f : Failure} :
    Draft.check ⟨{ protocols := names, mode }⟩ = .error f ↔
      ∃ e, checkList names = .error e ∧ f = .ofConfig e := by
  simp only [Draft.check, check]
  cases checkList names with
  | error e => simp [Except.mapError, eq_comm]
  | ok u => simp [Except.mapError]

/-- A list passes the check exactly when all its names are proper, no two are equal and they fit
together. What is reported is the first name that is improper, or is proper and repeats one before
it; the size is reported exactly when there is no such name. An overlay in the making, one that has
not started and a draft are refused for their configuration exactly when the list is, and with the
same report. The engine is then handed back as it came, and an engine that keeps a record of what
is done to it has nothing new in it: it has been asked for nothing. -/
theorem first_offence_reported (names : List String) :
    (checkList names = .ok () ↔
      (∀ name ∈ names, Proper name) ∧ names.Nodup ∧
        (names.map fun name => 1 + (utf8 name).length).sum ≤ 65533) ∧
    (∀ e, checkList names = .error e ↔
      (∃ i name, IsLeast {j | Offends [] names j} i ∧ names[i]? = some name ∧
        Offence (names.take i) name e) ∨
      (∀ i, ¬ Offends [] names i) ∧
        65533 < (names.map fun name => 1 + (utf8 name).length).sum ∧
        e = .longList (names.map fun name => 1 + (utf8 name).length).sum) ∧
    (∀ earlier name e, Offence earlier name e →
      e.category = .invalidProtocol ∧ ¬ Proper name ∨
      e.category = .conflict ∧ Proper name ∧ name ∈ earlier) ∧
    (∀ e, checkList names = .error e →
      (e.category = .invalidParameter ↔ ∀ i, ¬ Offends [] names i)) ∧
    (∀ (σ : Type) [Engine σ] (engine : σ) (mode : Mode) (f : Failure),
      (Overlay.of engine { protocols := names, mode } = .error f ∧ f.kind = .configuration) ↔
        ∃ e, checkList names = .error e ∧ f = .ofConfig e) ∧
    (∀ (σ : Type) [Engine σ] (mode : Mode) (e : Config.Error), checkList names = .error e →
      (∀ engine : σ, Overlay.prepare engine { protocols := names, mode } =
        (engine, .error (.ofConfig e))) ∧
      (∀ r : Recorded σ, (Overlay.prepare r { protocols := names, mode }).1.events = r.events) ∧
      ∀ o : Overlay (Recorded σ), (o.setProtocols names).1.engine.events = o.engine.events) ∧
    (∀ (σ : Type) [Engine σ] (o : Overlay σ), o.session.started = false →
      (∀ f, ((o.setProtocols names).2 = .error f ∧ f.kind = .configuration) ↔
        ∃ e, checkList names = .error e ∧ f = .ofConfig e) ∧
      ∀ e, checkList names = .error e → (o.setProtocols names).1 = o) ∧
    (∀ (mode : Mode) (f : Failure),
      Draft.check ⟨{ protocols := names, mode }⟩ = .error f ↔
        ∃ e, checkList names = .error e ∧ f = .ofConfig e) := by
  refine ⟨?_, ?_, ?_, ?_, ?_, ?_, ?_, ?_⟩
  · simp only [checkList_eq_ok_iff, proper_iff, listSize_eq]
    rfl
  · intro e
    rw [← listSize_eq]
    exact checkList_eq_error_iff
  · intro earlier name e h
    exact h.category_eq
  · intro e h
    exact category_of_checkList h
  · intro σ _ engine mode f
    exact Overlay.of_refused_iff engine
  · intro σ _ mode e h
    refine ⟨fun engine => Overlay.prepare_of_refused engine h, fun r => ?_, fun o => ?_⟩
    · have hr : Overlay.prepare r { protocols := names, mode } = (r, .error (.ofConfig e)) :=
        Overlay.prepare_of_refused r h
      rw [hr]
    · rw [o.setProtocols_of_refused h]
  · intro σ _ o hs
    exact ⟨fun f => Overlay.setProtocols_refused_iff hs, fun e => o.setProtocols_of_refused⟩
  · intro mode f
    exact draft_refused_iff

/-- A name that comes again is reported and the empty one behind it is not; an engine that
negotiates itself is not given the list. -/
theorem first_offence_reported_repeated :
    let names := ["h2", "h2", ""]
    let o : Overlay Bare := ⟨⟨.client, true⟩, .native, {}⟩
    o.session.started = false ∧
      IsLeast {j | Offends [] names j} 1 ∧
      Overlay.of o.engine { protocols := names } = .error (.ofConfig (.repeatedName "h2")) ∧
      (Overlay.prepare (⟨o.engine, []⟩ : Recorded Bare) { protocols := names }).1.events = [] ∧
      o.setProtocols names = (o, .error (.ofConfig (.repeatedName "h2"))) := by
  intro names o
  obtain ⟨-, herror, -, -, hof, hprepare, hset, -⟩ := first_offence_reported names
  have hc : checkList names = .error (.repeatedName "h2") := by decide +kernel
  obtain ⟨hrefused, hkept⟩ := hset Bare o rfl
  refine ⟨rfl, ?_, ?_, ?_, ?_⟩
  · rcases (herror _).1 hc with ⟨i, name, hl, hf, ho⟩ | ⟨-, -, he⟩
    · have hm : "h2" ∈ names.take i := by
        cases ho
        assumption
      match i, hl, hm with
      | 0, _, hm => cases hm
      | 1, hl, _ => exact hl
      | i + 2, hl, _ =>
        have hsecond : Offends [] names 1 := by
          cases ho with
          | repeated hp _ => exact ⟨"h2", _, rfl, .repeated hp List.mem_cons_self⟩
        exact absurd (hl.2 hsecond) (by omega)
    · cases he
  · exact ((hof Bare o.engine .detect _).2 ⟨_, hc, rfl⟩).1
  · exact (hprepare Bare .detect _ hc).2.1 ⟨o.engine, []⟩
  · exact Prod.ext (hkept _ hc) ((hrefused _).2 ⟨_, hc, rfl⟩).1

end Config
end AlpnOverlay
