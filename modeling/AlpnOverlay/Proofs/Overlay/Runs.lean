import AlpnOverlay.Proofs.Overlay.Steps
import Mathlib.Data.List.Induction

/-!
Runs of an overlay. What holds of every run is shown by adding one call at its end.
-/
namespace AlpnOverlay

def Call.movesBytes : Call → Bool
  | .wrap _ _ | .unwrap _ _ => true
  | _ => false

def Answer.succeeded {ε : Type} : Answer ε → Bool
  | .moved _ (.ok _) | .done (.ok _) => true
  | _ => false

/-- The bytes that calls for output have put into the buffers of the caller. -/
def delivered (history : List (Call × Answer Failure)) : Bytes :=
  history.flatMap fun
    | (.wrap _ _, .moved [buffer] (.ok progress)) => buffer.take progress.produced
    | _ => []

namespace Overlay

variable {σ : Type} [Engine σ] {o : Overlay σ} {calls first later : List Call} {call : Call}
  {sources buffers : List Bytes} {source buffer : Bytes}

/-- The overlay at the end of a run. -/
def after (o : Overlay σ) (calls : List Call) : Overlay σ := (o.run calls).1

/-- The calls of a run, each with its answer. -/
def history (o : Overlay σ) (calls : List Call) : List (Call × Answer Failure) :=
  calls.zip (o.run calls).2

/-- The bytes that have left a run or are parked at its end. -/
def emitted (o : Overlay σ) (calls : List Call) : Bytes :=
  delivered (o.history calls) ++ (o.after calls).session.parked.bytes

/-- A run in which no call has failed. -/
def Clean (o : Overlay σ) (calls : List Call) : Prop :=
  ∀ answer ∈ (o.run calls).2, answer.succeeded = true

/-- A run in which the engine has one role all the time. -/
def KeepsRole (o : Overlay σ) (calls : List Call) (role : Role) : Prop :=
  ∀ first, first <+: calls → (o.after first).role = role

/-- Some call of a run satisfies `P` in the state in which it is made. -/
def Ever (o : Overlay σ) (calls : List Call) (P : Overlay σ → Call → Prop) : Prop :=
  ∃ first call, first ++ [call] <+: calls ∧ P (o.after first) call

theorem Ever.extend {P : Overlay σ → Call → Prop} (h : o.Ever calls P) (call : Call) :
    o.Ever (calls ++ [call]) P := by
  obtain ⟨first, other, hp, hother⟩ := h
  exact ⟨first, other, hp.trans (List.prefix_append _ _), hother⟩

theorem ever_last {P : Overlay σ → Call → Prop} (h : P (o.after calls) call) :
    o.Ever (calls ++ [call]) P :=
  ⟨calls, call, List.prefix_refl _, h⟩

/-- How an overlay comes about: its list can be sent, and an engine that negotiates itself has
taken it, if there is one. -/
structure Laid (engine : σ) (config : Config) (o : Overlay σ) : Prop where
  check : config.check = .ok ()
  strategy : strategyFor engine config = .ok o.strategy
  session : o.session = { protocols := config.protocols }
  given : o.strategy = .native → config.isEnabled = true →
    Engine.setProtocols engine config.protocols = (o.engine, .ok ())
  kept : ¬ (o.strategy = .native ∧ config.isEnabled = true) → o.engine = engine

theorem laid_of {engine : σ} {config : Config} (ho : Overlay.of engine config = .ok o) :
    Laid engine config o := by
  simp only [Overlay.of] at ho
  split at ho
  · cases ho
  · rename_i hp
    cases ho
    simp only [prepare] at hp
    split at hp
    · cases hp
    · rename_i hcheck
      split at hp
      · cases hp
      · rename_i hs
        split at hp
        · rename_i hn
          split at hp
          · cases hp
          · rename_i hset
            cases hp
            exact ⟨hcheck, hs, rfl, fun _ _ => hset, fun h => absurd hn h⟩
        · rename_i hn
          cases hp
          exact ⟨hcheck, hs, rfl, fun h he => absurd ⟨h, he⟩ hn, fun _ => rfl⟩

/-- An overlay that edits hellos starts with nothing done but its list. -/
theorem of_eq_ok {engine : σ} {config : Config} (ho : Overlay.of engine config = .ok o)
    (hs : o.strategy = .overlay) :
    o = ⟨engine, .overlay, { protocols := config.protocols }⟩ := by
  have h := laid_of ho
  rw [← h.kept (by simp [hs]), ← hs, ← h.session]

/-- What a call does that moves no bytes. -/
inductive Manages (o : Overlay σ) : Call → Overlay σ × Answer Failure → Prop where
  | forwarded {call : Call} {answer : Answer Failure} (hm : call.movesBytes = false) :
      Manages o call (o.withEngine (Engine.perform o.engine call).1, answer)
  | listed {names : List String} (hs : o.session.started = false) :
      Manages o (.setProtocols names)
        ({ o with session := { o.session with protocols := names } }, .done (.ok ()))
  | refused {call : Call} {f : Failure} (hm : call.movesBytes = false) :
      Manages o call (o, .done (.error f))

theorem manages_perform (hs : o.strategy = .overlay) (hm : call.movesBytes = false) :
    Manages o call (o.perform call) := by
  cases call with
  | wrap sources buffer => cases hm
  | unwrap source buffers => cases hm
  | start => exact .forwarded rfl
  | closeInbound => exact .forwarded rfl
  | closeOutbound => exact .forwarded rfl
  | setProtocols names =>
    simp only [perform, setProtocols]
    by_cases ht : o.session.started = true
    · rw [if_pos ht]
      exact .refused rfl
    · rw [if_neg ht]
      cases Config.checkList names with
      | error e => exact .refused rfl
      | ok done =>
        simp only [hs]
        rw [← hs]
        exact .listed (Bool.eq_false_iff.2 ht)
  | setSelector selector =>
    simp only [perform, setSelector, hs]
    exact .refused rfl

theorem Manages.strategy {outcome : Overlay σ × Answer Failure} (h : Manages o call outcome) :
    outcome.1.strategy = o.strategy := by
  cases h <;> rfl

/-- A call that moves no bytes changes the list at most, for one that can be sent, and only in front
of the first call that moves any. -/
theorem session_perform (hm : call.movesBytes = false) :
    ∃ names, (o.perform call).1.session = { o.session with protocols := names } ∧
      (names = o.session.protocols ∨
        o.session.started = false ∧ Config.checkList names = .ok ()) := by
  have hsame : ∃ names, o.session = { o.session with protocols := names } ∧
      (names = o.session.protocols ∨
        o.session.started = false ∧ Config.checkList names = .ok ()) := ⟨_, rfl, .inl rfl⟩
  cases call with
  | wrap sources buffer => cases hm
  | unwrap source buffers => cases hm
  | start => exact hsame
  | closeInbound => exact hsame
  | closeOutbound => exact hsame
  | setSelector selector =>
    simp only [perform, setSelector]
    split
    · exact hsame
    · exact hsame
  | setProtocols names =>
    simp only [perform, setProtocols]
    split
    · exact hsame
    · rename_i hs
      split
      · exact hsame
      · rename_i hlist
        have hlisted : ∃ protocols, ({ o.session with protocols := names } : Session) =
            { o.session with protocols } ∧ (protocols = o.session.protocols ∨
              o.session.started = false ∧ Config.checkList protocols = .ok ()) :=
          ⟨names, rfl, .inr ⟨Bool.eq_false_iff.2 hs, hlist⟩⟩
        split
        · split
          · exact hsame
          · exact hlisted
        · exact hlisted

theorem run_append (o : Overlay σ) (first later : List Call) :
    o.run (first ++ later) =
      ((o.after first).after later, (o.run first).2 ++ ((o.after first).run later).2) := by
  induction first generalizing o with
  | nil => rfl
  | cons call first ih => simp only [List.cons_append, run, after, ih]

theorem length_answers (o : Overlay σ) (calls : List Call) :
    (o.run calls).2.length = calls.length := by
  induction calls generalizing o with
  | nil => rfl
  | cons call calls ih => simp only [run, List.length_cons, ih]

theorem after_nil : o.after [] = o := rfl

theorem after_append : o.after (first ++ later) = (o.after first).after later := by
  simp only [after, run_append]

theorem after_snoc : o.after (first ++ [call]) = ((o.after first).perform call).1 := by
  simp only [after, run_append, run]

theorem after_wrap :
    o.after (first ++ [.wrap sources buffer]) = ((o.after first).wrap sources buffer).engine :=
  after_snoc

theorem after_unwrap :
    o.after (first ++ [.unwrap source buffers]) = ((o.after first).unwrap source buffers).engine :=
  after_snoc

theorem history_snoc :
    o.history (first ++ [call]) = o.history first ++ [(call, ((o.after first).perform call).2)] := by
  simp only [history, run_append, run]
  rw [List.zip_append (length_answers o first).symm]
  rfl

theorem delivered_append (xs ys : List (Call × Answer Failure)) :
    delivered (xs ++ ys) = delivered xs ++ delivered ys := List.flatMap_append

theorem delivered_wrap :
    delivered (o.history (first ++ [.wrap sources buffer])) =
      delivered (o.history first) ++ ((o.after first).wrap sources buffer).output := by
  rw [history_snoc, delivered_append]
  congr 1
  simp only [delivered, perform, List.flatMap_cons, List.flatMap_nil, List.append_nil, Reply.output,
    Reply.produced]
  cases ((o.after first).wrap sources buffer).result with
  | error f => rfl
  | ok progress => rfl

theorem delivered_unwrap :
    delivered (o.history (first ++ [.unwrap source buffers])) = delivered (o.history first) := by
  rw [history_snoc, delivered_append]
  exact List.append_nil _

theorem clean_append_iff :
    o.Clean (first ++ later) ↔ o.Clean first ∧ (o.after first).Clean later := by
  simp only [Clean, run_append, List.mem_append]
  constructor
  · intro h
    exact ⟨fun answer ha => h answer (.inl ha), fun answer ha => h answer (.inr ha)⟩
  · rintro ⟨hf, hl⟩ answer (ha | ha)
    · exact hf answer ha
    · exact hl answer ha

theorem Clean.before (hc : o.Clean calls) (hp : first <+: calls) : o.Clean first := by
  obtain ⟨later, rfl⟩ := hp
  exact (clean_append_iff.1 hc).1

theorem Clean.last (hc : o.Clean (first ++ [call])) :
    ((o.after first).perform call).2.succeeded = true :=
  (clean_append_iff.1 hc).2 _ (by simp [run])

theorem Clean.wrap_ok (hc : o.Clean calls) (hp : first ++ [.wrap sources buffer] <+: calls) :
    ∃ progress, ((o.after first).wrap sources buffer).result = .ok progress := by
  have hs := (hc.before hp).last
  simp only [perform, Answer.succeeded] at hs
  cases hr : ((o.after first).wrap sources buffer).result with
  | error f => simp [hr] at hs
  | ok progress => exact ⟨progress, rfl⟩

theorem Clean.unwrap_ok (hc : o.Clean calls) (hp : first ++ [.unwrap source buffers] <+: calls) :
    ∃ progress, ((o.after first).unwrap source buffers).result = .ok progress := by
  have hs := (hc.before hp).last
  simp only [perform, Answer.succeeded] at hs
  cases hr : ((o.after first).unwrap source buffers).result with
  | error f => simp [hr] at hs
  | ok progress => exact ⟨progress, rfl⟩

theorem KeepsRole.before {role : Role} (hr : o.KeepsRole calls role) (hp : first <+: calls) :
    o.KeepsRole first role :=
  fun _ h => hr _ (h.trans hp)

theorem KeepsRole.rest {role : Role} (hr : o.KeepsRole (first ++ later) role) :
    (o.after first).KeepsRole later role := by
  intro more hp
  rw [← after_append]
  exact hr _ ((List.prefix_append_right_inj first).2 hp)

theorem KeepsRole.at_call {role : Role} (hr : o.KeepsRole calls role)
    (hp : first ++ [call] <+: calls) : (o.after first).role = role :=
  hr first ((List.prefix_append _ _).trans hp)

theorem forall_initial {P : List Call → Prop} (h : ∀ n, n < calls.length + 1 → P (calls.take n)) :
    ∀ first, first <+: calls → P first := by
  intro first hf
  rw [List.prefix_iff_eq_take.1 hf]
  exact h _ (Nat.lt_succ_of_le hf.length_le)

/-- What holds of the empty run and is kept by each call of a run holds of the run. -/
theorem calls_induction {P : List Call → Prop} (h0 : P [])
    (hw : ∀ first sources buffer, first ++ [.wrap sources buffer] <+: calls → P first →
      P (first ++ [.wrap sources buffer]))
    (hu : ∀ first source buffers, first ++ [.unwrap source buffers] <+: calls → P first →
      P (first ++ [.unwrap source buffers]))
    (hm : ∀ first call, call.movesBytes = false → first ++ [call] <+: calls → P first →
      P (first ++ [call])) : P calls := by
  induction calls using List.reverseRecOn with
  | nil => exact h0
  | append_singleton calls call ih =>
    have hshorter : ∀ {more : List Call}, more <+: calls → more <+: calls ++ [call] :=
      fun hp => hp.trans (List.prefix_append _ _)
    have hcalls : P calls := by
      apply ih
      · intro first sources buffer hp
        exact hw first sources buffer (hshorter hp)
      · intro first source buffers hp
        exact hu first source buffers (hshorter hp)
      · intro first other hother hp
        exact hm first other hother (hshorter hp)
    cases call with
    | wrap sources buffer => exact hw _ _ _ (List.prefix_refl _) hcalls
    | unwrap source buffers => exact hu _ _ _ (List.prefix_refl _) hcalls
    | _ => exact hm _ _ rfl (List.prefix_refl _) hcalls

/-- The same for a run in which every call moves bytes. -/
theorem run_induction {P : List Call → Prop} (hm : ∀ call ∈ calls, call.movesBytes = true)
    (h0 : P [])
    (hw : ∀ first sources buffer, first ++ [.wrap sources buffer] <+: calls → P first →
      P (first ++ [.wrap sources buffer]))
    (hu : ∀ first source buffers, first ++ [.unwrap source buffers] <+: calls → P first →
      P (first ++ [.unwrap source buffers])) : P calls := by
  apply calls_induction h0 hw hu
  intro first call hstill hp
  have hmoves := hm call (hp.subset (by simp))
  cases hstill.symm.trans hmoves

theorem strategy_run (hs : o.strategy = .overlay) (calls : List Call) :
    (o.after calls).strategy = .overlay := by
  refine calls_induction (P := fun calls => (o.after calls).strategy = .overlay) hs ?_ ?_ ?_
  · intro first sources buffer _ h
    rw [after_wrap]
    exact (wraps_wrap h sources buffer).frame.1.trans h
  · intro first source buffers _ h
    rw [after_unwrap]
    exact (unwraps_unwrap h source buffers).frame.1.trans h
  · intro first call hm _ h
    rw [after_snoc]
    exact (manages_perform h hm).strategy.trans h

/-- What is kept of a session by a call that moves no bytes: all but the list. -/
theorem session_manage (o : Overlay σ) (first : List Call) (hm : call.movesBytes = false) :
    ∃ names, (o.after (first ++ [call])).session =
      { (o.after first).session with protocols := names } := by
  obtain ⟨names, hsession, -⟩ := session_perform (o := o.after first) hm
  rw [after_snoc]
  exact ⟨names, hsession⟩

/-- A run without failures leaves an overlay open. -/
theorem Clean.isOpen (hc : o.Clean calls) (hm : ∀ call ∈ calls, call.movesBytes = true)
    (hs : o.strategy = .overlay) (ho : o.session.closed = false) :
    (o.after calls).strategy = .overlay ∧ (o.after calls).session.closed = false := by
  refine run_induction
    (P := fun calls => (o.after calls).strategy = .overlay ∧ (o.after calls).session.closed = false)
    hm ⟨hs, ho⟩ ?_ ?_
  · intro first sources buffer hp ⟨hs, ho⟩
    obtain ⟨progress, hok⟩ := hc.wrap_ok hp
    have hw := wraps_wrap hs sources buffer
    rw [after_wrap]
    exact ⟨hw.frame.1.trans hs, hw.open_of_ok ho hok⟩
  · intro first source buffers hp ⟨hs, ho⟩
    obtain ⟨progress, hok⟩ := hc.unwrap_ok hp
    have hu := unwraps_unwrap hs source buffers
    rw [after_unwrap]
    exact ⟨hu.frame.1.trans hs, hu.open_of_ok ho hok⟩

end Overlay
end AlpnOverlay
