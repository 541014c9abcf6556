import AlpnOverlay.Proofs.Overlay.Episodes
import AlpnOverlay.Proofs.Overlay.Transparent

/-!
Overlays on top of each other. A list that is given to the outermost one goes down through all of
them, and at the end either every level has it or none.
-/
namespace AlpnOverlay

/-- The list that a call has put in place. -/
def Call.installed {ε : Type} : Call → Answer ε → Option (List String)
  | .setProtocols names, .done (.ok _) => some names
  | _, _ => none

theorem Call.installed_of_ne {ε : Type} {call : Call} (h : ∀ names, call ≠ .setProtocols names)
    (answer : Answer ε) : call.installed answer = none := by
  cases call with
  | setProtocols names => exact absurd rfl (h names)
  | _ => rfl

theorem Call.installed_mapError {ε ε' : Type} (f : ε → ε') (call : Call) (answer : Answer ε) :
    call.installed (answer.mapError f) = call.installed answer := by
  cases call with
  | setProtocols names =>
    cases answer with
    | moved buffers result => rfl
    | done result => cases result <;> rfl
  | _ => rfl

def Event.installed : Event → Option (List String)
  | .called call answer => call.installed answer
  | _ => none

theorem Event.IsMove.installed_eq {event : Event} (h : event.IsMove) : event.installed = none := by
  obtain ⟨call, answer, rfl, hm⟩ := h
  apply Call.installed_of_ne
  rintro names rfl
  cases hm

namespace Recorded

variable {σ : Type} {r s : Recorded σ} {news : List Event}

/-- The last list that the engine has taken. -/
def accepted (r : Recorded σ) : Option (List String) :=
  (r.events.filterMap Event.installed).getLast?

theorem Follows.accepted_eq (h : Follows r s news) :
    s.accepted = (news.filterMap Event.installed).getLast?.or r.accepted := by
  rw [accepted, h, List.filterMap_append, List.getLast?_append]
  rfl

theorem Follows.accepted_of_none (h : Follows r s news)
    (hn : ∀ event ∈ news, event.installed = none) : s.accepted = r.accepted := by
  rw [h.accepted_eq, List.filterMap_eq_nil_iff.2 hn]
  rfl

variable [Engine σ] {call : Call}

theorem accepted_perform (r : Recorded σ) (call : Call) :
    (Engine.perform r call).1.accepted =
      (call.installed (Engine.perform r call).2).or r.accepted := by
  rw [(follows_perform r call).accepted_eq]
  cases h : call.installed (Engine.perform r call).2 <;> simp [Event.installed, h]

end Recorded

namespace Overlay

open Recorded

/-- The last list that a run has put in place. -/
def lastInstalled {σ : Type} [Engine σ] (o : Overlay σ) (calls : List Call) :
    Option (List String) :=
  ((o.history calls).filterMap fun entry => entry.1.installed entry.2).getLast?

theorem lastInstalled_snoc {σ : Type} [Engine σ] (o : Overlay σ) (calls : List Call) (call : Call) :
    o.lastInstalled (calls ++ [call]) =
      (call.installed ((o.after calls).perform call).2).or (o.lastInstalled calls) := by
  rw [lastInstalled, history_snoc, List.filterMap_append, List.getLast?_append]
  cases h : call.installed ((o.after calls).perform call).2 <;> simp [lastInstalled, h]

section Single

variable {σ : Type} [Engine σ] {o : Overlay σ} {call : Call}

/-- What giving a list to an overlay does. -/
inductive Relists (o : Overlay σ) (names : List String) :
    Overlay σ × Except Failure Unit → Prop where
  | refused (f : Failure) : Relists o names (o, .error f)
  | declined {engine : σ} {cause : Cause} (hs : o.strategy = .native)
      (he : Engine.setProtocols o.engine names = (engine, .error cause)) :
      Relists o names (o.withEngine engine, .error (.engine cause))
  | taken {engine : σ} (hs : o.strategy = .native)
      (he : Engine.setProtocols o.engine names = (engine, .ok ())) :
      Relists o names
        ({ o with engine, session := { o.session with protocols := names } }, .ok ())
  | noted (hs : o.strategy = .overlay) :
      Relists o names ({ o with session := { o.session with protocols := names } }, .ok ())

theorem relists_setProtocols (o : Overlay σ) (names : List String) :
    Relists o names (o.setProtocols names) := by
  simp only [setProtocols]
  split
  · exact .refused _
  · split
    · exact .refused _
    · split
      · rename_i hs
        split
        · rename_i he
          exact .declined hs he
        · rename_i he
          exact .taken hs he
      · rename_i hs
        exact .noted hs

theorem setProtocols_fields (o : Overlay σ) (names : List String) :
    (o.setProtocols names).1.strategy = o.strategy ∧
    ((o.setProtocols names).1.engine = o.engine ∨
      (o.setProtocols names).1.engine = (Engine.setProtocols o.engine names).1) := by
  have hstep := relists_setProtocols o names
  generalize o.setProtocols names = outcome at hstep
  cases hstep with
  | refused f => exact ⟨rfl, .inl rfl⟩
  | declined _ he => exact ⟨rfl, .inr (by rw [he]; rfl)⟩
  | taken _ he => exact ⟨rfl, .inr (by rw [he])⟩
  | noted => exact ⟨rfl, .inl rfl⟩

/-- A call puts a list in place exactly when it does so in the engine. -/
structure Echoes (o : Overlay σ) (call : Call) : Prop where
  strategy : (o.perform call).1.strategy = .native
  protocols :
    (o.perform call).1.protocols = (call.installed (o.perform call).2).getD o.protocols
  engine :
    (o.perform call).1.engine = o.engine ∧ call.installed (o.perform call).2 = none ∨
    (o.perform call).1.engine = (Engine.perform o.engine call).1 ∧
      call.installed (Engine.perform o.engine call).2 = call.installed (o.perform call).2

theorem echoes_setProtocols (hs : o.strategy = .native) (names : List String) :
    Echoes o (.setProtocols names) := by
  have hstep := relists_setProtocols o names
  rcases hp : o.setProtocols names with ⟨p, result⟩
  rw [hp] at hstep
  refine ⟨(perform_native hs).1, ?_, ?_⟩
  all_goals simp only [perform, hp]
  · cases hstep <;> rfl
  · cases hstep with
    | refused f => exact .inl ⟨rfl, rfl⟩
    | declined _ he =>
      right
      simp only [Engine.perform, he, withEngine_engine, Call.installed, true_and]
    | taken _ he =>
      right
      simp only [Engine.perform, he, Call.installed, true_and]
    | noted hn => cases hs.symm.trans hn

theorem echoes_of_ne (hs : o.strategy = .native) (hn : ∀ names, call ≠ .setProtocols names)
    (hk : (o.perform call).1.protocols = o.protocols ∧
      ((o.perform call).1.engine = o.engine ∨
        (o.perform call).1.engine = (Engine.perform o.engine call).1)) : Echoes o call := by
  refine ⟨(perform_native hs).1, ?_, ?_⟩
  · rw [Call.installed_of_ne hn]
    exact hk.1
  · rw [Call.installed_of_ne hn, Call.installed_of_ne hn]
    rcases hk.2 with he | he
    · exact .inl ⟨he, rfl⟩
    · exact .inr ⟨he, rfl⟩

theorem echoes_perform (hs : o.strategy = .native) (call : Call) : Echoes o call := by
  cases call with
  | setProtocols names => exact echoes_setProtocols hs names
  | wrap sources buffer =>
    apply echoes_of_ne hs (by simp)
    simp only [perform, wrap_native hs]
    split
    · exact ⟨rfl, .inl rfl⟩
    · split
      · exact ⟨rfl, .inr rfl⟩
      · obtain ⟨hengine, -, parked, hsession⟩ := drain_fields o.markStarted buffer
        refine ⟨?_, .inl hengine⟩
        rw [Overlay.protocols, hsession]
        rfl
  | unwrap source buffers =>
    apply echoes_of_ne hs (by simp)
    simp only [perform, unwrap_native hs]
    split
    · exact ⟨rfl, .inl rfl⟩
    · exact ⟨rfl, .inr rfl⟩
  | setSelector selector =>
    apply echoes_of_ne hs (by simp)
    simp only [perform, setSelector, hs]
    exact ⟨rfl, .inr rfl⟩
  | _ => exact echoes_of_ne hs (by simp) ⟨rfl, .inr rfl⟩

end Single

section Lowest

variable {σ : Type} [Engine σ] {o : Overlay (Recorded σ)} {call : Call}

/-- The list of an overlay and the last one of its engine after a call. An overlay that edits
hellos keeps its list to itself. -/
structure Installs (o : Overlay (Recorded σ)) (call : Call) : Prop where
  strategy : (o.perform call).1.strategy = o.strategy
  protocols :
    (o.perform call).1.protocols = (call.installed (o.perform call).2).getD o.protocols
  native : o.strategy = .native → (o.perform call).1.engine.accepted =
    (call.installed (o.perform call).2).or o.engine.accepted
  overlay : o.strategy = .overlay → (o.perform call).1.engine.accepted = o.engine.accepted

theorem Echoes.installs (h : Echoes o call) (hs : o.strategy = .native) : Installs o call := by
  refine ⟨h.strategy.trans hs.symm, h.protocols, fun _ => ?_, fun hn => ?_⟩
  · rcases h.engine with ⟨he, hi⟩ | ⟨he, hi⟩
    · rw [he, hi]
      rfl
    · rw [he, accepted_perform, hi]
  · cases hs.symm.trans hn

omit [Engine σ] in
/-- A call that moves bytes gives the engine no list. -/
theorem Leaves.accepted_eq {β : Type} {latch : Session → Bool} {outcome : Outcome (Recorded σ) β}
    {moves ending : List Event} (h : Leaves latch o outcome moves ending) :
    outcome.engine.engine.accepted = o.engine.accepted := by
  apply h.follows.accepted_of_none
  intro event he
  rcases List.mem_append.1 he with he | he
  · exact (h.moves event he).installed_eq
  · cases h.ends with
    | goesOn => cases he
    | replays bytes =>
      simp only [List.mem_cons, List.not_mem_nil, or_false] at he
      rcases he with rfl | rfl <;> rfl
    | closes =>
      cases List.mem_singleton.1 he
      rfl

theorem installs_setProtocols (hs : o.strategy = .overlay) (names : List String) :
    Installs o (.setProtocols names) := by
  have hnative : ∀ {p : Prop}, o.strategy = .native → p := by simp [hs]
  have hstep := relists_setProtocols o names
  rcases hp : o.setProtocols names with ⟨p, result⟩
  rw [hp] at hstep
  refine ⟨?_, ?_, hnative, fun _ => ?_⟩
  all_goals simp only [perform, hp]
  · cases hstep <;> rfl
  · cases hstep <;> rfl
  · cases hstep with
    | refused f => rfl
    | declined hn => exact hnative hn
    | taken hn => exact hnative hn
    | noted => rfl

theorem installs_of_ne (hs : o.strategy = .overlay) (hn : ∀ names, call ≠ .setProtocols names)
    (hl : (o.perform call).1.protocols = o.protocols)
    (ha : (o.perform call).1.engine.accepted = o.engine.accepted) : Installs o call := by
  refine ⟨(strategy_run hs [call]).trans hs.symm, ?_, ?_, fun _ => ha⟩
  · rw [Call.installed_of_ne hn]
    exact hl
  · intro hnative
    cases hs.symm.trans hnative

theorem installs_overlay (hs : o.strategy = .overlay) (call : Call) : Installs o call := by
  have hstill : ∀ other : Call, (∀ names, other ≠ .setProtocols names) →
      (Engine.perform o.engine other).1.accepted = o.engine.accepted := by
    intro other hn
    rw [accepted_perform, Call.installed_of_ne hn]
    rfl
  cases call with
  | wrap sources buffer =>
    obtain ⟨moves, ending, h⟩ := leaves_wrap o sources buffer
    exact installs_of_ne hs (by simp) (protocols_of_moves hs rfl) h.accepted_eq
  | unwrap source buffers =>
    obtain ⟨moves, ending, h⟩ := leaves_unwrap o source buffers
    exact installs_of_ne hs (by simp) (protocols_of_moves hs rfl) h.accepted_eq
  | setSelector selector =>
    apply installs_of_ne hs (by simp) <;> simp only [perform, setSelector, hs]
  | setProtocols names => exact installs_setProtocols hs names
  | start => exact installs_of_ne hs (by simp) rfl (hstill .start (by simp))
  | closeInbound => exact installs_of_ne hs (by simp) rfl (hstill .closeInbound (by simp))
  | closeOutbound => exact installs_of_ne hs (by simp) rfl (hstill .closeOutbound (by simp))

theorem installs_perform (o : Overlay (Recorded σ)) (call : Call) : Installs o call := by
  cases hs : o.strategy with
  | native => exact (echoes_perform hs call).installs hs
  | overlay => exact installs_overlay hs call

theorem Installs.of_some {names : List String} (h : Installs o call)
    (hi : call.installed (o.perform call).2 = some names) :
    (o.perform call).1.protocols = names ∧
    (o.strategy = .native → (o.perform call).1.engine.accepted = some names) := by
  obtain ⟨-, hlist, hnative, -⟩ := h
  rw [hi] at hlist hnative
  exact ⟨hlist, hnative⟩

theorem Installs.of_none (h : Installs o call)
    (hi : call.installed (o.perform call).2 = none) :
    (o.perform call).1.protocols = o.protocols ∧
    (o.perform call).1.engine.accepted = o.engine.accepted := by
  obtain ⟨-, hlist, hnative, hoverlay⟩ := h
  rw [hi] at hlist hnative
  refine ⟨hlist, ?_⟩
  cases hs : o.strategy with
  | native => exact hnative hs
  | overlay => exact hoverlay hs

end Lowest

variable {σ : Type} [Engine σ]

/-- An overlay below another one does and answers what it does on its own. -/
theorem perform_nested (o : Overlay σ) (call : Call) :
    Engine.perform o call = ((o.perform call).1, (o.perform call).2.mapError Failure.toCause) := by
  cases call <;> rfl

end Overlay

/-- Overlays on top of each other, `height` of them, and an engine at the bottom. -/
def Tower (σ : Type) : Nat → Type
  | 0 => σ
  | height + 1 => Overlay (Tower σ height)

namespace Tower

open Overlay Recorded

variable {σ : Type}

instance instEngine [Engine σ] : (height : Nat) → Engine (Tower σ height)
  | 0 => inferInstanceAs (Engine σ)
  | height + 1 =>
    letI := instEngine height
    inferInstanceAs (Engine (Overlay (Tower σ height)))

/-- The list of every level, from the outermost to the innermost. -/
def lists : (height : Nat) → Overlay (Tower σ height) → List (List String)
  | 0, o => [o.protocols]
  | height + 1, o => o.protocols :: lists height o.engine

/-- The overlay next to the engine. -/
def innermost : (height : Nat) → Overlay (Tower σ height) → Overlay σ
  | 0, o => o
  | height + 1, o => innermost height o.engine

/-- Every overlay but the innermost leaves the negotiation to the one below it. -/
def Relays : (height : Nat) → Overlay (Tower σ height) → Prop
  | 0, _ => True
  | height + 1, o => o.strategy = .native ∧ Relays height o.engine

variable {height : Nat} {o p : Overlay (Tower (Recorded σ) height)} {names : List String}

/-- Every level has the list, and so has an engine that negotiates itself. -/
structure Holds (height : Nat) (o : Overlay (Tower (Recorded σ) height)) (names : List String) :
    Prop where
  lists : lists height o = List.replicate (height + 1) names
  engine : (innermost height o).strategy = .native →
    (innermost height o).engine.accepted = some names

/-- No level has another list than before, and the engine has taken none. -/
structure Unchanged (height : Nat) (o p : Overlay (Tower (Recorded σ) height)) : Prop where
  lists : lists height p = lists height o
  engine : (innermost height p).engine.accepted = (innermost height o).engine.accepted

theorem Unchanged.trans {q : Overlay (Tower (Recorded σ) height)} (h : Unchanged height o p)
    (h' : Unchanged height p q) : Unchanged height o q :=
  ⟨h'.lists.trans h.lists, h'.engine.trans h.engine⟩

theorem Holds.kept (h : Holds height o names) (hk : Unchanged height o p)
    (hs : (innermost height p).strategy = (innermost height o).strategy) :
    Holds height p names :=
  ⟨hk.lists.trans h.lists, fun hn => hk.engine.trans (h.engine (hs.symm.trans hn))⟩

theorem Holds.above {q : Overlay (Tower (Recorded σ) (height + 1))}
    (h : Holds height q.engine names) (hl : q.protocols = names) : Holds (height + 1) q names := by
  refine ⟨?_, h.engine⟩
  rw [Tower.lists, h.lists, hl]
  rfl

theorem Unchanged.above {q r : Overlay (Tower (Recorded σ) (height + 1))}
    (h : Unchanged height q.engine r.engine) (hl : r.protocols = q.protocols) :
    Unchanged (height + 1) q r := by
  refine ⟨?_, h.engine⟩
  rw [Tower.lists, h.lists, hl]
  rfl

variable [Engine σ]

/-- What a call does to the lists of a tower. -/
structure InStep (height : Nat) (o : Overlay (Tower (Recorded σ) height)) (call : Call) :
    Prop where
  relays : Relays height (o.perform call).1
  strategy : (innermost height (o.perform call).1).strategy = (innermost height o).strategy
  installs : ∀ names, call.installed (o.perform call).2 = some names →
    Holds height (o.perform call).1 names
  keeps : call.installed (o.perform call).2 = none → Unchanged height o (o.perform call).1

theorem inStep_zero (o : Overlay (Tower (Recorded σ) 0)) (call : Call) : InStep 0 o call := by
  have h : Installs (σ := σ) o call := installs_perform o call
  refine ⟨trivial, h.strategy, ?_, ?_⟩
  · intro names hi
    obtain ⟨hlist, hengine⟩ := h.of_some hi
    exact ⟨congrArg (fun list => [list]) hlist, fun hs => hengine (h.strategy.symm.trans hs)⟩
  · intro hi
    obtain ⟨hlist, hengine⟩ := h.of_none hi
    exact ⟨congrArg (fun list => [list]) hlist, hengine⟩

/-- An overlay on top of a tower makes the tower higher. -/
theorem inStep_succ {o : Overlay (Tower (Recorded σ) (height + 1))} {call : Call}
    (hr : Relays (height + 1) o) (hbelow : InStep height o.engine call) :
    InStep (height + 1) o call := by
  let below : Overlay (Tower (Recorded σ) height) := o.engine
  have h := echoes_perform hr.1 call
  have hnested : Engine.perform o.engine call =
      ((below.perform call).1, (below.perform call).2.mapError Failure.toCause) :=
    perform_nested below call
  have hlist := h.protocols
  -- Either the call does not go down and puts nothing in place, or it does here what it does below.
  rcases h.engine with ⟨hengine, hi⟩ | ⟨hengine, hi⟩
  · refine ⟨⟨h.strategy, ?_⟩, ?_, ?_, ?_⟩
    · rw [hengine]
      exact hr.2
    · rw [innermost, innermost, hengine]
    · intro names hnames
      cases hi.symm.trans hnames
    · intro _
      rw [hi] at hlist
      refine Unchanged.above ?_ hlist
      rw [hengine]
      exact ⟨rfl, rfl⟩
  · rw [hnested] at hengine hi
    rw [Call.installed_mapError] at hi
    refine ⟨⟨h.strategy, ?_⟩, ?_, ?_, ?_⟩
    · rw [hengine]
      exact hbelow.relays
    · rw [innermost, innermost, hengine]
      exact hbelow.strategy
    · intro names hnames
      rw [hnames] at hlist
      refine Holds.above ?_ hlist
      rw [hengine]
      exact hbelow.installs names (hi.trans hnames)
    · intro hnone
      rw [hnone] at hlist
      refine Unchanged.above ?_ hlist
      rw [hengine]
      exact hbelow.keeps (hi.trans hnone)

theorem inStep_perform (hr : Relays height o) (call : Call) : InStep height o call := by
  induction height with
  | zero => exact inStep_zero o call
  | succ height ih => exact inStep_succ hr (ih hr.2)

theorem relays_run (hr : Relays height o) (calls : List Call) :
    Relays height (o.after calls) ∧
    (innermost height (o.after calls)).strategy = (innermost height o).strategy := by
  induction calls using List.reverseRecOn with
  | nil => exact ⟨hr, rfl⟩
  | append_singleton calls call ih =>
    have h := inStep_perform ih.1 call
    rw [after_snoc]
    exact ⟨h.relays, h.strategy.trans ih.2⟩

/-- A tower holds the last list that a run has put in place, or what it held before. -/
theorem holds_run (hr : Relays height o) (calls : List Call) :
    (∀ names, o.lastInstalled calls = some names → Holds height (o.after calls) names) ∧
    (o.lastInstalled calls = none → Unchanged height o (o.after calls)) := by
  induction calls using List.reverseRecOn with
  | nil => exact ⟨nofun, fun _ => ⟨rfl, rfl⟩⟩
  | append_singleton calls call ih =>
    have h := inStep_perform (relays_run hr calls).1 call
    rw [lastInstalled_snoc, after_snoc]
    cases hi : call.installed ((o.after calls).perform call).2 with
    | some list =>
      refine ⟨?_, nofun⟩
      rintro names ⟨⟩
      exact h.installs list hi
    | none =>
      have hkept := h.keeps hi
      refine ⟨?_, ?_⟩
      · intro names hn
        exact (ih.1 names hn).kept hkept h.strategy
      · intro hn
        exact (ih.2 hn).trans hkept

/-- A list that goes down changes no strategy on its way. -/
theorem relays_of_setProtocols (h : Relays height (o.setProtocols names).1) : Relays height o := by
  induction height with
  | zero => trivial
  | succ height ih =>
    obtain ⟨hstrategy, hengine⟩ := setProtocols_fields o names
    refine ⟨hstrategy.symm.trans h.1, ?_⟩
    have hrest := h.2
    rcases hengine with he | he
    · rw [he] at hrest
      exact hrest
    · rw [he] at hrest
      exact ih hrest

theorem holds_setProtocols (hr : Relays height o) (hs : (o.setProtocols names).2 = .ok ()) :
    Holds height (o.setProtocols names).1 names := by
  apply (inStep_perform hr (.setProtocols names)).installs
  simp only [perform, hs]
  rfl

theorem unchanged_setProtocols {f : Failure} (hr : Relays height o)
    (hs : (o.setProtocols names).2 = .error f) :
    Unchanged height o (o.setProtocols names).1 := by
  apply (inStep_perform hr (.setProtocols names)).keeps
  simp only [perform, hs]
  rfl

/-- A new overlay gives its list to the tower below before it is there. -/
theorem holds_of {engine : Tower (Recorded σ) height} {config : Config} (hr : Relays height o)
    (ho : Overlay.of engine config = .ok o) (he : config.isEnabled = true) :
    Holds height o config.protocols := by
  have hlist : o.protocols = config.protocols :=
    congrArg Session.protocols (laid_of ho).session
  cases height with
  | zero =>
    refine ⟨congrArg (fun list => [list]) hlist, ?_⟩
    intro hs
    have hset : Engine.setProtocols (σ := Recorded σ) engine config.protocols = (o.engine, .ok ()) :=
      (laid_of ho).given hs he
    have haccepted := accepted_perform (σ := σ) engine (.setProtocols config.protocols)
    simp only [Engine.perform, hset] at haccepted
    exact haccepted
  | succ height =>
    let below : Overlay (Tower (Recorded σ) height) := engine
    have hset := (laid_of ho).given hr.1 he
    have hnested : Engine.setProtocols engine config.protocols =
        ((below.setProtocols config.protocols).1,
          (below.setProtocols config.protocols).2.mapError Failure.toCause) := rfl
    obtain ⟨hengine, hresult⟩ := Prod.mk.inj (hnested.symm.trans hset)
    apply Holds.above _ hlist
    have hafter : Relays height (below.setProtocols config.protocols).1 := by
      rw [hengine]
      exact hr.2
    rw [← hengine]
    apply holds_setProtocols
    · exact relays_of_setProtocols hafter
    · cases hb : (below.setProtocols config.protocols).2 with
      | error f =>
        rw [hb] at hresult
        cases hresult
      | ok done => rfl

/-- A list that the outermost overlay takes becomes the list of every level, and the last one of an
engine that negotiates itself; one that any level refuses changes nothing. After a run all of them
hold the last list that was put in place, and until then the one that the outermost overlay was made
with. -/
theorem lists_in_step (hr : Relays height o) (calls : List Call) (names : List String) :
    let p := o.after calls
    ((p.setProtocols names).2 = .ok () → Holds height (p.setProtocols names).1 names) ∧
    (∀ f, (p.setProtocols names).2 = .error f →
      Unchanged height p (p.setProtocols names).1) ∧
    (o.lastInstalled calls = some names → Holds height p names) ∧
    (o.lastInstalled calls = none → Unchanged height o p) ∧
    (∀ (engine : Tower (Recorded σ) height) (config : Config),
      Overlay.of engine config = .ok o → config.isEnabled = true →
      o.lastInstalled calls = none → Holds height p config.protocols) := by
  intro p
  obtain ⟨hp, hstrategy⟩ := relays_run hr calls
  obtain ⟨hlast, hnone⟩ := holds_run hr calls
  refine ⟨holds_setProtocols hp, fun f => unchanged_setProtocols hp, hlast names, hnone, ?_⟩
  intro engine config ho he hn
  exact (holds_of hr ho he).kept (hnone hn) hstrategy

/-- Three overlays over an engine that negotiates itself. The lowest one has moved bytes or not. -/
def stacked (started : Bool) : Overlay (Tower (Recorded Scripted) 2) :=
  let engine : Recorded Scripted := ⟨{ role := .client, native := true }, []⟩
  let lowest : Overlay (Recorded Scripted) := ⟨engine, .native, { protocols := ["h2"], started }⟩
  let middle : Overlay (Overlay (Recorded Scripted)) := ⟨lowest, .native, { protocols := ["h2"] }⟩
  ⟨middle, .native, { protocols := ["h2"] }⟩

/-- A level that has moved bytes refuses for all of them. -/
theorem lists_in_step_stacked :
    Holds 2 ((stacked false).setProtocols ["h3"]).1 ["h3"] ∧
    lists 2 ((stacked true).setProtocols ["h3"]).1 = [["h2"], ["h2"], ["h2"]] ∧
    ∃ o, Overlay.of (stacked false).engine { protocols := ["h3"] } = .ok o ∧
      Holds 2 (o.after [.wrap [] [], .setProtocols ["h2"]]) ["h3"] := by
  have hr : ∀ started, Relays 2 (stacked started) := fun _ => ⟨rfl, rfl, trivial⟩
  obtain ⟨htaken, -⟩ := lists_in_step (hr false) [] ["h3"]
  obtain ⟨-, hrefused, -⟩ := lists_in_step (hr true) [] ["h3"]
  let o : Overlay (Tower (Recorded Scripted) 2) :=
    ⟨(Engine.setProtocols (stacked false).engine ["h3"]).1, .native, { protocols := ["h3"] }⟩
  have ho : Overlay.of (stacked false).engine { protocols := ["h3"] } = .ok o := rfl
  obtain ⟨-, -, -, -, hmade⟩ :=
    lists_in_step (o := o) ⟨rfl, rfl, trivial⟩ [.wrap [] [], .setProtocols ["h2"]] []
  exact ⟨htaken rfl, (hrefused _ rfl).lists, o, ho, hmade _ _ ho rfl rfl⟩

end Tower
end AlpnOverlay
