import AlpnOverlay.Proofs.Failure.Chains
import AlpnOverlay.Proofs.Overlay.Towers

/-!
Failures on their way up through overlays. Each level makes the failure of the one below the cause
of its own, and what the lowest one ran into can still be asked of the highest.
-/
namespace AlpnOverlay

theorem Answer.mapError_id {ε : Type} (answer : Answer ε) : answer.mapError id = answer := by
  cases answer with
  | moved buffers result => cases result <;> rfl
  | done result => cases result <;> rfl

theorem Answer.mapError_mapError {ε ε' ε'' : Type} (f : ε → ε') (g : ε' → ε'') (answer : Answer ε) :
    (answer.mapError f).mapError g = answer.mapError (g ∘ f) := by
  cases answer with
  | moved buffers result => cases result <;> rfl
  | done result => cases result <;> rfl

namespace Overlay

variable {σ : Type} [Engine σ]

/-- Over a run too, an overlay below another one does and answers what it does on its own. -/
theorem run_nested (o : Overlay σ) (calls : List Call) :
    Engine.run o calls =
      ((o.run calls).1, (o.run calls).2.map (Answer.mapError Failure.toCause)) := by
  induction calls generalizing o with
  | nil => rfl
  | cons call calls ih => simp only [Engine.run, run, perform_nested, ih, List.map_cons]

/-- An overlay over an engine that negotiates itself has nothing to show after a call, if it had
nothing before. -/
theorem blank_native {o : Overlay σ} (hs : o.strategy = .native) (hb : o.session.Blank)
    (call : Call) : (o.perform call).1.session.Blank := by
  cases hm : call.movesBytes with
  | true =>
    have hc : call.configures = false := by
      cases call with
      | setProtocols names => cases hm
      | setSelector selector => cases hm
      | _ => rfl
    exact (mirrors_perform ⟨.inl hs, hb⟩ hc).blank
  | false =>
    obtain ⟨names, hsession, -⟩ := session_perform (o := o) hm
    rw [hsession]
    exact ⟨hb.isOpen, hb.slot, hb.unselected⟩

/-- An overlay negotiates itself and hides its transcript, so one on top of it never edits. -/
theorem strategy_over {below : Overlay σ} {config : Config} {o : Overlay (Overlay σ)}
    (ho : Overlay.of below config = .ok o) : o.strategy = .native := by
  have h := (laid_of ho).strategy
  have hnative : Engine.isNative below = true := rfl
  have hhidden : (Engine.transcript? below).isSome = false := rfl
  simp only [strategyFor, hnative, hhidden, if_true, Bool.false_eq_true, if_false] at h
  split at h
  · exact (Except.ok.inj h).symm
  · cases h
  · exact (Except.ok.inj h).symm

/-- A new overlay has given its engine the list, or left it alone. -/
theorem engine_of {engine : σ} {config : Config} {o : Overlay σ}
    (ho : Overlay.of engine config = .ok o) :
    o.engine = engine ∨ o.engine = (Engine.perform engine (.setProtocols config.protocols)).1 := by
  have h := laid_of ho
  by_cases hn : o.strategy = .native ∧ config.isEnabled = true
  · right
    simp only [Engine.perform, h.given hn.1 hn.2]
  · exact .inl (h.kept hn)

end Overlay

namespace Tower

variable {σ : Type}

/-- Every overlay but the innermost leaves the negotiation to the one below it and shows nothing of
its own. -/
def Passes : (height : Nat) → Overlay (Tower σ height) → Prop
  | 0, _ => True
  | height + 1, o => (o.strategy = .native ∧ o.session.Blank) ∧ Passes height o.engine

variable [Engine σ] {height : Nat} {o : Overlay (Tower σ height)} {calls : List Call}

/-- A tower as it comes about: overlays are laid over each other, and calls go to the outermost. -/
inductive Raised : (height : Nat) → Overlay (Tower σ height) → Prop where
  | lowest (o : Overlay (Tower σ 0)) : Raised 0 o
  | laid {height : Nat} {below : Overlay (Tower σ height)} {config : Config}
      {o : Overlay (Tower σ (height + 1))} (hb : Raised height below)
      (ho : Overlay.of (σ := Tower σ (height + 1)) below config = .ok o) : Raised (height + 1) o
  | called {height : Nat} {o : Overlay (Tower σ height)} (ho : Raised height o) (call : Call) :
      Raised height (o.perform call).1

theorem perform_below (below : Overlay (Tower σ height)) (call : Call) :
    (Engine.perform (σ := Tower σ (height + 1)) below call).1 = (below.perform call).1 :=
  congrArg Prod.fst (Overlay.perform_nested below call)

theorem passes_perform (ho : Passes height o) (call : Call) : Passes height (o.perform call).1 := by
  induction height with
  | zero => trivial
  | succ height ih =>
    obtain ⟨⟨hs, hb⟩, hbelow⟩ := ho
    have h := Overlay.echoes_perform hs call
    refine ⟨⟨h.strategy, Overlay.blank_native hs hb call⟩, ?_⟩
    rcases h.engine with ⟨he, -⟩ | ⟨he, -⟩
    · rw [he]
      exact hbelow
    · rw [he.trans (perform_below o.engine call)]
      exact ih hbelow

theorem passes_of {below : Overlay (Tower σ height)} {config : Config}
    {o : Overlay (Tower σ (height + 1))} (hb : Passes height below)
    (ho : Overlay.of (σ := Tower σ (height + 1)) below config = .ok o) :
    Passes (height + 1) o := by
  refine ⟨⟨Overlay.strategy_over ho, ?_⟩, ?_⟩
  · rw [(Overlay.laid_of ho).session]
    exact ⟨rfl, rfl, rfl⟩
  · rcases Overlay.engine_of ho with he | he
    · rw [he]
      exact hb
    · rw [he.trans (perform_below below _)]
      exact passes_perform hb _

theorem Raised.passes (ho : Raised height o) : Passes height o := by
  induction ho with
  | lowest o => trivial
  | laid _ ho ih => exact passes_of ih ho
  | called _ call ih => exact passes_perform ih call

/-- A tower answers as its innermost overlay, whose failures every level adds itself to. -/
theorem run_passes (ho : Passes height o) (hm : ∀ call ∈ calls, call.configures = false) :
    (o.run calls).2 =
      ((innermost height o).run calls).2.map (Answer.mapError (Failure.relayed height)) := by
  induction height with
  | zero =>
    have hid : Answer.mapError (Failure.relayed 0) = id := funext Answer.mapError_id
    rw [hid, List.map_id]
    rfl
  | succ height ih =>
    obtain ⟨⟨hs, hb⟩, hbelow⟩ := ho
    let below : Overlay (Tower σ height) := o.engine
    have hnested : Engine.run o.engine calls =
        ((below.run calls).1, (below.run calls).2.map (Answer.mapError Failure.toCause)) :=
      below.run_nested calls
    rw [(Overlay.run_aside ⟨.inl hs, hb⟩ hm).2.1, hnested, ih hbelow, List.map_map, List.map_map]
    apply List.map_congr_left
    intro answer _
    simp only [Function.comp_apply, Answer.mapError_mapError]
    rfl

end Tower

namespace Failure

/-- Whether a length is wrong or a hello is missing is told by the whole chain of causes, and both
answers outlast whatever the failure is wrapped in. Of what a failure is wrapped in, the outermost
layer alone decides the kind, and every layer that is a failure says its kind in front of the rest.
Overlays that were laid over each other, whatever was done with them, wrap a failure of the
innermost one in a layer each, and have none of their own where nothing is configured. -/
theorem nested_failure_recognised (f : Failure) :
    (f.isMalformed = true ↔ ∃ fault, f.GoesBackTo (.wire (.malformed fault))) ∧
    (f.isTranscriptMismatch = true ↔ ∃ helloLength transcriptLength,
      f.GoesBackTo (.transcriptMismatch helloLength transcriptLength)) ∧
    (∀ kind, f.hasKind kind = true ↔ kind = f.kind) ∧
    (∀ kind, isOf kind f = true ↔ kind = f.kind) ∧
    (f.cause = none → f.message = f.kind.label) ∧
    (∀ cause, f.cause = some cause → f.message = f.kind.label ++ ": " ++ cause.message) ∧
    (∀ (g : Failure) (layers : List Layer),
      (g.dueTo (layers.foldr Layer.around f.toCause)).Covers f g.kind
        (layers.foldr Layer.text f.message)) ∧
    (∀ height, (f.relayed (height + 1)).Covers f .engine (f.relayed height).message) ∧
    (∀ (σ : Type) [Engine σ] (height : Nat) (o : Overlay (Tower σ height)) (calls : List Call),
      Tower.Raised height o → (∀ call ∈ calls, call.configures = false) →
      (o.run calls).2 =
        ((Tower.innermost height o).run calls).2.map (Answer.mapError (relayed height))) := by
  refine ⟨isMalformed_iff, isTranscriptMismatch_iff, fun kind => hasKind_iff, fun kind => isOf_iff,
    message_of_none, fun cause => message_of_cause, covers_dueTo f, covers_relayed f, ?_⟩
  intro σ _ height o calls ho hm
  exact Tower.run_passes ho.passes hm

/-- Two overlays over one that cannot edit the hello of its client: it ends within its version. -/
theorem nested_failure_recognised_stacked :
    let hello : Bytes := [22, 3, 3, 0, 5, 1, 0, 0, 1, 0]
    let engine : Scripted := { role := .client, outputs := [.record hello] }
    let lowest : Overlay Scripted := ⟨engine, .overlay, { protocols := ["h2"] }⟩
    let o : Overlay (Tower Scripted 2) := ⟨⟨lowest, .native, {}⟩, .native, {}⟩
    let f := ofWire (.malformed (.short "hello version" 1 0))
    (o.run [.wrap [] hello]).2 = [.moved [hello] (.error (f.relayed 2))] ∧
      (f.relayed 2).isMalformed = true ∧ (f.relayed 2).isTranscriptMismatch = false ∧
      (∀ kind, (f.relayed 2).hasKind kind = true ↔ kind = .engine) ∧
      (f.relayed 2).message = "TLS engine error: " ++ ("TLS engine error: " ++ f.message) := by
  intro hello engine lowest o f
  obtain ⟨hmalformed, -, -, -, -, -, -, hrelayed, htower⟩ := nested_failure_recognised f
  have hf : f.isMalformed = true := hmalformed.2 ⟨_, _, rfl, .refl⟩
  have hsecond : Overlay.of lowest {} = .ok o.engine := rfl
  have hthird : Overlay.of o.engine {} = .ok o := rfl
  have ho : Tower.Raised 2 o := .laid (.laid (.lowest lowest) hsecond) hthird
  have hedit : lowest.editOf (Engine.wrap lowest.engine [] hello) =
      .error (.malformed (.short "hello version" 1 0)) := by decide +kernel
  have hlowest : (lowest.run [.wrap [] hello]).2 = [.moved [hello] (.error f)] := by
    simp only [Overlay.run, Overlay.perform, Overlay.wrap_refused ⟨rfl, rfl, rfl⟩ hedit]
    rfl
  obtain ⟨hm, ht, hkinds, hmessage⟩ := hrelayed 1
  refine ⟨?_, hm.trans hf, ht, hkinds, ?_⟩
  · refine (htower Scripted 2 o [.wrap [] hello] ho (by simp [Call.configures])).trans ?_
    exact congrArg (List.map (Answer.mapError (relayed 2))) hlowest
  · rw [hmessage, (hrelayed 0).message]
    rfl

end Failure
end AlpnOverlay
