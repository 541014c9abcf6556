import AlpnOverlay.Engine.Scripted
import AlpnOverlay.Peer
import AlpnOverlay.Proofs.Overlay.Outbound
import AlpnOverlay.Proofs.Overlay.Sessions

/-!
When an engine turns out to lack what an edit needs. Capabilities are probed when an overlay is made,
and an engine without any of them is accepted if there is nothing to negotiate. The list can still be
replaced before the first bytes are moved.
-/
namespace AlpnOverlay

/-- Whether others can reach the transcript. -/
def Engine.hashes {σ : Type} [Engine σ] (e : σ) : Bool := (Engine.transcript? e).isSome

/-- An engine that shows its transcript all the time or never. -/
structure Steady (σ : Type) [Engine σ] : Prop where
  perform : ∀ (e : σ) (call : Call), Engine.hashes (Engine.perform e call).1 = Engine.hashes e
  replay : ∀ (e : σ) (t : Transcript σ) (bytes : Bytes), Engine.transcript? e = some t →
    Engine.hashes (t.append (t.reset e) bytes) = true

namespace Steady

variable {σ : Type} [Engine σ]

theorem wrap (law : Steady σ) (e : σ) (sources : List Bytes) (buffer : Bytes) :
    Engine.hashes (Engine.wrap e sources buffer).engine = Engine.hashes e :=
  law.perform e (.wrap sources buffer)

theorem unwrap (law : Steady σ) (e : σ) (source : Bytes) (buffers : List Bytes) :
    Engine.hashes (Engine.unwrap e source buffers).engine = Engine.hashes e :=
  law.perform e (.unwrap source buffers)

theorem closeOutbound (law : Steady σ) (e : σ) :
    Engine.hashes (Engine.closeOutbound e) = Engine.hashes e :=
  law.perform e .closeOutbound

theorem corrects (law : Steady σ) {engine corrected : σ} {edit : Flight.Edit}
    (h : Overlay.Corrects engine edit corrected) :
    Engine.hashes corrected = Engine.hashes engine := by
  rcases h.eq_or_replayed with rfl | ⟨t, bytes, ht, rfl⟩
  · rfl
  · rw [law.replay _ _ _ ht, Engine.hashes, ht]
    rfl

end Steady

namespace Overlay

variable {σ : Type} [Engine σ] {o : Overlay σ} {calls : List Call} {call : Call}
  {sources buffers : List Bytes} {source buffer : Bytes} {edit : Flight.Edit}

/-- A call whose edit is put into the engine's transcript. -/
def Consults (o : Overlay σ) : Call → Prop
  | .wrap sources buffer =>
    o.session.closed = false ∧ o.session.parked.isEmpty = true ∧
      ∃ edit, o.editOf (Engine.wrap o.engine sources buffer) = .ok (some edit)
  | .unwrap source buffers =>
    o.session.closed = false ∧ ∃ edit name protocol progress,
      Strips o source edit name protocol ∧
        (Engine.unwrap o.engine edit.stream buffers).result = .ok progress ∧
        progress.consumed ≠ 0 ∧ edit.headLength ≤ progress.consumed
  | _ => False

/-- A call that gives an overlay something to negotiate. -/
def Enables (o : Overlay σ) (call : Call) : Prop :=
  ∃ names, call = .setProtocols names ∧ names ≠ [] ∧ (o.perform call).2 = .done (.ok ())

theorem Resists.environment_iff {engine : σ} {f : Failure} (h : Resists engine edit f) :
    f.kind = .environment ↔ Engine.hashes engine = false := by
  cases h with
  | withheld ht => exact iff_of_true rfl (by rw [Engine.hashes, ht]; rfl)
  | unhashed ht hs =>
    refine iff_of_false ?_ ?_
    · rw [Transcript.mismatch_of_resynchronize hs]
      exact FailureKind.noConfusion
    · simp [Engine.hashes, ht]

theorem Corrects.hashes {engine corrected : σ} (h : Corrects engine edit corrected) :
    Engine.hashes engine ≠ false := by
  obtain ⟨t, ht, -⟩ := h
  simp [Engine.hashes, ht]

theorem error_of_mapError {result : Except Cause Progress} {f : Failure}
    (h : result.mapError Failure.engine = .error f) : ∃ cause, f = .engine cause := by
  cases result with
  | error cause =>
    cases h
    exact ⟨cause, rfl⟩
  | ok progress => cases h

theorem Wraps.hashes (law : Steady σ) {outcome : Outcome σ Bytes}
    (h : Wraps o sources buffer outcome) :
    Engine.hashes outcome.engine.engine = Engine.hashes o.engine := by
  cases h with
  | closed => rfl
  | drained =>
    obtain ⟨he, -, -⟩ := drain_fields o.markStarted buffer
    rw [he]
    rfl
  | passed => exact law.wrap ..
  | refused => exact (law.closeOutbound _).trans (law.wrap ..)
  | abandoned => exact (law.closeOutbound _).trans (law.wrap ..)
  | @edited progress edit engine _ _ _ _ hx =>
    obtain ⟨he, -, -⟩ := deliver_fields (o.markStarted.markSent.withEngine engine) edit.stream
      (Engine.wrap o.engine sources buffer).buffer progress
    rw [he]
    exact (law.corrects hx).trans (law.wrap ..)

theorem Unwraps.hashes (law : Steady σ) {outcome : Outcome σ (List Bytes)}
    (h : Unwraps o source buffers outcome) :
    Engine.hashes outcome.engine.engine = Engine.hashes o.engine := by
  cases h with
  | closed => rfl
  | waited => rfl
  | refused => exact law.closeOutbound _
  | passed => exact law.unwrap ..
  | idle => exact law.unwrap ..
  | cut => exact (law.closeOutbound _).trans (law.unwrap ..)
  | abandoned => exact (law.closeOutbound _).trans (law.unwrap ..)
  | stripped _ _ _ _ _ hx => exact (law.corrects hx).trans (law.unwrap ..)

/-- A call for output fails for want of a capability exactly when it edits a hello and the
transcript cannot be reached. -/
theorem Wraps.environment_iff (law : Steady σ) {outcome : Outcome σ Bytes}
    (h : Wraps o sources buffer outcome) :
    (∃ f, outcome.result = .error f ∧ f.kind = .environment) ↔
      Engine.hashes o.engine = false ∧ o.Consults (.wrap sources buffer) := by
  rw [← law.wrap o.engine sources buffer]
  constructor
  · rintro ⟨f, hr, hk⟩
    cases h with
    | closed => cases hr
    | drained =>
      obtain ⟨p, hp⟩ := result_drain o.markStarted buffer
      cases hp.symm.trans hr
    | passed =>
      obtain ⟨cause, rfl⟩ := error_of_mapError hr
      cases hk
    | refused =>
      cases hr
      cases hk
    | abandoned hc hp he hf =>
      cases hr
      exact ⟨hf.environment_iff.1 hk, hc, hp, _, he⟩
    | @edited progress edit engine _ hslot =>
      obtain ⟨p, hp⟩ := result_deliver (o.markStarted.markSent.withEngine engine) hslot
        edit.stream (Engine.wrap o.engine sources buffer).buffer progress
      cases hp.symm.trans hr
  · rintro ⟨ht, hc, hp, edit, he⟩
    cases h with
    | closed hc' => cases hc.symm.trans hc'
    | drained _ hp' => cases hp.symm.trans hp'
    | passed _ _ he' => cases he.symm.trans he'
    | refused _ _ he' => cases he.symm.trans he'
    | abandoned _ _ _ hf => exact ⟨_, rfl, hf.environment_iff.2 ht⟩
    | edited _ _ _ _ hx => exact absurd ht hx.hashes

/-- The same for a call with input from which a selection is taken. -/
theorem Unwraps.environment_iff (law : Steady σ) {outcome : Outcome σ (List Bytes)}
    (h : Unwraps o source buffers outcome) :
    (∃ f, outcome.result = .error f ∧ f.kind = .environment) ↔
      Engine.hashes o.engine = false ∧ o.Consults (.unwrap source buffers) := by
  constructor
  · rintro ⟨f, hr, hk⟩
    cases h with
    | closed => cases hr
    | waited => cases hr
    | refused =>
      cases hr
      cases hk
    | passed =>
      obtain ⟨cause, rfl⟩ := error_of_mapError hr
      cases hk
    | idle =>
      obtain ⟨cause, rfl⟩ := error_of_mapError hr
      cases hk
    | cut =>
      cases hr
      cases hk
    | abandoned hc hs hp h0 hl hf =>
      cases hr
      refine ⟨?_, hc, _, _, _, _, hs, hp, h0, hl⟩
      rw [← law.unwrap o.engine _ buffers]
      exact hf.environment_iff.1 hk
    | stripped => cases hr
  · rintro ⟨ht, hc, edit, name, protocol, progress, hs, hp, h0, hl⟩
    rw [← law.unwrap o.engine edit.stream buffers] at ht
    cases h with
    | closed hc' => cases hc.symm.trans hc'
    | waited _ hk => exact absurd hs (hk _ _ _)
    | refused _ hk => exact absurd hs (hk _ _ _)
    | passed _ hk => exact absurd hs (hk _ _ _)
    | idle _ hs' h0' =>
      cases hs.taken.symm.trans hs'.taken
      rw [Reply.consumed, hp] at h0'
      exact absurd h0' h0
    | cut _ hs' hp' _ hl' =>
      cases hs.taken.symm.trans hs'.taken
      cases hp.symm.trans hp'
      omega
    | abandoned _ hs' _ _ _ hf =>
      cases hs.taken.symm.trans hs'.taken
      exact ⟨_, rfl, hf.environment_iff.2 ht⟩
    | stripped _ hs' _ _ _ hx =>
      cases hs.taken.symm.trans hs'.taken
      exact absurd ht hx.hashes

theorem perform_environment_iff (law : Steady σ) (hs : o.strategy = .overlay) :
    (∃ buffers f, (o.perform call).2 = .moved buffers (.error f) ∧ f.kind = .environment) ↔
      Engine.hashes o.engine = false ∧ o.Consults call := by
  cases call with
  | wrap sources buffer =>
    rw [← (wraps_wrap hs sources buffer).environment_iff law]
    simp [perform, and_assoc]
  | unwrap source buffers =>
    rw [← (unwraps_unwrap hs source buffers).environment_iff law]
    simp [perform, and_assoc]
  | _ => simp [perform, Consults]

/-- The invariant of a run: a list that is not empty was configured or accepted later. -/
structure Equipped (o : Overlay σ) (calls : List Call) : Prop where
  strategy : (o.after calls).strategy = .overlay
  hashes : Engine.hashes (o.after calls).engine = Engine.hashes o.engine
  chosen : (o.after calls).session.selected ≠ none →
    (o.after calls).session.started = true ∧ (o.after calls).session.protocols ≠ []
  listed : (o.after calls).session.protocols ≠ [] → o.session.protocols ≠ [] ∨ o.Ever calls Enables

theorem Strips.listed {name : Bytes} {protocol : String} (h : Strips o source edit name protocol) :
    o.session.protocols ≠ [] :=
  List.ne_nil_of_mem (List.mem_of_find?_eq_some h.configured)

/-- Something is selected only while there is a list. -/
theorem Unwraps.chosen {outcome : Outcome σ (List Bytes)} (h : Unwraps o source buffers outcome)
    (hc : o.session.selected ≠ none → o.session.started = true ∧ o.session.protocols ≠ [])
    (hs : outcome.engine.session.selected ≠ none) :
    outcome.engine.session.started = true ∧ o.session.protocols ≠ [] := by
  cases h with
  | closed => exact hc hs
  | passed _ _ hr =>
    cases hr with
    | ignored => exact ⟨rfl, (hc hs).2⟩
    | noticed => exact ⟨rfl, (hc hs).2⟩
    | offered _ _ he => exact ⟨rfl, by simpa using he⟩
  | stripped _ hst => exact ⟨rfl, hst.listed⟩
  | _ => exact ⟨rfl, (hc hs).2⟩

theorem Equipped.extend (h : Equipped o calls)
    (hp : (o.after (calls ++ [call])).session.protocols = (o.after calls).session.protocols)
    (hne : (o.after (calls ++ [call])).session.protocols ≠ []) :
    o.session.protocols ≠ [] ∨ o.Ever (calls ++ [call]) Enables := by
  rcases h.listed (hp ▸ hne) with hconfig | hlater
  · exact .inl hconfig
  · exact .inr (hlater.extend call)

theorem equipped_manage (law : Steady σ) (hm : call.movesBytes = false) (h : Equipped o calls) :
    Equipped o (calls ++ [call]) := by
  have hstep := manages_perform h.strategy hm
  have ha : o.after (calls ++ [call]) = ((o.after calls).perform call).1 := after_snoc
  generalize hout : (o.after calls).perform call = outcome at hstep ha
  cases hstep with
  | forwarded =>
    refine ⟨by rw [ha]; exact h.strategy, ?_, by rw [ha]; exact h.chosen, ?_⟩
    · rw [ha]
      exact (law.perform _ _).trans h.hashes
    · apply h.extend
      rw [ha]
      rfl
  | refused =>
    refine ⟨by rw [ha]; exact h.strategy, by rw [ha]; exact h.hashes, by rw [ha]; exact h.chosen,
      ?_⟩
    apply h.extend
    rw [ha]
  | @listed names hs =>
    refine ⟨by rw [ha]; exact h.strategy, by rw [ha]; exact h.hashes, ?_, ?_⟩
    · intro hsel
      rw [ha] at hsel
      cases hs.symm.trans (h.chosen hsel).1
    · intro hne
      rw [ha] at hne
      exact .inr (ever_last ⟨names, rfl, hne, by rw [hout]⟩)

/-- Every run keeps the invariant. -/
theorem equipped_run (law : Steady σ) (h0 : Equipped o []) : Equipped o calls := by
  refine calls_induction (P := fun calls => Equipped o calls) h0 ?_ ?_ ?_
  · intro first sources buffer _ h
    have hw := wraps_wrap h.strategy sources buffer
    have ha : o.after (first ++ [.wrap sources buffer]) = _ := after_wrap
    obtain ⟨hstrategy, hprotocols, hselected, -⟩ := hw.frame
    refine ⟨by rw [ha, hstrategy, h.strategy], by rw [ha, hw.hashes law, h.hashes], ?_, ?_⟩
    · intro hsel
      rw [ha, hselected] at hsel
      rw [ha, hprotocols]
      exact ⟨hw.step.started (h.chosen hsel).1, (h.chosen hsel).2⟩
    · exact h.extend (by rw [ha, hprotocols])
  · intro first source buffers _ h
    have hu := unwraps_unwrap h.strategy source buffers
    have ha : o.after (first ++ [.unwrap source buffers]) = _ := after_unwrap
    obtain ⟨hstrategy, hprotocols, -, -⟩ := hu.frame
    refine ⟨by rw [ha, hstrategy, h.strategy], by rw [ha, hu.hashes law, h.hashes], ?_, ?_⟩
    · intro hsel
      rw [ha] at hsel
      rw [ha, hprotocols]
      exact hu.chosen h.chosen hsel
    · exact h.extend (by rw [ha, hprotocols])
  · intro first call hm _ h
    exact equipped_manage law hm h

/-- An edit is made for the sake of a list. -/
theorem Consults.listed (h : o.Consults call)
    (hc : o.session.selected ≠ none → o.session.protocols ≠ []) : o.session.protocols ≠ [] := by
  cases call with
  | wrap sources buffer =>
    obtain ⟨-, -, edit, he⟩ := h
    obtain ⟨-, -, hkind⟩ := editOf_eq_some he
    cases hr : o.role with
    | client =>
      simp only [hr] at hkind
      exact hkind.1
    | server =>
      simp only [hr] at hkind
      obtain ⟨protocol, hsel, -⟩ := hkind
      exact hc (by simp [hsel])
  | unwrap source buffers =>
    obtain ⟨-, edit, name, protocol, progress, hs, -⟩ := h
    exact hs.listed
  | _ => cases h

/-- An engine that negotiates itself fails in its own name. -/
theorem perform_native (hs : o.strategy = .native) :
    (o.perform call).1.strategy = .native ∧ ∀ (buffers : List Bytes) (f : Failure),
      (o.perform call).2 = .moved buffers (.error f) → f.kind ≠ .environment := by
  have hforward : ∀ {result : Except Cause Progress} {f : Failure},
      result.mapError Failure.engine = .error f → f.kind ≠ .environment := by
    intro result f h
    obtain ⟨cause, rfl⟩ := error_of_mapError h
    exact FailureKind.noConfusion
  cases call with
  | wrap sources buffer =>
    simp only [perform, wrap_native hs, Answer.moved.injEq]
    split
    · exact ⟨hs, by simp⟩
    · split
      · refine ⟨hs, ?_⟩
        rintro buffers f ⟨-, hr⟩
        exact hforward hr
      · obtain ⟨-, hstrategy, -⟩ := drain_fields o.markStarted buffer
        obtain ⟨progress, hr⟩ := result_drain o.markStarted buffer
        exact ⟨hstrategy.trans hs, by simp [hr]⟩
  | unwrap source buffers =>
    simp only [perform, unwrap_native hs, Answer.moved.injEq]
    split
    · exact ⟨hs, by simp⟩
    · refine ⟨hs, ?_⟩
      rintro buffers f ⟨-, hr⟩
      exact hforward hr
  | setProtocols names =>
    refine ⟨?_, by simp [perform]⟩
    simp only [perform, setProtocols, hs]
    split
    · exact hs
    · split
      · exact hs
      · split
        · rfl
        · rfl
  | setSelector selector =>
    refine ⟨?_, by simp [perform]⟩
    simp only [perform, setSelector, hs]
  | _ => exact ⟨hs, by simp [perform]⟩

theorem native_run (hs : o.strategy = .native) : (o.after calls).strategy = .native := by
  induction calls using List.reverseRecOn with
  | nil => exact hs
  | append_singleton calls call ih =>
    rw [after_snoc]
    exact (perform_native ih).1

/-- Without a transcript there is an overlay only where there is nothing to negotiate. -/
theorem strategyFor_overlay_iff {engine : σ} {config : Config} (hh : Engine.hashes engine = false) :
    strategyFor engine config = .ok .overlay ↔
      config.mode = .detect ∧ config.protocols = [] ∧ Engine.isNative engine = false := by
  rw [Engine.hashes] at hh
  simp only [strategyFor, hh, Config.isEnabled]
  cases config.mode with
  | native => cases Engine.isNative engine <;> simp
  | overlay => simp
  | detect => cases Engine.isNative engine <;> simp

/-- A call that moves bytes fails for want of a capability exactly when the list of an overlay
without any was set later and a hello comes to be edited. -/
theorem environment_failure_iff {engine : σ} {config : Config} (law : Steady σ)
    (ho : Overlay.of engine config = .ok o) :
    (∃ first call buffers f, first ++ [call] <+: calls ∧
      ((o.after first).perform call).2 = .moved buffers (.error f) ∧ f.kind = .environment) ↔
    (config.mode = .detect ∧ config.protocols = [] ∧ Engine.isNative engine = false ∧
      Engine.hashes engine = false) ∧
    ∃ first call, first ++ [call] <+: calls ∧ (o.after first).Consults call ∧
      o.Ever first Enables := by
  have hstrategy := (laid_of ho).strategy
  cases hs : o.strategy with
  | native =>
    refine iff_of_false ?_ ?_
    · rintro ⟨first, call, buffers, f, -, hr, hk⟩
      exact (perform_native (native_run hs)).2 buffers f hr hk
    · rintro ⟨⟨hm, hp, hn, hh⟩, -⟩
      rw [(strategyFor_overlay_iff hh).2 ⟨hm, hp, hn⟩, hs] at hstrategy
      cases hstrategy
  | overlay =>
    obtain rfl := of_eq_ok ho hs
    rw [hs] at hstrategy
    have hrun : ∀ first, Equipped ⟨engine, .overlay, { protocols := config.protocols }⟩ first := by
      intro first
      exact equipped_run law ⟨rfl, rfl, fun h => absurd rfl h, .inl⟩
    constructor
    · rintro ⟨first, call, buffers, f, hp, hr, hk⟩
      have h := hrun first
      obtain ⟨hh, hcalls⟩ := (perform_environment_iff law h.strategy).1 ⟨buffers, f, hr, hk⟩
      rw [h.hashes] at hh
      obtain ⟨hmode, hnil, hnative⟩ := (strategyFor_overlay_iff hh).1 hstrategy
      refine ⟨⟨hmode, hnil, hnative, hh⟩, first, call, hp, hcalls, ?_⟩
      rcases h.listed (hcalls.listed fun hsel => (h.chosen hsel).2) with hconfig | hlater
      · exact absurd hnil hconfig
      · exact hlater
    · rintro ⟨⟨-, -, -, hh⟩, first, call, hp, hcalls, -⟩
      have h := hrun first
      obtain ⟨buffers, f, hr, hk⟩ :=
        (perform_environment_iff law h.strategy).2 ⟨h.hashes.trans hh, hcalls⟩
      exact ⟨first, call, buffers, f, hp, hr, hk⟩

end Overlay

namespace Scripted

theorem hashes_eq (e : Scripted) : Engine.hashes e = e.exposed := by
  simp only [Engine.hashes, Engine.transcript?]
  cases e.exposed <;> rfl

theorem exposed_perform (e : Scripted) (call : Call) :
    (Engine.perform e call).1.exposed = e.exposed := by
  have hrefusal : ∀ (changed : Scripted) (refusal : Option String), changed.exposed = e.exposed →
      (e.unlessRefused changed refusal).1.exposed = e.exposed := by
    intro changed refusal h
    cases refusal with
    | none => exact h
    | some text => rfl
  cases call with
  | wrap sources buffer =>
    simp only [Engine.perform, Engine.wrap, wrap]
    repeat' split
    all_goals rfl
  | unwrap source buffers =>
    simp only [Engine.perform, Engine.unwrap, unwrap]
    repeat' split
    all_goals rfl
  | start => exact hrefusal _ _ rfl
  | closeInbound => rfl
  | closeOutbound => rfl
  | setProtocols names => exact hrefusal _ _ rfl
  | setSelector selector => exact hrefusal _ _ rfl

theorem steady : Steady Scripted where
  perform e call := by rw [hashes_eq, hashes_eq, exposed_perform]
  replay e t bytes ht := by
    have he : e.exposed = true := by
      rw [← hashes_eq, Engine.hashes, ht]
      rfl
    simp only [Engine.transcript?, he, if_true, Option.some.injEq] at ht
    subst ht
    rw [hashes_eq]
    exact he

end Scripted

namespace Overlay

/-- A client without a list whose engine writes one hello. -/
def undecided (exposed : Bool) : Scripted :=
  { role := .client
    exposed
    outputs := [.record (Peer.recordOf .handshake (Peer.helloOf .client).encode)] }

/-- The list is set after the overlay was made, and then the hello is produced. -/
def enabling : List Call := [.setProtocols ["h2"], .wrap [] (List.replicate 256 0)]

/-- With a transcript to put right, the list may come later. -/
theorem enabled_with_transcript :
    ∃ o, Overlay.of (undecided true) {} = .ok o ∧ (o.after enabling).session.ownHelloSent = true ∧
      ¬ ∃ first call buffers f, first ++ [call] <+: enabling ∧
        ((o.after first).perform call).2 = .moved buffers (.error f) ∧ f.kind = .environment := by
  have ho : Overlay.of (undecided true) {} = .ok ⟨undecided true, .overlay, {}⟩ := rfl
  refine ⟨_, ho, by decide +kernel, ?_⟩
  intro h
  obtain ⟨⟨-, -, -, hh⟩, -⟩ := (environment_failure_iff Scripted.steady ho).1 h
  cases hh

/-- An overlay that was accepted for want of a list fails once it has one. -/
theorem enabled_without_transcript :
    ∃ o, Overlay.of (undecided false) {} = .ok o ∧
      ((o.after [.setProtocols ["h2"]]).wrap [] (List.replicate 256 0)).result =
        .error (.environment "a handshake transcript") := by
  refine ⟨⟨undecided false, .overlay, {}⟩, rfl, ?_⟩
  decide +kernel

end Overlay
end AlpnOverlay
