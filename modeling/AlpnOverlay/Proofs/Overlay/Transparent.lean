import AlpnOverlay.Overlay.Tower
import AlpnOverlay.Proofs.Overlay.Outcomes
import AlpnOverlay.Proofs.Overlay.Sessions

/-!
Overlays with nothing to edit. An overlay over an engine that negotiates itself, or one without a
list, answers every call as its engine does. The engine may be an overlay of its own.
-/
namespace AlpnOverlay

/-- A call that sets what is negotiated. -/
def Call.configures : Call → Bool
  | .setProtocols _ | .setSelector _ => true
  | _ => false

/-- The same answer with another failure. -/
def Answer.mapError {ε ε' : Type} (f : ε → ε') : Answer ε → Answer ε'
  | .moved buffers result => .moved buffers (result.mapError f)
  | .done result => .done (result.mapError f)

/-- A session that shows nothing to the outside. -/
structure Session.Blank (s : Session) : Prop where
  isOpen : s.closed = false
  slot : s.parked.isEmpty = true
  unselected : s.selected = none

namespace Overlay

variable {σ : Type} {o : Overlay σ} {calls first : List Call} {call : Call}
  {sources buffers : List Bytes} {source buffer : Bytes}

/-- There is nothing to edit. -/
def Idle (o : Overlay σ) : Prop := o.strategy = .native ∨ o.session.protocols = []

/-- The overlay stands aside of its engine. -/
structure Aside (o : Overlay σ) : Prop where
  idle : o.Idle
  blank : o.session.Blank

variable [Engine σ]

/-- A call is handed to the engine, and its reply handed back. -/
structure Mirrors (o : Overlay σ) (call : Call) : Prop where
  engine : (o.perform call).1.engine = (Engine.perform o.engine call).1
  answer : (o.perform call).2 = (Engine.perform o.engine call).2.mapError .engine
  strategy : (o.perform call).1.strategy = o.strategy
  protocols : (o.perform call).1.session.protocols = o.session.protocols
  blank : (o.perform call).1.session.Blank

theorem Mirrors.aside (h : Mirrors o call) (ha : o.Aside) : (o.perform call).1.Aside := by
  refine ⟨?_, h.blank⟩
  rcases ha.idle with hs | hp
  · exact .inl (h.strategy.trans hs)
  · exact .inr (h.protocols.trans hp)

theorem mirrors_of_wrap (session : Session) (hb : session.Blank)
    (hp : session.protocols = o.session.protocols)
    (h : o.wrap sources buffer = forward { o with session } (Engine.wrap o.engine sources buffer)) :
    Mirrors o (.wrap sources buffer) := by
  constructor <;> simp only [perform, h]
  · rfl
  · rfl
  · rfl
  · exact hp
  · exact hb

theorem mirrors_of_unwrap (session : Session) (hb : session.Blank)
    (hp : session.protocols = o.session.protocols)
    (h : o.unwrap source buffers =
      forward { o with session } (Engine.unwrap o.engine source buffers)) :
    Mirrors o (.unwrap source buffers) := by
  constructor <;> simp only [perform, h]
  · rfl
  · rfl
  · rfl
  · exact hp
  · exact hb

theorem mirrors_wrap (ha : o.Aside) (sources : List Bytes) (buffer : Bytes) :
    Mirrors o (.wrap sources buffer) := by
  obtain ⟨hc, hslot, hn⟩ := ha.blank
  cases hs : o.strategy with
  | native =>
    refine mirrors_of_wrap o.markStarted.session ⟨hc, hslot, hn⟩ rfl ?_
    simp only [wrap_native hs, hc, hslot, Bool.false_eq_true, if_false, if_true]
    rfl
  | overlay =>
    have hp : o.session.protocols = [] := ha.idle.resolve_left (by simp [hs])
    have hedit : ∀ data, o.outboundEdit data = .ok none := by
      intro data
      cases hr : o.role <;> simp [outboundEdit, hr, hp, hn]
    refine mirrors_of_wrap (o.pass (Engine.wrap o.engine sources buffer)).engine.session
      ⟨hc, hslot, hn⟩ rfl ?_
    rw [wrap_passed ⟨hs, hc, List.isEmpty_iff.1 hslot⟩ (by simp only [editOf, hedit, ite_self])]
    rfl

theorem mirrors_unwrap (ha : o.Aside) (source : Bytes) (buffers : List Bytes) :
    Mirrors o (.unwrap source buffers) := by
  obtain ⟨hc, hslot, hn⟩ := ha.blank
  have hplain : o.unwrap source buffers =
      forward { o with session := o.markStarted.session } (Engine.unwrap o.engine source buffers) →
      Mirrors o (.unwrap source buffers) :=
    mirrors_of_unwrap o.markStarted.session ⟨hc, hslot, hn⟩ rfl
  cases hs : o.strategy with
  | native =>
    apply hplain
    simp only [unwrap_native hs, hc, Bool.false_eq_true, if_false]
    rfl
  | overlay =>
    have hs' : o.markStarted.strategy = .overlay := hs
    have hp : o.markStarted.session.protocols = [] := ha.idle.resolve_left (by simp [hs])
    cases hr : o.role with
    | client =>
      apply hplain
      have hr' : o.markStarted.role = .client := hr
      simp only [unwrap, hc, hs', hr', unwrapClient, hp, List.isEmpty_nil, Bool.or_true,
        Bool.false_eq_true, if_false, if_true]
      rfl
    | server =>
      have hr' : o.markStarted.role = .server := hr
      cases hseen : o.session.peerHelloSeen with
      | true =>
        apply hplain
        have hseen' : o.markStarted.session.peerHelloSeen = true := hseen
        simp only [unwrap, hc, hs', hr', unwrapServer, hseen', Bool.false_eq_true, if_false,
          if_true]
        rfl
      | false =>
        refine mirrors_of_unwrap o.markStarted.markSeen.session ⟨hc, hslot, hn⟩ rfl ?_
        have hseen' : o.markStarted.session.peerHelloSeen = false := hseen
        simp only [unwrap, hc, hs', hr', unwrapServer, hseen', hp, List.isEmpty_nil,
          Bool.false_eq_true, if_false, if_true]
        rfl

theorem mirrors_perform (ha : o.Aside) (hm : call.configures = false) : Mirrors o call := by
  cases call with
  | wrap sources buffer => exact mirrors_wrap ha sources buffer
  | unwrap source buffers => exact mirrors_unwrap ha source buffers
  | start => exact ⟨rfl, rfl, rfl, rfl, ha.blank⟩
  | closeInbound => exact ⟨rfl, rfl, rfl, rfl, ha.blank⟩
  | closeOutbound => exact ⟨rfl, rfl, rfl, rfl, ha.blank⟩
  | setProtocols names => cases hm
  | setSelector selector => cases hm

/-- Call for call, an overlay that stands aside and its engine do the same. -/
theorem run_aside (ha : o.Aside) (hm : ∀ call ∈ calls, call.configures = false) :
    (o.after calls).engine = (Engine.run o.engine calls).1 ∧
    (o.run calls).2 = (Engine.run o.engine calls).2.map (Answer.mapError .engine) ∧
    (o.after calls).Aside ∧ (o.after calls).strategy = o.strategy := by
  induction calls generalizing o with
  | nil => exact ⟨rfl, rfl, ha, rfl⟩
  | cons call calls ih =>
    have h := mirrors_perform ha (hm call List.mem_cons_self)
    obtain ⟨hengine, hanswers, haside, hstrategy⟩ :=
      ih (h.aside ha) fun other ho => hm other (List.mem_cons_of_mem call ho)
    rw [h.engine] at hengine hanswers
    refine ⟨hengine, ?_, haside, hstrategy.trans h.strategy⟩
    simp only [run, Engine.run, List.map_cons, h.answer, hanswers]

/-- A call that leaves nothing to edit found nothing to edit, unless it replaced the list. -/
theorem idle_before (hi : (o.perform call).1.Idle)
    (hp : (o.perform call).1.session.protocols = o.session.protocols) : o.Idle := by
  cases hs : o.strategy with
  | native => exact .inl hs
  | overlay =>
    have hs' : (o.perform call).1.strategy = .overlay := strategy_run hs [call]
    rcases hi with hn | hnil
    · cases hn.symm.trans hs'
    · exact .inr (hp.symm.trans hnil)

omit [Engine σ] in
theorem blank_of_fresh (h : o.session.Sound) (hs : o.session.started = false) :
    o.session.Blank := by
  rw [h.fresh hs]
  exact ⟨rfl, rfl, rfl⟩

theorem protocols_of_moves (hs : o.strategy = .overlay) (hm : call.movesBytes = true) :
    (o.perform call).1.session.protocols = o.session.protocols := by
  cases call with
  | wrap sources buffer => exact (wraps_wrap hs sources buffer).frame.2.1
  | unwrap source buffers => exact (unwraps_unwrap hs source buffers).frame.2.1
  | _ => cases hm

/-- Where there is nothing to edit nothing has been edited, whatever the list was before. -/
theorem blank_perform (h : o.session.Sound) (hb : o.Idle → o.session.Blank)
    (hi : (o.perform call).1.Idle) : (o.perform call).1.session.Blank := by
  cases hm : call.movesBytes with
  | true =>
    have hidle : o.Idle := by
      cases hs : o.strategy with
      | native => exact .inl hs
      | overlay => exact idle_before hi (protocols_of_moves hs hm)
    have hc : call.configures = false := by
      cases call with
      | setProtocols names => cases hm
      | setSelector selector => cases hm
      | _ => rfl
    exact (mirrors_perform ⟨hidle, hb hidle⟩ hc).blank
  | false =>
    obtain ⟨names, hsession, hnames⟩ := session_perform (o := o) hm
    have hblank : o.session.Blank := by
      rcases hnames with hsame | ⟨hs, -⟩
      · refine hb (idle_before hi ?_)
        rw [hsession]
        exact hsame
      · exact blank_of_fresh h hs
    rw [hsession]
    exact ⟨hblank.isOpen, hblank.slot, hblank.unselected⟩

theorem aside_run {engine : σ} {config : Config} (ho : Overlay.of engine config = .ok o)
    (hi : (o.after calls).Idle) : (o.after calls).Aside := by
  have hsound := sound_of ho
  have hrun : (o.after calls).Idle → (o.after calls).session.Blank := by
    clear hi
    induction calls using List.reverseRecOn with
    | nil =>
      intro _
      rw [after_nil, (laid_of ho).session]
      exact ⟨rfl, rfl, rfl⟩
    | append_singleton calls call ih =>
      rw [after_snoc]
      exact blank_perform (sound_run hsound calls) ih
  exact ⟨hi, hrun hi⟩

/-- Where there is nothing to edit, every call is answered as the engine answers it, and its failures
are handed back as causes. Nothing is closed or parked, and an engine that negotiates itself is
asked for the protocol. -/
theorem idle_overlay_transparent {engine : σ} {config : Config}
    (ho : Overlay.of engine config = .ok o) (hi : (o.after first).Idle)
    (hm : ∀ call ∈ calls, call.configures = false) :
    let p := o.after first
    (p.run calls).2 = (Engine.run p.engine calls).2.map (Answer.mapError .engine) ∧
    ∀ early, early <+: calls →
      let q := p.after early
      let e := (Engine.run p.engine early).1
      q.engine = e ∧ q.phase = Engine.phase e ∧ q.isClosed = false ∧
      q.session.parked.isEmpty = true ∧
      (p.strategy = .native → q.protocol =
        if (Engine.phase e).isHandshaking then .error .notNegotiated
        else .ok (Engine.protocol? e)) := by
  intro p
  have ha : p.Aside := aside_run ho hi
  refine ⟨(run_aside ha hm).2.1, ?_⟩
  intro early hearly q e
  obtain ⟨hengine, -, haside, hstrategy⟩ :=
    run_aside ha fun call hc => hm call (hearly.subset hc)
  have hslot : q.session.parked.isEmpty = true := haside.blank.slot
  refine ⟨hengine, ?_, haside.blank.isOpen, hslot, ?_⟩
  · rw [phase, if_pos hslot]
    exact congrArg Engine.phase hengine
  · intro hs
    have hs' : q.strategy = .native := hstrategy.trans hs
    have hengine' : q.engine = e := hengine
    simp only [protocol, hs', hengine']

/-- An overlay over another one leaves the offer to it, and the bytes that have to wait. -/
theorem nested_overlay_transparent :
    let calls := [.wrap [] (List.replicate 119 0)]
    ∃ o, Overlay.of offering { protocols := ["h2"] } = .ok o ∧
      (o.run calls).2 = (Engine.run o.engine calls).2.map (Answer.mapError .engine) ∧
      (o.after calls).engine.session.parked.isEmpty = false ∧
      (o.after calls).session.parked.isEmpty = true ∧ (o.after calls).phase = .needWrap := by
  intro calls
  let o : Overlay (Overlay (Recorded Peer)) := ⟨offering, .native, { protocols := ["h2"] }⟩
  have ho : Overlay.of offering { protocols := ["h2"] } = .ok o := rfl
  have hi : (o.after []).Idle := .inl rfl
  have hm : ∀ call ∈ calls, call.configures = false := by decide
  obtain ⟨hanswers, h⟩ := idle_overlay_transparent ho hi hm
  obtain ⟨-, hphase, -, hslot, -⟩ := h calls (List.prefix_refl _)
  refine ⟨o, ho, hanswers, by decide +kernel, hslot, hphase.trans ?_⟩
  decide +kernel

end Overlay
end AlpnOverlay
