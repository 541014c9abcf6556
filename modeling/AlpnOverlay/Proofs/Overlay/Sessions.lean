import AlpnOverlay.Proofs.Overlay.Runs

/-!
What an overlay remembers, over a whole run. Flags are only set, a list stays once bytes have moved,
and a selection stays once the peer's hello has been looked at.
-/
namespace AlpnOverlay

namespace Session

variable {s t u : Session}

/-- What holds of a session at any time. -/
structure Sound (s : Session) : Prop where
  sendable : Config.checkList s.protocols = .ok ()
  listed : ∀ p, s.selected = some p → p ∈ s.protocols
  looked : s.selected ≠ none → s.peerHelloSeen = true
  parked : s.parked.isEmpty = false → s.ownHelloSent = true
  fresh : s.started = false → s = { protocols := s.protocols }

/-- A session and a later state of it. -/
structure Precedes (s t : Session) : Prop where
  seen : s.peerHelloSeen = true → t.peerHelloSeen = true
  sent : s.ownHelloSent = true → t.ownHelloSent = true
  started : s.started = true → t.started = true
  closed : s.closed = true → t.closed = true
  frozen : s.started = true → t.protocols = s.protocols
  decided : s.peerHelloSeen = true → t.selected = s.selected

theorem Precedes.refl (s : Session) : Precedes s s := ⟨id, id, id, id, fun _ => rfl, fun _ => rfl⟩

theorem Precedes.trans (h : Precedes s t) (h' : Precedes t u) : Precedes s u where
  seen hs := h'.seen (h.seen hs)
  sent hs := h'.sent (h.sent hs)
  started hs := h'.started (h.started hs)
  closed hs := h'.closed (h.closed hs)
  frozen hs := (h'.frozen (h.started hs)).trans (h.frozen hs)
  decided hs := (h'.decided (h.seen hs)).trans (h.decided hs)

/-- What one call may do to a session. -/
structure Step (s t : Session) : Prop extends Precedes s t where
  relisted : t.protocols = s.protocols ∨
    s.started = false ∧ Config.checkList t.protocols = .ok ()
  selects : t.selected = s.selected ∨
    t.peerHelloSeen = true ∧ ∀ p, t.selected = some p → p ∈ t.protocols
  parks : t.parked.isEmpty = false → s.parked.isEmpty = false ∨ t.ownHelloSent = true
  waits : t.started = false → t = { s with protocols := t.protocols }

/-- Output sets its own flags and fills or empties the slot. -/
theorem Step.output {sent closed : Bool} {parked : Parked}
    (hsent : s.ownHelloSent = true → sent = true)
    (hclosed : s.closed = true → closed = true)
    (hparked : parked.isEmpty = false → s.parked.isEmpty = false ∨ sent = true) :
    Step s { s with started := true, ownHelloSent := sent, closed, parked } where
  seen := id
  sent := hsent
  started _ := rfl
  closed := hclosed
  frozen _ := rfl
  decided _ := rfl
  relisted := .inl rfl
  selects := .inl rfl
  parks := hparked
  waits h := by cases h

/-- Input sets its own flags and may make a selection, once. -/
theorem Step.input {seen closed : Bool} {selected : Option String}
    (hseen : s.peerHelloSeen = true → seen = true ∧ selected = s.selected)
    (hclosed : s.closed = true → closed = true)
    (hselected : selected = s.selected ∨
      seen = true ∧ ∀ p, selected = some p → p ∈ s.protocols) :
    Step s { s with started := true, peerHelloSeen := seen, closed, selected } where
  seen hs := (hseen hs).1
  sent := id
  started _ := rfl
  closed := hclosed
  frozen _ := rfl
  decided hs := (hseen hs).2
  relisted := .inl rfl
  selects := hselected
  parks := .inl
  waits h := by cases h

theorem Step.refl (s : Session) : Step s s where
  toPrecedes := .refl s
  relisted := .inl rfl
  selects := .inl rfl
  parks := .inl
  waits _ := rfl

theorem Step.relist {names : List String}
    (hn : names = s.protocols ∨ s.started = false ∧ Config.checkList names = .ok ()) :
    Step s { s with protocols := names } where
  seen := id
  sent := id
  started := id
  closed := id
  frozen hs := by
    rcases hn with hn | ⟨hs', -⟩
    · exact hn
    · cases hs'.symm.trans hs
  decided _ := rfl
  relisted := hn
  selects := .inl rfl
  parks := .inl
  waits _ := rfl

/-- A list that is replaced in front of the first bytes meets no selection. -/
theorem Sound.unselected (h : Sound s) (hs : s.started = false) : s.selected = none := by
  rw [h.fresh hs]

theorem Step.sound (h : Step s t) (hs : Sound s) : Sound t where
  sendable := by
    rcases h.relisted with hp | ⟨-, hp⟩
    · rw [hp]
      exact hs.sendable
    · exact hp
  listed := by
    intro p hp
    rcases h.selects with hsame | ⟨-, hnew⟩
    · rw [hsame] at hp
      rcases h.relisted with hl | ⟨hn, -⟩
      · rw [hl]
        exact hs.listed p hp
      · rw [hs.unselected hn] at hp
        cases hp
    · exact hnew p hp
  looked := by
    intro hne
    rcases h.selects with hsame | ⟨hseen, -⟩
    · rw [hsame] at hne
      exact h.seen (hs.looked hne)
    · exact hseen
  parked := by
    intro hp
    rcases h.parks hp with hbefore | hnow
    · exact h.sent (hs.parked hbefore)
    · exact hnow
  fresh := by
    intro ht
    have hwaits := h.waits ht
    have hbefore : s.started = false := by
      rw [hwaits] at ht
      exact ht
    rw [hs.fresh hbefore] at hwaits
    exact hwaits

end Session

namespace Overlay

variable {σ : Type} [Engine σ] {o : Overlay σ} {sources buffers : List Bytes}
  {source buffer : Bytes} {call : Call} {calls : List Call}

theorem Wraps.step {outcome : Outcome σ Bytes} (h : Wraps o sources buffer outcome) :
    Session.Step o.session outcome.engine.session := by
  cases h with
  | closed => exact .refl _
  | drained hc hp =>
    obtain ⟨-, -, parked, hsession⟩ := drain_fields o.markStarted buffer
    rw [hsession]
    exact .output id id fun _ => .inl hp
  | passed => exact .output (fun hs => by simp [sentAfter, hs]) id .inl
  | refused => exact .output id (fun _ => rfl) .inl
  | abandoned => exact .output id (fun _ => rfl) .inl
  | @edited progress edit engine =>
    obtain ⟨-, -, parked, hsession⟩ := deliver_fields (o.markStarted.markSent.withEngine engine)
      edit.stream (Engine.wrap o.engine sources buffer).buffer progress
    rw [hsession]
    exact .output (fun _ => rfl) id fun _ => .inr rfl

theorem Reads.step {session : Session} (h : Reads o source session) :
    Session.Step o.session session := by
  cases h with
  | ignored => exact .input (fun hs => ⟨hs, rfl⟩) id (.inl rfl)
  | noticed => exact .input (fun _ => ⟨rfl, rfl⟩) id (.inl rfl)
  | @offered names hn =>
    refine .input (fun hs => ?_) id (.inr ⟨rfl, fun p hp => ?_⟩)
    · cases hn.symm.trans hs
    · obtain ⟨offered, -, hc⟩ := Option.bind_eq_some_iff.1 hp
      exact Flight.mem_of_choose hc

theorem Unwraps.step {outcome : Outcome σ (List Bytes)} (h : Unwraps o source buffers outcome) :
    Session.Step o.session outcome.engine.session := by
  have hstays : ∀ {closed : Bool}, (o.session.closed = true → closed = true) →
      Session.Step o.session { o.markStarted.session with closed } :=
    fun hclosed => .input (fun hs => ⟨hs, rfl⟩) hclosed (.inl rfl)
  cases h with
  | closed => exact .refl _
  | waited => exact hstays id
  | refused => exact hstays fun _ => rfl
  | passed _ _ hs => exact hs.step
  | idle => exact hstays id
  | cut => exact hstays fun _ => rfl
  | abandoned => exact hstays fun _ => rfl
  | stripped _ hs =>
    refine .input (fun hseen => ?_) id (.inr ⟨rfl, fun p hp => ?_⟩)
    · cases hs.unseen.symm.trans hseen
    · cases hp
      exact List.mem_of_find?_eq_some hs.configured

theorem step_wrap (o : Overlay σ) (sources : List Bytes) (buffer : Bytes) :
    Session.Step o.session (o.wrap sources buffer).engine.session := by
  cases hs : o.strategy with
  | overlay => exact (wraps_wrap hs sources buffer).step
  | native =>
    rw [wrap_native hs]
    split
    · exact .refl _
    · split
      · exact .output id id .inl
      · rename_i hp
        obtain ⟨-, -, parked, hsession⟩ := drain_fields o.markStarted buffer
        rw [hsession]
        exact .output id id fun _ => .inl (Bool.eq_false_iff.2 hp)

theorem step_unwrap (o : Overlay σ) (source : Bytes) (buffers : List Bytes) :
    Session.Step o.session (o.unwrap source buffers).engine.session := by
  cases hs : o.strategy with
  | overlay => exact (unwraps_unwrap hs source buffers).step
  | native =>
    rw [unwrap_native hs]
    split
    · exact .refl _
    · exact .input (fun h => ⟨h, rfl⟩) id (.inl rfl)

theorem step_perform (o : Overlay σ) (call : Call) :
    Session.Step o.session (o.perform call).1.session := by
  cases hm : call.movesBytes with
  | false =>
    obtain ⟨names, hsession, hnames⟩ := session_perform (o := o) hm
    rw [hsession]
    exact .relist hnames
  | true =>
    cases call with
    | wrap sources buffer => exact step_wrap o sources buffer
    | unwrap source buffers => exact step_unwrap o source buffers
    | _ => cases hm

theorem precedes_run (o : Overlay σ) (calls : List Call) :
    o.session.Precedes (o.after calls).session := by
  induction calls using List.reverseRecOn with
  | nil => exact .refl _
  | append_singleton calls call ih =>
    rw [after_snoc]
    exact ih.trans (step_perform _ call).toPrecedes

theorem sound_run (h : o.session.Sound) (calls : List Call) : (o.after calls).session.Sound := by
  induction calls using List.reverseRecOn with
  | nil => exact h
  | append_singleton calls call ih =>
    rw [after_snoc]
    exact (step_perform _ call).sound ih

/-- An overlay starts with a list that can be sent, and nothing done. -/
theorem sound_of {engine : σ} {config : Config} (ho : Overlay.of engine config = .ok o) :
    o.session.Sound := by
  have h := laid_of ho
  rw [h.session]
  exact ⟨h.check, by simp, by simp, by simp [Parked.isEmpty], fun _ => rfl⟩

end Overlay
end AlpnOverlay
