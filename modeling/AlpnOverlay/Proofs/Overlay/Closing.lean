import AlpnOverlay.Proofs.Overlay.Episodes
import AlpnOverlay.Proofs.Overlay.Offered

/-!
How a connection ends. A handshake failure closes an overlay and tells the engine once; nothing else
closes it, and nothing opens it again.
-/
namespace AlpnOverlay.Overlay

open Recorded

section Settings

variable {σ : Type} [Engine σ] {o : Overlay σ} {call : Call} {calls : List Call}

theorem isClosed_perform (hm : call.movesBytes = false) :
    (o.perform call).1.isClosed = o.isClosed := by
  obtain ⟨names, hsession, -⟩ := session_perform (o := o) hm
  simp only [isClosed, hsession]

/-- A closed overlay answers for itself and stays as it is. -/
theorem wrap_of_closed (hc : o.isClosed = true) (sources : List Bytes) (buffer : Bytes) :
    o.wrap sources buffer = ⟨o, buffer, .ok (.closed (Engine.phase o.engine))⟩ :=
  if_pos hc

theorem unwrap_of_closed (hc : o.isClosed = true) (source : Bytes) (buffers : List Bytes) :
    o.unwrap source buffers = ⟨o, buffers, .ok (.closed (Engine.phase o.engine))⟩ :=
  if_pos hc

theorem closed_perform (hc : o.isClosed = true) (call : Call) :
    (o.perform call).1.isClosed = true := by
  cases call with
  | wrap sources buffer =>
    simp only [perform, wrap_of_closed hc]
    exact hc
  | unwrap source buffers =>
    simp only [perform, unwrap_of_closed hc]
    exact hc
  | _ => exact (isClosed_perform rfl).trans hc

theorem closed_run (hc : o.isClosed = true) (calls : List Call) :
    (o.after calls).isClosed = true := by
  induction calls using List.reverseRecOn with
  | nil => exact hc
  | append_singleton calls call ih =>
    rw [after_snoc]
    exact closed_perform ih call

end Settings

variable {σ : Type} [Engine σ] {o : Overlay (Recorded σ)} {call : Call} {β : Type}
  {latch : Session → Bool} {outcome : Outcome (Recorded σ) β} {moves ending : List Event}

/-- A call that moves bytes fails, and not for the engine's failure. -/
def Fails (o : Overlay (Recorded σ)) (call : Call) : Prop :=
  ∃ buffers f, (o.perform call).2 = .moved buffers (.error f) ∧ f.kind ≠ .engine

omit [Engine σ] in
theorem Leaves.fails_iff (h : Leaves latch o outcome moves ending) :
    (∃ f, outcome.result = .error f ∧ f.kind ≠ .engine) ↔
      o.session.closed = false ∧ outcome.engine.session.closed = true := by
  cases h.ends with
  | goesOn hr hc =>
    refine iff_of_false ?_ ?_
    · rintro ⟨f, hf, hk⟩
      exact hk (hr f hf)
    · rintro ⟨hbefore, hafter⟩
      cases (hafter.symm.trans hc).trans hbefore
  | replays _ hr hc =>
    refine iff_of_false ?_ ?_
    · rintro ⟨f, hf, -⟩
      cases hr.symm.trans hf
    · rintro ⟨hbefore, hafter⟩
      cases (hafter.symm.trans hc).trans hbefore
  | closes hr hk hbefore hafter => exact iff_of_true ⟨_, hr, hk⟩ ⟨hbefore, hafter⟩

omit [Engine σ] in
/-- The engine is told to close its side by the failure and by nothing else. -/
theorem Leaves.closings_eq (h : Leaves latch o outcome moves ending)
    (hf : ∃ f, outcome.result = .error f ∧ f.kind ≠ .engine) :
    outcome.engine.engine.closings = o.engine.closings + 1 := by
  obtain ⟨f, hr, hk⟩ := hf
  have hmoves : moves.countP Event.isClosing = 0 := by
    rw [List.countP_eq_zero]
    intro event he
    simp [(h.moves event he).not_closing]
  rw [h.follows.closings_eq, List.countP_append, hmoves]
  cases h.ends with
  | goesOn he => exact absurd (he f hr) hk
  | replays _ he => cases he.symm.trans hr
  | closes => rfl

theorem fails_iff_closes :
    Fails o call ↔ o.isClosed = false ∧ (o.perform call).1.isClosed = true := by
  cases call with
  | wrap sources buffer =>
    obtain ⟨moves, ending, h⟩ := leaves_wrap o sources buffer
    simpa [Fails, perform, isClosed] using h.fails_iff
  | unwrap source buffers =>
    obtain ⟨moves, ending, h⟩ := leaves_unwrap o source buffers
    simpa [Fails, perform, isClosed] using h.fails_iff
  | _ =>
    refine iff_of_false ?_ ?_
    · rintro ⟨buffers, f, hr, -⟩
      cases hr
    · rw [isClosed_perform rfl]
      rintro ⟨hbefore, hafter⟩
      cases hbefore.symm.trans hafter

theorem closings_of_fails (h : Fails o call) :
    (o.perform call).1.engine.closings = o.engine.closings + 1 := by
  obtain ⟨buffers, f, hr, hk⟩ := h
  cases call with
  | wrap sources buffer =>
    obtain ⟨moves, ending, h⟩ := leaves_wrap o sources buffer
    exact h.closings_eq ⟨f, (Answer.moved.inj hr).2, hk⟩
  | unwrap source buffers =>
    obtain ⟨moves, ending, h⟩ := leaves_unwrap o source buffers
    exact h.closings_eq ⟨f, (Answer.moved.inj hr).2, hk⟩
  | _ => cases hr

/-- A call closes an overlay exactly when it moves bytes and fails for another reason than the
engine's failure, and the engine is told so once. A closed overlay stays closed: every call that
moves bytes says so, and changes nothing. -/
theorem failure_closes_for_good (o : Overlay (Recorded σ)) (first later : List Call) (call : Call) :
    let p := o.after first
    let q := p.after later
    (Fails p call ↔ p.isClosed = false ∧ (p.after [call]).isClosed = true) ∧
    (Fails p call → (p.after [call]).engine.closings = p.engine.closings + 1) ∧
    (call.movesBytes = false → (p.after [call]).isClosed = p.isClosed) ∧
    (p.isClosed = true → q.isClosed = true ∧
      (∀ sources buffer,
        q.wrap sources buffer = ⟨q, buffer, .ok (.closed (Engine.phase q.engine))⟩) ∧
      ∀ source buffers,
        q.unwrap source buffers = ⟨q, buffers, .ok (.closed (Engine.phase q.engine))⟩) := by
  intro p q
  refine ⟨fails_iff_closes, closings_of_fails, isClosed_perform, ?_⟩
  intro hc
  have hq : q.isClosed = true := closed_run hc later
  exact ⟨hq, wrap_of_closed hq, unwrap_of_closed hq⟩

/-- A client that has sent its hello. -/
def asking : Overlay (Recorded Scripted) :=
  (writing [(Peer.helloOf .client).encode]).after [.wrap [] (List.replicate 256 0)]

/-- The server's hello with a selection that is not in the list. -/
def unoffered : Bytes :=
  Peer.recordOf .handshake
    ((Peer.helloOf .server).add ⟨Wire.Extension.alpn, [0, 3, 2, 0x68, 0x33]⟩).encode

/-- A selection that was not offered ends the connection. -/
theorem unoffered_selection_closes :
    Fails asking (.unwrap unoffered []) ∧
      (asking.after [.unwrap unoffered []]).engine.closings = 1 ∧
      ((asking.after [.unwrap unoffered []]).wrap [] []).result =
        .ok (.closed (Engine.phase (asking.after [.unwrap unoffered []]).engine)) := by
  obtain ⟨hiff, hcount, -, -⟩ := failure_closes_for_good asking [] [] (.unwrap unoffered [])
  obtain ⟨-, -, -, hafter⟩ := failure_closes_for_good asking [.unwrap unoffered []] [] .start
  simp only [after_nil] at hiff hcount hafter
  have hfails := hiff.2 ⟨by decide +kernel, by decide +kernel⟩
  have hbefore : asking.engine.closings = 0 := by decide +kernel
  obtain ⟨-, hwrap, -⟩ := hafter (hiff.1 hfails).2
  refine ⟨hfails, ?_, ?_⟩
  · rw [hcount hfails, hbefore]
  · rw [hwrap]

end AlpnOverlay.Overlay
