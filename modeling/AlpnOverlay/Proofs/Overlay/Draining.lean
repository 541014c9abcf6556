import AlpnOverlay.Proofs.Overlay.Closing
import AlpnOverlay.Proofs.Overlay.Sessions

/-!
How parked bytes get out. A caller that asks for output as long as the handshake waits for it gets
them all, unless a failure has closed the overlay in between: then they stay where they are.
-/
namespace AlpnOverlay.Overlay

section Slot

variable {σ : Type} [Engine σ] {o : Overlay σ} {calls : List Call} {sources : List Bytes}
  {buffer : Bytes}

/-- Calls for output, each with a buffer that takes something. -/
def Pulls (calls : List Call) : Prop :=
  ∀ call ∈ calls, ∃ sources buffer, call = .wrap sources buffer ∧ buffer ≠ []

/-- A run that takes everything out of the slot, and nothing out of the engine. -/
structure Empties (o : Overlay σ) (calls : List Call) : Prop where
  taken : delivered (o.history calls) = o.session.parked.bytes
  slot : (o.after calls).session.parked.isEmpty = true
  engine : (o.after calls).engine = o.engine
  isOpen : (o.after calls).isClosed = false
  waits : ∀ first, first <+: calls → first ≠ calls → (o.after first).phase = .needWrap
  short : calls.length ≤ o.session.parked.length

theorem phase_of_parked (hp : o.session.parked.isEmpty = false) : o.phase = .needWrap :=
  if_neg (Bool.eq_false_iff.1 hp)

/-- An open overlay gives what is parked, whatever it does with hellos. -/
theorem wrap_parked (hc : o.isClosed = false) (hp : o.session.parked.isEmpty = false) :
    o.wrap sources buffer = o.markStarted.drain buffer := by
  have hc : o.session.closed ≠ true := Bool.eq_false_iff.1 hc
  have hp : o.markStarted.session.parked.isEmpty ≠ true := Bool.eq_false_iff.1 hp
  simp only [wrap, if_neg hc, if_neg hp]

theorem produced_drain (hb : buffer ≠ []) :
    (o.drain buffer).produced = min o.session.parked.length buffer.length := by
  have hb : buffer.isEmpty ≠ true := Bool.eq_false_iff.1 (List.isEmpty_eq_false_iff.2 hb)
  simp only [drain, if_neg hb]
  rfl

omit [Engine σ] in
/-- What is left in the slot is what has not been produced. -/
theorem Drains.length {outcome : Outcome σ Bytes} (h : Drains o outcome)
    (hl : outcome.produced ≤ outcome.buffer.length) :
    outcome.engine.session.parked.length + outcome.produced = o.session.parked.length := by
  have hslot := congrArg List.length h.slot
  rw [List.length_append, Reply.output, List.length_take, Nat.min_eq_left hl] at hslot
  simp only [Parked.length]
  omega

/-- One pull makes the slot shorter, and leaves the overlay open. -/
theorem pull_shortens (sources : List Bytes) (hc : o.isClosed = false)
    (hp : o.session.parked.isEmpty = false)
    (hb : buffer ≠ []) :
    Drains o (o.wrap sources buffer) ∧ 0 < (o.wrap sources buffer).produced ∧
      (o.wrap sources buffer).engine.session.parked.length + (o.wrap sources buffer).produced =
        o.session.parked.length ∧
      (o.wrap sources buffer).engine.isClosed = false := by
  have hproduced := produced_drain (o := o.markStarted) hb
  have hlength := length_wrap o sources buffer
  rw [wrap_parked hc hp] at hlength ⊢
  obtain ⟨hengine, hslot, hanswer⟩ := drains_drain o.markStarted buffer
  have hdrains : Drains o (o.markStarted.drain buffer) := ⟨hengine, hslot, hanswer⟩
  have hparked : 0 < o.markStarted.session.parked.length :=
    List.length_pos_iff.2 (List.isEmpty_eq_false_iff.1 hp)
  have hbuffer : 0 < buffer.length := List.length_pos_iff.2 hb
  refine ⟨hdrains, by omega, hdrains.length (by omega), ?_⟩
  obtain ⟨-, -, parked, hsession⟩ := drain_fields o.markStarted buffer
  rw [isClosed, hsession]
  exact hc

theorem empties_nil (hc : o.isClosed = false) (hp : o.session.parked.isEmpty = true) :
    Empties o [] where
  taken := (List.isEmpty_iff.1 hp).symm
  slot := hp
  engine := rfl
  isOpen := hc
  waits _ hf hne := absurd (List.prefix_nil.1 hf) hne
  short := Nat.zero_le _

theorem delivered_cons :
    delivered (o.history (.wrap sources buffer :: calls)) =
      (o.wrap sources buffer).output ++
        delivered ((o.wrap sources buffer).engine.history calls) := by
  have hhead : delivered (o.history [.wrap sources buffer]) = (o.wrap sources buffer).output :=
    @delivered_wrap σ _ o [] sources buffer
  rw [← hhead, ← delivered_append]
  rfl

/-- A pull in front of a run that empties what the pull has left. -/
theorem Empties.cons (hp : o.session.parked.isEmpty = false)
    (hd : Drains o (o.wrap sources buffer)) (h0 : 0 < (o.wrap sources buffer).produced)
    (hl : (o.wrap sources buffer).engine.session.parked.length +
      (o.wrap sources buffer).produced = o.session.parked.length)
    (h : Empties (o.wrap sources buffer).engine calls) :
    Empties o (.wrap sources buffer :: calls) where
  taken := by rw [delivered_cons, h.taken, hd.slot]
  slot := h.slot
  engine := h.engine.trans hd.engine
  isOpen := h.isOpen
  waits := by
    intro first hf hne
    cases first with
    | nil => exact phase_of_parked hp
    | cons call first =>
      obtain ⟨rfl, hfirst⟩ := List.cons_prefix_cons.1 hf
      exact h.waits first hfirst fun heq => hne (by rw [heq])
  short := by
    have hshort := h.short
    rw [List.length_cons]
    omega

/-- As many pulls as bytes are parked are enough, however small the buffers are. -/
theorem pulls_empty (hc : o.isClosed = false) (hpulls : Pulls calls)
    (hl : o.session.parked.length ≤ calls.length) : ∃ first, first <+: calls ∧ Empties o first := by
  induction calls generalizing o with
  | nil =>
    have hp : o.session.parked.isEmpty = true :=
      List.isEmpty_iff.2 (List.length_eq_zero_iff.1 (Nat.le_zero.1 hl))
    exact ⟨[], List.nil_prefix, empties_nil hc hp⟩
  | cons call calls ih =>
    rcases hp : o.session.parked.isEmpty with _ | _
    · obtain ⟨sources, buffer, rfl, hb⟩ := hpulls call List.mem_cons_self
      obtain ⟨hdrains, h0, hshorter, hopen⟩ := pull_shortens sources hc hp hb
      have hmore : Pulls calls := fun call hcall => hpulls call (List.mem_cons_of_mem _ hcall)
      rw [List.length_cons] at hl
      obtain ⟨first, hf, hempties⟩ := ih hopen hmore (by omega)
      exact ⟨_, List.cons_prefix_cons.2 ⟨rfl, hf⟩, hempties.cons hp hdrains h0 hshorter⟩
    · exact ⟨[], List.nil_prefix, empties_nil hc hp⟩

/-- A closed overlay keeps what is parked, whatever is asked of it. -/
theorem parked_of_closed (hc : o.isClosed = true) (calls : List Call) :
    (o.after calls).session.parked = o.session.parked := by
  induction calls using List.reverseRecOn with
  | nil => rfl
  | append_singleton calls call ih =>
    have hclosed := closed_run hc calls
    have hmanaged : call.movesBytes = false →
        ((o.after calls).perform call).1.session.parked = (o.after calls).session.parked := by
      intro hm
      obtain ⟨names, hsession, -⟩ := session_perform (o := o.after calls) hm
      rw [hsession]
    rw [after_snoc, ← ih]
    cases call with
    | wrap sources buffer => simp only [perform, wrap_of_closed hclosed]
    | unwrap source buffers => simp only [perform, unwrap_of_closed hclosed]
    | _ => exact hmanaged rfl

end Slot

variable {σ : Type} [Engine σ] {o : Overlay (Recorded σ)} {calls : List Call}

/-- An overlay is closed as soon as one call has failed for another reason than the engine's. -/
theorem isClosed_iff_ever (hc : o.isClosed = false) (calls : List Call) :
    (o.after calls).isClosed = true ↔ o.Ever calls Fails := by
  constructor
  · intro hafter
    induction calls using List.reverseRecOn with
    | nil => cases hc.symm.trans hafter
    | append_singleton calls call ih =>
      rw [after_snoc] at hafter
      rcases hbefore : (o.after calls).isClosed with _ | _
      · exact ever_last (fails_iff_closes.2 ⟨hbefore, hafter⟩)
      · exact (ih hbefore).extend call
  · rintro ⟨first, call, ⟨later, rfl⟩, hfails⟩
    rw [after_append, after_snoc]
    exact closed_run (fails_iff_closes.1 hfails).2 later

/-- While bytes are parked the handshake waits for output. Each call for output takes some of them
exactly as long as no call has failed but for the engine's failures, and a caller that goes on like
that gets them all. After another failure the handshake waits for output for ever: calls for it say
that the connection is closed, and the bytes stay where they are. -/
theorem parked_output_drains {engine : σ} {config : Config}
    (ho : Overlay.of (⟨engine, []⟩ : Recorded σ) config = .ok o) (calls : List Call)
    (hp : (o.after calls).session.parked.isEmpty = false) :
    let p := o.after calls
    p.phase = .needWrap ∧
    ((∀ sources buffer, buffer ≠ [] → 0 < (p.wrap sources buffer).produced ∧
        (p.wrap sources buffer).engine.session.parked.length < p.session.parked.length) ↔
      ¬ o.Ever calls Fails) ∧
    (¬ o.Ever calls Fails →
      (∀ sources buffer, buffer ≠ [] →
        Drains p (p.wrap sources buffer) ∧ 0 < (p.wrap sources buffer).produced ∧
        (p.wrap sources buffer).engine.session.parked.length +
          (p.wrap sources buffer).produced = p.session.parked.length) ∧
      ∀ pulls, Pulls pulls → p.session.parked.length ≤ pulls.length →
        ∃ first, first <+: pulls ∧ Empties p first) ∧
    (o.Ever calls Fails → ∀ later,
      let q := p.after later
      q.phase = .needWrap ∧ q.session.parked = p.session.parked ∧ ∀ sources buffer,
        q.wrap sources buffer = ⟨q, buffer, .ok (.closed (Engine.phase q.engine))⟩) := by
  intro p
  have hopen : o.isClosed = false := by
    rw [isClosed, (laid_of ho).session]
  have hiff := isClosed_iff_ever hopen calls
  have hc : ¬ o.Ever calls Fails → p.isClosed = false :=
    fun hnever => Bool.eq_false_iff.2 fun hclosed => hnever (hiff.1 hclosed)
  refine ⟨phase_of_parked hp, ⟨?_, ?_⟩, ?_, ?_⟩
  · intro hshortens hever
    have hpull := (hshortens [] [0] (List.cons_ne_nil _ _)).1
    rw [wrap_of_closed (hiff.2 hever)] at hpull
    exact absurd hpull (Nat.lt_irrefl 0)
  · intro hnever sources buffer hb
    obtain ⟨-, h0, hshorter, -⟩ := pull_shortens sources (hc hnever) hp hb
    exact ⟨h0, by omega⟩
  · intro hnever
    constructor
    · intro sources buffer hb
      obtain ⟨hdrains, h0, hshorter, -⟩ := pull_shortens sources (hc hnever) hp hb
      exact ⟨hdrains, h0, hshorter⟩
    · intro pulls hpulls hl
      exact pulls_empty (hc hnever) hpulls hl
  · intro hever later
    have hclosed : p.isClosed = true := hiff.2 hever
    have hparked := parked_of_closed hclosed later
    refine ⟨phase_of_parked ?_, hparked, wrap_of_closed (closed_run hclosed later)⟩
    rw [hparked]
    exact hp

/-- The last two bytes of a hello are fetched one by one. -/
theorem parked_output_drains_hello :
    let o := writing [(Peer.helloOf .client).encode]
    (o.after dribble).session.parked.bytes = [0x68, 0x32] ∧ (o.after dribble).phase = .needWrap ∧
      ∃ first, first <+: List.replicate 5 (.wrap [] [0]) ∧ Empties (o.after dribble) first := by
  intro o
  have ho : Overlay.of o.engine { protocols := ["h2"], mode := .overlay } = .ok o := rfl
  have hbytes : (o.after dribble).session.parked.bytes = [0x68, 0x32] := by decide +kernel
  have hlength : (o.after dribble).session.parked.length = 2 := congrArg List.length hbytes
  have hp : (o.after dribble).session.parked.isEmpty = false := by
    rw [Parked.isEmpty, hbytes]
    rfl
  have hbefore : o.isClosed = false := rfl
  have hafter : ¬ (o.after dribble).isClosed = true := by decide +kernel
  have hpulls : Pulls (List.replicate 5 (.wrap [] [0])) := by
    intro call hcall
    exact ⟨[], [0], List.eq_of_mem_replicate hcall, List.cons_ne_nil _ _⟩
  obtain ⟨hphase, -, hdrains, -⟩ := parked_output_drains ho dribble hp
  obtain ⟨-, hall⟩ := hdrains ((isClosed_iff_ever hbefore dribble).not.1 hafter)
  refine ⟨hbytes, hphase, hall _ hpulls ?_⟩
  rw [hlength, List.length_replicate]
  omega

/-- After a failure the handshake still waits for output, and no output comes. -/
theorem parked_output_stays :
    let o := writing [(Peer.helloOf .client).encode]
    let p := o.after (dribble ++ [.unwrap unoffered []])
    Overlay.of o.engine { protocols := ["h2"], mode := .overlay } = .ok o ∧
      p.session.parked.isEmpty = false ∧ p.phase = .needWrap ∧ (p.wrap [] [0]).produced = 0 ∧
      (p.wrap [] [0]).engine.session.parked = p.session.parked := by
  refine ⟨rfl, ?_⟩
  decide +kernel

end AlpnOverlay.Overlay
