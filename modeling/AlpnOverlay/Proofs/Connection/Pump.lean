import AlpnOverlay.Connection
import AlpnOverlay.Overlay.Tower
import AlpnOverlay.Proofs.Overlay.Outcomes

/-!
What one side of a connection does until it waits for its peer: a chain of calls, each of which
moves bytes.
-/
namespace AlpnOverlay.Connection

section Calls

variable {σ : Type} [Engine σ] {capacity m n rounds : Nat} {s t u : End σ}

/-- A call that moves bytes. -/
inductive Moves (capacity : Nat) : End σ → End σ → Prop where
  | sent {engine next : σ} {inbound outbound buffer : Bytes} {progress : Progress}
      (hp : Engine.phase engine = .needWrap)
      (hw : Engine.wrap engine [] (List.replicate capacity 0) = ⟨next, buffer, .ok progress⟩)
      (h0 : progress.produced ≠ 0) :
      Moves capacity ⟨engine, inbound, outbound⟩
        ⟨next, inbound, outbound ++ buffer.take progress.produced⟩
  | received {engine next : σ} {inbound outbound : Bytes} {progress : Progress}
      (hp : Engine.phase engine = .needUnwrap) (hi : inbound ≠ [])
      (hu : Engine.unwrap engine inbound [] = ⟨next, [], .ok progress⟩)
      (h0 : progress.consumed ≠ 0) :
      Moves capacity ⟨engine, inbound, outbound⟩
        ⟨next, inbound.drop progress.consumed, outbound⟩

/-- A chain of `n` calls that move bytes. -/
inductive Reaches (capacity : Nat) : Nat → End σ → End σ → Prop where
  | refl (s : End σ) : Reaches capacity 0 s s
  | step {n : Nat} {s t u : End σ} (h : Moves capacity s t) (hs : Reaches capacity n t u) :
      Reaches capacity (n + 1) s u

/-- A side that has nothing to send and nothing to read. -/
def Rests (s : End σ) : Prop :=
  Engine.phase s.engine ≠ .needWrap ∧ (Engine.phase s.engine = .needUnwrap → s.inbound = [])

theorem Reaches.single (h : Moves capacity s t) : Reaches capacity 1 s t := .step h (.refl t)

theorem Reaches.trans (h : Reaches capacity m s t) (h' : Reaches capacity n t u) :
    Reaches capacity (m + n) s u := by
  induction h with
  | refl => rwa [Nat.zero_add]
  | step hm _ ih =>
    rw [Nat.add_right_comm]
    exact .step hm (ih h')

theorem pump_of_moves (h : Moves capacity s t) (rounds : Nat) (moved : Bool) :
    pump capacity (rounds + 1) s moved = pump capacity rounds t true := by
  cases h with
  | sent hp hw h0 =>
    simp only [pump, hp, hw, h0, if_false]
  | received hp hi hu h0 =>
    simp only [pump, hp, hu, h0, List.isEmpty_eq_false_iff.2 hi, Bool.false_eq_true, if_false]

theorem pump_of_rests (h : Rests s) (rounds : Nat) (moved : Bool) :
    pump capacity (rounds + 1) s moved = (s, .ok moved) := by
  obtain ⟨hw, hu⟩ := h
  simp only [pump]
  split
  · rename_i hp
    exact absurd hp hw
  · rename_i hp
    simp only [hu hp, List.isEmpty_nil, if_true]
  · rfl

theorem pump_of_reaches (h : Reaches capacity n s t) (rounds : Nat) :
    pump capacity (n + rounds) s true = pump capacity rounds t true := by
  induction h with
  | refl => rw [Nat.zero_add]
  | step hm _ ih =>
    rw [Nat.add_right_comm, pump_of_moves hm, ih]

/-- Whatever a side answers when it waits, it answers with every larger bound on its calls. -/
theorem pump_of_ok {moved done : Bool} (h : pump capacity n s moved = (t, .ok done))
    (hn : n ≤ rounds) : pump capacity rounds s moved = (t, .ok done) := by
  induction n generalizing rounds s moved with
  | zero => cases h
  | succ n ih =>
    obtain ⟨rounds, rfl⟩ : ∃ more, rounds = more + 1 := ⟨rounds - 1, by omega⟩
    have hle : n ≤ rounds := by omega
    revert h
    simp only [pump]
    -- Both sides take the same branch; the two that go on have made one call of their bounds.
    repeat' split
    all_goals
      intro h
      first | exact h | exact ih h hle

/-- A side runs until it rests, as long as its calls fit the bound. -/
theorem pump_eq (h : Reaches capacity n s t) (ht : Rests t) (hn : n < rounds) :
    pump capacity rounds s false = (t, .ok (decide (0 < n))) := by
  refine pump_of_ok (n := n + 1) ?_ hn
  cases h with
  | refl => exact pump_of_rests ht ..
  | step hm hs =>
    rw [pump_of_moves hm, pump_of_reaches hs, pump_of_rests ht]
    simp only [Nat.zero_lt_succ, decide_true]

end Calls

section Overlays

open Overlay

variable {σ : Type} [Engine σ] {capacity : Nat} {o next : Overlay σ} {inbound outbound : Bytes}
  {progress : Progress}

theorem phase_of_ready (h : Ready o) : Engine.phase o = Engine.phase o.engine := by
  have hp : Engine.phase o = if o.session.parked.isEmpty then Engine.phase o.engine else .needWrap :=
    rfl
  rw [hp, h.parked, if_pos rfl]

theorem moves_of_wrap {buffer : Bytes} (inbound outbound : Bytes) (hp : Engine.phase o = .needWrap)
    (hw : o.wrap [] (List.replicate capacity 0) = ⟨next, buffer, .ok progress⟩)
    (h0 : progress.produced ≠ 0) :
    Moves capacity ⟨o, inbound, outbound⟩
      ⟨next, inbound, outbound ++ buffer.take progress.produced⟩ := by
  have hw' : Engine.wrap o [] (List.replicate capacity 0) = ⟨next, buffer, .ok progress⟩ :=
    congrArg Reply.toCause hw
  exact .sent hp hw' h0

theorem moves_of_unwrap (capacity : Nat) (outbound : Bytes) (hp : Engine.phase o = .needUnwrap)
    (hi : inbound ≠ [])
    (hu : o.unwrap inbound [] = ⟨next, [], .ok progress⟩) (h0 : progress.consumed ≠ 0) :
    Moves capacity ⟨o, inbound, outbound⟩
      ⟨next, inbound.drop progress.consumed, outbound⟩ := by
  have hu' : Engine.unwrap o inbound [] = ⟨next, [], .ok progress⟩ := congrArg Reply.toCause hu
  exact .received hp hi hu' h0

/-- Parked bytes are delivered before anything else happens. -/
theorem reaches_delivered (bytes inbound outbound : Bytes) (hc : o.session.closed = false)
    (hs : o.session.started = true) (h0 : 0 < capacity) :
    ∃ n ≤ bytes.length, Reaches capacity n ⟨o.holding bytes, inbound, outbound⟩
      ⟨o.holding [], inbound, outbound ++ bytes⟩ := by
  induction hl : bytes.length using Nat.strongRecOn generalizing bytes outbound with
  | ind length ih =>
    by_cases hb : bytes = []
    · subst hb
      rw [List.append_nil]
      exact ⟨0, Nat.zero_le _, .refl _⟩
    · have hpos : 0 < bytes.length := List.length_pos_iff.2 hb
      have hw := wrap_holding [] (List.replicate capacity 0) hc hs hb
        (by rwa [List.length_replicate])
      rw [List.length_replicate] at hw
      have hp : Engine.phase (o.holding bytes) = .needWrap :=
        if_neg (by rw [show (o.holding bytes).session.parked.isEmpty = bytes.isEmpty from rfl,
          List.isEmpty_iff]; exact hb)
      have hm := moves_of_wrap inbound outbound hp hw (by simp only; omega)
      have htake : (bytes.take (min bytes.length capacity) ++
          (List.replicate capacity 0).drop (min bytes.length capacity)).take
            (min bytes.length capacity) = bytes.take (min bytes.length capacity) := by
        rw [List.take_append_of_le_length (by rw [List.length_take]; omega), List.take_take,
          Nat.min_self]
      rw [htake] at hm
      obtain ⟨n, hn, hr⟩ := ih (bytes.drop (min bytes.length capacity)).length
        (by rw [List.length_drop]; omega) (bytes.drop (min bytes.length capacity))
        (outbound ++ bytes.take (min bytes.length capacity)) rfl
      rw [List.append_assoc, List.take_append_drop] at hr
      rw [List.length_drop] at hn
      exact ⟨n + 1, by omega, .step hm hr⟩

/-- An edited hello leaves in as many calls as its stream takes. -/
theorem reaches_edited {edit : Flight.Edit} {engine : σ} (hr : Ready o) (h0 : 0 < capacity)
    (hp : Engine.phase o.engine = .needWrap)
    (hw : (Engine.wrap o.engine [] (List.replicate capacity 0)).result = .ok progress)
    (he : o.editOf (Engine.wrap o.engine [] (List.replicate capacity 0)) = .ok (some edit))
    (hx : Corrects (Engine.wrap o.engine [] (List.replicate capacity 0)).engine edit engine)
    (hs : edit.stream ≠ []) :
    ∃ n, 0 < n ∧ n ≤ edit.stream.length ∧ Reaches capacity n ⟨o, inbound, outbound⟩
      ⟨o.markStarted.markSent.withEngine engine, inbound, outbound ++ edit.stream⟩ := by
  have hslot : (o.markStarted.markSent.withEngine engine).session.parked.bytes = [] := hr.slot
  have hlen : (Engine.wrap o.engine [] (List.replicate capacity 0)).buffer.length = capacity := by
    rw [Engine.wrap_length, List.length_replicate]
  have hout := wrap_edited hr hw he hx
  rw [deliver_eq hslot, hlen] at hout
  have hpos : 0 < edit.stream.length := List.length_pos_iff.2 hs
  have hm := moves_of_wrap inbound outbound
    ((phase_of_ready hr).trans hp) hout (by simp only [List.length_take]; omega)
  rw [List.take_left] at hm
  obtain ⟨n, hn, hreach⟩ := reaches_delivered (edit.stream.drop capacity) inbound
    (outbound ++ edit.stream.take capacity)
    (show (o.markStarted.markSent.withEngine engine).session.closed = false from hr.isOpen) rfl h0
  rw [holding_nil hslot, List.append_assoc, List.take_append_drop] at hreach
  rw [List.length_drop] at hn
  exact ⟨n + 1, Nat.succ_pos n, by omega, .step hm hreach⟩

end Overlays

end AlpnOverlay.Connection
