import AlpnOverlay.Peer
import AlpnOverlay.Proofs.Flight.Editing
import AlpnOverlay.Proofs.Overlay.Recording

/-!
What leaves an overlay. The outputs of the engine go out whole, once and in their order; at most
one of them is replaced by its edited stream, and what a buffer does not take waits in the slot.
-/
namespace AlpnOverlay

namespace Recorded

variable {σ : Type} [Engine σ] {r : Recorded σ} {source buffer : Bytes}
  {sources buffers : List Bytes}

theorem outputs_wrap_ok {progress : Progress}
    (h : (Engine.wrap r sources buffer).result = .ok progress) :
    (Engine.wrap r sources buffer).engine.outputs =
      r.outputs ++ [(Engine.wrap r sources buffer).output] := by
  have h' : (Engine.wrap r.engine sources buffer).result = .ok progress := h
  simp only [Reply.output, Reply.produced, h]
  simp only [outputs, Engine.wrap, after, List.filterMap_append, List.filterMap_cons, h',
    List.filterMap_nil]

theorem outputs_wrap_error {cause : Cause}
    (h : (Engine.wrap r sources buffer).result = .error cause) :
    (Engine.wrap r sources buffer).engine.outputs = r.outputs := by
  have h' : (Engine.wrap r.engine sources buffer).result = .error cause := h
  simp [outputs, Engine.wrap, after, h']

theorem outputs_unwrap : (Engine.unwrap r source buffers).engine.outputs = r.outputs := by
  simp [outputs, Engine.unwrap, after]

theorem outputs_closeOutbound : (Engine.closeOutbound r).outputs = r.outputs := by
  simp [outputs, Engine.closeOutbound, after]

end Recorded

namespace Overlay

section Slot

variable {σ : Type} {o : Overlay σ} {stream buffer : Bytes} {progress : Progress}

theorem deliver_eq (hp : o.session.parked.bytes = []) :
    o.deliver stream buffer progress =
      ⟨{ o with session.parked := ⟨stream.drop buffer.length⟩ },
        stream.take buffer.length ++ buffer.drop (stream.take buffer.length).length,
        .ok { progress with
          produced := (stream.take buffer.length).length
          phase := if stream.length > buffer.length then .needWrap else progress.phase }⟩ := by
  simp only [deliver, Flight.Delivery.of, Parked.park_of_isEmpty (Parked.isEmpty_iff.2 hp)]
  by_cases h : stream.length > buffer.length
  · simp only [h, if_true]
  · have hd : stream.drop buffer.length = [] := List.drop_eq_nil_of_le (Nat.le_of_not_gt h)
    have ht : stream.take buffer.length = stream := List.take_of_length_le (Nat.le_of_not_gt h)
    have ho : ({ o with session.parked := ⟨[]⟩ } : Overlay σ) = o := by
      obtain ⟨_, _, _, _, _, _, ⟨_⟩, _, _⟩ := o
      cases hp
      rfl
    simp only [h, if_false, hd, ht, ho]

/-- What an edited stream leaves in the slot is what the buffer did not take. -/
theorem deliver_output (hp : o.session.parked.bytes = []) :
    (o.deliver stream buffer progress).output ++
      (o.deliver stream buffer progress).engine.session.parked.bytes = stream := by
  rw [deliver_eq hp]
  simp only [Reply.output, Reply.produced, List.take_left, List.take_append_drop]

/-- With an empty slot, an edited stream leaves or is parked. -/
theorem deliver_moved (hp : o.session.parked.isEmpty = true) :
    (o.deliver stream buffer progress).output ++
      (o.deliver stream buffer progress).engine.session.parked.bytes =
        o.session.parked.bytes ++ stream := by
  rw [deliver_output (Parked.isEmpty_iff.1 hp), Parked.isEmpty_iff.1 hp, List.nil_append]

/-- The assertion on the slot fails when there is something to park and the slot is in use. -/
theorem deliver_eq_slotTaken_iff :
    (o.deliver stream buffer progress).result = .error slotTaken ↔
      buffer.length < stream.length ∧ o.session.parked.isEmpty = false := by
  simp only [deliver, Flight.Delivery.of, Parked.park]
  by_cases h : stream.length > buffer.length
  · simp only [h, if_true, true_and]
    cases o.session.parked.isEmpty <;> simp
  · simp [h]

theorem deliver_produced_le (o : Overlay σ) (stream buffer : Bytes) (progress : Progress) :
    (o.deliver stream buffer progress).produced ≤ buffer.length := by
  have h := Flight.Delivery.ready_le stream buffer.length
  simp only [deliver]
  split
  · exact h
  · split
    · exact Nat.zero_le _
    · exact h

end Slot

variable {σ : Type} [Engine σ] {o : Overlay σ} {source buffer : Bytes}
  {sources buffers : List Bytes}

theorem drain_output :
    (o.drain buffer).output ++ (o.drain buffer).engine.session.parked.bytes =
      o.session.parked.bytes := by
  simp only [drain]
  split
  · rfl
  · simp only [Parked.drain, Reply.output, Reply.produced]
    have hl : (o.session.parked.bytes.take
        (min o.session.parked.bytes.length buffer.length)).length =
        min o.session.parked.bytes.length buffer.length := by
      rw [List.length_take]
      omega
    rw [List.take_append_of_le_length (by omega), List.take_of_length_le (by omega),
      List.take_append_drop]

/-- While bytes are parked, a call for output takes from the slot and leaves the engine alone. -/
structure Drains (o : Overlay σ) (outcome : Outcome σ Bytes) : Prop where
  engine : outcome.engine.engine = o.engine
  slot : outcome.output ++ outcome.engine.session.parked.bytes = o.session.parked.bytes
  answer : ∃ progress, outcome.result = .ok progress ∧ progress.consumed = 0 ∧
    (outcome.engine.session.parked.isEmpty = false → progress.phase = .needWrap)

theorem drains_drain (o : Overlay σ) (buffer : Bytes) : Drains o (o.drain buffer) := by
  refine ⟨(drain_fields ..).1, drain_output, ?_⟩
  simp only [drain]
  split
  · exact ⟨_, rfl, rfl, fun _ => rfl⟩
  · refine ⟨_, rfl, rfl, ?_⟩
    intro hp
    simp only [phase]
    exact if_neg (Bool.eq_false_iff.1 hp)

theorem drains_wrap (hs : o.strategy = .overlay) (hc : o.session.closed = false)
    (hp : o.session.parked.isEmpty = false) : Drains o (o.wrap sources buffer) := by
  have hw := wraps_wrap hs sources buffer
  generalize o.wrap sources buffer = outcome at hw
  cases hw with
  | closed h =>
    rw [hc] at h
    cases h
  | drained =>
    obtain ⟨he, hslot, ha⟩ := drains_drain o.markStarted buffer
    exact ⟨he, hslot, ha⟩
  | passed _ h =>
    rw [hp] at h
    cases h
  | refused _ h =>
    rw [hp] at h
    cases h
  | abandoned _ h =>
    rw [hp] at h
    cases h
  | edited _ h =>
    rw [hp] at h
    cases h

theorem pass_output (reply : Reply σ Bytes Cause) : (o.pass reply).output = reply.output := by
  simp only [Reply.output, Reply.produced, pass]
  cases reply.result <;> rfl

/-- With an empty slot, what is passed on leaves as it is. -/
theorem pass_moved (hp : o.session.parked.isEmpty = true) (reply : Reply σ Bytes Cause) :
    (o.pass reply).output ++ (o.pass reply).engine.session.parked.bytes =
      o.session.parked.bytes ++ reply.output := by
  have hslot : (o.pass reply).engine.session.parked.bytes = [] := Parked.isEmpty_iff.1 hp
  rw [pass_output, hslot, Parked.isEmpty_iff.1 hp, List.append_nil, List.nil_append]

/-- An engine that keeps to its buffer and has put nothing into it has produced nothing. -/
theorem produced_of_output_nil {engine : σ}
    (hl : (Engine.wrap engine sources buffer).produced ≤ buffer.length)
    (h : (Engine.wrap engine sources buffer).output = []) :
    (Engine.wrap engine sources buffer).produced = 0 := by
  have hlength := congrArg List.length h
  rw [Reply.output, List.length_take, Engine.wrap_length, List.length_nil] at hlength
  omega

/-- No more is produced than a buffer takes, as long as the engine keeps to that. -/
theorem Wraps.produced_le {outcome : Outcome σ Bytes} (h : Wraps o sources buffer outcome)
    (hl : (Engine.wrap o.engine sources buffer).produced ≤ buffer.length) :
    outcome.produced ≤ buffer.length := by
  cases h with
  | closed => exact Nat.zero_le _
  | refused => exact Nat.zero_le _
  | abandoned => exact Nat.zero_le _
  | drained =>
    simp only [drain, Parked.drain]
    split
    · exact Nat.zero_le _
    · simp only [Reply.produced]
      omega
  | passed =>
    simp only [pass, Reply.produced] at hl ⊢
    cases hr : (Engine.wrap o.engine sources buffer).result with
    | error cause => exact Nat.zero_le _
    | ok progress =>
      rw [hr] at hl
      exact hl
  | edited =>
    exact Nat.le_trans (deliver_produced_le ..)
      (Nat.le_of_eq (Engine.wrap_length o.engine sources buffer))

/-- Nothing is parked on top of other bytes: output is edited with an empty slot only. -/
theorem Wraps.ne_slotTaken {outcome : Outcome σ Bytes} (h : Wraps o sources buffer outcome) :
    outcome.result ≠ .error slotTaken := by
  intro ht
  cases h with
  | closed => cases ht
  | drained =>
    obtain ⟨progress, hr⟩ := result_drain o.markStarted buffer
    cases hr.symm.trans ht
  | passed =>
    simp only [pass] at ht
    cases hr : (Engine.wrap o.engine sources buffer).result with
    | error cause =>
      rw [hr] at ht
      cases ht
    | ok progress =>
      rw [hr] at ht
      cases ht
  | refused => cases ht
  | abandoned _ _ _ hf =>
    cases ht
    cases hf with
    | unhashed _ hs => cases Transcript.mismatch_of_resynchronize hs
  | edited _ hp =>
    obtain ⟨-, hused⟩ := deliver_eq_slotTaken_iff.1 ht
    cases hp.symm.trans hused

theorem outboundEdit_ne_none (h : o.session.ownHelloSent = true) (data : Bytes) :
    o.outboundEdit data = .ok none := by
  simp only [outboundEdit, h]
  cases o.role <;> simp

theorem unsent_of_editOf {reply : Reply σ Bytes Cause} (h : o.editOf reply ≠ .ok none) :
    o.session.ownHelloSent = false := by
  cases hs : o.session.ownHelloSent with
  | false => rfl
  | true => exact absurd (by simp only [editOf, outboundEdit_ne_none hs, ite_self]) h

theorem editOf_eq_some {reply : Reply σ Bytes Cause} {edit : Flight.Edit}
    (h : o.editOf reply = .ok (some edit)) :
    reply.produced ≠ 0 ∧ o.session.ownHelloSent = false ∧
      match o.role with
      | .client =>
        o.session.protocols ≠ [] ∧
          Flight.addOffer reply.output (o.session.protocols.map utf8) = .ok (some edit)
      | .server =>
        ∃ protocol, o.session.selected = some protocol ∧
          Flight.addSelection reply.output (utf8 protocol) = .ok (some edit) := by
  simp only [editOf] at h
  split at h
  · cases h
  · rename_i h0
    cases ho : o.session.ownHelloSent with
    | true =>
      rw [outboundEdit_ne_none ho] at h
      cases h
    | false =>
      refine ⟨h0, rfl, ?_⟩
      simp only [outboundEdit, ho] at h
      cases hr : o.role with
      | client =>
        simp only [hr] at h ⊢
        split at h
        · cases h
        · rename_i hp
          exact ⟨by simpa using hp, h⟩
      | server =>
        simp only [hr] at h ⊢
        split at h
        · cases hsel : o.session.selected with
          | none =>
            rw [hsel] at h
            cases h
          | some protocol =>
            rw [hsel] at h
            exact ⟨protocol, rfl, h⟩
        · cases h

/-- Which output of a run may be replaced: the client's first that is not empty, and the server's
first since the selection that opens with a hello in an editable record. -/
def Edits (o : Overlay (Recorded σ)) (calls : List Call) (before : List Bytes) (out : Bytes)
    (edit : Flight.Edit) : Role → Prop
  | .client =>
    (∀ x ∈ before, x = []) ∧ out ≠ [] ∧
      Flight.addOffer out (o.session.protocols.map utf8) = .ok (some edit)
  | .server =>
    ∃ protocol, Flight.addSelection out (utf8 protocol) = .ok (some edit) ∧
      (∃ first, first <+: calls ∧ (o.after first).session.selected = some protocol ∧
        (o.after first).engine.outputs <+: before) ∧
      ∀ first, first <+: calls → (o.after first).session.selected ≠ none →
        ∀ x ∈ before.drop (o.after first).engine.outputs.length, Flight.serverFlight? x = .ok none

/-- The strings that leave in the place of the engine's outputs. -/
inductive Sends (o : Overlay (Recorded σ)) (calls : List Call) (role : Role) : List Bytes → Prop where
  | unchanged : Sends o calls role (o.after calls).engine.outputs
  | edited {before behind : List Bytes} {out : Bytes} {edit : Flight.Edit}
      (ho : (o.after calls).engine.outputs = before ++ out :: behind)
      (he : Edits o calls before out edit role) :
      Sends o calls role (before ++ edit.stream :: behind)

/-- What holds as long as the own hello does not count as sent. -/
def Searching (o : Overlay (Recorded σ)) (calls : List Call) : Role → Prop
  | .client => o.session.protocols ≠ [] → ∀ x ∈ (o.after calls).engine.outputs, x = []
  | .server =>
    (∀ first, first <+: calls → (o.after first).session.selected ≠ none →
      ∀ x ∈ (o.after calls).engine.outputs.drop (o.after first).engine.outputs.length,
        Flight.serverFlight? x = .ok none) ∧
    ((o.after calls).session.peerHelloSeen = false →
      ∀ first, first <+: calls → (o.after first).session.selected = none)

/-- The invariant of a run without failures. -/
structure Kept (o : Overlay (Recorded σ)) (calls : List Call) (role : Role) : Prop where
  strategy : (o.after calls).strategy = .overlay
  protocols : (o.after calls).session.protocols = o.session.protocols
  isOpen : (o.after calls).session.closed = false
  sends : ∃ sent, Sends o calls role sent ∧ o.emitted calls = sent.flatten ∧
    ((o.after calls).session.ownHelloSent = false →
      sent = (o.after calls).engine.outputs ∧ Searching o calls role)

theorem Unwraps.outputs {o : Overlay (Recorded σ)} {outcome : Outcome (Recorded σ) (List Bytes)}
    (h : Unwraps o source buffers outcome) : outcome.engine.engine.outputs = o.engine.outputs := by
  cases h with
  | closed => rfl
  | waited => rfl
  | refused => exact Recorded.outputs_closeOutbound
  | passed => exact Recorded.outputs_unwrap
  | idle => exact Recorded.outputs_unwrap
  | cut => exact Recorded.outputs_closeOutbound.trans Recorded.outputs_unwrap
  | abandoned => exact Recorded.outputs_closeOutbound.trans Recorded.outputs_unwrap
  | stripped _ _ _ _ _ hx => exact (Recorded.outputs_corrects hx).trans Recorded.outputs_unwrap

/-- The engine does not see that its output was edited. -/
theorem outputs_edited {o : Overlay (Recorded σ)} {engine : Recorded σ} {edit : Flight.Edit}
    {progress : Progress} (hr : (Engine.wrap o.engine sources buffer).result = .ok progress)
    (hx : Corrects (Engine.wrap o.engine sources buffer).engine edit engine) :
    ((o.markStarted.markSent.withEngine engine).deliver edit.stream
      (Engine.wrap o.engine sources buffer).buffer progress).engine.engine.outputs =
        o.engine.outputs ++ [(Engine.wrap o.engine sources buffer).output] := by
  obtain ⟨hengine, -⟩ := deliver_fields (o.markStarted.markSent.withEngine engine) edit.stream
    (Engine.wrap o.engine sources buffer).buffer progress
  rw [hengine, withEngine_engine, Recorded.outputs_corrects hx]
  exact Recorded.outputs_wrap_ok hr

section Run

variable {o : Overlay (Recorded σ)} {calls first : List Call} {call : Call} {role : Role}
  {before : List Bytes} {out : Bytes} {edit : Flight.Edit}

/-- More calls with more outputs do not change which output was replaced. -/
theorem Edits.snoc (h : Edits o calls before out edit role)
    (hl : before.length ≤ (o.after (calls ++ [call])).engine.outputs.length) :
    Edits o (calls ++ [call]) before out edit role := by
  cases role with
  | client => exact h
  | server =>
    obtain ⟨protocol, he, ⟨first, hf, hsel, hb⟩, hall⟩ := h
    refine ⟨protocol, he, ⟨first, hf.trans (List.prefix_append _ _), hsel, hb⟩, ?_⟩
    intro first hf hsel x hx
    rcases List.prefix_concat_iff.1 hf with rfl | hf
    · rw [List.drop_eq_nil_of_le hl] at hx
      cases hx
    · exact hall first hf hsel x hx

theorem Sends.snoc {sent more : List Bytes} (h : Sends o calls role sent)
    (ho : (o.after (calls ++ [call])).engine.outputs = (o.after calls).engine.outputs ++ more) :
    Sends o (calls ++ [call]) role (sent ++ more) := by
  cases h with
  | unchanged =>
    rw [← ho]
    exact .unchanged
  | @edited before behind out edit hb he =>
    rw [hb, List.append_assoc, List.cons_append] at ho
    rw [List.append_assoc, List.cons_append]
    refine .edited ho (he.snoc ?_)
    rw [ho, List.length_append]
    omega

theorem emitted_wrap {sources : List Bytes} {buffer : Bytes} (moved : Bytes)
    (h : ((o.after calls).wrap sources buffer).output ++
      ((o.after calls).wrap sources buffer).engine.session.parked.bytes =
        (o.after calls).session.parked.bytes ++ moved) :
    o.emitted (calls ++ [.wrap sources buffer]) = o.emitted calls ++ moved := by
  simp only [emitted, delivered_wrap, after_wrap, List.append_assoc, h]

theorem emitted_unwrap {source : Bytes} {buffers : List Bytes}
    (h : ((o.after calls).unwrap source buffers).engine.session.parked =
      (o.after calls).session.parked) :
    o.emitted (calls ++ [.unwrap source buffers]) = o.emitted calls := by
  simp only [emitted, delivered_unwrap, after_unwrap, h]

/-- A call that adds no output keeps what holds before the own hello is sent. -/
theorem Searching.snoc (h : Searching o calls role)
    (ho : (o.after (calls ++ [call])).engine.outputs = (o.after calls).engine.outputs)
    (hs : (o.after (calls ++ [call])).session.peerHelloSeen = false →
      (o.after calls).session.peerHelloSeen = false ∧
        (o.after (calls ++ [call])).session.selected = (o.after calls).session.selected) :
    Searching o (calls ++ [call]) role := by
  cases role with
  | client =>
    intro hp
    rw [ho]
    exact h hp
  | server =>
    obtain ⟨hflight, hunseen⟩ := h
    constructor
    · intro first hf hsel x hx
      rcases List.prefix_concat_iff.1 hf with rfl | hf
      · rw [List.drop_length] at hx
        cases hx
      · rw [ho] at hx
        exact hflight first hf hsel x hx
    · intro hn first hf
      obtain ⟨hn, hsel⟩ := hs hn
      rcases List.prefix_concat_iff.1 hf with rfl | hf
      · rw [hsel]
        exact hunseen hn calls (List.prefix_refl _)
      · exact hunseen hn first hf

/-- After a selection, what a server passes on does not open with a hello in an editable record. -/
theorem serverFlight?_output {τ : Type} [Engine τ] {p : Overlay τ} {reply : Reply τ Bytes Cause}
    (hr : p.role = .server) (hseen : p.session.peerHelloSeen = true)
    (hs : p.sentAfter reply.produced = false) (he : p.editOf reply = .ok none) :
    Flight.serverFlight? reply.output = .ok none := by
  simp only [sentAfter, hr, hseen, Bool.true_and, Bool.or_eq_false_iff] at hs
  obtain ⟨ho, hsel⟩ := hs
  simp only [editOf] at he
  split at he
  · rename_i h0
    simp only [Reply.output, h0, List.take_zero]
    exact Flight.serverFlight?_nil
  · cases hp : p.session.selected with
    | none =>
      rw [hp] at hsel
      cases hsel
    | some protocol =>
      simp only [outboundEdit, hr, hseen, ho, hp, Bool.not_false, Bool.and_true, if_true] at he
      exact Flight.serverFlight?_of_addSelection he

/-- An output that went out as it was did not open with the hello that is looked for. -/
theorem Searching.pass {reply : Reply (Recorded σ) Bytes Cause} (h : Searching o calls role)
    (hp : (o.after calls).session.protocols = o.session.protocols)
    (hr : (o.after calls).role = role)
    (hs : (o.after calls).sentAfter reply.produced = false)
    (he : (o.after calls).editOf reply = .ok none)
    (ha : o.after (calls ++ [call]) = ((o.after calls).pass reply).engine)
    (ho : reply.engine.outputs = (o.after calls).engine.outputs ++ [reply.output]) :
    Searching o (calls ++ [call]) role := by
  have hout : (o.after (calls ++ [call])).engine.outputs =
      (o.after calls).engine.outputs ++ [reply.output] := by
    rw [ha]
    exact ho
  cases role with
  | client =>
    intro hne x hx
    rw [hout, List.mem_append, List.mem_singleton] at hx
    rcases hx with hx | rfl
    · exact h hne x hx
    · have hn : reply.produced = 0 := by
        rw [← hp] at hne
        simp [sentAfter, hr, hne] at hs
        exact hs.2
      simp only [Reply.output, hn, List.take_zero]
  | server =>
    obtain ⟨hflight, hunseen⟩ := h
    constructor
    · intro first hf hsel x hx
      rcases List.prefix_concat_iff.1 hf with rfl | hf
      · rw [List.drop_length] at hx
        cases hx
      · rw [hout, List.drop_append, List.mem_append] at hx
        rcases hx with hx | hx
        · exact hflight first hf hsel x hx
        · have hx := List.mem_singleton.1 (List.mem_of_mem_drop hx)
          have hseen : (o.after calls).session.peerHelloSeen = true := by
            cases hn : (o.after calls).session.peerHelloSeen with
            | true => rfl
            | false => exact absurd (hunseen hn first hf) hsel
          rw [hx]
          exact serverFlight?_output hr hseen hs he
    · intro hn first hf
      rw [ha] at hn
      rcases List.prefix_concat_iff.1 hf with rfl | hf
      · rw [ha]
        exact hunseen hn calls (List.prefix_refl _)
      · exact hunseen hn first hf

/-- While the hello is looked for, an output that is edited is the one that may be. -/
theorem Searching.edits {reply : Reply (Recorded σ) Bytes Cause} (h : Searching o calls role)
    (hp : (o.after calls).session.protocols = o.session.protocols)
    (hr : (o.after calls).role = role)
    (he : (o.after calls).editOf reply = .ok (some edit))
    (hl : (o.after calls).engine.outputs.length ≤
      (o.after (calls ++ [call])).engine.outputs.length) :
    Edits o (calls ++ [call]) (o.after calls).engine.outputs reply.output edit role := by
  obtain ⟨-, -, hkind⟩ := editOf_eq_some he
  cases role with
  | client =>
    simp only [hr, hp] at hkind
    obtain ⟨hlisted, hadd⟩ := hkind
    refine ⟨h hlisted, ?_, hadd⟩
    intro hnil
    rw [hnil, Flight.addOffer_nil] at hadd
    cases hadd
  | server =>
    simp only [hr] at hkind
    obtain ⟨protocol, hsel, hadd⟩ := hkind
    refine ⟨protocol, hadd, ⟨calls, List.prefix_append _ _, hsel, List.prefix_refl _⟩, ?_⟩
    intro first hf hne x hx
    rcases List.prefix_concat_iff.1 hf with rfl | hf
    · rw [List.drop_eq_nil_of_le hl] at hx
      cases hx
    · exact h.1 first hf hne x hx

theorem kept_nil (hs : o.strategy = .overlay) (hc : o.session.closed = false)
    (hp : o.session.parked.bytes = []) (ho : o.engine.outputs = [])
    (hn : o.session.selected = none) : Kept o [] role := by
  refine ⟨hs, rfl, hc, o.engine.outputs, .unchanged, ?_, ?_⟩
  · simp only [emitted, after_nil, hp, ho]
    rfl
  · intro _
    refine ⟨rfl, ?_⟩
    cases role with
    | client =>
      intro _ x hx
      rw [after_nil, ho] at hx
      cases hx
    | server =>
      constructor
      · intro first hf hsel
        rw [List.prefix_nil.1 hf] at hsel
        exact absurd hn hsel
      · intro _ first hf
        rw [List.prefix_nil.1 hf]
        exact hn

/-- A call that neither sends nor gets an output keeps the invariant. -/
theorem Kept.still (h : Kept o calls role)
    (hs : (o.after (calls ++ [call])).strategy = .overlay)
    (hp : (o.after (calls ++ [call])).session.protocols = o.session.protocols)
    (hc : (o.after (calls ++ [call])).session.closed = false)
    (ho : (o.after (calls ++ [call])).engine.outputs = (o.after calls).engine.outputs)
    (he : o.emitted (calls ++ [call]) = o.emitted calls)
    (hown : (o.after (calls ++ [call])).session.ownHelloSent =
      (o.after calls).session.ownHelloSent)
    (hn : (o.after (calls ++ [call])).session.peerHelloSeen = false →
      (o.after calls).session.peerHelloSeen = false ∧
        (o.after (calls ++ [call])).session.selected = (o.after calls).session.selected) :
    Kept o (calls ++ [call]) role := by
  obtain ⟨sent, hsends, hem, hsearch⟩ := h.sends
  have hsent : Sends o (calls ++ [call]) role (sent ++ []) :=
    hsends.snoc (ho.trans (List.append_nil _).symm)
  rw [List.append_nil] at hsent
  refine ⟨hs, hp, hc, sent, hsent, he.trans hem, ?_⟩
  intro hunsent
  obtain ⟨hall, hsearching⟩ := hsearch (hown.symm.trans hunsent)
  exact ⟨hall.trans ho.symm, hsearching.snoc ho hn⟩

/-- So does a call whose output goes out as it was. -/
theorem Kept.pass {reply : Reply (Recorded σ) Bytes Cause} (h : Kept o calls role)
    (hr : (o.after calls).role = role) (he : (o.after calls).editOf reply = .ok none)
    (ha : o.after (calls ++ [call]) = ((o.after calls).pass reply).engine)
    (ho : reply.engine.outputs = (o.after calls).engine.outputs ++ [reply.output])
    (hem : o.emitted (calls ++ [call]) = o.emitted calls ++ reply.output) :
    Kept o (calls ++ [call]) role := by
  have hout : (o.after (calls ++ [call])).engine.outputs =
      (o.after calls).engine.outputs ++ [reply.output] := by
    rw [ha]
    exact ho
  obtain ⟨sent, hsends, hsent, hsearch⟩ := h.sends
  refine ⟨ha ▸ h.strategy, ha ▸ h.protocols, ha ▸ h.isOpen, _, hsends.snoc hout, ?_, ?_⟩
  · rw [hem, hsent, List.flatten_append, List.flatten_singleton]
  · intro hs
    rw [ha] at hs
    obtain ⟨hall, hsearching⟩ := hsearch (Bool.or_eq_false_iff.1 hs).1
    exact ⟨by rw [hout, hall], hsearching.pass h.protocols hr hs he ha ho⟩

/-- And one whose output goes out edited, which happens once. -/
theorem kept_edited {progress : Progress} {engine : Recorded σ} (h : Kept o calls role)
    (hr : (o.after calls).role = role) (hp : (o.after calls).session.parked.isEmpty = true)
    (hres : (Engine.wrap (o.after calls).engine sources buffer).result = .ok progress)
    (he : (o.after calls).editOf (Engine.wrap (o.after calls).engine sources buffer) =
      .ok (some edit))
    (hx : Corrects (Engine.wrap (o.after calls).engine sources buffer).engine edit engine)
    (ha : (o.after calls).wrap sources buffer =
      ((o.after calls).markStarted.markSent.withEngine engine).deliver edit.stream
        (Engine.wrap (o.after calls).engine sources buffer).buffer progress) :
    Kept o (calls ++ [.wrap sources buffer]) role := by
  obtain ⟨-, hstrategy, parked, hsession⟩ := deliver_fields
    ((o.after calls).markStarted.markSent.withEngine engine) edit.stream
    (Engine.wrap (o.after calls).engine sources buffer).buffer progress
  have hafter : o.after (calls ++ [.wrap sources buffer]) = _ :=
    after_wrap.trans (congrArg Reply.engine ha)
  have hout : (o.after (calls ++ [.wrap sources buffer])).engine.outputs =
      (o.after calls).engine.outputs ++
        (Engine.wrap (o.after calls).engine sources buffer).output :: [] := by
    rw [hafter]
    exact outputs_edited hres hx
  have hem : o.emitted (calls ++ [.wrap sources buffer]) = o.emitted calls ++ edit.stream :=
    emitted_wrap edit.stream (by rw [ha]; exact deliver_moved hp)
  obtain ⟨sent, -, hsent, hsearch⟩ := h.sends
  obtain ⟨hall, hsearching⟩ := hsearch (editOf_eq_some he).2.1
  refine ⟨?_, ?_, ?_, _ ++ edit.stream :: [], .edited hout ?_, ?_, ?_⟩
  · rw [hafter, hstrategy]
    exact h.strategy
  · rw [hafter, hsession]
    exact h.protocols
  · rw [hafter, hsession]
    exact h.isOpen
  · exact hsearching.edits h.protocols hr he (by rw [hout, List.length_append]; omega)
  · rw [hem, hsent, hall, List.flatten_append, List.flatten_singleton]
  · intro hs
    rw [hafter, hsession] at hs
    cases hs

theorem kept_wrap {progress : Progress} (h : Kept o calls role)
    (hr : (o.after calls).role = role)
    (hok : ((o.after calls).wrap sources buffer).result = .ok progress) :
    Kept o (calls ++ [.wrap sources buffer]) role := by
  have hw := wraps_wrap h.strategy sources buffer
  have hemit := @emitted_wrap σ _ o calls sources buffer
  have ha : o.after (calls ++ [.wrap sources buffer]) = _ := after_wrap
  generalize hout : (o.after calls).wrap sources buffer = outcome at hw hok hemit ha
  have hopen := hw.open_of_ok h.isOpen hok
  cases hw with
  | closed hc =>
    rw [h.isOpen] at hc
    cases hc
  | drained =>
    obtain ⟨hengine, hstrategy, parked, hsession⟩ :=
      drain_fields (o.after calls).markStarted buffer
    have hem := hemit [] (drain_output.trans (List.append_nil _).symm)
    refine h.still ?_ ?_ (ha ▸ hopen) ?_ (hem.trans (List.append_nil _)) ?_ ?_
    · rw [ha, hstrategy]
      exact h.strategy
    · rw [ha, hsession]
      exact h.protocols
    · rw [ha, hengine]
      rfl
    · rw [ha, hsession]
      rfl
    · rw [ha, hsession]
      exact fun hn => ⟨hn, rfl⟩
  | passed _ hp he =>
    have hres := Flight.mapError_eq_ok_iff.1 hok
    exact h.pass hr he ha (Recorded.outputs_wrap_ok hres) (hemit _ (pass_moved hp _))
  | refused => cases hok
  | abandoned => cases hok
  | edited _ hp hres he hx => exact kept_edited h hr hp hres he hx hout

theorem kept_unwrap {progress : Progress} (h : Kept o calls role)
    (hok : ((o.after calls).unwrap source buffers).result = .ok progress) :
    Kept o (calls ++ [.unwrap source buffers]) role := by
  have hu := unwraps_unwrap h.strategy source buffers
  have ha : o.after (calls ++ [.unwrap source buffers]) = _ := after_unwrap
  have hemit := @emitted_unwrap σ _ o calls source buffers
  generalize (o.after calls).unwrap source buffers = outcome at hu hok hemit ha
  obtain ⟨hstrategy, hprotocols, hparked, hown⟩ := hu.frame
  refine h.still ?_ ?_ (ha ▸ hu.open_of_ok h.isOpen hok) ?_ (hemit hparked) (ha ▸ hown) ?_
  · rw [ha, hstrategy, h.strategy]
  · rw [ha, hprotocols, h.protocols]
  · rw [ha, hu.outputs]
  · rw [ha]
    exact hu.unseen

/-- Every run without failures keeps the invariant. -/
theorem kept_run (hm : ∀ call ∈ calls, call.movesBytes = true) (hc : o.Clean calls)
    (hr : o.KeepsRole calls role) (h0 : Kept o [] role) : Kept o calls role := by
  refine run_induction (P := fun calls => Kept o calls role) hm h0 ?_ ?_
  · intro first sources buffer hp h
    obtain ⟨progress, hok⟩ := hc.wrap_ok hp
    exact kept_wrap h (hr.at_call hp) hok
  · intro first source buffers hp h
    obtain ⟨progress, hok⟩ := hc.unwrap_ok hp
    exact kept_unwrap h hok

/-- The outputs of the engine leave whole and in order, but for one that an edit may replace. Parked
bytes go out before anything else, none are parked on top of others, and a buffer never gets more
than it takes. -/
theorem outbound_bytes_kept {engine : σ} {config : Config}
    (hlaw : ∀ (e : σ) (sources : List Bytes) (buffer : Bytes),
      (Engine.wrap e sources buffer).produced ≤ buffer.length)
    (ho : Overlay.of (⟨engine, []⟩ : Recorded σ) config = .ok o) (hs : o.strategy = .overlay)
    (hm : ∀ call ∈ calls, call.movesBytes = true) (hc : o.Clean calls)
    (hr : o.KeepsRole calls role) :
    (∃ sent, Sends o calls role sent ∧
      delivered (o.history calls) ++ (o.after calls).session.parked.bytes = sent.flatten) ∧
    (∀ sources buffer, ((o.after calls).wrap sources buffer).produced ≤ buffer.length) ∧
    (∀ sources buffer, ((o.after calls).wrap sources buffer).result ≠ .error slotTaken) ∧
    ((o.after calls).session.parked.isEmpty = false →
      ∀ sources buffer, Drains (o.after calls) ((o.after calls).wrap sources buffer)) ∧
    ∀ source buffers, ((o.after calls).unwrap source buffers).engine.session.parked =
      (o.after calls).session.parked := by
  have h0 : Kept o [] role := by
    obtain rfl := of_eq_ok ho hs
    exact kept_nil rfl rfl rfl rfl rfl
  have h := kept_run hm hc hr h0
  obtain ⟨sent, hsends, hem, -⟩ := h.sends
  refine ⟨⟨sent, hsends, hem⟩, ?_, ?_, ?_, ?_⟩
  · intro sources buffer
    exact (wraps_wrap h.strategy sources buffer).produced_le (hlaw ..)
  · intro sources buffer
    exact (wraps_wrap h.strategy sources buffer).ne_slotTaken
  · intro hp sources buffer
    exact drains_wrap h.strategy h.isOpen hp
  · intro source buffers
    exact (unwraps_unwrap h.strategy source buffers).frame.2.2.1

end Run

theorem peer_produced_le (p : Peer) (sources : List Bytes) (buffer : Bytes) :
    (Engine.wrap p sources buffer).produced ≤ buffer.length := by
  simp only [Engine.wrap, Peer.wrap]
  split
  · exact Nat.zero_le _
  · split
    · exact Nat.zero_le _
    · split
      · exact Nat.zero_le _
      · rename_i h
        split
        · exact Nat.le_of_not_lt h
        · exact Nat.le_of_not_lt h

/-- A client that is about to offer one protocol. -/
def offering : Overlay (Recorded Peer) :=
  ⟨⟨Peer.start .client false, []⟩, .overlay, { protocols := ["h2"] }⟩

/-- Calls for output with buffers that are too small for the edited hello. -/
def dribble : List Call :=
  [.wrap [] [], .wrap [] (List.replicate 119 0), .wrap [] (List.replicate 7 0), .wrap [] []]

/-- The last two bytes of an edited hello wait while everything in front of them has left. -/
theorem outbound_bytes_kept_offering :
    (offering.after dribble).session.parked.bytes = [0x68, 0x32] ∧
      ∃ sent, Sends offering dribble .client sent ∧
        delivered (offering.history dribble) ++ (offering.after dribble).session.parked.bytes =
          sent.flatten := by
  have hanswers : (offering.run dribble).2.all Answer.succeeded = true := by decide +kernel
  have hroles : offering.KeepsRole dribble .client := forall_initial (by decide +kernel)
  have ho : Overlay.of (⟨Peer.start .client false, []⟩ : Recorded Peer)
    { protocols := ["h2"], mode := .overlay } = .ok offering := rfl
  have h := outbound_bytes_kept peer_produced_le ho rfl (by decide)
    (List.all_eq_true.1 hanswers) hroles
  exact ⟨by decide +kernel, h.1⟩

end Overlay
end AlpnOverlay
