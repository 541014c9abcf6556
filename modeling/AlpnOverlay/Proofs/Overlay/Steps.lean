import AlpnOverlay.Overlay.Call
import AlpnOverlay.Proofs.Flight.Opening

/-!
The steps of an overlay that edits hellos. Each call is taken apart once; what follows about runs
goes through these cases.
-/
namespace AlpnOverlay

namespace Reply

variable {σ β ε : Type}

def produced (r : Reply σ β ε) : Nat :=
  match r.result with
  | .ok progress => progress.produced
  | .error _ => 0

def consumed (r : Reply σ β ε) : Nat :=
  match r.result with
  | .ok progress => progress.consumed
  | .error _ => 0

/-- The bytes that were moved to the front of the buffer. -/
def output (r : Reply σ Bytes ε) : Bytes := r.buffer.take r.produced

/-- Only a call that succeeds produces anything. -/
theorem produced_of_output {r : Reply σ Bytes ε} (h : r.output ≠ []) :
    r.produced ≠ 0 ∧ ∃ progress, r.result = .ok progress := by
  have h0 : r.produced ≠ 0 := by
    intro h0
    apply h
    rw [output, h0, List.take_zero]
  refine ⟨h0, ?_⟩
  cases hr : r.result with
  | ok progress => exact ⟨progress, rfl⟩
  | error e =>
    rw [produced, hr] at h0
    exact absurd rfl h0

end Reply

/-- A transcript resists for one reason only: the hello was never hashed. -/
theorem Transcript.mismatch_of_resynchronize {σ : Type} {t : Transcript σ} {e : σ}
    {s : Substitution} {f : Failure} (h : t.resynchronize e s = .error f) :
    f = .handshake (.transcriptMismatch s.inner.length (t.captured e).length) := by
  simp only [resynchronize] at h
  split at h
  · cases h
  · split at h
    · cases h
      rfl
    · cases h

namespace Overlay

variable {σ : Type} [Engine σ] {o : Overlay σ} {source buffer : Bytes}
  {sources buffers : List Bytes}

def withEngine (o : Overlay σ) (engine : σ) : Overlay σ := { o with engine }

omit [Engine σ] in
@[simp] theorem withEngine_engine (engine : σ) : (o.withEngine engine).engine = engine := rfl

/-- The edit that output goes through on its way out, if any. -/
def outboundEdit (o : Overlay σ) (data : Bytes) : Except Wire.Error (Option Flight.Edit) :=
  match o.role with
  | .client =>
    if o.session.ownHelloSent || o.session.protocols.isEmpty then .ok none
    else Flight.addOffer data (o.session.protocols.map utf8)
  | .server =>
    if o.session.peerHelloSeen && !o.session.ownHelloSent then
      match o.session.selected with
      | none => .ok none
      | some protocol => Flight.addSelection data (utf8 protocol)
    else .ok none

/-- The edit of what a reply has produced. -/
def editOf (o : Overlay σ) (reply : Reply σ Bytes Cause) :
    Except Wire.Error (Option Flight.Edit) :=
  if reply.produced = 0 then .ok none else o.outboundEdit reply.output

/-- Whether the own hello counts as sent after `produced` bytes went out as they were. -/
def sentAfter (o : Overlay σ) (produced : Nat) : Bool :=
  o.session.ownHelloSent ||
    match o.role with
    | .client => !o.session.protocols.isEmpty && produced != 0
    | .server => o.session.peerHelloSeen && o.session.selected.isNone

/-- The engine's reply with its output as it is. -/
def pass (o : Overlay σ) (reply : Reply σ Bytes Cause) : Outcome σ Bytes :=
  ⟨{ o with
      engine := reply.engine
      session := { o.session with started := true, ownHelloSent := o.sentAfter reply.produced } },
    reply.buffer, reply.result.mapError .engine⟩

/-- The engine's transcript is put right for an edit. -/
def Corrects (engine : σ) (edit : Flight.Edit) (corrected : σ) : Prop :=
  ∃ t, Engine.transcript? engine = some t ∧
    t.resynchronize engine edit.substitution = .ok corrected

/-- A transcript that is put right is left as it is or replayed. -/
theorem Corrects.eq_or_replayed {engine corrected : σ} {edit : Flight.Edit}
    (h : Corrects engine edit corrected) :
    corrected = engine ∨ ∃ t bytes, Engine.transcript? engine = some t ∧
      corrected = t.append (t.reset engine) bytes := by
  obtain ⟨t, ht, hs⟩ := h
  simp only [Transcript.resynchronize] at hs
  split at hs
  · cases hs
    exact .inl rfl
  · split at hs
    · cases hs
    · cases hs
      exact .inr ⟨t, _, ht, rfl⟩

/-- Why the engine's transcript cannot be put right for an edit. -/
inductive Resists (engine : σ) (edit : Flight.Edit) : Failure → Prop where
  | withheld (ht : Engine.transcript? engine = none) :
      Resists engine edit (.environment "a handshake transcript")
  | unhashed {t : Transcript σ} {f : Failure} (ht : Engine.transcript? engine = some t)
      (hs : t.resynchronize engine edit.substitution = .error f) : Resists engine edit f

theorem correct_eq_ok_iff {edit : Flight.Edit} {after : Overlay σ} :
    o.correct edit = .ok after ↔
      ∃ engine, Corrects o.engine edit engine ∧ after = o.withEngine engine := by
  simp only [correct, Corrects]
  cases ht : Engine.transcript? o.engine with
  | none => simp
  | some t =>
    simp only [Option.some.injEq]
    cases hs : t.resynchronize o.engine edit.substitution with
    | error f =>
      simp only [reduceCtorEq, false_iff]
      rintro ⟨_, ⟨_, rfl, he⟩, -⟩
      rw [hs] at he
      cases he
    | ok engine =>
      simp only [Except.ok.injEq]
      constructor
      · rintro rfl
        exact ⟨engine, ⟨t, rfl, hs⟩, rfl⟩
      · rintro ⟨_, ⟨_, rfl, he⟩, rfl⟩
        rw [hs] at he
        cases he
        rfl

theorem resists_of_correct {edit : Flight.Edit} {f : Failure} (h : o.correct edit = .error f) :
    Resists o.engine edit f := by
  simp only [correct] at h
  split at h
  · rename_i ht
    cases h
    exact .withheld ht
  · rename_i t ht
    split at h
    · rename_i hs
      cases h
      exact .unhashed ht hs
    · cases h

theorem Resists.not_corrects {engine corrected : σ} {edit : Flight.Edit} {f : Failure}
    (h : Resists engine edit f) : ¬ Corrects engine edit corrected := by
  rintro ⟨t, ht, hs⟩
  cases h with
  | withheld hn =>
    rw [hn] at ht
    cases ht
  | unhashed ht' hs' =>
    cases ht.symm.trans ht'
    cases hs.symm.trans hs'

/-- What a call for output does. -/
inductive Wraps (o : Overlay σ) (sources : List Bytes) (buffer : Bytes) : Outcome σ Bytes → Prop where
  | closed (hc : o.session.closed = true) :
      Wraps o sources buffer ⟨o, buffer, .ok (.closed (Engine.phase o.engine))⟩
  | drained (hc : o.session.closed = false) (hp : o.session.parked.isEmpty = false) :
      Wraps o sources buffer (o.markStarted.drain buffer)
  | passed (hc : o.session.closed = false) (hp : o.session.parked.isEmpty = true)
      (he : o.editOf (Engine.wrap o.engine sources buffer) = .ok none) :
      Wraps o sources buffer (o.pass (Engine.wrap o.engine sources buffer))
  | refused {e : Wire.Error} (hc : o.session.closed = false)
      (hp : o.session.parked.isEmpty = true)
      (he : o.editOf (Engine.wrap o.engine sources buffer) = .error e) :
      Wraps o sources buffer
        ⟨(o.markStarted.withEngine (Engine.wrap o.engine sources buffer).engine).close,
          (Engine.wrap o.engine sources buffer).buffer, .error (.ofWire e)⟩
  | abandoned {edit : Flight.Edit} {f : Failure} (hc : o.session.closed = false)
      (hp : o.session.parked.isEmpty = true)
      (he : o.editOf (Engine.wrap o.engine sources buffer) = .ok (some edit))
      (hf : Resists (Engine.wrap o.engine sources buffer).engine edit f) :
      Wraps o sources buffer
        ⟨(o.markStarted.withEngine (Engine.wrap o.engine sources buffer).engine).close,
          (Engine.wrap o.engine sources buffer).buffer, .error f⟩
  | edited {progress : Progress} {edit : Flight.Edit} {engine : σ} (hc : o.session.closed = false)
      (hp : o.session.parked.isEmpty = true)
      (hr : (Engine.wrap o.engine sources buffer).result = .ok progress)
      (he : o.editOf (Engine.wrap o.engine sources buffer) = .ok (some edit))
      (hx : Corrects (Engine.wrap o.engine sources buffer).engine edit engine) :
      Wraps o sources buffer
        ((o.markStarted.markSent.withEngine engine).deliver edit.stream
          (Engine.wrap o.engine sources buffer).buffer progress)

theorem wraps_wrapEditing {editing : Bytes → Except Wire.Error (Option Flight.Edit)} {final : Bool}
    (hc : o.session.closed = false) (hp : o.session.parked.isEmpty = true)
    (he : ∀ data, o.outboundEdit data = editing data)
    (hs : ∀ n, o.sentAfter n = (o.session.ownHelloSent || (final && n != 0))) :
    Wraps o sources buffer (o.markStarted.wrapEditing editing final sources buffer) := by
  have hpass : ∀ reply : Reply σ Bytes Cause, o.pass reply =
      ⟨{ o with
          engine := reply.engine
          session := { o.session with
            started := true
            ownHelloSent := o.session.ownHelloSent || (final && reply.produced != 0) } },
        reply.buffer, reply.result.mapError .engine⟩ := by
    intro reply
    simp only [pass, hs]
  have hpassed := @Wraps.passed σ _ o sources buffer hc hp
  have hrefused := @Wraps.refused σ _ o sources buffer
  simp only [wrapEditing, markStarted]
  rw [hpass] at hpassed
  simp only [editOf, Reply.output, he] at hpassed hrefused
  cases hr : (Engine.wrap o.engine sources buffer).result with
  | error cause =>
    simpa [Reply.produced, hr, markStarted] using hpassed
  | ok progress =>
    simp only [Reply.produced, hr] at hpassed hrefused
    simp only
    split
    · rename_i h0
      simpa [h0] using hpassed
    · rename_i h0
      simp only [h0, if_false] at hpassed hrefused
      split
      · rename_i e hedit
        exact hrefused hc hp hedit
      · rename_i hedit
        have hn : (progress.produced != 0) = true := by simpa using h0
        have := hpassed hedit
        rw [hn] at this
        cases final <;> simpa [markSent] using this
      · rename_i edit hedit
        split
        · rename_i f hf
          exact .abandoned hc hp
            (by simp [editOf, Reply.produced, Reply.output, hr, h0, he, hedit])
            (resists_of_correct hf)
        · rename_i after hafter
          obtain ⟨engine, hx, rfl⟩ := correct_eq_ok_iff.1 hafter
          exact .edited hc hp hr
            (by simp [editOf, Reply.produced, Reply.output, hr, h0, he, hedit]) hx

theorem wraps_forward {sent : Bool} (hc : o.session.closed = false)
    (hp : o.session.parked.isEmpty = true) (he : ∀ data, o.outboundEdit data = .ok none)
    (hs : ∀ n, o.sentAfter n = sent) :
    Wraps o sources buffer
      (forward { o with session := { o.session with started := true, ownHelloSent := sent } }
        (Engine.wrap o.engine sources buffer)) := by
  have hpassed := @Wraps.passed σ _ o sources buffer hc hp
    (by simp only [editOf, he, ite_self])
  simpa only [pass, hs, forward] using hpassed

theorem wraps_wrapClient (hc : o.session.closed = false) (hp : o.session.parked.isEmpty = true)
    (hr : o.role = .client) :
    Wraps o sources buffer (o.markStarted.wrapClient sources buffer) := by
  simp only [wrapClient]
  split
  · rename_i h
    refine wraps_forward hc hp ?_ ?_
    · intro data
      simp only [outboundEdit, hr]
      exact if_pos h
    · intro n
      simp only [sentAfter, hr]
      cases ho : o.session.ownHelloSent with
      | true => rfl
      | false => simp_all [markStarted]
  · rename_i h
    refine wraps_wrapEditing hc hp ?_ ?_
    · intro data
      simp only [outboundEdit, hr]
      exact if_neg h
    · intro n
      simp_all [sentAfter, markStarted]

theorem wraps_wrapServer (hc : o.session.closed = false) (hp : o.session.parked.isEmpty = true)
    (hr : o.role = .server) :
    Wraps o sources buffer (o.markStarted.wrapServer sources buffer) := by
  simp only [wrapServer]
  split
  · rename_i h
    split
    · rename_i hsel
      refine wraps_forward hc hp ?_ ?_
      · intro data
        simp_all [outboundEdit, markStarted]
      · intro n
        simp_all [sentAfter, markStarted]
    · rename_i protocol hsel
      refine wraps_wrapEditing hc hp ?_ ?_
      · intro data
        simp_all [outboundEdit, markStarted]
      · intro n
        simp_all [sentAfter, markStarted]
  · rename_i h
    refine wraps_forward hc hp ?_ ?_
    · intro data
      simp only [outboundEdit, hr]
      exact if_neg h
    · intro n
      simp only [sentAfter, hr]
      cases ho : o.session.ownHelloSent <;> simp_all [markStarted]

/-- Every call for output is one of the steps above. -/
theorem wraps_wrap (hs : o.strategy = .overlay) (sources : List Bytes) (buffer : Bytes) :
    Wraps o sources buffer (o.wrap sources buffer) := by
  simp only [wrap]
  cases hc : o.session.closed with
  | true => exact .closed hc
  | false =>
    have hs' : o.markStarted.strategy = .overlay := hs
    cases hp : o.session.parked.isEmpty with
    | false =>
      have hp' : o.markStarted.session.parked.isEmpty = false := hp
      simp only [hp', Bool.false_eq_true, if_false]
      exact .drained hc hp
    | true =>
      have hp' : o.markStarted.session.parked.isEmpty = true := hp
      simp only [hp', hs', Bool.false_eq_true, if_false, if_true]
      cases hr : o.role with
      | client =>
        have hr' : o.markStarted.role = .client := hr
        simp only [hr']
        exact wraps_wrapClient hc hp hr
      | server =>
        have hr' : o.markStarted.role = .server := hr
        simp only [hr']
        exact wraps_wrapServer hc hp hr

/-- An overlay whose own hello has gone out for the sake of a list. -/
structure Asked (o : Overlay σ) : Prop where
  sent : o.session.ownHelloSent = true
  listed : o.session.protocols ≠ []

/-- What is known after input that the engine gets as it is. -/
inductive Reads (o : Overlay σ) (source : Bytes) : Session → Prop where
  | ignored (h : o.role = .server → o.session.peerHelloSeen = true) :
      Reads o source o.markStarted.session
  | noticed (hn : o.session.peerHelloSeen = false)
      (hs : o.role = .server → o.session.protocols.isEmpty = true)
      (hc : o.role = .client → Asked o ∧ Flight.Unselected source) :
      Reads o source o.markStarted.markSeen.session
  | offered {names : Option (List Bytes)} (hn : o.session.peerHelloSeen = false)
      (hr : o.role = .server) (he : o.session.protocols.isEmpty = false)
      (ho : Flight.offer? source = .ok names) :
      Reads o source { o.markStarted.markSeen.session with
        selected := names.bind fun names => Flight.choose names o.session.protocols }

/-- Input from which a selection is taken. -/
structure Strips (o : Overlay σ) (source : Bytes) (edit : Flight.Edit) (name : Bytes)
    (protocol : String) : Prop where
  client : o.role = .client
  unseen : o.session.peerHelloSeen = false
  sent : o.session.ownHelloSent = true
  taken : Flight.takeSelection source = .ok (some (edit, name))
  configured : o.session.configured? name = some protocol

theorem Strips.unique {edit edit' : Flight.Edit} {name name' : Bytes} {protocol protocol' : String}
    (h : Strips o source edit name protocol) (h' : Strips o source edit' name' protocol') :
    edit = edit' ∧ name = name' ∧ protocol = protocol' := by
  cases h.taken.symm.trans h'.taken
  cases h.configured.symm.trans h'.configured
  exact ⟨rfl, rfl, rfl⟩

/-- Input from which no selection is taken. -/
def Keeps (o : Overlay σ) (source : Bytes) : Prop :=
  ∀ edit name protocol, ¬ Strips o source edit name protocol

/-- What a call with input does. -/
inductive Unwraps (o : Overlay σ) (source : Bytes) (buffers : List Bytes) :
    Outcome σ (List Bytes) → Prop where
  | closed (hc : o.session.closed = true) :
      Unwraps o source buffers ⟨o, buffers, .ok (.closed (Engine.phase o.engine))⟩
  | waited (hc : o.session.closed = false) (hk : Keeps o source) :
      Unwraps o source buffers ⟨o.markStarted, buffers, .ok .underflow⟩
  | refused (hc : o.session.closed = false) (hk : Keeps o source) (e : Wire.Error) :
      Unwraps o source buffers ⟨o.markStarted.close, buffers, .error (.ofWire e)⟩
  | passed {session : Session} (hc : o.session.closed = false) (hk : Keeps o source)
      (hs : Reads o source session) :
      Unwraps o source buffers
        (forward { o with session } (Engine.unwrap o.engine source buffers))
  | idle {edit : Flight.Edit} {name : Bytes} {protocol : String} (hc : o.session.closed = false)
      (hs : Strips o source edit name protocol)
      (h0 : (Engine.unwrap o.engine edit.stream buffers).consumed = 0) :
      Unwraps o source buffers
        (o.markStarted.forward (Engine.unwrap o.engine edit.stream buffers))
  | cut {edit : Flight.Edit} {name : Bytes} {protocol : String} {progress : Progress}
      (hc : o.session.closed = false) (hs : Strips o source edit name protocol)
      (hr : (Engine.unwrap o.engine edit.stream buffers).result = .ok progress)
      (h0 : progress.consumed ≠ 0) (hl : progress.consumed < edit.headLength) (text : String) :
      Unwraps o source buffers
        ⟨(o.markStarted.withEngine (Engine.unwrap o.engine edit.stream buffers).engine).close,
          (Engine.unwrap o.engine edit.stream buffers).buffer, .error (.handshake (.stated text))⟩
  | abandoned {edit : Flight.Edit} {name : Bytes} {protocol : String} {progress : Progress}
      {f : Failure} (hc : o.session.closed = false) (hs : Strips o source edit name protocol)
      (hr : (Engine.unwrap o.engine edit.stream buffers).result = .ok progress)
      (h0 : progress.consumed ≠ 0) (hl : edit.headLength ≤ progress.consumed)
      (hf : Resists (Engine.unwrap o.engine edit.stream buffers).engine edit f) :
      Unwraps o source buffers
        ⟨(o.markStarted.withEngine (Engine.unwrap o.engine edit.stream buffers).engine).close,
          (Engine.unwrap o.engine edit.stream buffers).buffer, .error f⟩
  | stripped {edit : Flight.Edit} {name : Bytes} {protocol : String} {progress : Progress}
      {engine : σ} (hc : o.session.closed = false) (hs : Strips o source edit name protocol)
      (hr : (Engine.unwrap o.engine edit.stream buffers).result = .ok progress)
      (h0 : progress.consumed ≠ 0) (hl : edit.headLength ≤ progress.consumed)
      (hx : Corrects (Engine.unwrap o.engine edit.stream buffers).engine edit engine) :
      Unwraps o source buffers
        ⟨{ o with
            engine
            session := { o.markStarted.markSeen.session with selected := some protocol } },
          (Engine.unwrap o.engine edit.stream buffers).buffer,
          .ok { progress with
            consumed := progress.consumed + (edit.carrierLength - edit.headLength) }⟩

theorem keeps_of_ne (h : ∀ edit name, Flight.takeSelection source ≠ .ok (some (edit, name))) :
    Keeps o source :=
  fun edit name _ hs => h edit name hs.taken

/-- Nothing is taken from input that is not looked at. -/
theorem keeps_of_unasked (h : (o.session.peerHelloSeen || !o.session.ownHelloSent ||
    o.session.protocols.isEmpty) = true) : Keeps o source := by
  intro edit name protocol hs
  have hp := List.mem_of_find?_eq_some hs.configured
  simp [hs.unseen, hs.sent] at h
  rw [h] at hp
  cases hp

/-- Nor is a name that was not offered. -/
theorem keeps_of_unconfigured {edit : Flight.Edit} {name : Bytes}
    (ht : Flight.takeSelection source = .ok (some (edit, name)))
    (hp : o.session.configured? name = none) : Keeps o source := by
  intro _ _ _ hs
  cases ht.symm.trans hs.taken
  cases hp.symm.trans hs.configured

theorem unwraps_refuse (hc : o.session.closed = false) (hk : Keeps o source) (e : Wire.Error) :
    Unwraps o source buffers (o.markStarted.refuse e buffers) := by
  simp only [refuse]
  split
  · exact .waited hc hk
  · exact .refused hc hk _

theorem unwraps_unwrapStripped {edit : Flight.Edit} {name : Bytes} {protocol : String}
    (hc : o.session.closed = false) (hs : Strips o source edit name protocol) :
    Unwraps o source buffers (o.markStarted.unwrapStripped edit protocol buffers) := by
  have hidle := @Unwraps.idle σ _ o source buffers _ _ _ hc hs
  simp only [forward] at hidle
  simp only [unwrapStripped]
  cases hr : (Engine.unwrap o.engine edit.stream buffers).result with
  | error cause =>
    have hr' : (Engine.unwrap o.markStarted.engine edit.stream buffers).result = .error cause := hr
    simp only [hr']
    have := hidle (by simp only [Reply.consumed, hr])
    rw [hr] at this
    exact this
  | ok progress =>
    have hr' : (Engine.unwrap o.markStarted.engine edit.stream buffers).result = .ok progress := hr
    simp only [hr']
    split
    · rename_i h0
      have := hidle (by simp only [Reply.consumed, hr, h0])
      rw [hr] at this
      exact this
    · rename_i h0
      split
      · rename_i hl
        exact .cut hc hs hr h0 hl _
      · rename_i hl
        split
        · rename_i f hf
          exact .abandoned hc hs hr h0 (Nat.le_of_not_gt hl) (resists_of_correct hf)
        · rename_i after hafter
          obtain ⟨engine, hx, rfl⟩ := correct_eq_ok_iff.1 hafter
          exact .stripped hc hs hr h0 (Nat.le_of_not_gt hl) hx

theorem unwraps_unwrapServer (hc : o.session.closed = false) (hr : o.role = .server) :
    Unwraps o source buffers (o.markStarted.unwrapServer source buffers) := by
  have hclient : o.role = .client → Asked o ∧ Flight.Unselected source := by simp [hr]
  have hk : Keeps o source := fun _ _ _ hs => absurd (hr.symm.trans hs.client) (by decide)
  simp only [unwrapServer]
  split
  · rename_i hn
    exact .passed hc hk (.ignored fun _ => hn)
  · rename_i hn
    have hn : o.session.peerHelloSeen = false := Bool.eq_false_iff.2 hn
    split
    · rename_i he
      exact .passed hc hk (.noticed hn (fun _ => he) hclient)
    · rename_i he
      split
      · exact unwraps_refuse hc hk _
      · rename_i names ho
        exact .passed hc hk (.offered hn hr (Bool.eq_false_iff.2 he) ho)

theorem unwraps_unwrapClient (hc : o.session.closed = false) (hr : o.role = .client) :
    Unwraps o source buffers (o.markStarted.unwrapClient source buffers) := by
  have hserver : ∀ {p : Prop}, o.role = .server → p := by simp [hr]
  simp only [unwrapClient]
  split
  · rename_i h
    exact .passed hc (keeps_of_unasked h) (.ignored hserver)
  · rename_i h
    simp only [Bool.or_eq_true, Bool.not_eq_true', not_or, Bool.not_eq_true, Bool.not_eq_false] at h
    obtain ⟨⟨hn, hs⟩, hl⟩ := h
    have hasked : Asked o := ⟨hs, List.isEmpty_eq_false_iff.1 hl⟩
    split
    · rename_i type major minor more
      split
      · rename_i hh
        refine .passed hc (keeps_of_ne ?_) (.ignored hserver)
        intro edit name ht
        obtain ⟨_, _, _, he, hv⟩ := Flight.head_of_takeSelection ht
        cases he
        simp [hv] at hh
      · rename_i hh
        obtain ⟨htype, hv⟩ : type = Wire.ContentType.handshake.code ∧
            Wire.Version.isEditable ⟨major, minor⟩ = true := by
          simpa using hh
        split
        · rename_i e ht
          exact unwraps_refuse hc (keeps_of_ne (by simp [ht])) _
        · rename_i ht
          refine .passed hc (keeps_of_ne (by simp [ht])) (.noticed hn hserver fun _ => ?_)
          exact ⟨hasked, Flight.unselected_of_head (by rw [htype]) hv ht⟩
        · rename_i edit name ht
          split
          · rename_i hp
            exact unwraps_refuse hc (keeps_of_unconfigured ht hp) _
          · rename_i protocol hp
            exact unwraps_unwrapStripped hc ⟨hr, hn, hs, ht, hp⟩
    · rename_i hshort
      refine .waited hc (keeps_of_ne ?_)
      intro edit name ht
      obtain ⟨_, _, _, he, -⟩ := Flight.head_of_takeSelection ht
      exact hshort _ _ _ _ he

/-- Every call with input is one of the steps above. -/
theorem unwraps_unwrap (hs : o.strategy = .overlay) (source : Bytes) (buffers : List Bytes) :
    Unwraps o source buffers (o.unwrap source buffers) := by
  simp only [unwrap]
  cases hc : o.session.closed with
  | true => exact .closed hc
  | false =>
    have hs' : o.markStarted.strategy = .overlay := hs
    simp only [hs', Bool.false_eq_true, if_false]
    cases hr : o.role with
    | client =>
      have hr' : o.markStarted.role = .client := hr
      simp only [hr']
      exact unwraps_unwrapClient hc hr
    | server =>
      have hr' : o.markStarted.role = .server := hr
      simp only [hr']
      exact unwraps_unwrapServer hc hr

/-- Over an engine that negotiates itself, output goes through or comes from the slot. -/
theorem wrap_native (hs : o.strategy = .native) (sources : List Bytes) (buffer : Bytes) :
    o.wrap sources buffer =
      if o.session.closed then ⟨o, buffer, .ok (.closed (Engine.phase o.engine))⟩
      else if o.session.parked.isEmpty then
        o.markStarted.forward (Engine.wrap o.engine sources buffer)
      else o.markStarted.drain buffer := by
  have hs' : o.markStarted.strategy = .native := hs
  simp only [wrap, hs']
  rfl

theorem unwrap_native (hs : o.strategy = .native) (source : Bytes) (buffers : List Bytes) :
    o.unwrap source buffers =
      if o.session.closed then ⟨o, buffers, .ok (.closed (Engine.phase o.engine))⟩
      else o.markStarted.forward (Engine.unwrap o.engine source buffers) := by
  have hs' : o.markStarted.strategy = .native := hs
  simp only [unwrap, hs']
  rfl

omit [Engine σ] in
theorem deliver_fields (o : Overlay σ) (stream buffer : Bytes) (progress : Progress) :
    (o.deliver stream buffer progress).engine.engine = o.engine ∧
    (o.deliver stream buffer progress).engine.strategy = o.strategy ∧
    ∃ parked, (o.deliver stream buffer progress).engine.session = { o.session with parked } := by
  simp only [deliver]
  split
  · exact ⟨rfl, rfl, _, rfl⟩
  · split
    · exact ⟨rfl, rfl, _, rfl⟩
    · exact ⟨rfl, rfl, _, rfl⟩

theorem drain_fields (o : Overlay σ) (buffer : Bytes) :
    (o.drain buffer).engine.engine = o.engine ∧
    (o.drain buffer).engine.strategy = o.strategy ∧
    ∃ parked, (o.drain buffer).engine.session = { o.session with parked } := by
  simp only [drain]
  split
  · exact ⟨rfl, rfl, _, rfl⟩
  · exact ⟨rfl, rfl, _, rfl⟩

omit [Engine σ] in
theorem result_deliver (o : Overlay σ) (hp : o.session.parked.isEmpty = true)
    (stream buffer : Bytes) (progress : Progress) :
    ∃ p, (o.deliver stream buffer progress).result = .ok p := by
  simp only [deliver, Parked.park_of_isEmpty hp]
  split
  · exact ⟨_, rfl⟩
  · exact ⟨_, rfl⟩

theorem result_drain (o : Overlay σ) (buffer : Bytes) : ∃ p, (o.drain buffer).result = .ok p := by
  simp only [drain]
  split
  · exact ⟨_, rfl⟩
  · exact ⟨_, rfl⟩

/-- Output leaves alone what is known of the peer. -/
theorem Wraps.frame {outcome : Outcome σ Bytes} (h : Wraps o sources buffer outcome) :
    outcome.engine.strategy = o.strategy ∧
    outcome.engine.session.protocols = o.session.protocols ∧
    outcome.engine.session.selected = o.session.selected ∧
    outcome.engine.session.peerHelloSeen = o.session.peerHelloSeen := by
  cases h with
  | closed => exact ⟨rfl, rfl, rfl, rfl⟩
  | passed => exact ⟨rfl, rfl, rfl, rfl⟩
  | refused => exact ⟨rfl, rfl, rfl, rfl⟩
  | abandoned => exact ⟨rfl, rfl, rfl, rfl⟩
  | drained =>
    obtain ⟨-, hs, parked, hp⟩ := drain_fields o.markStarted buffer
    rw [hs, hp]
    exact ⟨rfl, rfl, rfl, rfl⟩
  | @edited progress edit engine =>
    obtain ⟨-, hs, parked, hp⟩ := deliver_fields (o.markStarted.markSent.withEngine engine)
      edit.stream (Engine.wrap o.engine sources buffer).buffer progress
    rw [hs, hp]
    exact ⟨rfl, rfl, rfl, rfl⟩

theorem Reads.fields {session : Session} (h : Reads o source session) :
    session.protocols = o.session.protocols ∧ session.parked = o.session.parked ∧
    session.ownHelloSent = o.session.ownHelloSent ∧ session.closed = o.session.closed := by
  cases h <;> exact ⟨rfl, rfl, rfl, rfl⟩

/-- Input leaves alone what is known of the own output. -/
theorem Unwraps.frame {outcome : Outcome σ (List Bytes)} (h : Unwraps o source buffers outcome) :
    outcome.engine.strategy = o.strategy ∧
    outcome.engine.session.protocols = o.session.protocols ∧
    outcome.engine.session.parked = o.session.parked ∧
    outcome.engine.session.ownHelloSent = o.session.ownHelloSent := by
  cases h with
  | passed hc hk hs =>
    obtain ⟨hp, hparked, ho, -⟩ := hs.fields
    exact ⟨rfl, hp, hparked, ho⟩
  | _ => exact ⟨rfl, rfl, rfl, rfl⟩

/-- Nothing is selected before the peer's hello has been looked at. -/
theorem Unwraps.unseen {outcome : Outcome σ (List Bytes)} (h : Unwraps o source buffers outcome)
    (hn : outcome.engine.session.peerHelloSeen = false) :
    o.session.peerHelloSeen = false ∧ outcome.engine.session.selected = o.session.selected := by
  cases h with
  | passed hc hk hs =>
    cases hs with
    | ignored => exact ⟨hn, rfl⟩
    | noticed => cases hn
    | offered => cases hn
  | stripped => cases hn
  | _ => exact ⟨hn, rfl⟩

/-- Only a failure closes an overlay. -/
theorem Wraps.open_of_ok {outcome : Outcome σ Bytes} {progress : Progress}
    (h : Wraps o sources buffer outcome) (hc : o.session.closed = false)
    (hr : outcome.result = .ok progress) : outcome.engine.session.closed = false := by
  cases h with
  | closed => exact hc
  | passed => exact hc
  | refused => cases hr
  | abandoned => cases hr
  | drained =>
    obtain ⟨-, -, parked, hp⟩ := drain_fields o.markStarted buffer
    rw [hp]
    exact hc
  | @edited progress edit engine =>
    obtain ⟨-, -, parked, hp⟩ := deliver_fields (o.markStarted.markSent.withEngine engine)
      edit.stream (Engine.wrap o.engine sources buffer).buffer progress
    rw [hp]
    exact hc

theorem Unwraps.open_of_ok {outcome : Outcome σ (List Bytes)} {progress : Progress}
    (h : Unwraps o source buffers outcome) (hc : o.session.closed = false)
    (hr : outcome.result = .ok progress) : outcome.engine.session.closed = false := by
  cases h with
  | passed _ _ hs => exact hs.fields.2.2.2.trans hc
  | refused => cases hr
  | cut => cases hr
  | abandoned => cases hr
  | _ => exact hc

theorem Unwraps.open_before {outcome : Outcome σ (List Bytes)}
    (h : Unwraps o source buffers outcome) (hc : outcome.engine.session.closed = false) :
    o.session.closed = false := by
  cases h with
  | closed => exact hc
  | _ => assumption

/-- A client selects a protocol of its list, and only after its own hello. -/
theorem Unwraps.selected {outcome : Outcome σ (List Bytes)} (h : Unwraps o source buffers outcome)
    (hr : o.role = .client) :
    outcome.engine.session.selected = o.session.selected ∨
      ∃ protocol, outcome.engine.session.selected = some protocol ∧
        protocol ∈ o.session.protocols ∧ o.session.ownHelloSent = true := by
  cases h with
  | passed hc hk hs =>
    cases hs with
    | ignored => exact .inl rfl
    | noticed => exact .inl rfl
    | offered _ hserver =>
      rw [hr] at hserver
      cases hserver
  | stripped hc hs => exact .inr ⟨_, rfl, List.mem_of_find?_eq_some hs.configured, hs.sent⟩
  | _ => exact .inl rfl

end Overlay
end AlpnOverlay
