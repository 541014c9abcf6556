import AlpnOverlay.Peer
import AlpnOverlay.Proofs.Overlay.Outbound
import AlpnOverlay.Proofs.Transcript.FirstMatch

/-!
The transcript of the engine against the wire. They agree as long as no hello occurs in the
transcript in front of the place where it is edited.
-/
namespace AlpnOverlay

/-- An engine that moves one record in a call, and whose transcript grows by the payload of each
handshake record. -/
structure RecordByRecord {σ : Type} [Engine σ] (hashed : σ → Bytes) : Prop where
  transcript : ∀ e, ∃ t, Engine.transcript? e = some t ∧ t.captured e = hashed e ∧
    ∀ bytes, hashed (t.append (t.reset e) bytes) = bytes
  wrap : ∀ e sources buffer progress, (Engine.wrap e sources buffer).result = .ok progress →
    (progress.produced = 0 ∧ hashed (Engine.wrap e sources buffer).engine = hashed e) ∨
    ∃ r : Wire.Record, (Engine.wrap e sources buffer).output = r.encode ∧
      hashed (Engine.wrap e sources buffer).engine = hashed e ++ Wire.Record.handshakeBytes [r]
  unwrap : ∀ e source buffers progress, (Engine.unwrap e source buffers).result = .ok progress →
    (progress.consumed = 0 ∧ hashed (Engine.unwrap e source buffers).engine = hashed e) ∨
    ∃ r rest, Wire.Record.first source = .ok (r, rest) ∧ progress.consumed = r.size ∧
      hashed (Engine.unwrap e source buffers).engine = hashed e ++ Wire.Record.handshakeBytes [r]

namespace Overlay

open Wire

variable {σ : Type} [Engine σ] {o : Overlay σ} {hashed : σ → Bytes} {edit : Flight.Edit}
  {calls first : List Call} {call : Call} {sources buffers : List Bytes} {source buffer : Bytes}

/-- The bytes of a call as they are outside the overlay: what leaves or is parked, and what is
taken from the input. Bytes that come out of the slot have been counted before. -/
def crossing (o : Overlay σ) : Call → Bytes
  | .wrap sources buffer =>
    if o.session.parked.isEmpty then
      (o.wrap sources buffer).output ++ (o.wrap sources buffer).engine.session.parked.bytes
    else []
  | .unwrap source buffers => source.take (o.unwrap source buffers).consumed
  | _ => []

/-- The handshake bytes of a run as they are outside the overlay. -/
def wire (o : Overlay σ) : List Call → Bytes
  | [] => []
  | call :: calls => Record.handshake (o.crossing call) ++ (o.perform call).1.wire calls

/-- The edit that a call makes. -/
def Makes (o : Overlay σ) : Call → Flight.Edit → Prop
  | .wrap sources buffer, edit =>
    o.session.parked.isEmpty = true ∧
      o.editOf (Engine.wrap o.engine sources buffer) = .ok (some edit)
  | .unwrap source buffers, edit =>
    (∃ name protocol, Strips o source edit name protocol) ∧
      (Engine.unwrap o.engine edit.stream buffers).consumed ≠ 0
  | _, _ => False

theorem wire_snoc : o.wire (calls ++ [call]) =
    o.wire calls ++ Record.handshake ((o.after calls).crossing call) := by
  induction calls generalizing o with
  | nil => exact List.append_nil _
  | cons c calls ih =>
    simp only [List.cons_append, wire, ih, List.append_assoc]
    rfl

/-- A hello is put right in a transcript exactly when it does not occur in front of its place. -/
theorem corrects_iff (law : RecordByRecord hashed) (hl : edit.Lengthens) {e corrected : σ}
    {front rest : Bytes} (he : hashed e = front ++ edit.inner ++ rest)
    (hx : Corrects e edit corrected) :
    hashed corrected = front ++ edit.outer ++ rest ↔ ¬ Earlier edit.inner front := by
  obtain ⟨t, ht, hcap, happend⟩ := law.transcript e
  obtain ⟨_, ht', hs⟩ := hx
  cases ht.symm.trans ht'
  rw [← hl.replace?_eq_some_iff]
  simp only [Transcript.resynchronize, hl.isNoop, hcap, he, Bool.false_eq_true, if_false] at hs
  cases hr : edit.substitution.replace? (front ++ edit.inner ++ rest) with
  | none =>
    rw [hr] at hs
    cases hs
  | some bytes =>
    simp only [hr, Except.ok.injEq] at hs
    rw [← hs, happend, Option.some.injEq]

/-- A record that opens with the engine's form of a hello, as the only one of its flight. -/
theorem alone_of_replaces {data old new rest : Bytes} {r : Record} (hd : data = r.encode)
    (h : edit.Replaces data old new rest) :
    edit.tail = [] ∧ Record.handshakeBytes [r] = old ++ rest := by
  have hall : Record.encodeAll [r] = Record.encodeAll (edit.carrier :: edit.tail) := by
    rw [← h.stream, hd]
    exact List.append_nil _
  obtain ⟨hr, ht⟩ := List.cons.inj (Record.encodeAll_inj hall)
  refine ⟨ht.symm, ?_⟩
  rw [hr, Record.handshakeBytes_singleton (Flight.type_of_isEditable h.editable), h.carried]

theorem handshake_stream {data old new rest : Bytes} (h : edit.Replaces data old new rest)
    (ht : edit.tail = []) : Record.handshake edit.stream = new ++ rest := by
  rw [Flight.Edit.stream, ht, List.append_nil, Record.handshake_encodeAll, h.recarried,
    Record.handshakeBytes_carrying]

theorem outbound_of_editOf {reply : Reply σ Bytes Cause} (h : o.editOf reply = .ok (some edit)) :
    edit.Lengthens ∧ ∃ rest, edit.Replaces reply.output edit.inner edit.outer rest := by
  obtain ⟨-, -, hk⟩ := editOf_eq_some h
  cases hr : o.role with
  | client =>
    simp only [hr] at hk
    exact Flight.outbound_of_addOffer hk.2
  | server =>
    simp only [hr] at hk
    obtain ⟨protocol, -, hadd⟩ := hk
    exact Flight.outbound_of_addSelection hadd

/-- A call makes one edit at most. -/
theorem Makes.unique {edit' : Flight.Edit} (h : o.Makes call edit) (h' : o.Makes call edit') :
    edit' = edit := by
  cases call with
  | wrap sources buffer =>
    obtain ⟨-, he⟩ := h
    obtain ⟨-, he'⟩ := h'
    cases he.symm.trans he'
    rfl
  | unwrap source buffers =>
    obtain ⟨⟨_, _, hs⟩, -⟩ := h
    obtain ⟨⟨_, _, hs'⟩, -⟩ := h'
    exact (hs'.unique hs).1
  | _ => exact h.elim

theorem Makes.forall_iff {P : Flight.Edit → Prop} (h : o.Makes call edit) :
    (∀ edit, o.Makes call edit → P edit) ↔ P edit := by
  constructor
  · exact fun hall => hall edit h
  · intro hp edit' h'
    rwa [h.unique h']

theorem not_makes_of_keeps (hk : Keeps o source) (edit : Flight.Edit) :
    ¬ o.Makes (.unwrap source buffers) edit := by
  rintro ⟨⟨name, protocol, hs⟩, -⟩
  exact hk _ _ _ hs

theorem hashed_wrap (law : RecordByRecord hashed) {e : σ} {progress : Progress}
    (hok : (Engine.wrap e sources buffer).result = .ok progress) :
    hashed (Engine.wrap e sources buffer).engine =
      hashed e ++ Record.handshake (Engine.wrap e sources buffer).output := by
  rcases law.wrap _ _ _ _ hok with ⟨h0, hsame⟩ | ⟨r, hr, hgrown⟩
  · have hn : (Engine.wrap e sources buffer).produced = 0 := by
      simp only [Reply.produced, hok, h0]
    rw [hsame, Reply.output, hn, List.take_zero, Record.handshake_nil, List.append_nil]
  · rw [hgrown, hr, Record.handshake_encode]

/-- After an edit of an output the transcript ends with what leaves, unless the hello occurs in
front of it. -/
theorem edited_hashed_iff (law : RecordByRecord hashed) {engine : σ} {progress : Progress}
    (hres : (Engine.wrap o.engine sources buffer).result = .ok progress)
    (he : o.editOf (Engine.wrap o.engine sources buffer) = .ok (some edit))
    (hx : Corrects (Engine.wrap o.engine sources buffer).engine edit engine) :
    hashed engine = hashed o.engine ++ Record.handshake edit.stream ↔
      ¬ Earlier edit.inner (hashed o.engine) := by
  obtain ⟨hl, rest, hrep⟩ := outbound_of_editOf he
  obtain ⟨h0, -, -⟩ := editOf_eq_some he
  rcases law.wrap _ _ _ _ hres with ⟨hn, -⟩ | ⟨r, hr, hgrown⟩
  · simp only [Reply.produced, hres] at h0
    exact absurd hn h0
  · obtain ⟨htail, hold⟩ := alone_of_replaces hr hrep
    rw [hold, ← List.append_assoc] at hgrown
    rw [handshake_stream hrep htail, ← List.append_assoc, corrects_iff law hl hgrown hx]

/-- A call for output keeps transcript and wire together unless its edit hits an earlier place. -/
theorem wrap_hashed_iff (law : RecordByRecord hashed) (hs : o.strategy = .overlay)
    (hc : o.session.closed = false) {progress : Progress}
    (hok : (o.wrap sources buffer).result = .ok progress) :
    hashed (o.wrap sources buffer).engine.engine =
        hashed o.engine ++ Record.handshake (o.crossing (.wrap sources buffer)) ↔
      ∀ edit, o.Makes (.wrap sources buffer) edit → ¬ Earlier edit.inner (hashed o.engine) := by
  have hw := wraps_wrap hs sources buffer
  simp only [crossing]
  generalize o.wrap sources buffer = outcome at hw hok
  cases hw with
  | closed h =>
    rw [hc] at h
    cases h
  | drained _ hp =>
    refine iff_of_true ?_ ?_
    · rw [hp, (drain_fields o.markStarted buffer).1, if_neg Bool.false_ne_true,
        Record.handshake_nil, List.append_nil]
      rfl
    · rintro edit ⟨h, -⟩
      rw [hp] at h
      cases h
  | passed _ hp he =>
    refine iff_of_true ?_ ?_
    · rw [if_pos hp, pass_moved hp, Parked.isEmpty_iff.1 hp]
      exact hashed_wrap law (Flight.mapError_eq_ok_iff.1 hok)
    · rintro edit ⟨-, h⟩
      rw [he] at h
      cases h
  | refused => cases hok
  | abandoned => cases hok
  | @edited p edit engine _ hp hres he hx =>
    have hmade : o.Makes (.wrap sources buffer) edit := ⟨hp, he⟩
    have hengine := (deliver_fields (o.markStarted.markSent.withEngine engine) edit.stream
      (Engine.wrap o.engine sources buffer).buffer p).1
    have hslot : (o.markStarted.markSent.withEngine engine).session.parked.bytes = [] :=
      Parked.isEmpty_iff.1 hp
    rw [if_pos hp, hengine, withEngine_engine, deliver_output hslot, hmade.forall_iff]
    exact edited_hashed_iff law hres he hx

theorem hashed_unwrap (law : RecordByRecord hashed) {e : σ} {progress : Progress}
    (hok : (Engine.unwrap e source buffers).result = .ok progress) :
    hashed (Engine.unwrap e source buffers).engine =
      hashed e ++ Record.handshake (source.take progress.consumed) := by
  rcases law.unwrap _ _ _ _ hok with ⟨h0, hsame⟩ | ⟨r, rest, hf, hn, hgrown⟩
  · rw [hsame, h0, List.take_zero, Record.handshake_nil, List.append_nil]
  · have htake : source.take progress.consumed = r.encode := by
      rw [hn, Record.first_eq_ok_iff.1 hf, ← Record.length_encode, List.take_left]
    rw [hgrown, htake, Record.handshake_encode]

/-- What the engine has taken of a stripped flight is the whole new head, in one record. -/
theorem head_of_first {data old new rest : Bytes} {r : Record} {behind : Bytes}
    (h : edit.Replaces data old new rest) (hf : Record.first edit.stream = .ok (r, behind))
    (hl : edit.headLength ≤ r.size) :
    edit.head = [r] ∧ Record.handshakeBytes [r] = new ++ rest := by
  have hne : edit.head ≠ [] := by
    rw [h.recarried, Record.carrying]
    split <;> simp
  obtain ⟨first, more, hhead⟩ := List.exists_cons_of_ne_nil hne
  have hstream : edit.stream = first.encode ++ Record.encodeAll (more ++ edit.tail) := by
    rw [Flight.Edit.stream, hhead, List.cons_append, Record.encodeAll_cons]
  have hr : first = r := by
    have hfirst := Record.first_eq_ok_iff.2 hstream
    rw [hf] at hfirst
    cases hfirst
    rfl
  have hmore : more = [] := by
    rw [Flight.Edit.headLength, hhead, Record.encodeAll_cons, List.length_append,
      Record.length_encode, hr] at hl
    cases more with
    | nil => rfl
    | cons s more =>
      rw [Record.encodeAll_cons, List.length_append, Record.length_encode] at hl
      simp only [Record.size, headerLength] at hl
      omega
  have hone : edit.head = [r] := by rw [hhead, hr, hmore]
  refine ⟨hone, ?_⟩
  rw [← hone, h.recarried, Record.handshakeBytes_carrying]

/-- The engine takes the new head, and the caller is told of the record that it replaced. -/
theorem size_add_carrierLength {data rest : Bytes} {r : Record}
    (h : edit.Replaces data edit.outer edit.inner rest) (hl : edit.Lengthens)
    (hr : edit.head = [r]) (hp : Record.handshakeBytes [r] = edit.inner ++ rest) :
    r.size + (edit.carrierLength - edit.headLength) = edit.carrier.size := by
  have hmem : r ∈ Record.carrying .handshake edit.carrier.version (edit.inner ++ rest) := by
    rw [← h.recarried, hr]
    exact List.mem_singleton_self r
  rw [Record.handshakeBytes_singleton (Record.of_mem_carrying hmem).1] at hp
  have hlen : edit.headLength = r.size := by
    simp only [Flight.Edit.headLength, hr, Record.encodeAll_cons, List.length_append,
      Record.length_encode]
    rfl
  have hshorter := hl.shorter
  simp only [Flight.Edit.carrierLength, hlen, Record.size, h.carried, hp, List.length_append]
  omega

/-- After a selection is taken the transcript ends with what the caller is told of, unless the
hello occurs in front of it. -/
theorem stripped_hashed_iff (law : RecordByRecord hashed) {engine : σ} {progress : Progress}
    {name : Bytes} {protocol : String} (hst : Strips o source edit name protocol)
    (hres : (Engine.unwrap o.engine edit.stream buffers).result = .ok progress)
    (h0 : progress.consumed ≠ 0) (hl : edit.headLength ≤ progress.consumed)
    (hx : Corrects (Engine.unwrap o.engine edit.stream buffers).engine edit engine) :
    hashed engine = hashed o.engine ++
        Record.handshake
          (source.take (progress.consumed + (edit.carrierLength - edit.headLength))) ↔
      ¬ Earlier edit.inner (hashed o.engine) := by
  obtain ⟨hlong, rest, hrep⟩ := Flight.inbound_of_takeSelection hst.taken
  rcases law.unwrap _ _ _ _ hres with ⟨hn, -⟩ | ⟨r, behind, hf, hn, hgrown⟩
  · exact absurd hn h0
  · obtain ⟨hhead, hpayload⟩ := head_of_first hrep hf (hn ▸ hl)
    have htake : source.take (progress.consumed + (edit.carrierLength - edit.headLength)) =
        edit.carrier.encode := by
      have hsize := size_add_carrierLength hrep hlong hhead hpayload
      rw [hn, hsize, hrep.stream, Record.encodeAll_cons, ← Record.length_encode, List.take_left]
    rw [hpayload, ← List.append_assoc] at hgrown
    rw [htake, Record.handshake_encode,
      Record.handshakeBytes_singleton (Flight.type_of_isEditable hrep.editable), hrep.carried,
      ← List.append_assoc, corrects_iff law hlong hgrown hx]

/-- A call with input keeps transcript and wire together unless its edit hits an earlier place. -/
theorem unwrap_hashed_iff (law : RecordByRecord hashed) (hs : o.strategy = .overlay)
    (hc : o.session.closed = false) {progress : Progress}
    (hok : (o.unwrap source buffers).result = .ok progress) :
    hashed (o.unwrap source buffers).engine.engine =
        hashed o.engine ++ Record.handshake (o.crossing (.unwrap source buffers)) ↔
      ∀ edit, o.Makes (.unwrap source buffers) edit → ¬ Earlier edit.inner (hashed o.engine) := by
  have hu := unwraps_unwrap hs source buffers
  have hcrossing : o.crossing (.unwrap source buffers) = source.take progress.consumed := by
    simp only [crossing, Reply.consumed, hok]
  rw [hcrossing]
  generalize o.unwrap source buffers = outcome at hu hok
  cases hu with
  | closed h =>
    rw [hc] at h
    cases h
  | refused => cases hok
  | cut => cases hok
  | abandoned => cases hok
  | waited _ hk =>
    cases hok
    refine iff_of_true ?_ fun edit hmade => absurd hmade (not_makes_of_keeps hk edit)
    simp only [Progress.underflow, List.take_zero, Record.handshake_nil, List.append_nil]
    rfl
  | passed _ hk _ =>
    refine iff_of_true ?_ fun edit hmade => absurd hmade (not_makes_of_keeps hk edit)
    exact hashed_unwrap law (Flight.mapError_eq_ok_iff.1 hok)
  | @idle edit name protocol _ hst h0 =>
    have hres := Flight.mapError_eq_ok_iff.1 hok
    have hn : progress.consumed = 0 := by simpa only [Reply.consumed, hres] using h0
    refine iff_of_true ?_ ?_
    · have hgrown := hashed_unwrap law hres
      rw [hn, List.take_zero] at hgrown ⊢
      exact hgrown
    · rintro edit' ⟨⟨_, _, hst'⟩, hne⟩
      rw [(hst'.unique hst).1] at hne
      exact absurd h0 hne
  | @stripped edit name protocol p engine _ hst hres h0 hl hx =>
    cases hok
    have hmade : o.Makes (.unwrap source buffers) edit := by
      refine ⟨⟨name, protocol, hst⟩, ?_⟩
      simpa only [Reply.consumed, hres] using h0
    rw [hmade.forall_iff]
    exact stripped_hashed_iff law hst hres h0 hl hx

/-- One more call keeps transcript and wire together unless its edit hits an earlier place. -/
theorem step_hashed_iff (law : RecordByRecord hashed) (hs : o.strategy = .overlay)
    (hopen : o.session.closed = false) (hm : ∀ call ∈ calls, call.movesBytes = true)
    (hc : o.Clean calls) (hp : first ++ [call] <+: calls) :
    hashed (o.after (first ++ [call])).engine =
        hashed (o.after first).engine ++ Record.handshake ((o.after first).crossing call) ↔
      ∀ edit, (o.after first).Makes call edit →
        ¬ Earlier edit.inner (hashed (o.after first).engine) := by
  have hfirst : first <+: calls := (List.prefix_append _ _).trans hp
  obtain ⟨hs, hopen⟩ := (hc.before hfirst).isOpen (fun call h => hm call (hfirst.subset h)) hs hopen
  have hcall := hm call (hp.subset (by simp))
  cases call with
  | wrap sources buffer =>
    obtain ⟨progress, hok⟩ := hc.wrap_ok hp
    rw [after_wrap]
    exact wrap_hashed_iff law hs hopen hok
  | unwrap source buffers =>
    obtain ⟨progress, hok⟩ := hc.unwrap_ok hp
    rw [after_unwrap]
    exact unwrap_hashed_iff law hs hopen hok
  | _ => cases hcall

/-- The transcript stays what has crossed the wire exactly as long as each hello that is edited
stands in it for the first time. -/
theorem transcript_eq_wire_iff {engine : σ} {config : Config} (law : RecordByRecord hashed)
    (ho : Overlay.of engine config = .ok o) (hs : o.strategy = .overlay)
    (hm : ∀ call ∈ calls, call.movesBytes = true) (hc : o.Clean calls) :
    (∀ first, first <+: calls → hashed (o.after first).engine = hashed engine ++ o.wire first) ↔
      ∀ first call, first ++ [call] <+: calls → ∀ edit, (o.after first).Makes call edit →
        ¬ Earlier edit.inner (hashed engine ++ o.wire first) := by
  obtain ⟨hengine, hopen⟩ : o.engine = engine ∧ o.session.closed = false := by
    obtain rfl := of_eq_ok ho hs
    exact ⟨rfl, rfl⟩
  constructor
  · intro h first call hp edit hmade
    have hfirst := h first ((List.prefix_append _ _).trans hp)
    rw [← hfirst]
    refine (step_hashed_iff law hs hopen hm hc hp).1 ?_ edit hmade
    rw [h _ hp, hfirst, wire_snoc, List.append_assoc]
  · intro h first hf
    have hstep : ∀ first call, first ++ [call] <+: calls →
        hashed (o.after first).engine = hashed engine ++ o.wire first →
        hashed (o.after (first ++ [call])).engine = hashed engine ++ o.wire (first ++ [call]) := by
      intro first call hp hfirst
      have hmade := h first call hp
      rw [← hfirst] at hmade
      rw [(step_hashed_iff law hs hopen hm hc hp).2 hmade, hfirst, wire_snoc, List.append_assoc]
    refine run_induction
      (P := fun calls => hashed (o.after calls).engine = hashed engine ++ o.wire calls)
      (fun call hcall => hm call (hf.subset hcall)) ?_ ?_ ?_
    · rw [after_nil, hengine]
      exact (List.append_nil _).symm
    · intro first sources buffer hp hfirst
      exact hstep _ _ (hp.trans hf) hfirst
    · intro first source buffers hp hfirst
      exact hstep _ _ (hp.trans hf) hfirst

end Overlay

/-- An engine that hands out records and takes in whatever record comes first. -/
structure Courier where
  role : Role
  outgoing : List Wire.Record
  hashed : Bytes := []

namespace Courier

open Wire

def wrap (e : Courier) (buffer : Bytes) : Reply Courier Bytes Cause :=
  match e.outgoing with
  | [] => ⟨e, buffer, .ok ⟨.ok, .needUnwrap, 0, 0⟩⟩
  | r :: outgoing =>
    if buffer.length < r.size then ⟨e, buffer, .ok ⟨.overflow, .needWrap, 0, 0⟩⟩
    else
      ⟨{ e with outgoing, hashed := e.hashed ++ Record.handshakeBytes [r] },
        r.encode ++ buffer.drop r.size, .ok ⟨.ok, .needUnwrap, 0, r.size⟩⟩

def unwrap (e : Courier) (source : Bytes) (buffers : List Bytes) :
    Reply Courier (List Bytes) Cause :=
  match Record.first source with
  | .error _ => ⟨e, buffers, .ok .underflow⟩
  | .ok (r, _) =>
    ⟨{ e with hashed := e.hashed ++ Record.handshakeBytes [r] }, buffers,
      .ok ⟨.ok, .needWrap, r.size, 0⟩⟩

def transcript : Transcript Courier where
  captured := hashed
  reset e := { e with hashed := [] }
  append e bytes := { e with hashed := e.hashed ++ bytes }

instance : Engine Courier where
  role := role
  wrap e _ buffer := e.wrap buffer
  unwrap := unwrap
  phase e := if e.outgoing.isEmpty then .needUnwrap else .needWrap
  transcript? _ := some transcript
  wrap_length e _ buffer := by
    simp only [wrap]
    split
    · rfl
    · split
      · rfl
      · simp only [List.length_append, Record.length_encode, List.length_drop]
        omega
  unwrap_lengths e source buffers := by
    simp only [unwrap]
    split <;> rfl

theorem recordByRecord : RecordByRecord hashed where
  transcript e := ⟨transcript, rfl, rfl, fun _ => rfl⟩
  wrap e sources buffer progress h := by
    simp only [Engine.wrap] at h ⊢
    cases ho : e.outgoing with
    | nil =>
      simp only [wrap, ho] at h ⊢
      cases h
      exact .inl ⟨rfl, trivial⟩
    | cons r outgoing =>
      by_cases hs : buffer.length < r.size
      · simp only [wrap, ho, hs, if_true] at h ⊢
        cases h
        exact .inl ⟨rfl, trivial⟩
      · simp only [wrap, ho, hs, if_false] at h ⊢
        cases h
        refine .inr ⟨r, ?_, rfl⟩
        simp only [Reply.output, Reply.produced, ← Record.length_encode, List.take_left]
  unwrap e source buffers progress h := by
    simp only [Engine.unwrap] at h ⊢
    cases hf : Record.first source with
    | error e =>
      simp only [unwrap, hf] at h ⊢
      cases h
      exact .inl ⟨rfl, trivial⟩
    | ok parts =>
      simp only [unwrap, hf] at h ⊢
      cases h
      exact .inr ⟨parts.1, parts.2, rfl, rfl, rfl⟩

end Courier

namespace Overlay

open Wire

/-- A client that sends one hello, and the calls in which it sends it and gets a selection. -/
def carryingHello (hello : Hello) (h : hello.encode.length ≤ maxPayload) : Overlay Courier :=
  ⟨⟨.client, [⟨.handshake, .tls12, hello.encode, h⟩], []⟩, .overlay, { protocols := ["h2"] }⟩

def exchange : List Call :=
  [.wrap [] (List.replicate 256 0),
    .unwrap (Peer.recordOf .handshake
      ((Peer.helloOf .server).add ⟨Extension.alpn, [0, 3, 2, 0x68, 0x32]⟩).encode) []]

theorem wire_exchange_agrees :
    let o := carryingHello (Peer.helloOf .client) (by decide)
    ∀ first call, first ++ [call] <+: exchange → ∀ edit, (o.after first).Makes call edit →
      ¬ Earlier edit.inner (o.wire first) := by
  intro o
  have ho : Overlay.of o.engine { protocols := ["h2"], mode := .overlay } = .ok o := rfl
  have hanswers : (o.run exchange).2.all Answer.succeeded = true := by decide +kernel
  refine (transcript_eq_wire_iff Courier.recordByRecord ho rfl (by decide)
    (List.all_eq_true.1 hanswers)).1 (forall_initial ?_)
  decide +kernel

/-- A client hello that carries the server's hello in an extension. -/
def echoing : Hello :=
  { Peer.helloOf .client with extensions := some [⟨0x1234, (Peer.helloOf .server).encode⟩] }

/-- The selection is put into the extension of the client's hello, and the transcript is no longer
what has crossed the wire. -/
theorem transcript_off_the_wire :
    let o := carryingHello echoing (by decide +kernel)
    (∀ answer ∈ (o.run exchange).2, answer.succeeded = true) ∧
      (o.after exchange).engine.hashed ≠ o.wire exchange := by
  intro o
  have hanswers : (o.run exchange).2.all Answer.succeeded = true := by decide +kernel
  exact ⟨List.all_eq_true.1 hanswers, by decide +kernel⟩

end Overlay
end AlpnOverlay
