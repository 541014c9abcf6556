import AlpnOverlay.Engine.Scripted
import AlpnOverlay.Proofs.Flight.Opening
import AlpnOverlay.Proofs.Overlay.Outbound

/-!
What a client accepts. A selection is taken only after the first output has gone by, with an offer
in it or without; the list that it is compared with is the configured one either way.
-/
namespace AlpnOverlay

namespace Wire

/-- Whether a message is a client hello that offers `name`. -/
def Hello.offers (message name : Bytes) : Bool :=
  match Hello.parse .client message with
  | .error _ => false
  | .ok hello =>
    match hello.find? Extension.alpn with
    | none => false
    | some x =>
      match ProtocolList.decode x.data with
      | .error _ => false
      | .ok names => names.contains name

/-- Whether a handshake message in the whole records of `stream` offers `name`; the message may
run over several records. -/
def streamOffers (stream name : Bytes) : Bool :=
  (Message.leading (Record.handshake stream)).any fun message =>
    Hello.offers message name

end Wire

namespace Flight

open Wire

variable {data name : Bytes} {protocols : List Bytes} {edit : Edit}

/-- An edited flight offers each protocol of the list, whatever follows it. -/
theorem streamOffers_of_addOffer (h : addOffer data protocols = .ok (some edit))
    (hn : name ∈ protocols) (more : Bytes) : streamOffers (edit.stream ++ more) name = true := by
  obtain ⟨old, new, list, rest, hx, hr, -, -, hrep⟩ := addOffer_eq_some_iff.1 h
  have hnew : new.sender = .client := by rw [hx.eq, ← hr]; rfl
  have hrecords : Record.leading (edit.stream ++ more) =
      edit.head ++ (edit.tail ++ Record.leading more) := by
    rw [Edit.stream, Record.leading_append, List.append_assoc]
  have hmessages : Message.split (new.encode ++ (rest ++
      Record.handshakeBytes (edit.tail ++ Record.leading more))) = .ok (new.encode, _) :=
    split_encode hx.newFits _
  have hparse := Hello.parse_encode hx.newFits
  have hfind : new.find? Extension.alpn = some ⟨Extension.alpn, list⟩ := by
    rw [hx.eq]
    exact Hello.find?_add (x := ⟨Extension.alpn, list⟩) hx.without
  have hoffers : Hello.offers new.encode name = true := by
    rw [hnew] at hparse
    simp only [Hello.offers, hparse, hfind, ProtocolList.decode_eq_ok_iff.2 hx.listed]
    simpa using hn
  rw [streamOffers, Record.handshake, hrecords, Record.handshakeBytes_append, hrep.recarried,
    Record.handshakeBytes_carrying, List.append_assoc, Message.leading_of_split hmessages,
    List.any_cons, hoffers, Bool.true_or]

end Flight

namespace Overlay

variable {σ : Type} [Engine σ] {o : Overlay (Recorded σ)} {calls : List Call} {call : Call}
  {sources buffers : List Bytes} {source buffer : Bytes}

/-- The first output that is not empty. -/
def firstOutput (r : Recorded σ) : Option Bytes := r.outputs.find? fun output => !output.isEmpty

/-- How far a client has come with its own hello. -/
inductive Stage (o : Overlay (Recorded σ)) (calls : List Call) : Prop where
  | unsent (hs : (o.after calls).session.ownHelloSent = false)
      (hn : (o.after calls).session.selected = none)
      (hq : (o.after calls).session.closed = false → o.session.protocols ≠ [] →
        firstOutput (o.after calls).engine = none ∧ o.emitted calls = [])
  | plain {output : Bytes} (hs : (o.after calls).session.ownHelloSent = true)
      (hf : firstOutput (o.after calls).engine = some output)
      (ha : Flight.addOffer output (o.session.protocols.map utf8) = .ok none)
      (he : o.emitted calls = (o.after calls).engine.outputs.flatten)
  | edited {output more : Bytes} {edit : Flight.Edit}
      (hs : (o.after calls).session.ownHelloSent = true)
      (hf : firstOutput (o.after calls).engine = some output)
      (ha : Flight.addOffer output (o.session.protocols.map utf8) = .ok (some edit))
      (he : o.emitted calls = edit.stream ++ more)

/-- The invariant of a client's run, with or without failures. -/
structure Accepts (o : Overlay (Recorded σ)) (calls : List Call) : Prop where
  strategy : (o.after calls).strategy = .overlay
  protocols : (o.after calls).session.protocols = o.session.protocols
  listed : ∀ p, (o.after calls).session.selected = some p → p ∈ o.session.protocols
  stage : Stage o calls

omit [Engine σ] in
theorem firstOutput_snoc {r s : Recorded σ} {output : Bytes}
    (h : s.outputs = r.outputs ++ [output]) :
    firstOutput s = (firstOutput r).or (if output = [] then none else some output) := by
  simp only [firstOutput, h, List.find?_append, List.find?_cons, List.find?_nil]
  cases output <;> rfl

/-- A call that neither sends nor gets an output leaves the stage as it is. -/
theorem Stage.still (h : Stage o calls)
    (ho : (o.after (calls ++ [call])).engine.outputs = (o.after calls).engine.outputs)
    (he : o.emitted (calls ++ [call]) = o.emitted calls)
    (hs : (o.after (calls ++ [call])).session.ownHelloSent = (o.after calls).session.ownHelloSent)
    (hn : (o.after calls).session.ownHelloSent = false →
      (o.after (calls ++ [call])).session.selected = (o.after calls).session.selected)
    (hc : (o.after (calls ++ [call])).session.closed = false →
      (o.after calls).session.closed = false) : Stage o (calls ++ [call]) := by
  have hf : firstOutput (o.after (calls ++ [call])).engine = firstOutput (o.after calls).engine := by
    simp only [firstOutput, ho]
  cases h with
  | unsent hs' hn' hq =>
    refine .unsent (hs.trans hs') ((hn hs').trans hn') ?_
    intro hopen hp
    rw [hf, he]
    exact hq (hc hopen) hp
  | plain hs' hf' ha he' => exact .plain (hs.trans hs') (hf.trans hf') ha (by rw [he, ho, he'])
  | edited hs' hf' ha he' => exact .edited (hs.trans hs') (hf.trans hf') ha (he.trans he')

/-- A call that ends the connection before the own hello leaves the stage open. -/
theorem Stage.shut (h : Stage o calls) (hs : (o.after calls).session.ownHelloSent = false)
    (hs' : (o.after (calls ++ [call])).session.ownHelloSent = false)
    (hn : (o.after (calls ++ [call])).session.selected = (o.after calls).session.selected)
    (hc : (o.after (calls ++ [call])).session.closed = true) : Stage o (calls ++ [call]) := by
  cases h with
  | unsent _ hsel _ =>
    refine .unsent hs' (hn.trans hsel) ?_
    intro hopen
    cases hc.symm.trans hopen
  | plain h' => cases hs.symm.trans h'
  | edited h' => cases hs.symm.trans h'

omit [Engine σ] in
theorem flatten_of_firstOutput {r : Recorded σ} (h : firstOutput r = none) :
    r.outputs.flatten = [] := by
  rw [List.flatten_eq_nil_iff]
  intro x hx
  simpa using List.find?_eq_none.1 h x hx

/-- An output that goes out as it is ends the search when it is not empty. -/
theorem Stage.pass {reply : Reply (Recorded σ) Bytes Cause} (h : Stage o calls)
    (hp : (o.after calls).session.protocols = o.session.protocols)
    (hr : (o.after calls).role = .client) (hc : (o.after calls).session.closed = false)
    (he : (o.after calls).editOf reply = .ok none)
    (hl : reply.produced ≠ 0 → reply.output ≠ [])
    (ha : o.after (calls ++ [call]) = ((o.after calls).pass reply).engine)
    (ho : reply.engine.outputs = (o.after calls).engine.outputs ++ [reply.output])
    (hem : o.emitted (calls ++ [call]) = o.emitted calls ++ reply.output) :
    Stage o (calls ++ [call]) := by
  have hout : (o.after (calls ++ [call])).engine.outputs =
      (o.after calls).engine.outputs ++ [reply.output] := by
    rw [ha]
    exact ho
  have hfirst := firstOutput_snoc hout
  have hsent : (o.after (calls ++ [call])).session.ownHelloSent =
      (o.after calls).sentAfter reply.produced := by
    rw [ha]
    rfl
  cases h with
  | plain hs hf hadd hem' =>
    refine .plain ?_ (by rw [hfirst, hf]; rfl) hadd ?_
    · rw [hsent, sentAfter, hs, Bool.true_or]
    · rw [hem, hem', hout, List.flatten_append]
      simp
  | @edited output more edit hs hf hadd hem' =>
    have hmore : o.emitted (calls ++ [call]) = edit.stream ++ (more ++ reply.output) := by
      rw [hem, hem', List.append_assoc]
    refine .edited ?_ (by rw [hfirst, hf]; rfl) hadd hmore
    rw [hsent, sentAfter, hs, Bool.true_or]
  | unsent hs hn hq =>
    have hsel : (o.after (calls ++ [call])).session.selected = none := by
      rw [ha]
      exact hn
    by_cases hne : o.session.protocols = []
    · refine .unsent ?_ hsel fun _ h => absurd hne h
      simp [hsent, sentAfter, hs, hr, hp, hne]
    · obtain ⟨hf, hnil⟩ := hq hc hne
      by_cases h0 : reply.produced = 0
      · have hempty : reply.output = [] := by simp only [Reply.output, h0, List.take_zero]
        refine .unsent ?_ hsel fun _ _ => ?_
        · simp [hsent, sentAfter, hs, hr, h0]
        · rw [hfirst, hem, hf, hnil, hempty]
          exact ⟨rfl, rfl⟩
      · have hadd : Flight.addOffer reply.output (o.session.protocols.map utf8) = .ok none := by
          simpa [editOf, h0, outboundEdit, hr, hs, hp, hne] using he
        refine .plain ?_ ?_ hadd ?_
        · simp [hsent, sentAfter, hs, hr, h0, hp, hne]
        · rw [hfirst, hf, if_neg (hl h0)]
          rfl
        · rw [hem, hnil, hout, List.flatten_append, flatten_of_firstOutput hf]
          simp

theorem accepts_nil (hs : o.strategy = .overlay) (hn : o.session.selected = none)
    (hb : o.session.ownHelloSent = false) (hp : o.session.parked.bytes = [])
    (ho : o.engine.outputs = []) : Accepts o [] := by
  refine ⟨hs, rfl, ?_, .unsent hb hn ?_⟩
  · intro p h
    rw [after_nil, hn] at h
    cases h
  · intro _ _
    simp only [after_nil, firstOutput, ho, emitted, hp]
    exact ⟨rfl, rfl⟩

/-- A call that passes on what the engine wrote ends the search unless nothing was written. -/
theorem stage_passed (h : Accepts o calls) (hr : (o.after calls).role = .client)
    (hc : (o.after calls).session.closed = false)
    (hp : (o.after calls).session.parked.isEmpty = true)
    (he : (o.after calls).editOf (Engine.wrap (o.after calls).engine sources buffer) = .ok none)
    (hl : (Engine.wrap (o.after calls).engine sources buffer).produced ≤ buffer.length)
    (hw : (o.after calls).wrap sources buffer =
      (o.after calls).pass (Engine.wrap (o.after calls).engine sources buffer)) :
    Stage o (calls ++ [.wrap sources buffer]) := by
  have ha : o.after (calls ++ [.wrap sources buffer]) = _ :=
    after_wrap.trans (congrArg Reply.engine hw)
  have hem : o.emitted (calls ++ [.wrap sources buffer]) = o.emitted calls ++
      (Engine.wrap (o.after calls).engine sources buffer).output :=
    emitted_wrap _ (by rw [hw]; exact pass_moved hp _)
  cases hres : (Engine.wrap (o.after calls).engine sources buffer).result with
  | error cause =>
    have h0 : (Engine.wrap (o.after calls).engine sources buffer).produced = 0 := by
      simp only [Reply.produced, hres]
    refine h.stage.still ?_ ?_ ?_ ?_ ?_
    · rw [ha]
      exact Recorded.outputs_wrap_error hres
    · rw [hem, Reply.output, h0, List.take_zero, List.append_nil]
    · rw [ha]
      simp [pass, sentAfter, hr, h0]
    · exact fun _ => by rw [ha]; rfl
    · exact fun _ => hc
  | ok progress =>
    refine h.stage.pass h.protocols hr hc he ?_ ha (Recorded.outputs_wrap_ok hres) hem
    exact fun h0 hnil => h0 (produced_of_output_nil hl hnil)

/-- A call whose output gets the offer ends it with the edit. -/
theorem stage_edited {progress : Progress} {edit : Flight.Edit} {engine : Recorded σ}
    (h : Accepts o calls) (hr : (o.after calls).role = .client)
    (hc : (o.after calls).session.closed = false)
    (hp : (o.after calls).session.parked.isEmpty = true)
    (hres : (Engine.wrap (o.after calls).engine sources buffer).result = .ok progress)
    (he : (o.after calls).editOf (Engine.wrap (o.after calls).engine sources buffer) =
      .ok (some edit))
    (hx : Corrects (Engine.wrap (o.after calls).engine sources buffer).engine edit engine)
    (hw : (o.after calls).wrap sources buffer =
      ((o.after calls).markStarted.markSent.withEngine engine).deliver edit.stream
        (Engine.wrap (o.after calls).engine sources buffer).buffer progress) :
    Stage o (calls ++ [.wrap sources buffer]) := by
  obtain ⟨-, hs, hkind⟩ := editOf_eq_some he
  simp only [hr, h.protocols] at hkind
  obtain ⟨hne, hadd⟩ := hkind
  have ha : o.after (calls ++ [.wrap sources buffer]) = _ :=
    after_wrap.trans (congrArg Reply.engine hw)
  have hem : o.emitted (calls ++ [.wrap sources buffer]) = o.emitted calls ++ edit.stream :=
    emitted_wrap edit.stream (by rw [hw]; exact deliver_moved hp)
  have hout : (o.after (calls ++ [.wrap sources buffer])).engine.outputs =
      (o.after calls).engine.outputs ++
        [(Engine.wrap (o.after calls).engine sources buffer).output] := by
    rw [ha]
    exact outputs_edited hres hx
  have hfull : (Engine.wrap (o.after calls).engine sources buffer).output ≠ [] := by
    intro hnil
    rw [hnil, Flight.addOffer_nil] at hadd
    cases hadd
  cases h.stage with
  | unsent _ hn hq =>
    obtain ⟨hf, hnil⟩ := hq hc hne
    obtain ⟨-, -, parked, hsession⟩ := deliver_fields
      ((o.after calls).markStarted.markSent.withEngine engine) edit.stream
      (Engine.wrap (o.after calls).engine sources buffer).buffer progress
    refine .edited ?_ ?_ hadd (hem.trans (by rw [hnil]; exact (List.append_nil _).symm))
    · rw [ha, hsession]
      rfl
    · rw [firstOutput_snoc hout, hf, if_neg hfull]
      rfl
  | plain hs' => exact absurd (hs.symm.trans hs') (by decide)
  | edited hs' => exact absurd (hs.symm.trans hs') (by decide)

theorem stage_wrap (h : Accepts o calls) (hr : (o.after calls).role = .client)
    (hl : ∀ (e : σ) (sources : List Bytes) (buffer : Bytes),
      (Engine.wrap e sources buffer).produced ≤ buffer.length) :
    Stage o (calls ++ [.wrap sources buffer]) := by
  have hw := wraps_wrap h.strategy sources buffer
  have hemit := @emitted_wrap σ _ o calls sources buffer
  have ha : o.after (calls ++ [.wrap sources buffer]) = _ := after_wrap
  generalize hout : (o.after calls).wrap sources buffer = outcome at hw hemit ha
  have hsel : outcome.engine.session.selected = (o.after calls).session.selected := hw.frame.2.2.1
  cases hw with
  | closed hc =>
    refine h.stage.still (by rw [ha]) ?_ (by rw [ha]) (fun _ => by rw [ha]) ?_
    · rw [hemit [] (by simp [Reply.output, Reply.produced, Progress.closed]), List.append_nil]
    · exact fun hn => by rwa [ha] at hn
  | drained hc hp =>
    obtain ⟨hengine, -, parked, hsession⟩ := drain_fields (o.after calls).markStarted buffer
    refine h.stage.still ?_ ?_ ?_ (fun _ => by rw [ha, hsel]) fun _ => hc
    · rw [ha, hengine]
      rfl
    · rw [hemit [] (drain_output.trans (List.append_nil _).symm), List.append_nil]
    · rw [ha, hsession]
      rfl
  | passed hc hp he => exact stage_passed h hr hc hp he (hl ..) hout
  | refused hc hp he =>
    have hs : (o.after calls).session.ownHelloSent = false :=
      unsent_of_editOf fun hn => by cases he.symm.trans hn
    exact h.stage.shut hs (by rw [ha]; exact hs) (by rw [ha, hsel]) (by rw [ha]; rfl)
  | abandoned hc hp he =>
    have hs : (o.after calls).session.ownHelloSent = false :=
      unsent_of_editOf fun hn => by cases he.symm.trans hn
    exact h.stage.shut hs (by rw [ha]; exact hs) (by rw [ha, hsel]) (by rw [ha]; rfl)
  | edited hc hp hres he hx => exact stage_edited h hr hc hp hres he hx hout

theorem accepts_wrap (h : Accepts o calls) (hr : (o.after calls).role = .client)
    (hl : ∀ (e : σ) (sources : List Bytes) (buffer : Bytes),
      (Engine.wrap e sources buffer).produced ≤ buffer.length) :
    Accepts o (calls ++ [.wrap sources buffer]) := by
  obtain ⟨hstrategy, hprotocols, hsel, -⟩ := (wraps_wrap h.strategy sources buffer).frame
  have ha : o.after (calls ++ [.wrap sources buffer]) = _ := after_wrap
  refine ⟨by rw [ha, hstrategy, h.strategy], by rw [ha, hprotocols, h.protocols], ?_,
    stage_wrap h hr hl⟩
  rw [ha, hsel]
  exact h.listed

theorem accepts_unwrap (h : Accepts o calls) (hr : (o.after calls).role = .client) :
    Accepts o (calls ++ [.unwrap source buffers]) := by
  have hu := unwraps_unwrap h.strategy source buffers
  have ha : o.after (calls ++ [.unwrap source buffers]) = _ := after_unwrap
  have hemit := @emitted_unwrap σ _ o calls source buffers
  generalize (o.after calls).unwrap source buffers = outcome at hu hemit ha
  obtain ⟨hstrategy, hprotocols, hparked, hown⟩ := hu.frame
  refine ⟨by rw [ha, hstrategy, h.strategy], by rw [ha, hprotocols, h.protocols], ?_, ?_⟩
  · intro p hp
    rw [ha] at hp
    rcases hu.selected hr with hsel | ⟨protocol, hsel, hmem, -⟩
    · exact h.listed p (hsel.symm.trans hp)
    · rw [hsel] at hp
      cases hp
      rw [← h.protocols]
      exact hmem
  · refine h.stage.still (by rw [ha, hu.outputs]) (hemit hparked) (by rw [ha, hown]) ?_ ?_
    · intro hs
      rw [ha]
      rcases hu.selected hr with hsel | ⟨_, -, -, hsent⟩
      · exact hsel
      · exact absurd (hs.symm.trans hsent) (by decide)
    · rw [ha]
      exact hu.open_before

/-- Every run of a client keeps the invariant. -/
theorem accepts_run (hm : ∀ call ∈ calls, call.movesBytes = true) (hr : o.KeepsRole calls .client)
    (hl : ∀ (e : σ) (sources : List Bytes) (buffer : Bytes),
      (Engine.wrap e sources buffer).produced ≤ buffer.length)
    (h0 : Accepts o []) : Accepts o calls := by
  refine run_induction (P := fun calls => Accepts o calls) hm h0 ?_ ?_
  · intro first sources buffer hp h
    exact accepts_wrap h (hr.at_call hp) hl
  · intro first source buffers hp h
    exact accepts_unwrap h (hr.at_call hp)

theorem protocol_of_overlay {τ : Type} [Engine τ] {p : Overlay τ} {selected : Option String}
    (hs : p.strategy = .overlay) (h : p.session.selected = selected) :
    p.protocol = .ok selected := by
  simp only [protocol, hs, h]

/-- A client has offered the protocol that it reports exactly when its first output got the offer,
or when the engine wrote such an offer itself. -/
theorem selection_offered_iff {engine : σ} {config : Config} {p : String}
    (hlaw : ∀ (e : σ) (sources : List Bytes) (buffer : Bytes),
      (Engine.wrap e sources buffer).produced ≤ buffer.length)
    (ho : Overlay.of (⟨engine, []⟩ : Recorded σ) config = .ok o) (hs : o.strategy = .overlay)
    (hm : ∀ call ∈ calls, call.movesBytes = true) (hr : o.KeepsRole calls .client)
    (hp : (o.after calls).protocol = .ok (some p)) :
    Wire.streamOffers (o.emitted calls) (utf8 p) = true ↔
      (∃ output edit, firstOutput (o.after calls).engine = some output ∧
        Flight.addOffer output (config.protocols.map utf8) = .ok (some edit)) ∨
      Wire.streamOffers (o.after calls).engine.outputs.flatten (utf8 p) = true := by
  have hconfig : o.session.protocols = config.protocols ∧ Accepts o [] := by
    obtain rfl := of_eq_ok ho hs
    exact ⟨rfl, accepts_nil rfl rfl rfl rfl rfl⟩
  have h := accepts_run hm hr hlaw hconfig.2
  have hsel : (o.after calls).session.selected = some p := by
    simp only [protocol, h.strategy, Except.ok.injEq] at hp
    exact hp
  have hmem : utf8 p ∈ o.session.protocols.map utf8 := List.mem_map_of_mem (h.listed p hsel)
  rw [← hconfig.1]
  cases h.stage with
  | unsent _ hn => exact absurd (hn.symm.trans hsel) (by simp)
  | plain _ hf hadd he =>
    rw [he]
    constructor
    · exact .inr
    · rintro (⟨output, edit, hf', hadd'⟩ | h)
      · rw [hf] at hf'
        cases hf'
        rw [hadd] at hadd'
        cases hadd'
      · exact h
  | @edited output more edit _ hf hadd he =>
    rw [he]
    constructor
    · exact fun _ => .inl ⟨output, edit, hf, hadd⟩
    · exact fun _ => Flight.streamOffers_of_addOffer hadd hmem more

theorem scripted_produced_le (e : Scripted) (sources : List Bytes) (buffer : Bytes) :
    (Engine.wrap e sources buffer).produced ≤ buffer.length := by
  simp only [Engine.wrap, Scripted.wrap]
  split
  · exact Nat.zero_le _
  · exact Nat.zero_le _
  · split
    · exact Nat.zero_le _
    · rename_i h
      exact Nat.le_of_not_lt h

/-- A client with one protocol in its list whose engine writes these payloads. -/
def writing (payloads : List Bytes) : Overlay (Recorded Scripted) :=
  ⟨⟨{ role := .client
      outputs := payloads.map fun payload => .record (Peer.recordOf .handshake payload) }, []⟩,
    .overlay, { protocols := ["h2"] }⟩

/-- The server's hello with a selection of that protocol. -/
def selecting : Bytes :=
  Peer.recordOf .handshake
    ((Peer.helloOf .server).add ⟨Wire.Extension.alpn, [0, 3, 2, 0x68, 0x32]⟩).encode

/-- A hello in one record gets the offer. -/
theorem selection_offered_whole :
    let o := writing [(Peer.helloOf .client).encode]
    let calls := [.wrap [] (List.replicate 256 0), .unwrap selecting []]
    (o.after calls).protocol = .ok (some "h2") ∧
      ∃ output edit, firstOutput (o.after calls).engine = some output ∧
        Flight.addOffer output (["h2"].map utf8) = .ok (some edit) := by
  intro o calls
  have ho : Overlay.of o.engine { protocols := ["h2"], mode := .overlay } = .ok o := rfl
  have hp : (o.after calls).protocol = .ok (some "h2") :=
    protocol_of_overlay (by decide +kernel) (by decide +kernel)
  have h := selection_offered_iff scripted_produced_le ho rfl (by decide)
    (forall_initial (by decide +kernel)) hp
  refine ⟨hp, (h.1 (by decide +kernel)).resolve_right ?_⟩
  decide +kernel

/-- A hello in two records goes out without an offer, and the selection is taken nevertheless. -/
theorem selection_without_offer :
    let hello := (Peer.helloOf .client).encode
    let o := writing [hello.take 20, hello.drop 20]
    let calls := [.wrap [] (List.replicate 256 0), .wrap [] (List.replicate 256 0),
      .unwrap selecting []]
    (o.after calls).protocol = .ok (some "h2") ∧
      Wire.streamOffers (o.emitted calls) (utf8 "h2") = false :=
  ⟨protocol_of_overlay (by decide +kernel) (by decide +kernel), by decide +kernel⟩

end Overlay
end AlpnOverlay
