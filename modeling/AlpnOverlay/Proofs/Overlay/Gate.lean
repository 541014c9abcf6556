import AlpnOverlay.Proofs.Flight.Gating
import AlpnOverlay.Proofs.Overlay.Closing
import AlpnOverlay.Proofs.Overlay.Unasked

/-!
The gate of a client. As long as a client looks for the server's hello, its engine meets a flight
without a selection, a flight in which there is none, or nothing at all.
-/
namespace AlpnOverlay.Overlay

open Wire Flight

/-- A client that has asked and looks for the server's hello. -/
structure Looks {σ : Type} [Engine σ] (o : Overlay σ) : Prop where
  strategy : o.strategy = .overlay
  client : o.role = .client
  isOpen : o.isClosed = false
  asked : Asked o
  unseen : o.session.peerHelloSeen = false

/-- The engine takes the head of an edited flight, and its transcript is put right. -/
def Absorbs {σ : Type} [Engine σ] (engine : σ) (edit : Edit) (buffers : List Bytes) : Prop :=
  ∃ progress corrected, (Engine.unwrap engine edit.stream buffers).result = .ok progress ∧
    edit.headLength ≤ progress.consumed ∧
    Corrects (Engine.unwrap engine edit.stream buffers).engine edit corrected

variable {σ : Type} [Engine σ] {o : Overlay (Recorded σ)} {first : Record} {tail : List Record}
  {hello : Hello} {rest : Bytes} {p : String}

omit [Engine σ] in
theorem configured?_of_mem (hp : p ∈ o.session.protocols) :
    o.session.configured? (utf8 p) = some p := by
  simp only [Session.configured?, find?_utf8, if_pos hp]

theorem unwrap_of_looks (h : Looks o) (he : first.isEditable = true) (tail : List Record)
    (buffers : List Bytes) :
    o.unwrap (Record.encodeAll (first :: tail)) buffers =
      match takeSelection (Record.encodeAll (first :: tail)) with
      | .error e => o.markStarted.refuse e buffers
      | .ok none => o.markStarted.markSeen.forward
          (Engine.unwrap o.engine (Record.encodeAll (first :: tail)) buffers)
      | .ok (some (edit, name)) =>
        match o.session.configured? name with
        | none => o.markStarted.refuse (.malformed (.unofferedSelection name)) buffers
        | some protocol => o.markStarted.unwrapStripped edit protocol buffers :=
  unwrap_looking h.strategy h.isOpen h.client h.asked h.unseen he (Record.encodeAll_cons ..)

theorem refuse_of_not_underflow {e : Wire.Error} (he : e.isUnderflow = false)
    (buffers : List Bytes) : o.refuse e buffers = ⟨o.close, buffers, .error (.ofWire e)⟩ := by
  simp only [refuse, he, Bool.false_eq_true, if_false]

/-- A configured selection is kept from the engine; what the engine then takes decides whether it
counts. -/
theorem unwrap_of_names (h : Looks o) (he : first.isEditable = true) (ho : Opens first hello rest)
    (hn : Names hello (utf8 p)) (hp : p ∈ o.session.protocols) (tail : List Record)
    (buffers : List Bytes) :
    ∃ edit : Edit, edit.Withholds first tail hello rest ∧
      (o.unwrap (Record.encodeAll (first :: tail)) buffers).engine.engine.received =
        o.engine.received ++ [edit.stream] ∧
      (Absorbs o.engine edit buffers →
        (o.unwrap (Record.encodeAll (first :: tail)) buffers).engine.protocol = .ok (some p)) := by
  obtain ⟨edit, hwithholds, ht⟩ := takeSelection_of_names he ho hn tail
  have hconfigured := configured?_of_mem hp
  refine ⟨edit, hwithholds, ?_, ?_⟩
  · rw [unwrap_of_looks h he]
    simp only [ht, hconfigured]
    exact received_unwrapStripped ..
  · rintro ⟨progress, corrected, hresult, hhead, hx⟩
    have hs : Strips o (Record.encodeAll (first :: tail)) edit (utf8 p) p :=
      ⟨h.client, h.unseen, h.asked.sent, ht, hconfigured⟩
    have hpos : 0 < edit.headLength := by
      obtain ⟨hlengthens, rest, hrep⟩ := inbound_of_takeSelection ht
      have hheaded := hlengthens.headed
      rw [hrep.headLength_eq]
      simp only [Message.headerLength] at hheaded
      omega
    rw [unwrap_stripped h.strategy h.isOpen hs hresult (by omega) hhead hx]
    simp only [protocol, h.strategy]

theorem unwrap_of_passable (h : Looks o) (he : first.isEditable = true) (hp : Passable first)
    (tail : List Record) (buffers : List Bytes) :
    o.unwrap (Record.encodeAll (first :: tail)) buffers = o.markStarted.markSeen.forward
      (Engine.unwrap o.engine (Record.encodeAll (first :: tail)) buffers) := by
  rw [unwrap_of_looks h he, takeSelection_of_passable he hp]

/-- Whatever else a first record holds ends the connection. -/
theorem unwrap_of_unfit (h : Looks o) (he : first.isEditable = true)
    (hnames : ∀ hello rest p, Opens first hello rest → Names hello (utf8 p) →
      p ∉ o.session.protocols) (hp : ¬ Passable first) (tail : List Record)
    (buffers : List Bytes) :
    ∃ e : Wire.Error, o.unwrap (Record.encodeAll (first :: tail)) buffers =
      ⟨o.markStarted.close, buffers, .error (.ofWire e)⟩ := by
  rw [unwrap_of_looks h he]
  cases ht : takeSelection (Record.encodeAll (first :: tail)) with
  | error e => exact ⟨e, refuse_of_not_underflow (not_underflow_of_takeSelection ht) buffers⟩
  | ok taken =>
    cases taken with
    | none => exact absurd (passable_of_takeSelection he ht) hp
    | some taken =>
      obtain ⟨edit, name⟩ := taken
      obtain ⟨hello, rest, ho, hn⟩ := names_of_takeSelection ht
      cases hc : o.session.configured? name with
      | none =>
        simp only [hc]
        exact ⟨_, refuse_of_not_underflow rfl buffers⟩
      | some protocol =>
        have hname : utf8 protocol = name := by simpa using List.find?_some hc
        rw [← hname] at hn
        exact absurd (List.mem_of_find?_eq_some hc) (hnames hello rest protocol ho hn)

/-- The gate fails closed. A hello whose first list names one configured protocol reaches the engine
without any list, and everything behind it as it was. A hello without a list and any other message
reach it as they are. Nothing else reaches it: the call fails and the connection is closed. -/
theorem client_gate_fails_closed (h : Looks o) (he : first.isEditable = true) (tail : List Record)
    (buffers : List Bytes) :
    let source := Record.encodeAll (first :: tail)
    let outcome := o.unwrap source buffers
    (∀ hello rest p, Opens first hello rest → Names hello (utf8 p) → p ∈ o.session.protocols →
      ¬ Passable first ∧ ∃ edit : Edit, edit.Withholds first tail hello rest ∧
        outcome.engine.engine.received = o.engine.received ++ [edit.stream] ∧
        (Absorbs o.engine edit buffers → outcome.engine.protocol = .ok (some p))) ∧
    (Passable first →
      outcome = o.markStarted.markSeen.forward (Engine.unwrap o.engine source buffers) ∧
      outcome.engine.engine.received = o.engine.received ++ [source]) ∧
    ((∀ hello rest p, Opens first hello rest → Names hello (utf8 p) → p ∉ o.session.protocols) →
      ¬ Passable first →
        outcome.engine.engine.received = o.engine.received ∧ outcome.engine.isClosed = true ∧
        outcome.buffer = buffers ∧ ∃ e : Wire.Error, outcome.result = .error (.ofWire e)) := by
  intro source outcome
  refine ⟨?_, ?_, ?_⟩
  · intro hello rest p ho hn hp
    have hlisted := hn
    obtain ⟨x, hx, -⟩ := hlisted
    exact ⟨ho.not_passable hx, unwrap_of_names h he ho hn hp tail buffers⟩
  · intro hp
    have houtcome : outcome = _ := unwrap_of_passable h he hp tail buffers
    refine ⟨houtcome, ?_⟩
    rw [houtcome]
    exact Recorded.received_unwrap
  · intro hnames hp
    obtain ⟨e, hclosed⟩ := unwrap_of_unfit h he hnames hp tail buffers
    have houtcome : outcome = _ := hclosed
    rw [houtcome]
    exact ⟨Recorded.received_closeOutbound, rfl, rfl, e, rfl⟩

/-- The selection in the server's hello never reaches the engine of a client that offered it. -/
theorem client_gate_withholds_selection :
    ∃ edit : Edit, edit.Withholds selectingRecord [] selectingHello [] ∧
      (asking.unwrap (Record.encodeAll [selectingRecord]) []).engine.engine.received =
        asking.engine.received ++ [edit.stream] := by
  have hlooks : Looks asking :=
    ⟨by decide +kernel, by decide +kernel, by decide +kernel, ⟨by decide +kernel, by decide +kernel⟩,
      by decide +kernel⟩
  have hparse : Hello.parse .server selectingHello.encode = .ok selectingHello := by decide +kernel
  have hopens : Opens selectingRecord selectingHello [] :=
    ⟨(Hello.parse_eq_ok_iff.1 hparse).1, rfl, (List.append_nil _).symm⟩
  have hnames : Names selectingHello (utf8 "h2") :=
    ⟨⟨Extension.alpn, [0, 3, 2, 0x68, 0x32]⟩, by decide +kernel, by decide +kernel⟩
  have hlisted : "h2" ∈ asking.session.protocols := by decide +kernel
  have heditable : selectingRecord.isEditable = true := rfl
  obtain ⟨hgate, -, -⟩ := client_gate_fails_closed hlooks heditable [] []
  obtain ⟨-, edit, hwithholds, hreceived, -⟩ := hgate _ _ _ hopens hnames hlisted
  exact ⟨edit, hwithholds, hreceived⟩

end AlpnOverlay.Overlay
