import AlpnOverlay.Engine.Scripted
import AlpnOverlay.Proofs.Flight.RoundTrip
import AlpnOverlay.Proofs.Overlay.Outcomes

/-!
Input counted twice. An engine counts the bytes of a flight without its selection; the caller has to
be told how many that are of the flight as it came.
-/
namespace AlpnOverlay.Overlay

open Wire

variable {σ : Type} [Engine σ] {o : Overlay σ} {source name : Bytes} {edit : Flight.Edit}

/-- What is taken out of the hello weighs more than a further header, so no difference of lengths
goes below zero. An engine that takes the new head whole has as many bytes left as the caller. -/
theorem consumed_translated (h : Flight.takeSelection source = .ok (some (edit, name))) :
    edit.inner.length + 8 ≤ edit.outer.length ∧ edit.head.length ≤ 2 ∧
    edit.headLength < edit.carrierLength ∧
    (edit.tail.map Record.size).sum ≤ edit.stream.length ∧
    edit.headLength = edit.stream.length - (edit.tail.map Record.size).sum ∧
    edit.stream.drop edit.headLength = source.drop edit.carrierLength ∧
    ∀ buffers protocol progress engine, o.strategy = .overlay → o.session.closed = false →
      Strips o source edit name protocol →
      (Engine.unwrap o.engine edit.stream buffers).result = .ok progress →
      edit.headLength ≤ progress.consumed → progress.consumed ≤ edit.stream.length →
      Corrects (Engine.unwrap o.engine edit.stream buffers).engine edit engine →
      ∃ consumed, consumed = progress.consumed + (edit.carrierLength - edit.headLength) ∧
        (o.unwrap source buffers).result = .ok { progress with consumed } ∧
        consumed ≤ source.length ∧ source.drop consumed = edit.stream.drop progress.consumed := by
  have hlt := Flight.headLength_lt_carrierLength h
  obtain ⟨hlengthens, rest, hrep⟩ := Flight.inbound_of_takeSelection h
  have hle := Nat.le_of_lt hlt
  have hstream := edit.length_stream
  refine ⟨Flight.length_inner_add_le h, Flight.length_head_le h, hlt, by omega, by omega,
    hrep.drop_eq, ?_⟩
  intro buffers protocol progress engine ho hc hs hu hhead hall hx
  have hpos : progress.consumed ≠ 0 := by
    have hheaded := hlengthens.headed
    rw [hrep.headLength_eq] at hhead
    simp only [Message.headerLength] at hheaded
    omega
  refine ⟨_, rfl, ?_, hrep.translated_le hle hall, hrep.drop_translated hle hhead⟩
  rw [unwrap_stripped ho hc hs hu hpos hhead hx]

section Oversized

/-- A transcript that ends in the inner hello can be put right. -/
theorem corrects_feed {e : Scripted} (he : e.exposed = true) (hi : edit.inner ≠ []) :
    ∃ engine, Corrects (e.feed edit.inner) edit engine := by
  obtain ⟨corrected, hreplace⟩ : ∃ corrected,
      edit.substitution.replace? (e.hash.data ++ edit.inner ++ []) = some corrected :=
    Substitution.exists_replace? hi
  rw [List.append_nil] at hreplace
  let t : Transcript Scripted :=
    RunningHash.transcript.within Scripted.hash fun e hash => { e with hash }
  have ht : Engine.transcript? (e.feed edit.inner) = some t := if_pos he
  have hcaptured : t.captured (e.feed edit.inner) = e.hash.data ++ edit.inner := rfl
  obtain ⟨engine, hr⟩ : ∃ engine,
      t.resynchronize (e.feed edit.inner) edit.substitution = .ok engine := by
    simp only [Transcript.resynchronize, hcaptured, hreplace]
    split
    · exact ⟨_, rfl⟩
    · exact ⟨_, rfl⟩
  exact ⟨engine, t, ht, hr⟩

/-- A selecting hello in a record that is longer than a plaintext. -/
def oversizedRecord : Record :=
  ⟨.handshake, .tls12, Flight.selectedHello.encode ++ List.replicate maxPlaintext 0, by
    rw [List.length_append, List.length_replicate]
    decide⟩

def shortened : Bytes := (Peer.helloOf .server).encode

def oversizedEdit : Flight.Edit :=
  .recarry oversizedRecord [] shortened Flight.selectedHello.encode
    (shortened ++ List.replicate maxPlaintext 0)

/-- A client whose engine takes both records that this one becomes. -/
def reader : Overlay Scripted :=
  ⟨{ role := .client, inputs := [.consume oversizedEdit.headLength shortened .ok .needWrap] },
    .overlay, { protocols := ["h2"], ownHelloSent := true }⟩

theorem takeSelection_oversizedRecord :
    Flight.takeSelection (Record.encodeAll [oversizedRecord]) =
      .ok (some (oversizedEdit, utf8 "h2")) :=
  Flight.takeSelection_whole Flight.extends_selectedHello rfl rfl rfl

/-- The engine reads one header more than came, and the caller's count is still right. -/
theorem oversized_record_consumed :
    oversizedEdit.head.length = 2 ∧
      ∃ progress, (reader.unwrap (Record.encodeAll [oversizedRecord]) []).result = .ok progress ∧
        progress.consumed = (Record.encodeAll [oversizedRecord]).length := by
  have hs : Strips reader (Record.encodeAll [oversizedRecord]) oversizedEdit (utf8 "h2") "h2" :=
    ⟨rfl, rfl, rfl, takeSelection_oversizedRecord, by decide⟩
  obtain ⟨-, -, hlt, -, hhead, -, hread⟩ :=
    consumed_translated (o := reader) takeSelection_oversizedRecord
  obtain ⟨engine, hx⟩ : ∃ engine, Corrects
      (reader.engine.unwrap oversizedEdit.stream []).engine oversizedEdit engine :=
    corrects_feed rfl (by decide)
  have hall : oversizedEdit.headLength ≤ oversizedEdit.stream.length := by omega
  obtain ⟨consumed, hconsumed, hresult, -, -⟩ :=
    hread [] "h2" ⟨.ok, .needWrap, oversizedEdit.headLength, 0⟩ engine rfl rfl hs rfl
      (Nat.le_refl _) hall hx
  refine ⟨?_, _, hresult, ?_⟩
  · rw [oversizedEdit, Flight.Edit.recarry, Record.length_carrying, List.length_append,
      List.length_replicate]
    decide
  · have hsource : (Record.encodeAll [oversizedRecord]).length = oversizedEdit.carrierLength := by
      rw [Record.length_encodeAll, List.map_singleton, List.sum_singleton]
      rfl
    calc
      consumed = oversizedEdit.headLength +
          (oversizedEdit.carrierLength - oversizedEdit.headLength) := hconsumed
      _ = oversizedEdit.carrierLength := Nat.add_sub_of_le (Nat.le_of_lt hlt)
      _ = (Record.encodeAll [oversizedRecord]).length := hsource.symm

end Oversized

end AlpnOverlay.Overlay
