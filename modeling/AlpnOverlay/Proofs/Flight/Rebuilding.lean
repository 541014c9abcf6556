import AlpnOverlay.Peer
import AlpnOverlay.Proofs.Flight.Editing

/-!
The records that an edit makes. They carry the new hello and what shared its record, every length
in them is made anew, and whatever stands behind them is left alone.
-/
namespace AlpnOverlay.Flight

open Wire

variable {data rest name old new : Bytes} {protocols : List Bytes} {first : Record}
  {tail : List Record} {edit : Edit}

namespace Edit

/-- The edit of a first record that is to carry another payload. -/
def recarry (first : Record) (tail : List Record) (inner outer payload : Bytes) : Edit :=
  ⟨first, Record.carrying .handshake first.version payload, tail, inner, outer⟩

theorem replaces_recarry {inner outer : Bytes} (he : first.isEditable = true)
    (hp : first.payload = old ++ rest) :
    (recarry first tail inner outer (new ++ rest)).Replaces (Record.encodeAll (first :: tail))
      old new rest :=
  ⟨rfl, he, hp, rfl⟩

theorem length_stream (e : Edit) :
    e.stream.length = e.headLength + (e.tail.map Record.size).sum := by
  rw [stream, Record.encodeAll_append, List.length_append, Record.length_encodeAll e.tail]
  rfl

theorem take_headLength (e : Edit) : e.stream.take e.headLength = Record.encodeAll e.head := by
  rw [stream, Record.encodeAll_append]
  exact List.take_left

theorem drop_headLength (e : Edit) : e.stream.drop e.headLength = Record.encodeAll e.tail := by
  rw [stream, Record.encodeAll_append]
  exact List.drop_left

namespace Replaces

theorem length_data (h : edit.Replaces data old new rest) :
    data.length = edit.carrierLength + (edit.tail.map Record.size).sum := by
  rw [h.stream, Record.length_encodeAll, List.map_cons, List.sum_cons]
  rfl

/-- Behind the hello's record and behind the records made for it, the same bytes follow. -/
theorem drop_eq (h : edit.Replaces data old new rest) :
    edit.stream.drop edit.headLength = data.drop edit.carrierLength := by
  rw [edit.drop_headLength, h.stream, Record.encodeAll_cons, carrierLength, ← Record.length_encode]
  exact List.drop_left.symm

theorem payload_head (h : edit.Replaces data old new rest) :
    edit.head.flatMap Record.payload = new ++ rest := by
  rw [h.recarried, Record.flatMap_payload_carrying]

theorem headLength_eq (h : edit.Replaces data old new rest) :
    edit.headLength = headerLength * edit.head.length + (new.length + rest.length) := by
  rw [headLength, Record.length_encodeAll, Record.sum_size, h.payload_head, List.length_append]

theorem carrierLength_eq (h : edit.Replaces data old new rest) :
    edit.carrierLength = headerLength + (old.length + rest.length) := by
  rw [carrierLength, Record.size, h.carried, List.length_append]

/-- Behind its head the new stream is the old one, moved by the difference of the two heads. -/
theorem drop_translated (h : edit.Replaces data old new rest)
    (hle : edit.headLength ≤ edit.carrierLength) {count : Nat} (hc : edit.headLength ≤ count) :
    data.drop (count + (edit.carrierLength - edit.headLength)) = edit.stream.drop count := by
  have hold : count + (edit.carrierLength - edit.headLength) =
      edit.carrierLength + (count - edit.headLength) := by omega
  have hnew : edit.headLength + (count - edit.headLength) = count := by omega
  rw [hold, ← List.drop_drop, ← h.drop_eq, List.drop_drop, hnew]

theorem translated_le (h : edit.Replaces data old new rest)
    (hle : edit.headLength ≤ edit.carrierLength) {count : Nat} (hc : count ≤ edit.stream.length) :
    count + (edit.carrierLength - edit.headLength) ≤ data.length := by
  have hstream := edit.length_stream
  have hdata := h.length_data
  omega

theorem of_mem_head (h : edit.Replaces data old new rest) (hn : new ≠ []) {r : Record}
    (hr : r ∈ edit.head) :
    r.type = edit.carrier.type ∧ r.version = edit.carrier.version ∧ 1 ≤ r.payload.length ∧
      r.payload.length ≤ maxPlaintext := by
  rw [h.recarried] at hr
  obtain ⟨ht, hv, hl⟩ := Record.of_mem_carrying hr
  refine ⟨?_, hv, ?_, hl⟩
  · rw [ht, type_of_isEditable h.editable]
  · exact Record.payload_pos_of_mem_carrying (List.append_ne_nil_of_left_ne_nil hn rest) hr

/-- A shorter message fits where the old one stood. -/
theorem exists_carrying (h : edit.Replaces data old new rest) {message : Bytes}
    (hl : message.length ≤ old.length) :
    ∃ restored : Record, restored.type = edit.carrier.type ∧
      restored.version = edit.carrier.version ∧ restored.payload = message ++ rest := by
  have hfits : (message ++ rest).length ≤ maxPayload := by
    have hpayload := edit.carrier.payload_le
    rw [h.carried, List.length_append] at hpayload
    rw [List.length_append]
    omega
  exact ⟨⟨edit.carrier.type, edit.carrier.version, message ++ rest, hfits⟩, rfl, rfl, rfl⟩

/-- The first of the new records holds as much of the payload as it can. -/
theorem head_eq_cons (h : edit.Replaces data old new rest) :
    ∃ first more, edit.head = first :: more ∧ first.isEditable = true ∧
      first.version = edit.carrier.version ∧ first.payload = (new ++ rest).take maxPlaintext ∧
      more.flatMap Record.payload = (new ++ rest).drop maxPlaintext ∧
      ((new ++ rest).length ≤ maxPlaintext → more = []) := by
  obtain ⟨first, more, he, ht, hv, hp, hm, hn⟩ :=
    Record.carrying_eq_cons .handshake edit.carrier.version (new ++ rest)
  refine ⟨first, more, by rw [h.recarried, he], ?_, hv, hp, hm, hn⟩
  have hc := h.editable
  simp only [Record.isEditable, Bool.and_eq_true, decide_eq_true_eq] at hc
  simp only [Record.isEditable, ht, hv, hc.2, decide_true, Bool.and_self]

end Replaces

end Edit

/-- A selection of one byte already takes eight: its own and the lengths and the type around it. -/
theorem length_inner_add_le (h : takeSelection data = .ok (some (edit, name))) :
    edit.inner.length + 8 ≤ edit.outer.length := by
  obtain ⟨old, x, rest, -, -, hx, hd, hi, ho, -⟩ := takeSelection_eq_some_iff.1 h
  obtain ⟨hlen, hpos⟩ := ProtocolList.length_of_decode hd
  have hbody := Hello.length_body_remove hx
  rw [hi, ho, Hello.length_encode, Hello.length_encode]
  simp only [Extension.size] at hbody
  omega

/-- Even the longest payload of a record fits two plaintexts. -/
theorem length_head_le (h : takeSelection data = .ok (some (edit, name))) :
    edit.head.length ≤ 2 := by
  obtain ⟨hlengthens, rest, hrep⟩ := inbound_of_takeSelection h
  have hshorter := hlengthens.shorter
  have hfits := edit.carrier.payload_le
  have hpayload : maxPayload = maxPlaintext + 2048 := rfl
  have hplain : maxPlaintext = 16384 := rfl
  rw [hrep.carried, List.length_append] at hfits
  rw [hrep.recarried, Record.length_carrying, List.length_append, hplain]
  omega

/-- The new head is shorter than the record it replaces, even when it has a header more. -/
theorem headLength_lt_carrierLength (h : takeSelection data = .ok (some (edit, name))) :
    edit.headLength < edit.carrierLength := by
  obtain ⟨-, rest, hrep⟩ := inbound_of_takeSelection h
  have hshorter := length_inner_add_le h
  have hcount := length_head_le h
  rw [hrep.headLength_eq, hrep.carrierLength_eq]
  simp only [headerLength]
  omega

/-- Adding an offer puts one extension behind the others of the hello and changes nothing else. The
new hello and what shared its record travel in plaintexts of the old type and version, and the
bytes behind the old record follow. -/
theorem offer_added_alone (h : addOffer data protocols = .ok (some edit)) :
    ∃ first tail rest hello list head,
      Record.split data = .ok (first :: tail) ∧
      Message.split first.payload = .ok (edit.inner, rest) ∧
      Hello.parse .client edit.inner = .ok hello ∧
      Hello.parse .client edit.outer = .ok { hello with
        extensions := some (hello.extensions.getD [] ++ [⟨Extension.alpn, list⟩]) } ∧
      ProtocolList.decode list = .ok protocols ∧
      Record.split edit.stream = .ok (head ++ tail) ∧
      Record.split (edit.stream.take edit.headLength) = .ok head ∧
      (∀ r ∈ head, r.type = first.type ∧ r.version = first.version ∧ 1 ≤ r.payload.length ∧
        r.payload.length ≤ maxPlaintext) ∧
      head.flatMap Record.payload = edit.outer ++ rest ∧
      edit.carrierLength = first.encode.length ∧
      edit.stream.drop edit.headLength = data.drop edit.carrierLength := by
  obtain ⟨old, new, list, rest, hx, hs, hi, ho, hrep⟩ := addOffer_eq_some_iff.1 h
  have hold : Hello.parse .client edit.inner = .ok old := by
    rw [hi, ← hs]
    exact Hello.parse_encode hx.oldFits
  have hnew : Hello.parse .client edit.outer = .ok (old.add ⟨Extension.alpn, list⟩) := by
    rw [ho, ← hx.eq, ← hs, ← hx.sender_eq]
    exact Hello.parse_encode hx.newFits
  have hmessage : edit.outer ≠ [] := by
    rw [ho]
    exact List.cons_ne_nil _ _
  rw [← hi, ← ho] at hrep
  refine ⟨edit.carrier, edit.tail, rest, old, list, edit.head, ?_, ?_, hold, hnew, ?_, ?_, ?_, ?_,
    hrep.payload_head, ?_, hrep.drop_eq⟩
  · exact Record.split_eq_ok_iff.2 hrep.stream
  · rw [hrep.carried, hi]
    exact split_encode hx.oldFits rest
  · exact ProtocolList.decode_eq_ok_iff.2 hx.listed
  · exact Record.split_encodeAll _
  · rw [edit.take_headLength]
    exact Record.split_encodeAll _
  · intro r hr
    exact hrep.of_mem_head hmessage hr
  · exact (Record.length_encode _).symm

section Full

/-- A client hello that fills a record to the last byte. -/
def fullHello : Hello :=
  { Peer.helloOf .client with extensions := some [⟨21, List.replicate 16271 0⟩] }

/-- The same hello with an offer of one protocol. -/
def overfullHello : Hello := fullHello.add ⟨Extension.alpn, [0, 3, 2, 0x68, 0x32]⟩

theorem length_padding : (Extension.encodeAll [⟨21, List.replicate 16271 0⟩]).length = 16275 := by
  rw [Extension.encodeAll_cons, List.length_append, Extension.length_encode, Extension.size,
    List.length_replicate]
  rfl

theorem length_fullHello : fullHello.encode.length = maxPlaintext := by
  have hblock : (Hello.blockBytes (some [⟨21, List.replicate 16271 0⟩])).length = 16277 := by
    rw [Hello.blockBytes, List.length_append, BigEndian.length_encode, length_padding]
  have hbody : fullHello.body.length = 16380 := by
    refine (Hello.length_body_with (Peer.helloOf .client) _).trans ?_
    rw [hblock]
    rfl
  rw [Hello.length_encode, hbody]
  rfl

theorem length_overfullHello : overfullHello.encode.length = maxPlaintext + 9 := by
  rw [overfullHello, Hello.length_encode_add _ rfl, length_fullHello]
  rfl

theorem extends_overfullHello :
    Extends fullHello overfullHello [utf8 "h2"] [0, 3, 2, 0x68, 0x32] := by
  have hchoices : Hello.ChoicesFit .client fullHello.suites fullHello.compression :=
    ⟨by decide, by decide, by decide, by decide⟩
  refine ⟨⟨rfl, by decide, hchoices, ?_⟩, ⟨rfl, by decide, hchoices, ?_⟩, rfl, by decide, rfl⟩
  · exact Nat.le_trans (Nat.le_of_eq length_padding) (by decide)
  · have hblock : overfullHello.extensions.getD [] =
        [⟨21, List.replicate 16271 0⟩] ++ [⟨Extension.alpn, [0, 3, 2, 0x68, 0x32]⟩] := rfl
    rw [hblock, Extension.encodeAll_append, List.length_append, length_padding]
    decide

def fullRecord : Record :=
  ⟨.handshake, .tls12, fullHello.encode, by rw [length_fullHello]; decide⟩

def overfullEdit : Edit :=
  .recarry fullRecord [] fullHello.encode overfullHello.encode (overfullHello.encode ++ [])

theorem addOffer_fullRecord :
    addOffer (Record.encodeAll [fullRecord]) [utf8 "h2"] = .ok (some overfullEdit) :=
  addOffer_eq_some_iff.2 ⟨fullHello, overfullHello, _, [], extends_overfullHello, rfl, rfl, rfl,
    Edit.replaces_recarry rfl (List.append_nil _).symm⟩

/-- A hello that filled its record goes on in a second one. -/
theorem offer_added_in_two_records :
    ∃ head, Record.split overfullEdit.stream = .ok head ∧ head.length = 2 ∧
      (∀ r ∈ head, r.payload.length ≤ maxPlaintext) ∧
      head.flatMap Record.payload = overfullHello.encode := by
  obtain ⟨first, tail, rest, hello, list, head, hdata, hmessage, -, -, -, hstream, -, hrecords,
    hpayloads, -⟩ := offer_added_alone addOffer_fullRecord
  obtain ⟨rfl, rfl⟩ : fullRecord = first ∧ [] = tail := by
    rw [Record.split_encodeAll] at hdata
    cases hdata
    exact ⟨rfl, rfl⟩
  have hrest : rest = [] := by
    have hsplit := split_encode extends_overfullHello.oldFits []
    rw [List.append_nil] at hsplit
    cases hmessage.symm.trans hsplit
    rfl
  have hhead : head = overfullEdit.head := by
    have hrecords := hstream.symm.trans (Record.split_encodeAll (overfullEdit.head ++ []))
    rw [List.append_nil, List.append_nil] at hrecords
    exact Except.ok.inj hrecords
  rw [List.append_nil] at hstream
  refine ⟨head, hstream, ?_, fun r hr => (hrecords r hr).2.2.2, ?_⟩
  · rw [hhead, overfullEdit, Edit.recarry, Record.length_carrying, List.append_nil,
      length_overfullHello]
    rfl
  · rw [hpayloads, hrest, List.append_nil]
    rfl

end Full

end AlpnOverlay.Flight
