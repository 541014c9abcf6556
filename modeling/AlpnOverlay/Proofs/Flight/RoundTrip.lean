import AlpnOverlay.Proofs.Flight.Opening
import AlpnOverlay.Proofs.Flight.Rebuilding
import AlpnOverlay.Proofs.Wire.Extending

/-!
What the other side finds in a rebuilt flight. Both readers stop at a hello that leaves its first
record, and from a whole one they take what was added to it.
-/
namespace AlpnOverlay.Flight

open Wire

variable {data rest old new protocol : Bytes} {protocols : List Bytes} {hello : Hello}
  {first : Record} {tail : List Record} {edit : Edit}

/-- A new hello that fits a record lies whole in the first one, with as much of what follows it as
there is room for. -/
theorem Edit.Replaces.stream_whole (h : edit.Replaces data old new rest)
    (hl : new.length ≤ maxPlaintext) :
    ∃ first more kept moved, edit.stream = Record.encodeAll (first :: (more ++ edit.tail)) ∧
      first.isEditable = true ∧ first.version = edit.carrier.version ∧
      first.payload = new ++ kept ∧ more.flatMap Record.payload = moved ∧ rest = kept ++ moved ∧
      ((new ++ rest).length ≤ maxPlaintext → more = [] ∧ moved = []) := by
  obtain ⟨first, more, hhead, he, hv, hp, hm, hn⟩ := h.head_eq_cons
  rw [List.take_append, List.take_of_length_le hl] at hp
  rw [List.drop_append, List.drop_of_length_le hl, List.nil_append] at hm
  refine ⟨first, more, _, _, by rw [Edit.stream, hhead, List.cons_append], he, hv, hp, hm,
    (List.take_append_drop _ _).symm, ?_⟩
  intro hall
  have hmore := hn hall
  refine ⟨hmore, ?_⟩
  rw [← hm, hmore]
  rfl

/-- The new hello runs past the first record. -/
theorem Edit.Replaces.stream_cut (h : edit.Replaces data old new rest)
    (hl : maxPlaintext < new.length) :
    ∃ first more, edit.stream = Record.encodeAll (first :: more) ∧ first.isEditable = true ∧
      ∃ behind, new = first.payload ++ behind ∧ Message.headerLength ≤ first.payload.length ∧
        behind ≠ [] := by
  obtain ⟨first, more, hhead, he, -, hp, -, -⟩ := h.head_eq_cons
  refine ⟨first, more ++ edit.tail, by rw [Edit.stream, hhead, List.cons_append], he,
    new.drop maxPlaintext, ?_, ?_, ?_⟩
  · rw [hp, List.take_append_of_le_length (Nat.le_of_lt hl), List.take_append_drop]
  · rw [hp, List.take_append_of_le_length (Nat.le_of_lt hl), List.length_take]
    simp only [Message.headerLength, maxPlaintext] at hl ⊢
    omega
  · intro hn
    have := List.drop_eq_nil_iff.1 hn
    omega

theorem clientHello?_cut {front behind : Bytes} (hw : hello.WellFormed)
    (he : hello.encode = front ++ behind) (hh : Message.headerLength ≤ front.length)
    (hne : behind ≠ []) : clientHello? front = .ok none := by
  simp only [clientHello?, splitWhole, Message.split_cut (Hello.length_body hw) he hh hne]
  rfl

/-- No offer is added to a record that holds no whole client hello, or one that makes an offer. -/
theorem addOffer_none {found : Option (Bytes × Bytes × Hello)}
    (hc : clientHello? first.payload = .ok found)
    (ha : ∀ message rest hello, found = some (message, rest, hello) →
      hello.has Extension.alpn = true) :
    addOffer (Record.encodeAll (first :: tail)) protocols = .ok none := by
  simp only [addOffer, Record.split_encodeAll, hc, bind, Except.bind]
  split
  · rfl
  · rcases found with _ | ⟨message, rest, hello⟩
    · rfl
    · dsimp only
      rw [if_pos (ha _ _ _ rfl)]
      rfl

/-- A server that looks into a rebuilt flight finds exactly the offer that was added. It finds none,
as it would in any divided hello, when the new hello runs past its record. Either way no second
offer is ever added. -/
theorem offer_read_back (h : addOffer data protocols = .ok (some edit)) :
    offer? edit.stream =
        .ok (if edit.outer.length ≤ maxPlaintext then some protocols else none) ∧
      ∀ others, addOffer edit.stream others = .ok none := by
  obtain ⟨old, new, list, rest, hx, hs, -, ho, hrep⟩ := addOffer_eq_some_iff.1 h
  have hsender : new.sender = .client := hx.sender_eq.trans hs
  by_cases hl : edit.outer.length ≤ maxPlaintext
  · obtain ⟨first, more, kept, -, hstream, he, -, hp, -⟩ := hrep.stream_whole (by rwa [← ho])
    rw [if_pos hl, hstream]
    refine ⟨?_, ?_⟩
    · rw [Record.encodeAll_cons, offer?_encode hx.newFits hsender (type_of_isEditable he) hp,
        hx.find?_new]
      simp only [ProtocolList.decode_eq_ok_iff.2 hx.listed, Except.map]
    · intro others
      apply addOffer_none (clientHello?_eq_some_iff.2 ⟨hx.newFits, hsender, rfl, hp⟩)
      intro message rest hello heq
      cases heq
      rw [Hello.has, hx.find?_new]
      rfl
  · obtain ⟨first, more, hstream, he, behind, hb, hh, hne⟩ :=
      hrep.stream_cut (by rw [← ho]; omega)
    have hc := clientHello?_cut hx.newFits hb hh hne
    rw [if_neg hl, hstream]
    refine ⟨?_, ?_⟩
    · rw [Record.encodeAll_cons, offer?_record (type_of_isEditable he), hc]
      rfl
    · intro others
      apply addOffer_none hc
      intro message rest hello heq
      cases heq

/-- The hello that filled its record has an offer now that no server sees. -/
theorem offer_cut_off :
    offer? overfullEdit.stream = .ok none ∧
      addOffer overfullEdit.stream [utf8 "http/1.1"] = .ok none := by
  obtain ⟨hread, hagain⟩ := offer_read_back addOffer_fullRecord
  have hlong : ¬ overfullEdit.outer.length ≤ maxPlaintext := by
    change ¬ overfullHello.encode.length ≤ maxPlaintext
    rw [length_overfullHello]
    omega
  rw [if_neg hlong] at hread
  exact ⟨hread, hagain _⟩

theorem takeSelection_cut {behind : Bytes} (hw : hello.WellFormed) (hs : hello.sender = .server)
    (he : first.isEditable = true) (hb : hello.encode = first.payload ++ behind)
    (hh : Message.headerLength ≤ first.payload.length) (hne : behind ≠ []) :
    takeSelection (Record.encodeAll (first :: tail)) = .error .fragmented := by
  have hheader := Message.parse_cut (Hello.length_body hw) hb hh
  rw [hs] at hheader
  have hflight : serverFlight? (Record.encodeAll (first :: tail)) = .ok (some (first, tail)) :=
    serverFlight?_eq_some_iff.2 ⟨rfl, he, _, hheader, rfl⟩
  have hsplit := Message.split_cut (Hello.length_body hw) hb hh hne
  simp only [takeSelection, hflight, hsplit, bind, Except.bind]

/-- A selection that was added is taken out of any record that holds the whole hello. -/
theorem takeSelection_whole {old new : Hello} {list : Bytes} (hx : Extends old new [protocol] list)
    (hs : old.sender = .server) (he : first.isEditable = true)
    (hp : first.payload = new.encode ++ rest) :
    takeSelection (Record.encodeAll (first :: tail)) =
      .ok (some (.recarry first tail old.compact.encode new.encode (old.compact.encode ++ rest),
        protocol)) := by
  have hremoved : new.remove Extension.alpn = old.compact := by
    rw [hx.eq]
    exact Hello.remove_add (x := ⟨Extension.alpn, list⟩) hx.without
  refine takeSelection_eq_some_iff.2 ⟨new, ⟨Extension.alpn, list⟩, rest, hx.newFits,
    hx.sender_eq.trans hs, hx.find?_new, ProtocolList.decode_eq_ok_iff.2 hx.listed, ?_, rfl, ?_⟩
  · rw [hremoved]
    rfl
  · rw [hremoved]
    exact Edit.replaces_recarry he hp

/-- Taking the selection out of a rebuilt flight moves no payload byte, and restores the old records
where the new ones had not been divided. -/
theorem takeSelection_stream {old new : Hello} {list : Bytes} {restored : Record}
    (hx : Extends old new [protocol] list) (hs : old.sender = .server)
    (h : edit.Replaces data old.encode new.encode rest)
    (hl : new.encode.length ≤ maxPlaintext) (ht : restored.type = edit.carrier.type)
    (hv : restored.version = edit.carrier.version)
    (hp : restored.payload = old.compact.encode ++ rest) :
    ∃ back, takeSelection edit.stream = .ok (some (back, protocol)) ∧
      back.outer = new.encode ∧ back.inner = old.compact.encode ∧
      (back.head ++ back.tail).flatMap Record.payload =
        (restored :: edit.tail).flatMap Record.payload ∧
      ((new.encode ++ rest).length ≤ maxPlaintext →
        back.stream = Record.encodeAll (restored :: edit.tail)) := by
  obtain ⟨first, more, kept, moved, hstream, he, hversion, hpayload, hmore, hrest, hone⟩ :=
    h.stream_whole hl
  refine ⟨_, by rw [hstream]; exact takeSelection_whole hx hs he hpayload, rfl, rfl, ?_, ?_⟩
  · rw [Edit.recarry, List.flatMap_append, Record.flatMap_payload_carrying, List.flatMap_append,
      hmore, List.flatMap_cons, hp, hrest]
    simp only [List.append_assoc]
  · intro hall
    obtain ⟨rfl, rfl⟩ := hone hall
    rw [List.append_nil] at hrest
    have hfits : restored.payload.length ≤ maxPlaintext := by
      have hshort := Hello.length_encode_compact_le old
      have hlonger := hx.length_lt
      rw [List.length_append] at hall
      rw [hp, List.length_append]
      omega
    have hself := Record.carrying_self hfits
    rw [ht, type_of_isEditable h.editable, hv, ← hversion, hp, hrest] at hself
    rw [Edit.recarry, Edit.stream, hself]
    rfl

/-- Taking a selection out again undoes the edit that put it in. When the new hello fits a record,
the old hello comes back, and so does every byte behind it, in the old records when the new payload
had not been divided. Only an extensions block that held nothing does not return. A hello that was
cut by its first record is refused. -/
theorem selection_taken_back (h : addSelection data protocol = .ok (some edit)) :
    ∃ first tail rest hello restored,
      data = Record.encodeAll (first :: tail) ∧
      Message.split first.payload = .ok (edit.inner, rest) ∧
      Hello.parse .server edit.inner = .ok hello ∧
      restored.type = first.type ∧ restored.version = first.version ∧
      restored.payload = hello.compact.encode ++ rest ∧
      (hello.extensions ≠ some [] → hello.compact.encode = edit.inner ∧ restored = first) ∧
      (hello.extensions = some [] → hello.body = hello.compact.body ++ [0, 0]) ∧
      (maxPlaintext < edit.outer.length → takeSelection edit.stream = .error .fragmented) ∧
      (edit.outer.length ≤ maxPlaintext → ∃ back records,
        takeSelection edit.stream = .ok (some (back, protocol)) ∧
        back.outer = edit.outer ∧ back.inner = hello.compact.encode ∧
        Record.split back.stream = .ok records ∧
        records.flatMap Record.payload = (restored :: tail).flatMap Record.payload ∧
        ((edit.outer ++ rest).length ≤ maxPlaintext →
          back.stream = Record.encodeAll (restored :: tail))) := by
  obtain ⟨old, new, list, rest, hx, hs, hi, ho, hrep⟩ := addSelection_eq_some_iff.1 h
  have hsender : new.sender = .server := hx.sender_eq.trans hs
  obtain ⟨restored, ht, hv, hp⟩ := hrep.exists_carrying (Hello.length_encode_compact_le old)
  refine ⟨edit.carrier, edit.tail, rest, old, restored, hrep.stream, ?_, ?_, ht, hv, hp, ?_,
    Hello.body_of_empty, ?_, ?_⟩
  · rw [hrep.carried, hi]
    exact split_encode hx.oldFits rest
  · rw [hi, ← hs]
    exact Hello.parse_encode hx.oldFits
  · intro hne
    have hcompact := Hello.compact_of_ne hne
    have hpayload : restored.payload = edit.carrier.payload := by
      rw [hp, hcompact, hrep.carried]
    exact ⟨by rw [hcompact, hi], Record.eq_of_fields ht hv hpayload⟩
  · intro hl
    rw [ho] at hl
    obtain ⟨first, more, hstream, he, behind, hb, hh, hne⟩ := hrep.stream_cut hl
    rw [hstream]
    exact takeSelection_cut hx.newFits hsender he hb hh hne
  · intro hl
    rw [ho] at hl ⊢
    obtain ⟨back, htaken, hout, hin, hpayloads, hwhole⟩ :=
      takeSelection_stream hx hs hrep hl ht hv hp
    exact ⟨back, back.head ++ back.tail, htaken, hout, hin, Record.split_encodeAll _, hpayloads,
      hwhole⟩

section Divided

/-- A server's hello and what else its record holds, which is nearly full. -/
def sharedRecord : Record :=
  ⟨.handshake, .tls12, (Peer.helloOf .server).encode ++ List.replicate 16300 0, by
    rw [List.length_append, List.length_replicate]
    decide⟩

def selectedHello : Hello := (Peer.helloOf .server).add ⟨Extension.alpn, [0, 3, 2, 0x68, 0x32]⟩

def selectedEdit : Edit :=
  .recarry sharedRecord [] (Peer.helloOf .server).encode selectedHello.encode
    (selectedHello.encode ++ List.replicate 16300 0)

theorem extends_selectedHello :
    Extends (Peer.helloOf .server) selectedHello [utf8 "h2"] [0, 3, 2, 0x68, 0x32] :=
  ⟨⟨rfl, by decide, ⟨by decide, by decide⟩, by decide⟩,
    ⟨rfl, by decide, ⟨by decide, by decide⟩, by decide⟩, rfl, by decide, rfl⟩

theorem addSelection_sharedRecord :
    addSelection (Record.encodeAll [sharedRecord]) (utf8 "h2") = .ok (some selectedEdit) :=
  addSelection_eq_some_iff.2 ⟨Peer.helloOf .server, selectedHello, _, List.replicate 16300 0,
    extends_selectedHello, rfl, rfl, rfl, Edit.replaces_recarry rfl rfl⟩

/-- The selection pushes the end of the record into a second one, and taking it out does not lose
a byte. -/
theorem selection_taken_back_from_two_records :
    selectedEdit.head.length = 2 ∧ ∃ back records,
      takeSelection selectedEdit.stream = .ok (some (back, utf8 "h2")) ∧
      back.inner = (Peer.helloOf .server).encode ∧ Record.split back.stream = .ok records ∧
      records.flatMap Record.payload = sharedRecord.payload := by
  obtain ⟨first, tail, rest, hello, restored, hdata, -, hparse, -, -, -, hsame, -, -, hwhole⟩ :=
    selection_taken_back addSelection_sharedRecord
  cases Record.encodeAll_inj hdata
  cases hparse.symm.trans (Hello.parse_encode extends_selectedHello.oldFits)
  obtain ⟨hinner, rfl⟩ := hsame (by decide)
  have hfits : selectedEdit.outer.length ≤ maxPlaintext :=
    show selectedHello.encode.length ≤ maxPlaintext by decide
  obtain ⟨back, records, htaken, -, hin, hsplit, hpayloads, -⟩ := hwhole hfits
  refine ⟨?_, back, records, htaken, hin.trans hinner, hsplit, ?_⟩
  · rw [selectedEdit, Edit.recarry, Record.length_carrying, List.length_append,
      List.length_replicate]
    decide
  · rw [hpayloads, List.flatMap_singleton]

end Divided

end AlpnOverlay.Flight
