import AlpnOverlay.Proofs.Flight.Editing

/-!
What a flight opens with, whether or not it can be edited: the first handshake message, and the
protocol that it names if it is a server hello.
-/
namespace AlpnOverlay

namespace Wire

variable {hello : Hello} {x : Extension} {message name stream : Bytes}

/-- The extension in which a server hello names protocols. -/
def Hello.selection? (message : Bytes) : Option Extension :=
  match Hello.parse .server message with
  | .error _ => none
  | .ok hello => hello.find? Extension.alpn

/-- Whether a message is a server hello that names `name` and nothing else. -/
def Hello.selects (message name : Bytes) : Bool :=
  match Hello.selection? message with
  | none => false
  | some x => ProtocolList.decode x.data = .ok [name]

/-- The first handshake message in the whole records of a stream. It may run over several records. -/
def firstMessage? (stream : Bytes) : Option Bytes :=
  (Message.leading (Record.handshake stream)).head?

theorem Hello.find?_add (h : hello.has x.type = false) : (hello.add x).find? x.type = some x := by
  have hn : (hello.extensions.getD []).find? (fun e => e.type == x.type) = none := by
    simpa only [has, find?, Option.isSome_eq_false_iff, Option.isNone_iff_eq_none] using h
  simp only [find?, add, Option.getD_some, List.find?_append, hn, Option.none_or]
  simp

theorem Hello.find?_remove (hello : Hello) (type : UInt16) :
    (hello.remove type).find? type = none := by
  have hkept : ((hello.extensions.getD []).filter fun e => e.type != type).find?
      (fun e => e.type == type) = none := by
    rw [List.find?_eq_none]
    intro e he
    simpa using (List.mem_filter.1 he).2
  simp only [remove]
  split
  · rfl
  · exact hkept

theorem Hello.selection?_encode (hw : hello.WellFormed) (hs : hello.sender = .server) :
    Hello.selection? hello.encode = hello.find? Extension.alpn := by
  have hp := Hello.parse_encode hw
  rw [hs] at hp
  simp only [selection?, hp]

end Wire

namespace Flight

open Wire

variable {data message rest name protocol : Bytes} {edit : Edit} {hello : Hello} {first : Record}
  {tail : List Record}

/-- The first record of a flight and the whole server hello that it opens with. -/
def openingHello? (data : Bytes) : Option (Record × Bytes) :=
  match Record.first data with
  | .error _ => none
  | .ok (first, _) =>
    match Message.split first.payload with
    | .error _ => none
    | .ok (message, _) =>
      if first.type = .handshake ∧ messageType? message = .ok (some .serverHello) then
        some (first, message)
      else none

theorem openingHello?_eq_some_iff :
    openingHello? data = some (first, message) ↔
      (∃ more, data = first.encode ++ more) ∧ first.type = .handshake ∧
        (∃ rest, Message.split first.payload = .ok (message, rest)) ∧
        messageType? message = .ok (some .serverHello) := by
  simp only [openingHello?]
  constructor
  · intro h
    split at h
    · cases h
    · rename_i r more hf
      split at h
      · cases h
      · rename_i m rest hs
        split at h
        · rename_i ht
          cases h
          exact ⟨⟨more, Record.first_eq_ok_iff.1 hf⟩, ht.1, ⟨rest, hs⟩, ht.2⟩
        · cases h
  · rintro ⟨⟨more, hd⟩, ht, ⟨rest, hs⟩, hm⟩
    simp only [Record.first_eq_ok_iff.2 hd, hs, ht, hm, and_self, if_true]

/-- The header of a record that opens with a server hello says so. -/
theorem header_of_opening (h : openingHello? data = some (first, message)) :
    ∃ header, Message.Header.parse first.payload = .ok header ∧
      header.type? = some .serverHello := by
  obtain ⟨-, -, ⟨rest, hs⟩, hm⟩ := openingHello?_eq_some_iff.1 h
  obtain ⟨hp, header, hh, -⟩ := Message.split_eq_ok_iff.1 hs
  simp only [messageType?, hh, Except.map, Except.ok.injEq] at hm
  refine ⟨header, ?_, hm⟩
  rw [hp]
  exact Message.parse_append hh rest

theorem firstMessage?_of_opening (h : openingHello? data = some (first, message)) :
    firstMessage? data = some message := by
  obtain ⟨⟨more, hd⟩, ht, ⟨rest, hs⟩, -⟩ := openingHello?_eq_some_iff.1 h
  obtain ⟨hp, header, hh, hl⟩ := Message.split_eq_ok_iff.1 hs
  have hbytes : Record.handshake data =
      message ++ (rest ++ Record.handshakeBytes (Record.leading more)) := by
    rw [Record.handshake, Record.leading_of_first (Record.first_eq_ok_iff.2 hd),
      ← List.singleton_append, Record.handshakeBytes_append, Record.handshakeBytes_singleton ht, hp,
      List.append_assoc]
  have hsplit := Message.split_eq_ok_iff.2 ⟨hbytes, header, hh, hl⟩
  rw [firstMessage?, Message.leading_of_split hsplit]
  rfl

/-- The first message of an edited flight is the new hello. -/
theorem firstMessage?_stream {old new : Bytes} (h : edit.Replaces data old new rest)
    (hw : hello.WellFormed) (hn : new = hello.encode) :
    firstMessage? edit.stream = some hello.encode := by
  have hbytes : Record.handshake edit.stream =
      hello.encode ++ (rest ++ Record.handshakeBytes edit.tail) := by
    rw [Edit.stream, Record.handshake_encodeAll, Record.handshakeBytes_append, h.recarried,
      Record.handshakeBytes_carrying, hn, List.append_assoc]
  rw [firstMessage?, hbytes, Message.leading_of_split (split_encode hw _)]
  rfl

theorem openingHello?_of_replaces {new : Bytes} (hw : hello.WellFormed)
    (hs : hello.sender = .server) (h : edit.Replaces data hello.encode new rest) :
    openingHello? data = some (edit.carrier, hello.encode) := by
  have hd : data = edit.carrier.encode ++ Record.encodeAll edit.tail := by
    rw [h.stream, Record.encodeAll_cons]
  have hsplit := split_encode hw rest
  have hm := messageType?_encode hw
  rw [← h.carried] at hsplit
  rw [hs] at hm
  exact openingHello?_eq_some_iff.2
    ⟨⟨_, hd⟩, type_of_isEditable h.editable, ⟨rest, hsplit⟩, hm⟩

theorem Extends.find?_new {old new : Hello} {names : List Bytes} {list : Bytes}
    (h : Extends old new names list) : new.find? Extension.alpn = some ⟨Extension.alpn, list⟩ := by
  rw [h.eq]
  exact Hello.find?_add (x := ⟨Extension.alpn, list⟩) h.without

/-- A selection that is added is the only one that the flight makes. -/
theorem selects_of_addSelection (h : addSelection data protocol = .ok (some edit)) :
    openingHello? data = some (edit.carrier, edit.inner) ∧ edit.carrier.isEditable = true ∧
      ∃ message, firstMessage? edit.stream = some message ∧
        Hello.selects message protocol = true := by
  obtain ⟨old, new, list, rest, hx, hs, hi, -, hrep⟩ := addSelection_eq_some_iff.1 h
  have hopening := openingHello?_of_replaces hx.oldFits hs hrep
  rw [← hi] at hopening
  refine ⟨hopening, hrep.editable, _, firstMessage?_stream hrep hx.newFits rfl, ?_⟩
  have hselection := Hello.selection?_encode hx.newFits (hx.sender_eq.trans hs)
  rw [hx.find?_new] at hselection
  simp only [Hello.selects, hselection,
    ProtocolList.decode_eq_ok_iff.2 hx.listed, decide_true]

theorem whole_of_serverFlight {flight : Option (Record × List Record)}
    (h : serverFlight? data = .ok flight) : ∃ records, data = Record.encodeAll records := by
  simp only [serverFlight?, bind_eq_ok_iff] at h
  obtain ⟨records, hr, -⟩ := h
  exact ⟨records, Record.split_eq_ok_iff.1 hr⟩

theorem cons_of_opening {records : List Record} (h : openingHello? data = some (first, message))
    (hall : data = Record.encodeAll records) : ∃ tail, records = first :: tail := by
  obtain ⟨⟨more, hd⟩, -, -, -⟩ := openingHello?_eq_some_iff.1 h
  have hf := Record.first_eq_ok_iff.2 hd
  cases records with
  | nil =>
    rw [hall] at hf
    cases hf
  | cons r tail =>
    rw [Record.encodeAll_cons] at hall
    cases hf.symm.trans (Record.first_eq_ok_iff.2 hall)
    exact ⟨tail, rfl⟩

/-- A flight of an editable version that opens with a whole server hello is not passed over. -/
theorem serverFlight?_of_opening (h : openingHello? data = some (first, message))
    (hv : first.version.isEditable = true) : serverFlight? data ≠ .ok none := by
  obtain ⟨header, hh, htype⟩ := header_of_opening h
  obtain ⟨-, ht, -, -⟩ := openingHello?_eq_some_iff.1 h
  have he : first.isEditable = true := by simp [Record.isEditable, ht, hv]
  intro hs
  obtain ⟨records, hall⟩ := whole_of_serverFlight hs
  obtain ⟨tail, rfl⟩ := cons_of_opening h hall
  rw [serverFlight?_eq_some_iff.2 ⟨hall, he, header, hh, htype⟩] at hs
  cases hs

theorem selection?_of_strip {inner : Bytes} (h : strip message = .ok ⟨inner, none⟩) :
    Hello.selection? message = none := by
  simp only [strip, bind_eq_ok_iff] at h
  obtain ⟨hello, hp, h⟩ := h
  simp only [Hello.selection?, hp]
  cases hx : hello.find? Extension.alpn with
  | none => rfl
  | some x =>
    simp only [hx, bind_eq_ok_iff] at h
    obtain ⟨names, -, h⟩ := h
    split at h
    · obtain ⟨_, -, h⟩ := bind_eq_ok_iff.1 h
      cases h
    · cases h

/-- A flight that is passed over opens with another message. -/
theorem other_of_serverFlight? (he : first.isEditable = true)
    (h : serverFlight? (Record.encodeAll (first :: tail)) = .ok none) :
    ∃ header, Message.Header.parse first.payload = .ok header ∧
      header.type? ≠ some .serverHello := by
  simp only [serverFlight?, Record.split_encodeAll, he, bind, Except.bind, Bool.not_true,
    Bool.false_eq_true, if_false] at h
  cases hh : Message.Header.parse first.payload with
  | error e =>
    rw [hh] at h
    cases h
  | ok header =>
    simp only [hh] at h
    split at h
    · rename_i ht
      exact ⟨header, rfl, ht⟩
    · cases h

/-- What a client takes nothing from: another message, or a server hello without a selection. -/
theorem opening_of_takeSelection (hd : data = Record.encodeAll (first :: tail))
    (he : first.isEditable = true) (h : takeSelection data = .ok none) :
    (∃ header, Message.Header.parse first.payload = .ok header ∧
      header.type? ≠ some .serverHello) ∨
    ∃ message, openingHello? data = some (first, message) ∧ Hello.selection? message = none := by
  simp only [takeSelection, bind_eq_ok_iff] at h
  obtain ⟨flight, hs, h⟩ := h
  cases flight with
  | none =>
    left
    rw [hd] at hs
    exact other_of_serverFlight? he hs
  | some flight =>
    right
    obtain ⟨r, rs⟩ := flight
    obtain ⟨hd', -, header, hh, ht⟩ := serverFlight?_eq_some_iff.1 hs
    obtain ⟨rfl, -⟩ := List.cons.inj (Record.encodeAll_inj (hd.symm.trans hd'))
    simp only [bind_eq_ok_iff] at h
    obtain ⟨⟨message, rest⟩, hm, ⟨inner, selection⟩, hst, h⟩ := h
    cases selection with
    | some name => cases h
    | none =>
      obtain ⟨hp, header', hh', -⟩ := Message.split_eq_ok_iff.1 hm
      have hsame : Message.Header.parse first.payload = .ok header' := by
        rw [hp]
        exact Message.parse_append hh' rest
      cases hh.symm.trans hsame
      have hfirst : data = first.encode ++ Record.encodeAll tail := by
        rw [hd, Record.encodeAll_cons]
      have hmessage : messageType? message = .ok (some .serverHello) := by
        simp only [messageType?, hh', Except.map, ht]
      exact ⟨message, openingHello?_eq_some_iff.2
        ⟨⟨_, hfirst⟩, type_of_isEditable he, ⟨rest, hm⟩, hmessage⟩, selection?_of_strip hst⟩

theorem whole_of_takeSelection {taken : Option (Edit × Bytes)}
    (h : takeSelection data = .ok taken) :
    ∃ records, data = Record.encodeAll records := by
  simp only [takeSelection, bind_eq_ok_iff] at h
  obtain ⟨flight, hs, -⟩ := h
  exact whole_of_serverFlight hs

theorem selection?_of_takeSelection (h : openingHello? data = some (first, message))
    (he : first.isEditable = true) (ht : takeSelection data = .ok none) :
    Hello.selection? message = none := by
  obtain ⟨records, hall⟩ := whole_of_takeSelection ht
  obtain ⟨tail, rfl⟩ := cons_of_opening h hall
  rcases opening_of_takeSelection hall he ht with ⟨header, hh, hother⟩ | ⟨other, ho, hnone⟩
  · obtain ⟨header', hh', htype⟩ := header_of_opening h
    cases hh.symm.trans hh'
    exact absurd htype hother
  · cases h.symm.trans ho
    exact hnone

/-- A selection that is taken out is in the hello that the flight opens with, and in no hello that
the engine reads instead. -/
theorem selection?_of_taken (h : takeSelection data = .ok (some (edit, name))) :
    openingHello? data = some (edit.carrier, edit.outer) ∧
      ∀ head message, openingHello? edit.stream = some (head, message) →
        Hello.selection? message = none := by
  obtain ⟨old, x, rest, hw, hs, hx, -, -, ho, hrep⟩ := takeSelection_eq_some_iff.1 h
  have hremoved : (old.remove Extension.alpn).sender = .server := (Hello.sender_remove ..).trans hs
  have hfits : (old.remove Extension.alpn).WellFormed := Hello.wellFormed_remove hw
  refine ⟨by rw [ho]; exact openingHello?_of_replaces hw hs hrep, ?_⟩
  intro head message hopens
  have hfirst := firstMessage?_stream hrep hfits rfl
  rw [firstMessage?_of_opening hopens, Option.some.injEq] at hfirst
  rw [hfirst, Hello.selection?_encode hfits hremoved, Hello.find?_remove]

/-- A flight of whole records, the first of which can be edited, in which there is nothing to take. -/
def Unselected (data : Bytes) : Prop :=
  ∃ first tail, data = Record.encodeAll (first :: tail) ∧ first.isEditable = true ∧
    takeSelection data = .ok none

theorem unselected_of_head {major minor : UInt8} {more : Bytes}
    (hd : data = ContentType.handshake.code :: major :: minor :: more)
    (hv : Version.isEditable ⟨major, minor⟩ = true) (h : takeSelection data = .ok none) :
    Unselected data := by
  obtain ⟨records, hall⟩ := whole_of_takeSelection h
  cases records with
  | nil =>
    rw [hall] at hd
    cases hd
  | cons first tail =>
    refine ⟨first, tail, hall, ?_, h⟩
    have hhead : first.type.code :: first.version.major :: first.version.minor ::
        (BigEndian.encode 2 first.payload.length ++ first.payload ++ Record.encodeAll tail) =
        ContentType.handshake.code :: major :: minor :: more := by
      rw [← hd, hall, Record.encodeAll_cons]
      rfl
    simp only [List.cons.injEq] at hhead
    obtain ⟨htype, rfl, rfl, -⟩ := hhead
    simp [Record.isEditable, ContentType.code_inj htype, hv]

theorem takeSelection_of_other (hd : data = Record.encodeAll (first :: tail))
    {header : Message.Header} (hh : Message.Header.parse first.payload = .ok header)
    (ht : header.type? ≠ some .serverHello) : takeSelection data = .ok none := by
  have hs : serverFlight? data = .ok none := by
    simp only [serverFlight?, hd, Record.split_encodeAll, bind, Except.bind, hh, ht, ne_eq,
      not_false_eq_true, if_true]
    split
    · rfl
    · rfl
  simp only [takeSelection, hs, bind, Except.bind]
  rfl

end Flight

end AlpnOverlay
