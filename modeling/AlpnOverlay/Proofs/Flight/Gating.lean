import AlpnOverlay.Proofs.Flight.Opening
import AlpnOverlay.Proofs.Flight.Rebuilding
import AlpnOverlay.Proofs.Wire.Refusals

/-!
What becomes of a flight of whole records in the hands of a client. A selection is taken out of it,
it passes as it is, or it is refused for good; which of them is decided by its first record.
-/
namespace AlpnOverlay.Flight

open Wire

variable {message rest name data : Bytes} {edit : Edit} {hello : Hello} {first : Record}
  {tail : List Record} {e : Error}

/-- A record that opens with a whole, well-formed server hello. -/
structure Opens (first : Record) (hello : Hello) (rest : Bytes) : Prop where
  fits : hello.WellFormed
  sender : hello.sender = .server
  carried : first.payload = hello.encode ++ rest

/-- The first list of protocols in a hello holds one name. -/
def Names (hello : Hello) (name : Bytes) : Prop :=
  ∃ x, hello.find? Extension.alpn = some x ∧ ProtocolList.decode x.data = .ok [name]

/-- A record with nothing to take: a server hello without a list, or another message. -/
inductive Passable (first : Record) : Prop where
  | unselected {hello : Hello} {rest : Bytes} (ho : Opens first hello rest)
      (hn : hello.find? Extension.alpn = none)
  | other {header : Message.Header} (hh : Message.Header.parse first.payload = .ok header)
      (ht : header.type? ≠ some .serverHello)

/-- A hello without its lists of protocols; whatever else it says, it still says. -/
structure Bares (old new : Hello) : Prop where
  fits : new.WellFormed
  extensions : new.extensions.getD [] =
    (old.extensions.getD []).filter fun x => x.type != Extension.alpn
  fields : { new with extensions := old.extensions } = old

/-- The edit that takes the lists of protocols out of the hello at the head of a flight, and leaves
the messages and the records behind it. -/
structure Edit.Withholds (edit : Edit) (first : Record) (tail : List Record) (hello : Hello)
    (rest : Bytes) : Prop where
  carrier : edit.carrier = first
  tail : edit.tail = tail
  outer : edit.outer = hello.encode
  inner : ∃ bare, Bares hello bare ∧ edit.inner = bare.encode
  head : ∀ r ∈ edit.head, r.type = first.type ∧ r.version = first.version
  payload : edit.head.flatMap Record.payload = edit.inner ++ rest

theorem bares_remove (hw : hello.WellFormed) : Bares hello (hello.remove Extension.alpn) := by
  refine ⟨Hello.wellFormed_remove hw, ?_, ?_⟩
  · simp only [Hello.remove]
    split
    · rename_i hnil
      exact hnil.symm
    · rfl
  · simp only [Hello.remove]
    split
    · rfl
    · rfl

theorem Bares.unnamed {old new : Hello} (h : Bares old new) (x : Extension)
    (hx : x ∈ new.extensions.getD []) : x.type ≠ Extension.alpn := by
  rw [h.extensions] at hx
  simpa using (List.mem_filter.1 hx).2

/-- A record opens with one hello at most. -/
theorem Opens.unique {other : Hello} {rest' : Bytes} (h : Opens first hello rest)
    (h' : Opens first other rest') : hello = other ∧ rest = rest' := by
  have hs := split_encode h.fits rest
  rw [← h.carried, h'.carried, split_encode h'.fits] at hs
  obtain ⟨hencode, hrest⟩ := Prod.mk.inj (Except.ok.inj hs)
  have hp := Hello.parse_encode h.fits
  rw [h.sender, ← hencode, ← h'.sender, Hello.parse_encode h'.fits] at hp
  exact ⟨(Except.ok.inj hp).symm, hrest.symm⟩

theorem Opens.header (h : Opens first hello rest) : ∃ header,
    Message.Header.parse first.payload = .ok header ∧ header.type? = some .serverHello := by
  have hp := header_encode h.fits rest
  rw [← h.carried, h.sender] at hp
  exact ⟨_, hp, rfl⟩

/-- A hello with a list is no record to let pass. -/
theorem Opens.not_passable {x : Extension} (h : Opens first hello rest)
    (hx : hello.find? Extension.alpn = some x) : ¬ Passable first := by
  intro hp
  cases hp with
  | unselected ho hn =>
    obtain ⟨rfl, -⟩ := h.unique ho
    cases hx.symm.trans hn
  | other hh ht =>
    obtain ⟨header, hh', ht'⟩ := h.header
    cases hh.symm.trans hh'
    exact ht ht'

theorem takeSelection_of_passable (he : first.isEditable = true) (h : Passable first) :
    takeSelection (Record.encodeAll (first :: tail)) = .ok none := by
  cases h with
  | unselected ho hn => exact takeSelection_of_without ho.fits ho.sender hn rfl he ho.carried
  | other hh ht => exact takeSelection_of_other rfl hh ht

/-- What is taken out of a flight is the one name in its hello. -/
theorem takeSelection_of_names (he : first.isEditable = true) (ho : Opens first hello rest)
    (hn : Names hello name) (tail : List Record) : ∃ edit, edit.Withholds first tail hello rest ∧
      takeSelection (Record.encodeAll (first :: tail)) = .ok (some (edit, name)) := by
  obtain ⟨x, hx, hd⟩ := hn
  let bare := hello.remove Extension.alpn
  let edit : Edit := .recarry first tail bare.encode hello.encode (bare.encode ++ rest)
  have hrep : edit.Replaces (Record.encodeAll (first :: tail)) hello.encode bare.encode rest :=
    Edit.replaces_recarry he ho.carried
  refine ⟨edit, ⟨rfl, rfl, rfl, ⟨bare, bares_remove ho.fits, rfl⟩, ?_, ?_⟩,
    takeSelection_eq_some_iff.2 ⟨hello, x, rest, ho.fits, ho.sender, hx, hd, rfl, rfl, hrep⟩⟩
  · intro r hr
    obtain ⟨ht, hv, -⟩ := Record.of_mem_carrying hr
    exact ⟨ht.trans (type_of_isEditable he).symm, hv⟩
  · exact Record.flatMap_payload_carrying ..

theorem names_of_takeSelection
    (h : takeSelection (Record.encodeAll (first :: tail)) = .ok (some (edit, name))) :
    ∃ hello rest, Opens first hello rest ∧ Names hello name := by
  obtain ⟨hello, x, rest, hw, hs, hx, hd, -, -, hrep⟩ := takeSelection_eq_some_iff.1 h
  obtain ⟨rfl, -⟩ := List.cons.inj (Record.encodeAll_inj hrep.stream)
  exact ⟨hello, rest, ⟨hw, hs, hrep.carried⟩, x, hx, hd⟩

/-- A hello is left as it is for want of a list, not for want of understanding. -/
theorem strip_eq_none {inner : Bytes} (h : strip message = .ok ⟨inner, none⟩) :
    ∃ hello : Hello, hello.WellFormed ∧ hello.sender = .server ∧ message = hello.encode ∧
      hello.find? Extension.alpn = none := by
  simp only [strip, bind_eq_ok_iff] at h
  obtain ⟨hello, hp, h⟩ := h
  obtain ⟨hw, hs, rfl⟩ := Hello.parse_eq_ok_iff.1 hp
  refine ⟨hello, hw, hs, rfl, ?_⟩
  cases hx : hello.find? Extension.alpn with
  | none => rfl
  | some x =>
    simp only [hx, bind_eq_ok_iff] at h
    obtain ⟨names, -, h⟩ := h
    split at h
    · obtain ⟨_, -, h⟩ := bind_eq_ok_iff.1 h
      cases h
    · cases h

theorem isFault_of_strip (h : strip message = .error e) : e.IsFault := by
  simp only [strip, bind, Except.bind] at h
  split at h
  · rename_i hp
    cases h
    exact Hello.isFault_of_parse hp
  · rename_i hello hp
    obtain ⟨hw, -, -⟩ := Hello.parse_eq_ok_iff.1 hp
    split at h
    · cases h
    · split at h
      · rename_i hd
        cases h
        exact ProtocolList.isFault_of_decode hd
      · split at h
        · rw [Hello.write_of_wellFormed (Hello.wellFormed_remove hw)] at h
          cases h
        · cases h
          exact ⟨_, rfl⟩

theorem Message.not_underflow_of_split {payload : Bytes} (h : Message.split payload = .error e) :
    e.isUnderflow = false := by
  simp only [Message.split] at h
  split at h
  · rename_i hp
    cases h
    exact (Message.Header.isFault_of_parse hp).not_underflow
  · split at h
    · cases h
      rfl
    · cases h

theorem isFault_of_serverFlight?
    (h : serverFlight? (Record.encodeAll (first :: tail)) = .error e) : e.IsFault := by
  simp only [serverFlight?, Record.split_encodeAll, bind, Except.bind] at h
  split at h
  · cases h
  · split at h
    · rename_i hh
      cases h
      exact Message.Header.isFault_of_parse hh
    · split at h
      · cases h
      · cases h

/-- A flight of whole records is not refused for want of more of them. -/
theorem not_underflow_of_takeSelection
    (h : takeSelection (Record.encodeAll (first :: tail)) = .error e) : e.isUnderflow = false := by
  simp only [takeSelection, bind, Except.bind] at h
  split at h
  · rename_i hs
    cases h
    exact (isFault_of_serverFlight? hs).not_underflow
  · split at h
    · split at h
      · rename_i hm
        cases h
        exact Message.not_underflow_of_split hm
      · split at h
        · rename_i hst
          cases h
          exact (isFault_of_strip hst).not_underflow
        · split at h
          · cases h
          · cases h
    · cases h

theorem passable_of_takeSelection (he : first.isEditable = true)
    (h : takeSelection (Record.encodeAll (first :: tail)) = .ok none) : Passable first := by
  simp only [takeSelection, bind_eq_ok_iff] at h
  obtain ⟨flight, hs, h⟩ := h
  cases flight with
  | none =>
    obtain ⟨header, hh, ht⟩ := other_of_serverFlight? he hs
    exact .other hh ht
  | some flight =>
    obtain ⟨r, rs⟩ := flight
    obtain ⟨hd, -, -⟩ := serverFlight?_eq_some_iff.1 hs
    obtain ⟨rfl, -⟩ := List.cons.inj (Record.encodeAll_inj hd)
    simp only [bind_eq_ok_iff] at h
    obtain ⟨⟨message, rest⟩, hm, ⟨inner, selection⟩, hst, h⟩ := h
    cases selection with
    | some name => cases h
    | none =>
      obtain ⟨hello, hw, hs, rfl, hn⟩ := strip_eq_none hst
      exact .unselected ⟨hw, hs, (Message.split_eq_ok_iff.1 hm).1⟩ hn

end AlpnOverlay.Flight
