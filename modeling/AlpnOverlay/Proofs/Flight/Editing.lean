import AlpnOverlay.Flight.Offer
import AlpnOverlay.Flight.Selection
import AlpnOverlay.Proofs.Transcript.FirstMatch
import AlpnOverlay.Proofs.Wire.Layout
import AlpnOverlay.Proofs.Wire.Stream
import Mathlib.Control.Monad.Basic

/-!
What an edit of a flight is. An edit is made exactly when the flight opens with an editable record
that holds a whole, well-formed hello; the new records carry the new hello and whatever shared the
record with the old one.
-/
namespace AlpnOverlay.Flight

open Wire

variable {data payload message rest name protocol : Bytes} {protocols : List Bytes} {edit : Edit}
  {hello : Hello} {first : Record} {tail : List Record}

theorem bind_eq_ok_iff {ε α β : Type} {x : Except ε α} {f : α → Except ε β} {b : β} :
    (x >>= f) = .ok b ↔ ∃ a, x = .ok a ∧ f a = .ok b := by
  cases x with
  | error e => simp [bind, Except.bind]
  | ok a =>
    constructor
    · intro h
      exact ⟨a, rfl, h⟩
    · rintro ⟨_, ha, h⟩
      cases ha
      exact h

@[simp] theorem mapError_ok {ε ε' α : Type} (f : ε → ε') (a : α) :
    (.ok a : Except ε α).mapError f = .ok a := rfl

@[simp] theorem mapError_error {ε ε' α : Type} (f : ε → ε') (e : ε) :
    (.error e : Except ε α).mapError f = .error (f e) := rfl

theorem mapError_eq_ok_iff {ε ε' α : Type} {x : Except ε α} {f : ε → ε'} {a : α} :
    x.mapError f = .ok a ↔ x = .ok a := by
  cases x <;> simp

/-- The first hello of `data` is `old`; the new records carry `new` in its place. -/
structure Edit.Replaces (e : Edit) (data old new rest : Bytes) : Prop where
  stream : data = Record.encodeAll (e.carrier :: e.tail)
  editable : e.carrier.isEditable = true
  carried : e.carrier.payload = old ++ rest
  recarried : e.head = Record.carrying .handshake e.carrier.version (new ++ rest)

theorem type_of_isEditable (h : first.isEditable = true) : first.type = .handshake := by
  simp only [Record.isEditable, Bool.and_eq_true, decide_eq_true_eq] at h
  exact h.1

theorem Edit.Replaces.rebuild {inner outer old new : Bytes} (h : edit.Replaces data old new rest)
    (hi : edit.inner = inner) (ho : edit.outer = outer) :
    (⟨edit.carrier, Record.carrying edit.carrier.type edit.carrier.version (new ++ rest), edit.tail,
      inner, outer⟩ : Edit) = edit := by
  rw [type_of_isEditable h.editable, ← h.recarried, ← hi, ← ho]

theorem split_encode (hw : hello.WellFormed) (rest : Bytes) :
    Message.split (hello.encode ++ rest) = .ok (hello.encode, rest) :=
  Message.split_frame (Hello.length_body hw) rest

theorem header_encode (hw : hello.WellFormed) (rest : Bytes) :
    Message.Header.parse (hello.encode ++ rest) =
      .ok ⟨(helloType hello.sender).code, hello.body.length⟩ :=
  Message.parse_frame (Hello.length_body hw) rest

theorem messageType?_encode (hw : hello.WellFormed) :
    messageType? hello.encode = .ok (some (helloType hello.sender)) := by
  have hp := header_encode hw []
  rw [List.append_nil] at hp
  simp only [messageType?, hp, Except.map, Message.Header.type?, MessageType.ofCode?_code]

theorem clientHello?_eq_some_iff :
    clientHello? payload = .ok (some (message, rest, hello)) ↔
      hello.WellFormed ∧ hello.sender = .client ∧ message = hello.encode ∧
        payload = message ++ rest := by
  simp only [clientHello?, bind_eq_ok_iff]
  constructor
  · rintro ⟨parts, hs, h⟩
    cases parts with
    | none => cases h
    | some parts =>
      obtain ⟨m, r⟩ := parts
      obtain ⟨type, -, h⟩ := bind_eq_ok_iff.1 h
      split at h
      · cases h
      · obtain ⟨x, hp, h⟩ := bind_eq_ok_iff.1 h
        cases h
        obtain ⟨hw, hr, rfl⟩ := Hello.parse_eq_ok_iff.1 hp
        refine ⟨hw, hr, rfl, ?_⟩
        simp only [splitWhole] at hs
        split at hs
        · rename_i hm
          cases hs
          exact (Message.split_eq_ok_iff.1 hm).1
        · cases hs
        · cases hs
  · rintro ⟨hw, hr, rfl, rfl⟩
    have hp := Hello.parse_encode hw
    rw [hr] at hp
    refine ⟨some (hello.encode, rest), by simp only [splitWhole, split_encode hw], ?_⟩
    simp only [messageType?_encode hw, hr, helloType, hp]
    rfl

theorem serverFlight?_eq_some_iff :
    serverFlight? data = .ok (some (first, tail)) ↔
      data = Record.encodeAll (first :: tail) ∧ first.isEditable = true ∧
        ∃ h, Message.Header.parse first.payload = .ok h ∧ h.type? = some .serverHello := by
  simp only [serverFlight?, bind_eq_ok_iff]
  constructor
  · rintro ⟨records, hs, h⟩
    cases records with
    | nil => cases h
    | cons r rs =>
      simp only at h
      split at h
      · cases h
      · rename_i he
        obtain ⟨header, hp, h⟩ := bind_eq_ok_iff.1 h
        split at h
        · cases h
        · rename_i ht
          cases h
          exact ⟨Record.split_eq_ok_iff.1 hs, by simpa using he, header, hp, by simpa using ht⟩
  · rintro ⟨rfl, he, header, hp, ht⟩
    refine ⟨_, Record.split_encodeAll _, ?_⟩
    simp only [he, Bool.not_true, Bool.false_eq_true, if_false, hp, bind, Except.bind, ht, ne_eq,
      not_true_eq_false]
    rfl

/-- A hello and the same hello with an extension that names protocols. -/
structure Extends (old new : Hello) (names : List Bytes) (list : Bytes) : Prop where
  oldFits : old.WellFormed
  newFits : new.WellFormed
  without : old.has Extension.alpn = false
  listed : ProtocolList.encode names = .ok list
  eq : new = old.add ⟨Extension.alpn, list⟩

section Extended

variable {old new : Hello} {names : List Bytes} {list : Bytes}

theorem Extends.sender_eq (h : Extends old new names list) : new.sender = old.sender := by
  rw [h.eq]
  rfl

theorem Extends.length_lt (h : Extends old new names list) :
    old.encode.length < new.encode.length := by
  have hbody := Hello.length_body_add (h := old) ⟨Extension.alpn, list⟩
  rw [← h.eq] at hbody
  rw [Hello.length_encode, Hello.length_encode]
  exact Nat.add_lt_add_left hbody _

end Extended

theorem extends_iff {names : List Bytes} {list : Bytes} (hw : hello.WellFormed)
    (ha : hello.has Extension.alpn = false) (hl : ProtocolList.encode names = .ok list) :
    hello.writeWith ⟨Extension.alpn, list⟩ = .ok message ↔
      Extends hello (hello.add ⟨Extension.alpn, list⟩) names list ∧
        message = (hello.add ⟨Extension.alpn, list⟩).encode := by
  rw [Hello.writeWith_eq_ok_iff hw]
  constructor
  · rintro ⟨hn, rfl⟩
    exact ⟨⟨hw, hn, ha, hl, rfl⟩, rfl⟩
  · rintro ⟨he, rfl⟩
    exact ⟨he.newFits, rfl⟩

theorem addOffer_eq_some_iff :
    addOffer data protocols = .ok (some edit) ↔
      ∃ old new list rest, Extends old new protocols list ∧ old.sender = .client ∧
        edit.inner = old.encode ∧ edit.outer = new.encode ∧
        edit.Replaces data old.encode new.encode rest := by
  simp only [addOffer, bind_eq_ok_iff]
  constructor
  · rintro ⟨records, hs, h⟩
    cases records with
    | nil => cases h
    | cons first tail =>
      simp only at h
      split at h
      · cases h
      · rename_i he
        obtain ⟨found, hc, h⟩ := bind_eq_ok_iff.1 h
        cases found with
        | none => cases h
        | some found =>
          obtain ⟨message, rest, old⟩ := found
          obtain ⟨hw, hr, rfl, hp⟩ := clientHello?_eq_some_iff.1 hc
          simp only at h
          split at h
          · cases h
          · rename_i ha
            obtain ⟨list, hl, h⟩ := bind_eq_ok_iff.1 h
            obtain ⟨outer, ho, h⟩ := bind_eq_ok_iff.1 h
            cases h
            obtain ⟨hx, rfl⟩ := (extends_iff hw (by simpa using ha) hl).1 ho
            simp only [Bool.not_eq_true, Bool.not_eq_false'] at he
            refine ⟨old, _, list, rest, hx, hr, rfl, rfl, Record.split_eq_ok_iff.1 hs, he, hp, ?_⟩
            simp only [type_of_isEditable he]
  · rintro ⟨old, new, list, rest, hx, hr, hi, ho, hrep⟩
    obtain ⟨hw, -, ha, hl, rfl⟩ := id hx
    have hc := clientHello?_eq_some_iff.2 ⟨hw, hr, rfl, hrep.carried⟩
    have hout := (extends_iff hw ha hl).2 ⟨hx, rfl⟩
    refine ⟨_, Record.split_eq_ok_iff.2 hrep.stream, ?_⟩
    simp only [hrep.editable, hc, ha, hl, hout, bind, Except.bind, Bool.not_true,
      Bool.false_eq_true, if_false]
    exact congrArg (Except.ok ∘ some) (hrep.rebuild hi ho)

theorem addOffer_nil : addOffer [] protocols = .ok none := by
  simp [addOffer, Record.split, bind, Except.bind, pure, Except.pure]

theorem select_eq_ok_iff {outer : Bytes} :
    select message protocol = .ok outer ↔
      ∃ old new list, Extends old new [protocol] list ∧ old.sender = .server ∧
        message = old.encode ∧ outer = new.encode := by
  simp only [select, bind_eq_ok_iff]
  constructor
  · rintro ⟨old, hp, h⟩
    obtain ⟨hw, hr, rfl⟩ := Hello.parse_eq_ok_iff.1 hp
    split at h
    · cases h
    · rename_i ha
      obtain ⟨list, hl, h⟩ := bind_eq_ok_iff.1 h
      obtain ⟨hx, rfl⟩ := (extends_iff hw (by simpa using ha) hl).1 h
      exact ⟨old, _, list, hx, hr, rfl, rfl⟩
  · rintro ⟨old, new, list, hx, hr, rfl, rfl⟩
    obtain ⟨hw, -, ha, hl, rfl⟩ := id hx
    have hp := Hello.parse_encode hw
    rw [hr] at hp
    refine ⟨old, hp, ?_⟩
    simp only [ha, hl, bind, Except.bind, Bool.false_eq_true, if_false]
    exact (extends_iff hw ha hl).2 ⟨hx, rfl⟩

theorem strip_eq_some_iff {inner : Bytes} :
    strip message = .ok ⟨inner, some name⟩ ↔
      ∃ (old : Hello) (x : Extension), old.WellFormed ∧ old.sender = .server ∧
        old.find? Extension.alpn = some x ∧ ProtocolList.decode x.data = .ok [name] ∧
        message = old.encode ∧ inner = (old.remove Extension.alpn).encode := by
  simp only [strip, bind_eq_ok_iff]
  constructor
  · rintro ⟨old, hp, h⟩
    obtain ⟨hw, hr, rfl⟩ := Hello.parse_eq_ok_iff.1 hp
    split at h
    · cases h
    · rename_i x hx
      obtain ⟨names, hn, h⟩ := bind_eq_ok_iff.1 h
      split at h
      · obtain ⟨new, hnew, h⟩ := bind_eq_ok_iff.1 h
        rw [Hello.write_of_wellFormed (Hello.wellFormed_remove hw)] at hnew
        cases hnew
        cases h
        exact ⟨old, x, hw, hr, hx, hn, rfl, rfl⟩
      · cases h
  · rintro ⟨old, x, hw, hr, hx, hn, rfl, rfl⟩
    have hp := Hello.parse_encode hw
    rw [hr] at hp
    refine ⟨old, hp, ?_⟩
    simp only [hx, hn, bind, Except.bind, Hello.write_of_wellFormed (Hello.wellFormed_remove hw)]
    rfl

/-- The head of a flight that opens with a whole server hello. -/
theorem serverFlight?_of_replaces {new : Bytes} (hw : hello.WellFormed)
    (hr : hello.sender = .server)
    (h : edit.Replaces data hello.encode new rest) :
    serverFlight? data = .ok (some (edit.carrier, edit.tail)) ∧
      Message.split edit.carrier.payload = .ok (hello.encode, rest) := by
  have hp := header_encode hw rest
  have hs := split_encode hw rest
  rw [← h.carried] at hp hs
  rw [hr] at hp
  exact ⟨serverFlight?_eq_some_iff.2 ⟨h.stream, h.editable, _, hp, rfl⟩, hs⟩

theorem addSelection_eq_some_iff :
    addSelection data protocol = .ok (some edit) ↔
      ∃ old new list rest, Extends old new [protocol] list ∧ old.sender = .server ∧
        edit.inner = old.encode ∧ edit.outer = new.encode ∧
        edit.Replaces data old.encode new.encode rest := by
  simp only [addSelection, bind_eq_ok_iff]
  constructor
  · rintro ⟨flight, hs, h⟩
    cases flight with
    | none => cases h
    | some flight =>
      obtain ⟨first, tail⟩ := flight
      obtain ⟨hd, he, -⟩ := serverFlight?_eq_some_iff.1 hs
      simp only [bind_eq_ok_iff] at h
      obtain ⟨⟨message, rest⟩, hm, outer, ho, h⟩ := h
      obtain ⟨old, new, list, hx, hr, rfl, rfl⟩ := select_eq_ok_iff.1 ho
      cases h
      refine ⟨old, new, list, rest, hx, hr, rfl, rfl, hd, he, (Message.split_eq_ok_iff.1 hm).1, ?_⟩
      simp only [type_of_isEditable he]
  · rintro ⟨old, new, list, rest, hx, hr, hi, ho, hrep⟩
    obtain ⟨hs, hm⟩ := serverFlight?_of_replaces hx.oldFits hr hrep
    refine ⟨_, hs, ?_⟩
    simp only [hm, select_eq_ok_iff.2 ⟨old, new, list, hx, hr, rfl, rfl⟩, bind, Except.bind]
    exact congrArg (Except.ok ∘ some) (hrep.rebuild hi ho)

/-- A flight that opens with a server hello is edited or refused, never left as it is. -/
theorem serverFlight?_of_addSelection (h : addSelection data protocol = .ok none) :
    serverFlight? data = .ok none := by
  simp only [addSelection, bind_eq_ok_iff] at h
  obtain ⟨flight, hs, h⟩ := h
  cases flight with
  | none => exact hs
  | some flight =>
    obtain ⟨first, tail⟩ := flight
    simp only [bind_eq_ok_iff] at h
    obtain ⟨_, -, _, -, h⟩ := h
    cases h

theorem serverFlight?_nil : serverFlight? [] = .ok none := by
  simp [serverFlight?, Record.split, bind, Except.bind, pure, Except.pure]

theorem takeSelection_eq_some_iff :
    takeSelection data = .ok (some (edit, name)) ↔
      ∃ (old : Hello) (x : Extension) (rest : Bytes), old.WellFormed ∧ old.sender = .server ∧
        old.find? Extension.alpn = some x ∧ ProtocolList.decode x.data = .ok [name] ∧
        edit.inner = (old.remove Extension.alpn).encode ∧ edit.outer = old.encode ∧
        edit.Replaces data old.encode (old.remove Extension.alpn).encode rest := by
  simp only [takeSelection, bind_eq_ok_iff]
  constructor
  · rintro ⟨flight, hs, h⟩
    cases flight with
    | none => cases h
    | some flight =>
      obtain ⟨first, tail⟩ := flight
      obtain ⟨hd, he, -⟩ := serverFlight?_eq_some_iff.1 hs
      simp only [bind_eq_ok_iff] at h
      obtain ⟨⟨message, rest⟩, hm, ⟨inner, selection⟩, hst, h⟩ := h
      cases selection with
      | none => cases h
      | some found =>
        obtain ⟨old, x, hw, hr, hx, hn, rfl, rfl⟩ := strip_eq_some_iff.1 hst
        cases h
        refine ⟨old, x, rest, hw, hr, hx, hn, rfl, rfl, hd, he, (Message.split_eq_ok_iff.1 hm).1,
          ?_⟩
        simp only [type_of_isEditable he]
  · rintro ⟨old, x, rest, hw, hr, hx, hn, hi, ho, hrep⟩
    obtain ⟨hs, hm⟩ := serverFlight?_of_replaces hw hr hrep
    refine ⟨_, hs, ?_⟩
    simp only [hm, strip_eq_some_iff.2 ⟨old, x, hw, hr, hx, hn, rfl, rfl⟩, bind, Except.bind]
    exact congrArg (fun e => Except.ok (some (e, name))) (hrep.rebuild hi ho)

theorem strip_of_without (hw : hello.WellFormed) (hr : hello.sender = .server)
    (hx : hello.find? Extension.alpn = none) : strip hello.encode = .ok ⟨hello.encode, none⟩ := by
  have hp := Hello.parse_encode hw
  rw [hr] at hp
  simp only [strip, hp, hx, bind, Except.bind]
  rfl

/-- A hello without a selection is left as it is. -/
theorem takeSelection_of_without (hw : hello.WellFormed) (hr : hello.sender = .server)
    (hx : hello.find? Extension.alpn = none) (hd : data = Record.encodeAll (first :: tail))
    (he : first.isEditable = true) (hp : first.payload = hello.encode ++ rest) :
    takeSelection data = .ok none := by
  have hh := header_encode hw rest
  rw [hr] at hh
  have hs : serverFlight? data = .ok (some (first, tail)) :=
    serverFlight?_eq_some_iff.2 ⟨hd, he, _, by rw [hp]; exact hh, rfl⟩
  simp only [takeSelection, hs, hp, split_encode hw, strip_of_without hw hr hx, bind, Except.bind]
  rfl

theorem offer?_short (h : data.length < headerLength) :
    offer? data = .error (.underflow headerLength data.length) := by
  simp only [offer?, h, if_true, bind, Except.bind]
  rfl

theorem offer?_foreign (hl : headerLength ≤ data.length)
    (hh : data.head? ≠ some ContentType.handshake.code) : offer? data = .ok none := by
  have hl : ¬ data.length < headerLength := Nat.not_lt.2 hl
  simp only [offer?, hl, hh, bind, Except.bind, if_false, ne_eq, not_false_eq_true, if_true]
  rfl

theorem offer?_of_first_error {e : Error} (hl : headerLength ≤ data.length)
    (hh : data.head? = some ContentType.handshake.code) (hf : Record.first data = .error e) :
    offer? data = .error e := by
  have hl : ¬ data.length < headerLength := Nat.not_lt.2 hl
  simp only [offer?, hl, hh, hf, bind, Except.bind, if_false, ne_eq, not_true_eq_false]

/-- A server reads nothing but the first record. -/
theorem offer?_record (ht : first.type = .handshake) (more : Bytes) :
    offer? (first.encode ++ more) =
      (clientHello? first.payload).bind fun
        | none => .ok none
        | some (_, _, hello) =>
          match hello.find? Extension.alpn with
          | none => .ok none
          | some x => (ProtocolList.decode x.data).map some := by
  have hf : Record.first (first.encode ++ more) = .ok (first, more) := Record.first_eq_ok_iff.2 rfl
  have hl : ¬ (first.encode ++ more).length < headerLength := by
    simp only [List.length_append, Record.length_encode, Record.size]
    omega
  have hh : (first.encode ++ more).head? = some ContentType.handshake.code := by
    rw [← ht]
    rfl
  simp only [offer?, hl, hh, hf, bind, Except.bind, if_false, ne_eq, not_true_eq_false]
  cases clientHello? first.payload with
  | error e => rfl
  | ok found =>
    rcases found with _ | ⟨message, rest, hello⟩
    · rfl
    · dsimp only
      cases hello.find? Extension.alpn with
      | none => rfl
      | some x =>
        dsimp only
        cases ProtocolList.decode x.data <;> rfl

/-- What a server reads from a record that opens with a whole client hello. -/
theorem offer?_encode {more : Bytes} (hw : hello.WellFormed) (hr : hello.sender = .client)
    (ht : first.type = .handshake) (hp : first.payload = hello.encode ++ rest) :
    offer? (first.encode ++ more) =
      match hello.find? Extension.alpn with
      | none => .ok none
      | some x => (ProtocolList.decode x.data).map some := by
  rw [offer?_record ht, clientHello?_eq_some_iff.2 ⟨hw, hr, rfl, hp⟩]
  rfl

/-- The two forms of a hello in an edit: the one on the wire is longer, and its header says so. -/
structure Edit.Lengthens (e : Edit) : Prop where
  headed : Message.headerLength ≤ e.inner.length
  shorter : e.inner.length < e.outer.length
  differ : e.inner.take Message.headerLength ≠ e.outer.take Message.headerLength

namespace Edit.Lengthens

theorem isNoop (h : edit.Lengthens) : edit.substitution.isNoop = false := by
  simp only [substitution, Substitution.isNoop, beq_eq_false_iff_ne]
  intro he
  exact h.differ (by rw [he])

/-- The hello at the end of a transcript is the one replaced unless its bytes occur earlier. -/
theorem replace?_eq_some_iff (h : edit.Lengthens) {front : Bytes} :
    edit.substitution.replace? (front ++ edit.inner ++ rest) =
      some (front ++ edit.outer ++ rest) ↔ ¬ Earlier edit.inner front :=
  Substitution.replace?_append_iff (n := Message.headerLength) (by decide) h.headed
    (Nat.le_trans h.headed (Nat.le_of_lt h.shorter)) h.differ

end Edit.Lengthens

theorem lengthens_of_hellos {old new : Hello} (ho : old.WellFormed) (hn : new.WellFormed)
    (hl : old.body.length < new.body.length) (hi : edit.inner = old.encode)
    (hout : edit.outer = new.encode) : edit.Lengthens := by
  have hlo := Hello.length_encode old
  have hln := Hello.length_encode new
  refine ⟨by rw [hi]; omega, by rw [hi, hout]; omega, ?_⟩
  rw [hi, hout]
  exact Hello.header_ne ho hn (Nat.ne_of_lt hl)

theorem Extends.lengthens {old new : Hello} {names : List Bytes} {list : Bytes}
    (h : Extends old new names list) (hi : edit.inner = old.encode) (ho : edit.outer = new.encode) :
    edit.Lengthens := by
  refine lengthens_of_hellos h.oldFits h.newFits ?_ hi ho
  rw [h.eq]
  exact Hello.length_body_add _

theorem outbound_of_addOffer (h : addOffer data protocols = .ok (some edit)) :
    edit.Lengthens ∧ ∃ rest, edit.Replaces data edit.inner edit.outer rest := by
  obtain ⟨old, new, list, rest, hx, -, hi, ho, hrep⟩ := addOffer_eq_some_iff.1 h
  exact ⟨hx.lengthens hi ho, rest, by rwa [hi, ho]⟩

theorem outbound_of_addSelection (h : addSelection data protocol = .ok (some edit)) :
    edit.Lengthens ∧ ∃ rest, edit.Replaces data edit.inner edit.outer rest := by
  obtain ⟨old, new, list, rest, hx, -, hi, ho, hrep⟩ := addSelection_eq_some_iff.1 h
  exact ⟨hx.lengthens hi ho, rest, by rwa [hi, ho]⟩

theorem inbound_of_takeSelection (h : takeSelection data = .ok (some (edit, name))) :
    edit.Lengthens ∧ ∃ rest, edit.Replaces data edit.outer edit.inner rest := by
  obtain ⟨old, x, rest, hw, -, hx, -, hi, ho, hrep⟩ := takeSelection_eq_some_iff.1 h
  have hlt : (old.remove Extension.alpn).body.length < old.body.length := by
    have := Hello.length_body_remove hx
    simp only [Extension.size] at this
    omega
  refine ⟨lengthens_of_hellos (Hello.wellFormed_remove hw) hw hlt hi ho, rest, ?_⟩
  rwa [hi, ho]

/-- A selection is taken from a handshake record of an editable version. -/
theorem head_of_takeSelection (h : takeSelection data = .ok (some (edit, name))) :
    ∃ major minor more, data = ContentType.handshake.code :: major :: minor :: more ∧
      Version.isEditable ⟨major, minor⟩ = true := by
  obtain ⟨-, rest, hrep⟩ := inbound_of_takeSelection h
  have he := hrep.editable
  simp only [Record.isEditable, Bool.and_eq_true, decide_eq_true_eq] at he
  refine ⟨edit.carrier.version.major, edit.carrier.version.minor,
    BigEndian.encode 2 edit.carrier.payload.length ++ edit.carrier.payload ++
      Record.encodeAll edit.tail, ?_, he.2⟩
  rw [hrep.stream, Record.encodeAll_cons, ← he.1]
  rfl

theorem choose_nil (offered : List Bytes) : choose offered [] = none := by
  induction offered with
  | nil => rfl
  | cons name offered ih => exact ih

/-- Whatever is chosen is one of the configured protocols. -/
theorem mem_of_choose {offered : List Bytes} {configured : List String} {p : String}
    (h : choose offered configured = some p) : p ∈ configured := by
  obtain ⟨name, -, hn⟩ := List.exists_of_findSome?_eq_some h
  exact List.mem_of_find?_eq_some hn

theorem find?_utf8 (configured : List String) (name : String) :
    (configured.find? fun protocol => utf8 protocol == utf8 name) =
      if name ∈ configured then some name else none := by
  have he : ∀ protocol, (utf8 protocol == utf8 name) = (protocol == name) := by
    intro protocol
    rw [Bool.eq_iff_iff, beq_iff_eq, beq_iff_eq, utf8_inj]
  simp only [he]
  induction configured with
  | nil => rfl
  | cons protocol configured ih =>
    rw [List.find?_cons]
    by_cases hp : protocol = name
    · simp [hp]
    · have hp' : ¬ name = protocol := fun h => hp h.symm
      simp only [beq_eq_false_iff_ne.2 hp, ih, List.mem_cons, hp', false_or]

/-- The order of the offer decides, and not that of the configuration. -/
theorem choose_utf8 (offered configured : List String) :
    choose (offered.map utf8) configured = offered.find? (· ∈ configured) := by
  simp only [choose]
  induction offered with
  | nil => rfl
  | cons name offered ih =>
    rw [List.map_cons, List.findSome?_cons, find?_utf8, List.find?_cons]
    by_cases hn : name ∈ configured
    · simp [hn]
    · simp only [hn, if_false, ih, decide_false]

end AlpnOverlay.Flight
