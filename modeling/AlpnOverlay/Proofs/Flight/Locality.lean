import AlpnOverlay.Proofs.Flight.Gating
import AlpnOverlay.Proofs.Flight.RoundTrip
import AlpnOverlay.Proofs.Wire.Splitting

/-!
How far into a flight anyone looks. What is said of a flight is said by its first record alone; the
records behind it follow the new ones, and for a reader whatever follows is as good as nothing.
-/
namespace AlpnOverlay.Flight

open Wire

variable {data more payload : Bytes} {first : Record} {e : Error}

namespace Edit

/-- The same edit with more records behind it. -/
def before (e : Edit) (more : List Record) : Edit := { e with tail := e.tail ++ more }

/-- An edit that makes the same hello of the same one, in a stream with more behind it. -/
structure Continues (e long : Edit) (more : Bytes) : Prop where
  stream : long.stream = e.stream ++ more
  headLength : long.headLength = e.headLength
  carrierLength : long.carrierLength = e.carrierLength
  inner : long.inner = e.inner
  outer : long.outer = e.outer

theorem continues_before (e : Edit) (more : List Record) :
    e.Continues (e.before more) (Record.encodeAll more) := by
  refine ⟨?_, rfl, rfl, rfl, rfl⟩
  rw [stream, stream, ← Record.encodeAll_append, List.append_assoc]
  rfl

end Edit

theorem addOffer_cons (first : Record) (tail : List Record) (protocols : List Bytes) :
    addOffer (Record.encodeAll (first :: tail)) protocols =
      (addOffer (Record.encodeAll [first]) protocols).map (Option.map (·.before tail)) := by
  simp only [addOffer, Record.split_encodeAll, bind, Except.bind]
  cases first.isEditable with
  | false => rfl
  | true =>
    cases clientHello? first.payload with
    | error e => rfl
    | ok found =>
      rcases found with _ | ⟨message, rest, hello⟩
      · rfl
      · dsimp only
        cases hello.has Extension.alpn with
        | true => rfl
        | false =>
          cases ProtocolList.encode protocols with
          | error e => rfl
          | ok names =>
            dsimp only
            cases hello.writeWith ⟨Extension.alpn, names⟩ with
            | error e => rfl
            | ok outer => rfl

theorem serverFlight?_cons (first : Record) (tail : List Record) :
    serverFlight? (Record.encodeAll (first :: tail)) =
      (serverFlight? (Record.encodeAll [first])).map
        (Option.map fun flight => (flight.1, flight.2 ++ tail)) := by
  simp only [serverFlight?, Record.split_encodeAll, bind, Except.bind]
  cases first.isEditable with
  | false => rfl
  | true =>
    cases Message.Header.parse first.payload with
    | error e => rfl
    | ok header =>
      by_cases ht : header.type? = some .serverHello
      · simp only [ht, Bool.not_true, Bool.false_eq_true, ne_eq, not_true_eq_false, if_false]
        rfl
      · simp only [ht, Bool.not_true, Bool.false_eq_true, ne_eq, not_false_eq_true, if_false,
          if_true]
        rfl

theorem addSelection_cons (first : Record) (tail : List Record) (protocol : Bytes) :
    addSelection (Record.encodeAll (first :: tail)) protocol =
      (addSelection (Record.encodeAll [first]) protocol).map (Option.map (·.before tail)) := by
  simp only [addSelection, serverFlight?_cons first tail, bind, Except.bind]
  cases serverFlight? (Record.encodeAll [first]) with
  | error e => rfl
  | ok flight =>
    rcases flight with _ | ⟨carrier, behind⟩
    · rfl
    · dsimp only [Except.map, Option.map_some]
      cases Message.split carrier.payload with
      | error e => rfl
      | ok parts =>
        obtain ⟨message, rest⟩ := parts
        dsimp only
        cases select message protocol with
        | error e => rfl
        | ok outer => rfl

theorem takeSelection_cons (first : Record) (tail : List Record) :
    takeSelection (Record.encodeAll (first :: tail)) =
      (takeSelection (Record.encodeAll [first])).map (Option.map (Prod.map (·.before tail) id)) := by
  simp only [takeSelection, serverFlight?_cons first tail, bind, Except.bind]
  cases serverFlight? (Record.encodeAll [first]) with
  | error e => rfl
  | ok flight =>
    rcases flight with _ | ⟨carrier, behind⟩
    · rfl
    · dsimp only [Except.map, Option.map_some]
      cases Message.split carrier.payload with
      | error e => rfl
      | ok parts =>
        obtain ⟨message, rest⟩ := parts
        dsimp only
        cases strip message with
        | error e => rfl
        | ok stripped =>
          obtain ⟨inner, selection⟩ := stripped
          cases selection with
          | none => rfl
          | some name => rfl

theorem offer?_of_type_ne (ht : first.type ≠ .handshake) (more : Bytes) :
    offer? (first.encode ++ more) = .ok none := by
  apply offer?_foreign
  · rw [List.length_append, Record.length_encode, Record.size]
    omega
  · intro hhead
    exact ht (ContentType.code_inj (Option.some.inj hhead))

/-- A reader of offers looks at nothing behind the first record. -/
theorem offer?_append (first : Record) (more : Bytes) :
    offer? (first.encode ++ more) = offer? first.encode := by
  by_cases ht : first.type = .handshake
  · rw [offer?_record ht, ← List.append_nil first.encode, offer?_record ht]
  · rw [offer?_of_type_ne ht, ← List.append_nil first.encode, offer?_of_type_ne ht]

theorem isFault_of_splitWhole (h : splitWhole payload = .error e) : e.IsFault := by
  cases hs : Message.split payload with
  | ok parts =>
    rw [splitWhole, hs] at h
    cases h
  | error e' =>
    rw [splitWhole, hs] at h
    cases e' with
    | underflow needed available => cases Message.not_underflow_of_split hs
    | malformed fault =>
      cases h
      exact ⟨fault, rfl⟩
    | fragmented => cases h

theorem isFault_of_messageType? {message : Bytes} (h : messageType? message = .error e) :
    e.IsFault := by
  cases hp : Message.Header.parse message with
  | error e' =>
    rw [messageType?, hp] at h
    cases h
    exact Message.Header.isFault_of_parse hp
  | ok header =>
    rw [messageType?, hp] at h
    cases h

theorem isFault_of_clientHello? (h : clientHello? payload = .error e) : e.IsFault := by
  simp only [clientHello?, bind, Except.bind] at h
  split at h
  · rename_i hs
    cases h
    exact isFault_of_splitWhole hs
  · rename_i found _
    rcases found with _ | ⟨message, rest⟩
    · cases h
    · dsimp only at h
      split at h
      · rename_i hm
        cases h
        exact isFault_of_messageType? hm
      · split at h
        · cases h
        · split at h
          · rename_i hp
            cases h
            exact Hello.isFault_of_parse hp
          · cases h

/-- A record that is there in full is refused for a contradiction, and for nothing else. -/
theorem isFault_of_offer? (h : offer? (first.encode ++ more) = .error e) : e.IsFault := by
  by_cases ht : first.type = .handshake
  · rw [offer?_record ht] at h
    cases hc : clientHello? first.payload with
    | error e' =>
      rw [hc] at h
      cases h
      exact isFault_of_clientHello? hc
    | ok found =>
      rw [hc] at h
      rcases found with _ | ⟨message, rest, hello⟩
      · cases h
      · dsimp only [Except.bind] at h
        split at h
        · cases h
        · rename_i x _
          cases hd : ProtocolList.decode x.data with
          | error e' =>
            rw [hd] at h
            cases h
            exact ProtocolList.isFault_of_decode hd
          | ok names =>
            rw [hd] at h
            cases h
  · rw [offer?_of_type_ne ht] at h
    cases h

/-- Bytes that open like a handshake record with a sound header are asked to go on exactly when they
do not hold all of it. -/
theorem offer?_underflow_iff (hh : data.head? = some ContentType.handshake.code)
    (hs : ∀ fault, Record.Header.parse data ≠ .error (.malformed fault)) :
    (∃ needed available, offer? data = .error (.underflow needed available)) ↔
      ¬ ∃ (r : Record) (more : Bytes), data = r.encode ++ more := by
  constructor
  · rintro ⟨needed, available, ho⟩ ⟨r, more, rfl⟩
    obtain ⟨fault, hfault⟩ := isFault_of_offer? ho
    cases hfault
  · intro hnone
    rcases Nat.lt_or_ge data.length headerLength with hshort | hlong
    · exact ⟨_, _, offer?_short hshort⟩
    · cases hp : Record.Header.parse data with
      | error e =>
        obtain ⟨fault, rfl⟩ := Record.Header.malformed_of_parse hlong hp
        exact absurd hp (hs fault)
      | ok header =>
        by_cases hcut : data.length < headerLength + header.length
        · exact ⟨_, _, offer?_of_first_error hlong hh (Record.first_cut hp hcut)⟩
        · obtain ⟨⟨r, more⟩, hfirst⟩ := Record.first_whole hp (Nat.le_of_not_lt hcut)
          exact absurd ⟨r, more, Record.first_eq_ok_iff.1 hfirst⟩ hnone

/-- Nothing that is said of a flight depends on what stands behind its first record. Whole records
there are kept behind an edit that is the same without them, and an error or a refusal to edit is
the same. A reader of offers takes any bytes for what stands there; it asks for more of what opens
like a handshake record exactly when that record is not there in full. -/
theorem hello_edits_local (first : Record) (tail : List Record) :
    (∀ protocols, addOffer (first.encode ++ Record.encodeAll tail) protocols =
      (addOffer first.encode protocols).map (Option.map (·.before tail))) ∧
    takeSelection (first.encode ++ Record.encodeAll tail) =
      (takeSelection first.encode).map (Option.map (Prod.map (·.before tail) id)) ∧
    (∀ protocol, addSelection (first.encode ++ Record.encodeAll tail) protocol =
      (addSelection first.encode protocol).map (Option.map (·.before tail))) ∧
    (∀ edit : Edit, edit.Continues (edit.before tail) (Record.encodeAll tail)) ∧
    (∀ more, offer? (first.encode ++ more) = offer? first.encode) ∧
    ∀ data : Bytes, data.head? = some ContentType.handshake.code →
      (∀ fault, Record.Header.parse data ≠ .error (.malformed fault)) →
      ((∃ needed available, offer? data = .error (.underflow needed available)) ↔
        ¬ ∃ (r : Record) (more : Bytes), data = r.encode ++ more) := by
  rw [← Record.encodeAll_cons, ← Record.encodeAll_singleton first]
  refine ⟨addOffer_cons first tail, takeSelection_cons first tail, addSelection_cons first tail, ?_,
    ?_, ?_⟩
  · intro edit
    exact edit.continues_before tail
  · intro more
    rw [Record.encodeAll_singleton]
    exact offer?_append first more
  · intro data hh hs
    exact offer?_underflow_iff hh hs

/-- An alert behind the hello of a server changes the edit by that alert, and a record that says it
is longer than what is there is waited for. -/
theorem hello_edits_local_before_alert :
    let alert : Record := ⟨.alert, .tls12, [1, 0], by decide⟩
    ∃ edit, addSelection (sharedRecord.encode ++ Record.encodeAll [alert]) (utf8 "h2") =
        .ok (some edit) ∧
      edit.stream = selectedEdit.stream ++ Record.encodeAll [alert] ∧
      edit.headLength = selectedEdit.headLength ∧ edit.outer = selectedEdit.outer ∧
      ∃ needed available, offer? [22, 3, 3, 0, 2, 1] = .error (.underflow needed available) := by
  intro alert
  obtain ⟨-, -, hadd, hbehind, -, hasks⟩ := hello_edits_local sharedRecord [alert]
  have hc := hbehind selectedEdit
  refine ⟨selectedEdit.before [alert], ?_, hc.stream, hc.headLength, hc.outer, ?_⟩
  · rw [hadd, ← Record.encodeAll_singleton sharedRecord, addSelection_sharedRecord]
    rfl
  · apply (hasks [22, 3, 3, 0, 2, 1] rfl ?_).2
    · rintro ⟨r, more, hd⟩
      cases Record.first_eq_ok_iff.2 hd
    · intro fault hp
      cases hp

end AlpnOverlay.Flight
