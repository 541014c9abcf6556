import AlpnOverlay.Peer
import AlpnOverlay.Proofs.Config.Sendable
import AlpnOverlay.Proofs.Flight.Editing
import Mathlib.Algebra.GroupWithZero.Nat
import Mathlib.Data.List.Nodup

/-!
Which lists fit a hello. On the wire three lengths stand around the names: the list's own, the
extension's and that of the block. The check of a list leaves room for the first two of them only.
-/
namespace AlpnOverlay.Flight

open Wire

variable {names : List String} {message rest list : Bytes} {protocols : List Bytes} {hello : Hello}
  {first : Record} {tail : List Record}

/-- The bytes of a block that holds nothing but a list, without the names themselves: the type and
the length of the extension and the length of the list. -/
def listOverhead : Nat := 6

/-- A whole client hello without an offer gets one exactly when the longer hello can be written. -/
theorem addOffer_eq (he : first.isEditable = true) (hp : first.payload = hello.encode ++ rest)
    (hw : hello.WellFormed) (hs : hello.sender = .client) (ha : hello.has Extension.alpn = false)
    (hl : ProtocolList.encode protocols = .ok list) :
    addOffer (Record.encodeAll (first :: tail)) protocols =
      (hello.writeWith ⟨Extension.alpn, list⟩).map fun outer =>
        some ⟨first, Record.carrying first.type first.version (outer ++ rest), tail,
          hello.encode, outer⟩ := by
  have hc := clientHello?_eq_some_iff.2 ⟨hw, hs, rfl, hp⟩
  simp only [addOffer, Record.split_encodeAll, he, hc, ha, hl, bind, Except.bind, Bool.not_true,
    Bool.false_eq_true, if_false]
  cases hello.writeWith ⟨Extension.alpn, list⟩ with
  | error e => rfl
  | ok outer => rfl

/-- The written form of a list that passes the check. -/
theorem encode_accepted (hc : Config.checkList names = .ok ()) (hne : names ≠ []) :
    ∃ list, ProtocolList.encode (names.map utf8) = .ok list ∧
      list.length = 2 + Config.listSize names ∧ list.length ≤ maxLength16 := by
  obtain ⟨hs, -, hl⟩ := Config.checkList_eq_ok_iff.1 hc
  have hentries := Config.length_entries names
  have hmax : Config.maxList = 65533 := rfl
  have hlen : (BigEndian.encode 2 (ProtocolList.entries (names.map utf8)).length ++
      ProtocolList.entries (names.map utf8)).length = 2 + Config.listSize names := by
    rw [List.length_append, BigEndian.length_encode, hentries]
  have hbound : Config.listSize names + 2 ≤ maxLength16 := by
    simp only [maxLength16]
    omega
  refine ⟨_, ProtocolList.encode_eq_ok_iff.2 ⟨by simpa using hne, ?_, by omega, rfl⟩, hlen,
    by omega⟩
  intro name hn
  obtain ⟨protocol, hp, rfl⟩ := List.mem_map.1 hn
  exact (hs protocol hp).fits

/-- In a hello that has no block yet, a list that passes the check is offered or overflows the
block. -/
theorem addOffer_accepted (hc : Config.checkList names = .ok ()) (hne : names ≠ [])
    (he : first.isEditable = true) (hp : first.payload = message ++ rest)
    (hm : Hello.parse .client message = .ok hello) (hx : hello.extensions = none) :
    (Config.listSize names + listOverhead ≤ maxLength16 →
      ∃ edit, addOffer (Record.encodeAll (first :: tail)) (names.map utf8) = .ok (some edit)) ∧
    (maxLength16 < Config.listSize names + listOverhead →
      addOffer (Record.encodeAll (first :: tail)) (names.map utf8) =
        .error (.malformed .longExtensionBlock)) := by
  obtain ⟨hw, hs, rfl⟩ := Hello.parse_eq_ok_iff.1 hm
  obtain ⟨list, hl, hlen, hdata⟩ := encode_accepted hc hne
  have ha : hello.has Extension.alpn = false := by
    simp only [Hello.has, Hello.find?, hx]
    rfl
  have hblock : (Extension.encodeAll (hello.extensions.getD [])).length +
      (⟨Extension.alpn, list⟩ : Extension).size = Config.listSize names + listOverhead := by
    simp only [hx, Option.getD_none, Extension.encodeAll, List.flatMap_nil, List.length_nil,
      Extension.size, hlen, listOverhead]
    omega
  rw [addOffer_eq he hp hw hs ha hl, Hello.writeWith_eq hw hdata, hblock]
  refine ⟨?_, ?_⟩
  · intro hfits
    rw [if_pos hfits]
    exact ⟨_, rfl⟩
  · intro hlong
    rw [if_neg (Nat.not_le.2 hlong)]
    rfl

/-- A list that passes the check fits its own length and that of its extension. In a hello that has
no block yet it is offered exactly when the new block fits too; otherwise nothing is written. -/
theorem accepted_list_offered_iff (hc : Config.checkList names = .ok ()) (hne : names ≠ [])
    (he : first.isEditable = true) (hp : first.payload = message ++ rest)
    (hm : Hello.parse .client message = .ok hello) (hx : hello.extensions = none) :
    (∃ list, ProtocolList.encode (names.map utf8) = .ok list ∧ list.length ≤ maxLength16) ∧
    ((∃ edit, addOffer (Record.encodeAll (first :: tail)) (names.map utf8) = .ok (some edit)) ↔
      Config.listSize names + listOverhead ≤ maxLength16) ∧
    (maxLength16 < Config.listSize names + listOverhead →
      addOffer (Record.encodeAll (first :: tail)) (names.map utf8) =
        .error (.malformed .longExtensionBlock)) := by
  obtain ⟨list, hl, -, hdata⟩ := encode_accepted hc hne
  obtain ⟨hoffered, hlong⟩ := @addOffer_accepted _ _ _ _ _ tail hc hne he hp hm hx
  refine ⟨⟨list, hl, hdata⟩, ⟨?_, hoffered⟩, hlong⟩
  rintro ⟨edit, h⟩
  by_contra hfits
  rw [hlong (Nat.not_le.1 hfits)] at h
  cases h

section Crowded

/-- The name of `length` times one letter. -/
def repeated (letter : Char) (length : Nat) : String := String.ofList (List.replicate length letter)

/-- The lengths a name may have, but for the longest and for one more. -/
def lengthsBut (gap : Nat) : List Nat := (List.range' 1 254).filter (· ≠ gap)

/-- Every name of a single letter `a`, and nearly all of those of a letter `b`. -/
def crowded (gap : Nat) : List String :=
  (List.range' 1 255).map (repeated 'a') ++ (lengthsBut gap).map (repeated 'b')

theorem mem_lengthsBut {gap length : Nat} (h : length ∈ lengthsBut gap) :
    0 < length ∧ length ≤ 255 := by
  have hr := List.mem_range'_1.1 (List.mem_filter.1 h).1
  omega

theorem utf8_repeated {letter : Char} {b : UInt8} (h : String.utf8EncodeChar letter = [b])
    (length : Nat) : utf8 (repeated letter length) = List.replicate length b := by
  simp only [utf8, repeated, String.toByteArray_ofList, List.utf8Encode, List.data_toByteArray]
  induction length with
  | zero => rfl
  | succ length ih => simp_all [List.replicate_succ]

theorem sendable_repeated {letter : Char} {b : UInt8} (h : String.utf8EncodeChar letter = [b])
    (hb : Config.isGraphic b = true) {length : Nat} (hl : 0 < length ∧ length ≤ 255) :
    Config.Sendable (repeated letter length) := by
  refine ⟨?_, ?_⟩
  · rwa [ProtocolList.Fits, utf8_repeated h, List.length_replicate]
  · rw [utf8_repeated h, List.all_eq_true]
    intro x hx
    rw [List.eq_of_mem_replicate hx]
    exact hb

theorem repeated_inj {letter other : Char} {length count : Nat} (hpos : 0 < length)
    (h : repeated letter length = repeated other count) : letter = other ∧ length = count := by
  have hr : List.replicate length letter = List.replicate count other := String.ofList_injective h
  have hl := congrArg List.length hr
  rw [List.length_replicate, List.length_replicate] at hl
  have hm : letter ∈ List.replicate count other := by
    rw [← hr]
    exact List.mem_replicate.2 ⟨by omega, rfl⟩
  exact ⟨List.eq_of_mem_replicate hm, hl⟩

theorem listSize_repeated {letter : Char} {b : UInt8} (h : String.utf8EncodeChar letter = [b])
    (lengths : List Nat) :
    Config.listSize (lengths.map (repeated letter)) = lengths.sum + lengths.length := by
  induction lengths with
  | nil => rfl
  | cons length lengths ih =>
    rw [List.map_cons, Config.listSize, ih, ← Config.length_utf8, utf8_repeated h,
      List.length_replicate, List.sum_cons, List.length_cons]
    omega

theorem listSize_append (xs ys : List String) :
    Config.listSize (xs ++ ys) = Config.listSize xs + Config.listSize ys := by
  induction xs with
  | nil => exact (Nat.zero_add _).symm
  | cons x xs ih =>
    rw [List.cons_append, Config.listSize, Config.listSize, ih]
    omega

theorem listSize_crowded (gap : Nat) :
    Config.listSize (crowded gap) = 32895 + ((lengthsBut gap).sum + (lengthsBut gap).length) := by
  have ha : (List.range' 1 255).sum + (List.range' 1 255).length = 32895 := by decide +kernel
  rw [crowded, listSize_append, listSize_repeated (b := 0x61) rfl, listSize_repeated (b := 0x62) rfl,
    ha]

theorem crowded_ne_nil (gap : Nat) : crowded gap ≠ [] :=
  List.append_ne_nil_of_left_ne_nil (List.cons_ne_nil _ _) _

theorem crowded_accepted {gap : Nat} (hl : Config.listSize (crowded gap) ≤ Config.maxList) :
    Config.checkList (crowded gap) = .ok () := by
  refine Config.checkList_eq_ok_iff.2 ⟨?_, ?_, hl⟩
  · intro name hn
    rcases List.mem_append.1 hn with hn | hn
    · obtain ⟨length, h, rfl⟩ := List.mem_map.1 hn
      have hr := List.mem_range'_1.1 h
      exact sendable_repeated (b := 0x61) rfl rfl (by omega)
    · obtain ⟨length, h, rfl⟩ := List.mem_map.1 hn
      exact sendable_repeated (b := 0x62) rfl rfl (mem_lengthsBut h)
  · refine List.nodup_append.2 ⟨?_, ?_, ?_⟩
    · refine List.Nodup.map_on ?_ List.nodup_range'
      intro length h count _ he
      exact (repeated_inj (List.mem_range'_1.1 h).1 he).2
    · refine List.Nodup.map_on ?_ (List.Nodup.filter _ List.nodup_range')
      intro length h count _ he
      exact (repeated_inj (mem_lengthsBut h).1 he).2
    · intro name hn other ho he
      obtain ⟨length, h, rfl⟩ := List.mem_map.1 hn
      obtain ⟨count, -, rfl⟩ := List.mem_map.1 ho
      exact absurd (repeated_inj (List.mem_range'_1.1 h).1 he).1 (by decide)

/-- A client hello that ends in front of its extensions. -/
def plainHello : Hello := { Peer.helloOf .client with extensions := none }

def plainRecord : Record := ⟨.handshake, .tls12, plainHello.encode, by decide +kernel⟩

theorem parse_plainHello : Hello.parse .client plainHello.encode = .ok plainHello :=
  Hello.parse_encode
    ⟨by decide +kernel, by decide +kernel, ⟨by decide +kernel, by decide +kernel, by decide +kernel,
      by decide +kernel⟩, by decide +kernel⟩

/-- The longest list that can be offered. -/
theorem largest_list_offered :
    Config.listSize (crowded 4) = 65529 ∧
      ∃ edit, addOffer (Record.encodeAll [plainRecord]) ((crowded 4).map utf8) =
        .ok (some edit) := by
  have hsize : Config.listSize (crowded 4) = 65529 := by
    rw [listSize_crowded]
    decide +kernel
  have hc : Config.checkList (crowded 4) = .ok () :=
    crowded_accepted (by rw [hsize]; decide)
  refine ⟨hsize, (accepted_list_offered_iff hc (crowded_ne_nil 4) rfl (List.append_nil _).symm
    parse_plainHello rfl).2.1.2 ?_⟩
  rw [hsize]
  decide

/-- A list that is one byte longer passes the check and cannot be written. -/
theorem accepted_list_not_offered :
    Config.checkList (crowded 3) = .ok () ∧
      Hello.parse .client plainHello.encode = .ok plainHello ∧ plainHello.extensions = none ∧
      addOffer (Record.encodeAll [plainRecord]) ((crowded 3).map utf8) =
        .error (.malformed .longExtensionBlock) := by
  have hsize : Config.listSize (crowded 3) = 65530 := by
    rw [listSize_crowded]
    decide +kernel
  have hc : Config.checkList (crowded 3) = .ok () :=
    crowded_accepted (by rw [hsize]; decide)
  have hlong := (@addOffer_accepted _ _ _ _ plainRecord [] hc (crowded_ne_nil 3) rfl
    (List.append_nil _).symm parse_plainHello rfl).2
  refine ⟨hc, parse_plainHello, rfl, hlong ?_⟩
  rw [hsize]
  decide

end Crowded

end AlpnOverlay.Flight
