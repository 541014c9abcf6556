import AlpnOverlay.Proofs.Wire.Layout
import AlpnOverlay.Proofs.Wire.Refusals

/-!
The grammar of a hello. A message is read exactly when the grammar derives it, the grammar derives
it for one hello at most, and whatever it does not derive is malformed.
-/
namespace AlpnOverlay.Wire

/-- Data behind its own length, a big-endian number of `width` bytes. -/
inductive Prefixed (width : Nat) : (data bytes : Bytes) → Prop where
  | mk {length data : Bytes} (hw : length.length = width)
      (hl : BigEndian.decode length = data.length) : Prefixed width data (length ++ data)

theorem prefixed_iff {width : Nat} {data bytes : Bytes} :
    Prefixed width data bytes ↔
      data.length < 256 ^ width ∧ bytes = BigEndian.encode width data.length ++ data := by
  constructor
  · rintro ⟨rfl, hl⟩
    rw [← hl, BigEndian.encode_decode]
    exact ⟨BigEndian.decode_lt _, rfl⟩
  · rintro ⟨hlt, rfl⟩
    exact .mk (BigEndian.length_encode ..) (BigEndian.decode_encode hlt)

namespace Extension

variable {x : Extension} {es : List Extension} {bytes block : Bytes}

/-- Bytes that are extensions from end to end, each a type of two bytes and its data behind a
length of two bytes. -/
inductive Tiles : List Extension → Bytes → Prop where
  | nil : Tiles [] []
  | cons {x : Extension} {es : List Extension} {type data rest : Bytes} (hw : type.length = 2)
      (ht : BigEndian.decode type = x.type.toNat) (hd : Prefixed 2 x.data data)
      (h : Tiles es rest) : Tiles (x :: es) (type ++ data ++ rest)

theorem tiles_iff :
    Tiles es block ↔ (∀ x ∈ es, x.data.length ≤ maxLength16) ∧ block = encodeAll es := by
  constructor
  · intro h
    induction h with
    | nil => exact ⟨by simp, rfl⟩
    | @cons x es type data rest hw ht hd _ ih =>
      obtain ⟨hes, hrest⟩ := ih
      obtain ⟨hx, hdata⟩ := prefixed_iff.1 hd
      have htype : type = BigEndian.encode 2 x.type.toNat := by
        rw [← ht, ← hw, BigEndian.encode_decode]
      refine ⟨?_, by rw [encodeAll_cons, encode, htype, hdata, hrest, List.append_assoc _ _ x.data]⟩
      intro y hy
      rcases List.mem_cons.1 hy with rfl | hy
      · simp only [maxLength16]
        omega
      · exact hes y hy
  · rintro ⟨hes, rfl⟩
    induction es with
    | nil => exact .nil
    | cons x es ih =>
      have hx := hes x List.mem_cons_self
      have htail := ih fun y hy => hes y (List.mem_cons_of_mem x hy)
      have htype : BigEndian.decode (BigEndian.encode 2 x.type.toNat) = x.type.toNat :=
        BigEndian.decode_encode x.type.toNat_lt
      rw [encodeAll_cons, encode, List.append_assoc (BigEndian.encode 2 x.type.toNat)]
      apply Tiles.cons (BigEndian.length_encode ..) htype (prefixed_iff.2 ⟨?_, rfl⟩) htail
      simp only [maxLength16] at hx
      omega

theorem mapM_write (h : ∀ x ∈ es, x.data.length ≤ maxLength16) :
    es.mapM write = .ok (es.map encode) := by
  induction es with
  | nil => rfl
  | cons x es ih =>
    have hx : write x = .ok x.encode := if_pos (h x List.mem_cons_self)
    rw [List.mapM_cons, hx, ih fun y hy => h y (List.mem_cons_of_mem x hy)]
    rfl

end Extension

namespace Hello

variable {h other : Hello} {sender : Role} {suites compression bytes message : Bytes}
  {extensions : Option (List Extension)}

/-- What a side says of suites and compression: a client two lists, a server one value of each. -/
inductive Choices : Role → (suites compression bytes : Bytes) → Prop where
  | client {suites compression listed methods : Bytes} (hs : Prefixed 2 suites listed)
      (hpos : 0 < suites.length) (heven : suites.length % 2 = 0)
      (hc : Prefixed 1 compression methods) :
      Choices .client suites compression (listed ++ methods)
  | server {suite method : Bytes} (hs : suite.length = 2) (hc : method.length = 1) :
      Choices .server suite method (suite ++ method)

/-- The end of a hello: nothing, or a block of extensions behind its length. -/
inductive Block : Option (List Extension) → Bytes → Prop where
  | absent : Block none []
  | present {es : List Extension} {inside bytes : Bytes} (ht : Extension.Tiles es inside)
      (hp : Prefixed 2 inside bytes) : Block (some es) bytes

/-- A message and the hello that it spells. -/
inductive Spells : Hello → Bytes → Prop where
  | mk {h : Hello} {sessionId choices block bytes : Bytes} (hr : h.random.length = 32)
      (hi : Prefixed 1 h.sessionId sessionId) (hle : h.sessionId.length ≤ 32)
      (hc : Choices h.sender h.suites h.compression choices) (hb : Block h.extensions block)
      (hp : Prefixed 3
        (h.version.major :: h.version.minor :: h.random ++ sessionId ++ choices ++ block) bytes) :
      Spells h ((helloType h.sender).code :: bytes)

theorem encode1 {n : Nat} : BigEndian.encode 1 n = [UInt8.ofNat n] := rfl

theorem choices_iff :
    Choices sender suites compression bytes ↔
      ChoicesFit sender suites compression ∧ bytes = choiceBytes sender suites compression := by
  constructor
  · intro h
    cases h with
    | client hs hpos heven hc =>
      obtain ⟨hslt, rfl⟩ := prefixed_iff.1 hs
      obtain ⟨hclt, rfl⟩ := prefixed_iff.1 hc
      exact ⟨⟨List.length_pos_iff.1 hpos, heven, hslt, hclt⟩, rfl⟩
    | server hs hc => exact ⟨⟨hs, hc⟩, rfl⟩
  · rintro ⟨hfit, rfl⟩
    cases sender with
    | client =>
      obtain ⟨hne, heven, hslt, hclt⟩ := hfit
      exact .client (prefixed_iff.2 ⟨hslt, rfl⟩) (List.length_pos_iff.2 hne) heven
        (prefixed_iff.2 ⟨hclt, rfl⟩)
    | server =>
      obtain ⟨hs, hc⟩ := hfit
      exact .server hs hc

theorem block_iff :
    Block extensions bytes ↔
      (Extension.encodeAll (extensions.getD [])).length ≤ maxLength16 ∧
        bytes = blockBytes extensions := by
  constructor
  · intro h
    cases h with
    | absent => exact ⟨Nat.zero_le _, rfl⟩
    | present ht hp =>
      obtain ⟨-, rfl⟩ := Extension.tiles_iff.1 ht
      obtain ⟨hlt, rfl⟩ := prefixed_iff.1 hp
      refine ⟨?_, rfl⟩
      simp only [Option.getD_some, maxLength16]
      omega
  · rintro ⟨hle, rfl⟩
    cases extensions with
    | none => exact .absent
    | some es =>
      simp only [Option.getD_some] at hle
      refine .present (Extension.tiles_iff.2 ⟨data_le_of_block hle, rfl⟩)
        (prefixed_iff.2 ⟨?_, rfl⟩)
      simp only [maxLength16] at hle
      omega

theorem spells_iff : Spells h message ↔ h.WellFormed ∧ message = h.encode := by
  have hbody : h.body = h.version.major :: h.version.minor :: h.random ++
      (BigEndian.encode 1 h.sessionId.length ++ h.sessionId) ++
      choiceBytes h.sender h.suites h.compression ++ blockBytes h.extensions := by
    simp only [body, encodeFields, encodeChoices_eq, encodeBlock_eq, encode1, List.singleton_append]
  constructor
  · rintro ⟨hr, hi, hle, hc, hb, hp⟩
    obtain ⟨-, rfl⟩ := prefixed_iff.1 hi
    obtain ⟨hfit, rfl⟩ := choices_iff.1 hc
    obtain ⟨hblock, rfl⟩ := block_iff.1 hb
    rw [← hbody] at hp
    obtain ⟨-, rfl⟩ := prefixed_iff.1 hp
    exact ⟨⟨hr, hle, hfit, hblock⟩, rfl⟩
  · rintro ⟨hw, rfl⟩
    have hlt : h.body.length < 256 ^ 3 := Nat.lt_of_le_of_lt (length_body hw) (by decide)
    have hid := hw.sessionId
    apply Spells.mk hw.random (prefixed_iff.2 ⟨by omega, rfl⟩) hid
      (choices_iff.2 ⟨hw.choices, rfl⟩) (block_iff.2 ⟨hw.extensions, rfl⟩)
    rw [← hbody]
    exact prefixed_iff.2 ⟨hlt, rfl⟩

theorem parse_eq_ok_iff_spells :
    parse sender message = .ok h ↔ h.sender = sender ∧ Spells h message := by
  rw [parse_eq_ok_iff, spells_iff]
  constructor
  · rintro ⟨hw, hs, hm⟩
    exact ⟨hs, hw, hm⟩
  · rintro ⟨hs, hw, hm⟩
    exact ⟨hw, hs, hm⟩

/-- The type of a message tells who says it. -/
theorem Spells.sender_eq (hh : Spells h message) (ho : Spells other message) :
    other.sender = h.sender := by
  have hcode : ∀ {k : Hello}, Spells k message → message.head? = some (helloType k.sender).code := by
    rintro k ⟨⟩
    rfl
  have heq := Option.some.inj ((hcode ho).symm.trans (hcode hh))
  cases hs : h.sender with
  | client =>
    cases ht : other.sender with
    | client => rfl
    | server => simp [hs, ht, helloType, MessageType.code] at heq
  | server =>
    cases ht : other.sender with
    | client => simp [hs, ht, helloType, MessageType.code] at heq
    | server => rfl

theorem Spells.unique (hh : Spells h message) (ho : Spells other message) : other = h := by
  have hparse := parse_eq_ok_iff_spells.2 ⟨rfl, hh⟩
  rw [parse_eq_ok_iff_spells.2 ⟨hh.sender_eq ho, ho⟩] at hparse
  exact Except.ok.inj hparse

/-- Parsing accepts exactly the messages that spell a hello, and gives that one hello; written again
it is the message, and its extensions, one behind the other, are what the message carries behind the
length at its end. Whatever is refused is refused as malformed. -/
theorem parse_exact (sender : Role) (message : Bytes) :
    (∀ h, parse sender message = .ok h ↔ h.sender = sender ∧ Spells h message) ∧
    (∀ h other, Spells h message → Spells other message → other = h) ∧
    (∀ h, parse sender message = .ok h → h.write = .ok message ∧ ∀ es, h.extensions = some es →
      ∃ front block written, message = front ++ block ∧ Prefixed 2 written.flatten block ∧
        es.mapM Extension.write = .ok written) ∧
    ∀ e, parse sender message = .error e → ∃ fault, e = .malformed fault := by
  refine ⟨fun h => parse_eq_ok_iff_spells, fun h other hh ho => hh.unique ho, ?_, ?_⟩
  · intro h hp
    obtain ⟨hw, -, rfl⟩ := parse_eq_ok_iff.1 hp
    refine ⟨write_of_wellFormed hw, ?_⟩
    intro es he
    have hle := hw.extensions
    simp only [he, Option.getD_some] at hle
    have hblock : h.encodeBlock =
        BigEndian.encode 2 (Extension.encodeAll es).length ++ Extension.encodeAll es := by
      rw [encodeBlock_eq, he]
      rfl
    refine ⟨(helloType h.sender).code :: BigEndian.encode 3 h.body.length ++ h.encodeFields,
      h.encodeBlock, es.map Extension.encode, ?_, ?_, Extension.mapM_write (data_le_of_block hle)⟩
    · rw [List.append_assoc]
      rfl
    · rw [hblock, prefixed_iff, ← List.flatMap_def]
      simp only [maxLength16] at hle
      exact ⟨by simp only [Extension.encodeAll] at hle; omega, rfl⟩
  · intro e he
    exact isFault_of_parse he

/-- A server hello whose block of extensions holds nothing. -/
def blockOfNothing : Hello where
  sender := .server
  version := .tls12
  random := List.replicate 32 7
  sessionId := []
  suites := [0xc0, 0x2f]
  compression := [0]
  extensions := some []

/-- A block that holds nothing is not the same as no block. -/
theorem parse_exact_nothing :
    parse .server blockOfNothing.encode = .ok blockOfNothing ∧
      ¬ ∃ h, parse .server blockOfNothing.encode = .ok h ∧ h.extensions = none := by
  obtain ⟨haccepts, hunique, -, -⟩ := parse_exact .server blockOfNothing.encode
  have hspells : Spells blockOfNothing blockOfNothing.encode :=
    spells_iff.2 ⟨⟨rfl, Nat.zero_le _, ⟨rfl, rfl⟩, Nat.zero_le _⟩, rfl⟩
  refine ⟨(haccepts blockOfNothing).2 ⟨rfl, hspells⟩, ?_⟩
  rintro ⟨h, hp, hnone⟩
  obtain ⟨-, hh⟩ := (haccepts h).1 hp
  rw [hunique blockOfNothing h hspells hh] at hnone
  cases hnone

end Hello
end AlpnOverlay.Wire
