import AlpnOverlay.Wire.Hello
import AlpnOverlay.Proofs.Wire.Reading

/-!
The layout of a hello: which fields a written hello can have, and that a message is read as a hello
exactly when it is the written form of one.
-/
namespace AlpnOverlay.Wire

namespace Message

theorem length_frame (type : MessageType) (body : Bytes) :
    (frame type body).length = headerLength + body.length := by
  simp only [frame, List.cons_append, List.length_cons, List.length_append,
    BigEndian.length_encode, headerLength]
  omega

theorem encode3 (n : Nat) :
    BigEndian.encode 3 n = [UInt8.ofNat (n / 256 / 256), UInt8.ofNat (n / 256), UInt8.ofNat n] :=
  rfl

theorem parse_frame {type : MessageType} {body : Bytes} (hb : body.length ≤ maxBody)
    (rest : Bytes) : Header.parse (frame type body ++ rest) = .ok ⟨type.code, body.length⟩ := by
  have hd : BigEndian.decode (BigEndian.encode 3 body.length) = body.length :=
    BigEndian.decode_encode (by simp only [maxBody] at hb; omega)
  rw [encode3] at hd
  simp only [frame, encode3, List.cons_append, Header.parse, hd, List.nil_append]

/-- The header of a message of at least four bytes is its first four bytes. -/
theorem eq_of_parse {data : Bytes} {h : Header} (hp : Header.parse data = .ok h) :
    h.length ≤ maxBody ∧ data = h.code :: BigEndian.encode 3 h.length ++ data.drop headerLength := by
  unfold Header.parse at hp
  split at hp
  · rename_i code high middle low rest
    cases hp
    have hd := BigEndian.encode_decode [high, middle, low]
    have hl := BigEndian.decode_lt [high, middle, low]
    simp only [List.length_cons, List.length_nil, Nat.reduceAdd] at hd hl
    refine ⟨by simp only [maxBody]; omega, ?_⟩
    simp only [hd, headerLength, List.drop_succ_cons, List.drop_zero, List.cons_append,
      List.nil_append]
  · cases hp

theorem parse_append {data : Bytes} {h : Header} (hp : Header.parse data = .ok h) (rest : Bytes) :
    Header.parse (data ++ rest) = .ok h := by
  unfold Header.parse at hp
  split at hp
  · cases hp
    rfl
  · cases hp

/-- The first message of a payload, when the payload holds all of it. -/
theorem split_eq_ok_iff {payload message rest : Bytes} :
    split payload = .ok (message, rest) ↔
      payload = message ++ rest ∧
        ∃ h, Header.parse message = .ok h ∧ message.length = headerLength + h.length := by
  unfold split
  constructor
  · intro hs
    split at hs
    · cases hs
    · rename_i h hp
      simp only at hs
      split at hs
      · cases hs
      · rename_i hle
        cases hs
        refine ⟨(List.take_append_drop ..).symm, h, ?_, ?_⟩
        · unfold Header.parse at hp
          split at hp
          · cases hp
            simp only [headerLength, Nat.add_comm 4, List.take_succ_cons, Header.parse]
          · cases hp
        · rw [List.length_take]
          omega
  · rintro ⟨rfl, h, hp, hl⟩
    rw [parse_append hp]
    simp only [List.length_append]
    rw [if_neg (by omega), ← hl, List.take_left, List.drop_left]

theorem split_frame {type : MessageType} {body : Bytes} (hb : body.length ≤ maxBody)
    (rest : Bytes) : split (frame type body ++ rest) = .ok (frame type body, rest) := by
  have hp : Header.parse (frame type body ++ []) = _ := parse_frame hb []
  rw [List.append_nil] at hp
  exact split_eq_ok_iff.2 ⟨rfl, _, hp, length_frame ..⟩

theorem exists_parse {data : Bytes} (h : headerLength ≤ data.length) :
    ∃ header, Header.parse data = .ok header := by
  match data, h with
  | code :: high :: middle :: low :: _, _ => exact ⟨_, rfl⟩

theorem parse_short {data : Bytes} (h : data.length < headerLength) :
    Header.parse data = .error (.malformed .truncatedMessageHeader) := by
  match data, h with
  | [], _ => rfl
  | [_], _ => rfl
  | [_, _], _ => rfl
  | [_, _, _], _ => rfl

theorem split_short {data : Bytes} (h : data.length < headerLength) :
    split data = .error (.malformed .truncatedMessageHeader) := by
  simp only [split, parse_short h]

section Cut

variable {type : MessageType} {body front behind : Bytes}

/-- A message that is cut off behind its header is still announced by it. -/
theorem parse_cut (hb : body.length ≤ maxBody) (hf : frame type body = front ++ behind)
    (hh : headerLength ≤ front.length) : Header.parse front = .ok ⟨type.code, body.length⟩ := by
  obtain ⟨header, hp⟩ := exists_parse hh
  have hwhole : Header.parse (frame type body ++ []) = .ok ⟨type.code, body.length⟩ :=
    parse_frame hb []
  rw [List.append_nil, hf, parse_append hp] at hwhole
  rw [hp, hwhole]

theorem split_cut (hb : body.length ≤ maxBody) (hf : frame type body = front ++ behind)
    (hh : headerLength ≤ front.length) (hne : behind ≠ []) :
    split front = .error .fragmented := by
  have hlen := congrArg List.length hf
  have hpos := List.length_pos_iff.2 hne
  rw [length_frame, List.length_append] at hlen
  simp only [split, parse_cut hb hf hh]
  rw [if_pos (by omega)]

end Cut

variable {payload message rest : Bytes}

/-- The whole messages that `payload` starts with. -/
def leading (payload : Bytes) : List Bytes :=
  match _h : split payload with
  | .error _ => []
  | .ok (message, rest) => message :: leading rest
termination_by payload.length
decreasing_by
  obtain ⟨hp, h, -, hl⟩ := split_eq_ok_iff.1 _h
  rw [hp, List.length_append]
  simp only [headerLength] at hl
  omega

theorem leading_of_split (h : split payload = .ok (message, rest)) :
    leading payload = message :: leading rest := by
  rw [leading]
  split <;> simp_all

end Message

namespace Hello

variable {h : Hello} {sender : Role} {message : Bytes} {c d : Cursor}

/-- Suites and compression as a side may send them. -/
def ChoicesFit : Role → (suites compression : Bytes) → Prop
  | .client, suites, compression =>
    suites ≠ [] ∧ suites.length % 2 = 0 ∧ suites.length < 256 ^ 2 ∧ compression.length < 256
  | .server, suites, compression => suites.length = 2 ∧ compression.length = 1

/-- Every field has the length it takes on the wire or fits the length in front of it. -/
structure WellFormed (h : Hello) : Prop where
  random : h.random.length = 32
  sessionId : h.sessionId.length ≤ 32
  choices : ChoicesFit h.sender h.suites h.compression
  extensions : (Extension.encodeAll (h.extensions.getD [])).length ≤ maxLength16

/-- The written form of suites and compression. -/
def choiceBytes : Role → (suites compression : Bytes) → Bytes
  | .client, suites, compression =>
    BigEndian.encode 2 suites.length ++ suites ++ (UInt8.ofNat compression.length :: compression)
  | .server, suites, compression => suites ++ compression

theorem encodeChoices_eq (h : Hello) :
    h.encodeChoices = choiceBytes h.sender h.suites h.compression := by
  unfold encodeChoices choiceBytes
  cases h.sender <;> rfl

theorem length_choices (hw : h.WellFormed) : h.encodeChoices.length ≤ 2 + 256 ^ 2 + 256 := by
  have hc := hw.choices
  unfold ChoicesFit at hc
  unfold encodeChoices
  cases hs : h.sender with
  | client =>
    simp only [hs] at hc
    simp only [List.length_append, List.length_cons, BigEndian.length_encode]
    omega
  | server =>
    simp only [hs] at hc
    simp only [List.length_append]
    omega

theorem length_block (hw : h.WellFormed) : h.encodeBlock.length ≤ 2 + maxLength16 := by
  have he := hw.extensions
  unfold encodeBlock
  cases hx : h.extensions with
  | none => exact Nat.zero_le _
  | some es =>
    rw [hx, Option.getD_some] at he
    simp only [List.length_append, BigEndian.length_encode]
    omega

theorem length_fields (hw : h.WellFormed) : h.encodeFields.length ≤ 69 + 256 ^ 2 + 256 := by
  have hc := length_choices hw
  have hr := hw.random
  have hs := hw.sessionId
  simp only [encodeFields, List.length_append, List.length_cons]
  omega

theorem length_body (hw : h.WellFormed) : h.body.length ≤ Message.maxBody := by
  have hf := length_fields hw
  have hb := length_block hw
  simp only [body, List.length_append]
  simp only [maxLength16] at hb
  simp only [Message.maxBody]
  omega

theorem write_of_wellFormed (hw : h.WellFormed) : h.write = .ok h.encode := by
  unfold write
  rw [if_neg (Nat.not_lt.2 (length_body hw)), if_neg (Nat.not_lt.2 hw.extensions)]

theorem readSessionId_eq_ok_iff {id : Bytes} :
    readSessionId c = .ok id d ↔ id.length ≤ 32 ∧ c.Passes d (UInt8.ofNat id.length :: id) := by
  simp only [readSessionId, Read.bind_eq_ok_iff, Read.vector_eq_ok_iff]
  constructor
  · rintro ⟨bytes, e, ⟨-, hp⟩, hr⟩
    split at hr
    · cases Read.fault_ne_ok hr
    · rename_i hle
      obtain ⟨rfl, rfl⟩ := Read.pure_eq_ok_iff.1 hr
      exact ⟨by omega, hp⟩
  · rintro ⟨hle, hp⟩
    exact ⟨id, d, ⟨by omega, hp⟩, by rw [if_neg (by omega)]; exact Read.pure_eq_ok_iff.2 ⟨rfl, rfl⟩⟩

theorem readChoices_eq_ok_iff {suites compression : Bytes} :
    readChoices sender c = .ok (suites, compression) d ↔
      ChoicesFit sender suites compression ∧ c.Passes d (choiceBytes sender suites compression) := by
  cases sender with
  | client =>
    simp only [readChoices, Read.bind_eq_ok_iff, Read.vector_eq_ok_iff, ChoicesFit, choiceBytes,
      Cursor.passes_append_iff]
    constructor
    · rintro ⟨bytes, e, ⟨hl, hp⟩, hr⟩
      split at hr
      · cases Read.fault_ne_ok hr
      · rename_i hs
        obtain ⟨bytes', e', hv, hr⟩ := Read.bind_eq_ok_iff.1 hr
        obtain ⟨he, rfl⟩ := Read.pure_eq_ok_iff.1 hr
        cases he
        obtain ⟨hl', hp'⟩ := Read.vector_eq_ok_iff.1 hv
        simp only [Bool.or_eq_true, List.isEmpty_iff, bne_iff_ne, ne_eq, not_or,
          Decidable.not_not] at hs
        exact ⟨⟨hs.1, hs.2, hl, hl'⟩, e, hp, hp'⟩
    · rintro ⟨⟨hne, heven, hl, hl'⟩, e, hp, hp'⟩
      refine ⟨suites, e, ⟨hl, hp⟩, ?_⟩
      rw [if_neg (by simp [hne, heven])]
      exact Read.bind_eq_ok_iff.2 ⟨compression, d, Read.vector_eq_ok_iff.2 ⟨hl', hp'⟩,
        Read.pure_eq_ok_iff.2 ⟨rfl, rfl⟩⟩
  | server =>
    simp only [readChoices, Read.bind_eq_ok_iff, Read.take_eq_ok_iff, Read.pure_eq_ok_iff,
      ChoicesFit, choiceBytes, Cursor.passes_append_iff]
    constructor
    · rintro ⟨s, e, ⟨hs, hp⟩, k, f, ⟨hk, hp'⟩, he, rfl⟩
      cases he
      exact ⟨⟨hs, hk⟩, e, hp, hp'⟩
    · rintro ⟨⟨hs, hk⟩, e, hp, hp'⟩
      exact ⟨suites, e, ⟨hs, hp⟩, compression, d, ⟨hk, hp'⟩, rfl, rfl⟩

/-- The written form of an extensions block. -/
def blockBytes : Option (List Extension) → Bytes
  | none => []
  | some es => BigEndian.encode 2 (Extension.encodeAll es).length ++ Extension.encodeAll es

theorem encodeBlock_eq (h : Hello) : h.encodeBlock = blockBytes h.extensions := by
  cases hx : h.extensions <;> simp only [encodeBlock, blockBytes, hx]

theorem data_le_of_block {es : List Extension}
    (hl : (Extension.encodeAll es).length ≤ maxLength16) :
    ∀ x ∈ es, x.data.length ≤ maxLength16 := by
  intro x hx
  have := Extension.size_le_of_mem hx
  simp only [Extension.size] at this
  omega

theorem readBlock_eq_ok_iff {block : Option (List Extension)} :
    readBlock c = .ok block d ↔
      (Extension.encodeAll (block.getD [])).length ≤ maxLength16 ∧
        c.Passes d (blockBytes block) ∧ d.rest = [] := by
  simp only [readBlock, Read.bind_eq_ok_iff, Read.isEmpty_eq_ok_iff]
  constructor
  · rintro ⟨b, c', ⟨hb, rfl⟩, h⟩
    split at h
    · rename_i he
      obtain ⟨rfl, rfl⟩ := Read.pure_eq_ok_iff.1 h
      refine ⟨Nat.zero_le _, Cursor.passes_nil_iff.2 rfl, ?_⟩
      rwa [he, Cursor.isEmpty_iff] at hb
    · obtain ⟨bytes, e, hv, h⟩ := Read.bind_eq_ok_iff.1 h
      obtain ⟨hl, hp⟩ := Read.vector_eq_ok_iff.1 hv
      obtain ⟨left, e', hr, h⟩ := Read.bind_eq_ok_iff.1 h
      obtain ⟨rfl, rfl⟩ := Read.rest_eq_ok_iff.1 hr
      split at h
      · rename_i hnil
        cases hes : Extension.parseAll bytes with
        | ok es =>
          obtain ⟨-, rfl⟩ := Extension.parseAll_eq_ok_iff.1 hes
          simp only [hes] at h
          obtain ⟨rfl, rfl⟩ := Read.pure_eq_ok_iff.1 h
          exact ⟨by simp only [Option.getD_some, maxLength16]; omega, hp, List.isEmpty_iff.1 hnil⟩
        | error f =>
          simp only [hes] at h
          cases h
      · cases Read.fault_ne_ok h
  · rintro ⟨hl, hp, hr⟩
    cases block with
    | none =>
      obtain rfl := Cursor.passes_nil_iff.1 hp
      refine ⟨true, d, ⟨Cursor.isEmpty_iff.2 hr, rfl⟩, ?_⟩
      exact Read.pure_eq_ok_iff.2 ⟨rfl, rfl⟩
    | some es =>
      have hne : c.isEmpty = false := by
        simp [Cursor.isEmpty, hp.1, blockBytes, BigEndian.encode]
      have hes : Extension.parseAll (Extension.encodeAll es) = .ok es :=
        Extension.parseAll_eq_ok_iff.2 ⟨data_le_of_block hl, rfl⟩
      simp only [Option.getD_some, maxLength16] at hl
      refine ⟨false, c, ⟨hne, rfl⟩, ?_⟩
      rw [if_neg Bool.false_ne_true]
      refine Read.bind_eq_ok_iff.2 ⟨_, d, Read.vector_eq_ok_iff.2 ⟨by omega, hp⟩, ?_⟩
      refine Read.bind_eq_ok_iff.2 ⟨_, d, Read.rest_eq_ok_iff.2 ⟨rfl, rfl⟩, ?_⟩
      simp only [hr, hes]
      rfl

theorem read_eq_ok_iff :
    read sender c = .ok h d ↔
      h.WellFormed ∧ h.sender = sender ∧ c.Passes d h.body ∧ d.rest = [] := by
  have hbody : ∀ h : Hello, h.body = [h.version.major] ++ ([h.version.minor] ++ (h.random ++
      ((UInt8.ofNat h.sessionId.length :: h.sessionId) ++
        (choiceBytes h.sender h.suites h.compression ++ blockBytes h.extensions)))) := by
    intro h
    simp only [body, encodeFields, encodeChoices_eq, encodeBlock_eq, List.append_assoc,
      List.cons_append, List.nil_append]
  simp only [read, Read.bind_eq_ok_iff, Read.byte_eq_ok_iff, Read.take_eq_ok_iff,
    readSessionId_eq_ok_iff, hbody, Cursor.passes_append_iff]
  constructor
  · rintro ⟨major, c₁, h₁, minor, c₂, h₂, random, c₃, ⟨hl, h₃⟩, id, c₄, ⟨hid, h₄⟩,
      ⟨suites, compression⟩, c₅, hc, hr⟩
    obtain ⟨block, c₆, hb, hr⟩ := hr
    obtain ⟨rfl, rfl⟩ := Read.pure_eq_ok_iff.1 hr
    obtain ⟨hfit, h₅⟩ := readChoices_eq_ok_iff.1 hc
    obtain ⟨hx, h₆, hend⟩ := readBlock_eq_ok_iff.1 hb
    exact ⟨⟨hl, hid, hfit, hx⟩, rfl, ⟨c₁, h₁, c₂, h₂, c₃, h₃, c₄, h₄, c₅, h₅, h₆⟩, hend⟩
  · rintro ⟨hw, rfl, ⟨c₁, h₁, c₂, h₂, c₃, h₃, c₄, h₄, c₅, h₅, h₆⟩, hend⟩
    refine ⟨_, c₁, h₁, _, c₂, h₂, _, c₃, ⟨hw.random, h₃⟩, _, c₄, ⟨hw.sessionId, h₄⟩,
      (h.suites, h.compression), c₅, readChoices_eq_ok_iff.2 ⟨hw.choices, h₅⟩, ?_⟩
    exact ⟨_, d, readBlock_eq_ok_iff.2 ⟨hw.extensions, h₆, hend⟩, Read.pure_eq_ok_iff.2 ⟨rfl, rfl⟩⟩

/-- A message is read as a hello exactly when it is the written form of a well-formed one. -/
theorem parse_eq_ok_iff :
    parse sender message = .ok h ↔ h.WellFormed ∧ h.sender = sender ∧ message = h.encode := by
  simp only [parse]
  constructor
  · intro hp
    split at hp
    · cases hp
    · rename_i header hh
      obtain ⟨-, hm⟩ := Message.eq_of_parse hh
      split at hp
      · cases hp
      · rename_i hcode
        split at hp
        · cases hp
        · rename_i hlen
          obtain ⟨d, hr⟩ := Read.on_eq_ok_iff.1 hp
          obtain ⟨hw, hs, hb, hd⟩ := read_eq_ok_iff.1 hr
          have hbody : message.drop Message.headerLength = h.body := by
            simpa [Cursor.start, hd] using hb.1
          simp only [ne_eq, Decidable.not_not] at hcode hlen
          refine ⟨hw, hs, ?_⟩
          rw [hm, hcode, ← hlen, hbody, ← hs]
          rfl
  · rintro ⟨hw, rfl, rfl⟩
    have hp : Message.Header.parse (Message.frame (helloType h.sender) h.body ++ []) = _ :=
      Message.parse_frame (length_body hw) []
    have hdrop : h.encode.drop Message.headerLength = h.body := rfl
    rw [List.append_nil] at hp
    simp only [encode] at hdrop ⊢
    rw [hp]
    simp only [hdrop, ne_eq, not_true_eq_false, if_false]
    refine Read.on_eq_ok_iff.2 ⟨⟨h.body.length, []⟩, read_eq_ok_iff.2 ⟨hw, rfl, ?_, rfl⟩⟩
    exact ⟨(List.append_nil _).symm, (Nat.zero_add _).symm⟩

theorem parse_encode (hw : h.WellFormed) : parse h.sender h.encode = .ok h :=
  parse_eq_ok_iff.2 ⟨hw, rfl, rfl⟩

/-- An extension can be added exactly when the longer block still fits its length. -/
theorem writeWith_eq_ok_iff {x : Extension} (hw : h.WellFormed) :
    h.writeWith x = .ok message ↔ (h.add x).WellFormed ∧ message = (h.add x).encode := by
  have hadd : (h.add x).extensions.getD [] = h.extensions.getD [] ++ [x] := rfl
  simp only [writeWith]
  constructor
  · intro hr
    split at hr
    · cases hr
    · simp only [write] at hr
      split at hr
      · cases hr
      · split at hr
        · cases hr
        · rename_i hl
          cases hr
          exact ⟨⟨hw.random, hw.sessionId, hw.choices, by omega⟩, rfl⟩
  · rintro ⟨ha, rfl⟩
    have hx : x.data.length ≤ maxLength16 := by
      apply data_le_of_block ha.extensions
      rw [hadd]
      exact List.mem_append_right _ (List.mem_singleton_self x)
    rw [if_neg (by omega), write_of_wellFormed ha]

theorem wellFormed_remove {type : UInt16} (hw : h.WellFormed) : (h.remove type).WellFormed := by
  have hx := Nat.le_trans (Extension.length_filter_le (fun x => x.type != type)
    (h.extensions.getD [])) hw.extensions
  simp only [remove]
  split
  · exact ⟨hw.random, hw.sessionId, hw.choices, Nat.zero_le _⟩
  · exact ⟨hw.random, hw.sessionId, hw.choices, hx⟩

theorem sender_remove (h : Hello) (type : UInt16) : (h.remove type).sender = h.sender := by
  rw [remove]
  split
  · rfl
  · rfl

theorem length_body_with (h : Hello) (block : Option (List Extension)) :
    ({ h with extensions := block } : Hello).body.length =
      h.encodeFields.length + (blockBytes block).length := by
  simp only [body, List.length_append, encodeBlock_eq]
  rfl

/-- An extension whose data fit can be added unless the longer block overflows its length; the
length of the message never does. -/
theorem writeWith_eq {x : Extension} (hw : h.WellFormed) (hd : x.data.length ≤ maxLength16) :
    h.writeWith x =
      if (Extension.encodeAll (h.extensions.getD [])).length + x.size ≤ maxLength16 then
        .ok (h.add x).encode
      else .error (.malformed .longExtensionBlock) := by
  have hf := length_fields hw
  have hx := hw.extensions
  have ha : (h.add x).extensions = some (h.extensions.getD [] ++ [x]) := rfl
  have hblock : (Extension.encodeAll (h.extensions.getD [] ++ [x])).length =
      (Extension.encodeAll (h.extensions.getD [])).length + x.size := by
    rw [Extension.encodeAll_append, List.length_append, Extension.encodeAll_cons, List.length_append,
      Extension.length_encode]
    rfl
  have hbody : (h.add x).body.length ≤ Message.maxBody := by
    have hb : (h.add x).body.length = _ := length_body_with h (some (h.extensions.getD [] ++ [x]))
    rw [hb, blockBytes, List.length_append, BigEndian.length_encode, hblock]
    simp only [Extension.size, maxLength16, Message.maxBody] at *
    omega
  rw [writeWith, if_neg (by omega), write, if_neg (by omega), ha, Option.getD_some, hblock]
  by_cases hfits : (Extension.encodeAll (h.extensions.getD [])).length + x.size ≤ maxLength16
  · rw [if_pos hfits, if_neg (by omega)]
  · rw [if_neg hfits, if_pos (by omega)]

theorem length_body_add (x : Extension) : h.body.length < (h.add x).body.length := by
  have hh : h.body.length = _ := length_body_with h h.extensions
  have ha : (h.add x).body.length = _ := length_body_with h (some (h.extensions.getD [] ++ [x]))
  rw [hh, ha]
  cases h.extensions with
  | none =>
    simp only [blockBytes, List.length_append, List.length_nil, BigEndian.length_encode]
    omega
  | some es =>
    simp only [blockBytes, Option.getD_some, Extension.encodeAll_append, List.length_append,
      BigEndian.length_encode, Extension.encodeAll_cons, Extension.length_encode, Extension.size]
    omega

theorem length_body_remove {type : UInt16} {x : Extension} (hx : h.find? type = some x) :
    (h.remove type).body.length + x.size ≤ h.body.length := by
  have hh : h.body.length = _ := length_body_with h h.extensions
  have hr : ∀ block, ({ h with extensions := block } : Hello).body.length = _ := length_body_with h
  cases he : h.extensions with
  | none =>
    simp only [find?, he] at hx
    cases hx
  | some es =>
    simp only [find?, he, Option.getD_some] at hx
    have hle : (Extension.encodeAll (es.filter fun y => y.type != type)).length + x.size ≤
        (Extension.encodeAll es).length := by
      refine Extension.length_filter_add_size_le (List.mem_of_find?_eq_some hx) ?_
      simpa using List.find?_some hx
    rw [hh, he]
    cases hk : es.filter fun y => y.type != type with
    | nil =>
      rw [hk] at hle
      simp only [remove, he, Option.getD_some, hk, hr, blockBytes, List.length_append,
        List.length_nil, BigEndian.length_encode]
      omega
    | cons y kept =>
      rw [hk] at hle
      simp only [remove, he, Option.getD_some, hk, hr, blockBytes, List.length_append,
        BigEndian.length_encode]
      omega

theorem length_encode (h : Hello) : h.encode.length = Message.headerLength + h.body.length :=
  Message.length_frame ..

/-- An extension behind others makes a hello longer by its own size. -/
theorem length_encode_add {es : List Extension} (x : Extension) (he : h.extensions = some es) :
    (h.add x).encode.length = h.encode.length + x.size := by
  have hh : h.body.length = _ := length_body_with h h.extensions
  have ha : (h.add x).body.length = _ := length_body_with h (some (h.extensions.getD [] ++ [x]))
  simp only [he, Option.getD_some, blockBytes, Extension.encodeAll_append, List.length_append,
    BigEndian.length_encode, Extension.encodeAll_cons, Extension.length_encode] at hh ha
  rw [length_encode, length_encode, ha, hh]
  simp only [Extension.encodeAll, List.flatMap_nil, List.length_nil]
  omega

/-- Hellos of different lengths differ in their headers. -/
theorem header_ne {k : Hello} (hw : h.WellFormed) (hk : k.WellFormed)
    (hl : h.body.length ≠ k.body.length) :
    h.encode.take Message.headerLength ≠ k.encode.take Message.headerLength := by
  have hlen : ∀ {k : Hello}, k.WellFormed →
      BigEndian.decode ((k.encode.take Message.headerLength).drop 1) = k.body.length := by
    intro k hk
    have hd : BigEndian.decode (BigEndian.encode 3 k.body.length) = k.body.length :=
      BigEndian.decode_encode (Nat.lt_of_le_of_lt (length_body hk) (by decide))
    exact hd
  intro he
  have hh := hlen hw
  rw [he, hlen hk] at hh
  exact hl hh.symm

end Hello
end AlpnOverlay.Wire
