import AlpnOverlay.Proofs.Wire.Stream

/-!
Splitting a stream that arrives piece by piece. What has been split stays split, a contradiction
stays one, and an answer that asks for more says how long the input has to be.
-/
namespace AlpnOverlay.Wire

variable {α : Type} {data rest more : Bytes}

/-- What a reader says of the beginning of its input holds of the input: a length that it asks for
is asked for until it is there, and what it rejects is rejected whatever follows. -/
structure Incremental (read : Bytes → Except Error α) (data : Bytes) : Prop where
  waits : ∀ needed available, read data = .error (.underflow needed available) →
    available = data.length ∧ data.length < needed ∧ ∀ more, (data ++ more).length < needed →
      read (data ++ more) = .error (.underflow needed (data ++ more).length)
  rejects : ∀ fault, read data = .error (.malformed fault) →
    ∀ more, read (data ++ more) = .error (.malformed fault)
  unfragmented : read data ≠ .error .fragmented

namespace Incremental

variable {read : Bytes → Except Error α} {needed : Nat} {fault : Fault} {a : α}

theorem of_ok (h : read data = .ok a) : Incremental read data := by
  refine ⟨?_, ?_, ?_⟩
  · intro needed available he
    cases h.symm.trans he
  · intro fault he
    cases h.symm.trans he
  · intro he
    cases h.symm.trans he

theorem of_underflow (hl : data.length < needed)
    (h : ∀ more, (data ++ more).length < needed →
      read (data ++ more) = .error (.underflow needed (data ++ more).length)) :
    Incremental read data := by
  have hdata : read data = .error (.underflow needed data.length) := by
    simpa only [List.append_nil] using h [] (by simpa using hl)
  refine ⟨?_, ?_, ?_⟩
  · intro needed' available he
    cases hdata.symm.trans he
    exact ⟨rfl, hl, h⟩
  · intro fault he
    cases hdata.symm.trans he
  · intro he
    cases hdata.symm.trans he

theorem of_malformed (h : ∀ more, read (data ++ more) = .error (.malformed fault)) :
    Incremental read data := by
  have hdata : read data = .error (.malformed fault) := by
    simpa only [List.append_nil] using h []
  refine ⟨?_, ?_, ?_⟩
  · intro needed available he
    cases hdata.symm.trans he
  · intro fault' he
    cases hdata.symm.trans he
    exact h
  · intro he
    cases hdata.symm.trans he

end Incremental

theorem Error.shift_shift (e : Error) (front back : Nat) :
    (e.shift back).shift front = e.shift (front + back) := by
  cases e with
  | underflow n a => simp only [shift, Nat.add_assoc]
  | malformed fault => rfl
  | fragmented => rfl

namespace Record

variable {r : Record} {rs ss : List Record} {e : Error}

/-- Bytes that are whole records, one behind the other. Each of them is its type, two bytes of
version, the big-endian length of its payload, and the payload. -/
inductive Streams : List Record → Bytes → Prop where
  | nil : Streams [] []
  | cons {r : Record} {rs : List Record} {high low : UInt8} {rest : Bytes}
      (hl : 256 * high.toNat + low.toNat = r.payload.length) (h : Streams rs rest) :
      Streams (r :: rs)
        (r.type.code :: r.version.major :: r.version.minor :: high :: low :: (r.payload ++ rest))

/-- Two bytes are the written form of the number they are read as. -/
theorem encode2_of_eq {high low : UInt8} {n : Nat} (h : 256 * high.toNat + low.toNat = n) :
    BigEndian.encode 2 n = [high, low] := by
  have hd : BigEndian.decode [high, low] = n := by
    simp only [BigEndian.decode, BigEndian.decodeFrom]
    omega
  rw [← hd]
  exact BigEndian.encode_decode [high, low]

theorem streams_iff : Streams rs data ↔ data = encodeAll rs := by
  constructor
  · intro h
    induction h with
    | nil => rfl
    | @cons r rs high low rest hl _ ih =>
      have hlength : BigEndian.encode 2 r.header.length = [high, low] := encode2_of_eq hl
      rw [encodeAll_cons, ← ih, encode, Header.encode, hlength]
      rfl
  · rintro rfl
    induction rs with
    | nil => exact .nil
    | cons r rs ih =>
      have hlt : r.payload.length < 256 ^ 2 := r.header.length_lt
      have hl : 256 * (UInt8.ofNat (r.payload.length / 256)).toNat +
          (UInt8.ofNat r.payload.length).toNat = r.payload.length := by
        rw [UInt8.toNat_ofNat', UInt8.toNat_ofNat']
        omega
      rw [encodeAll_cons]
      exact .cons hl ih

/-- A header is decided by its own bytes. -/
theorem Header.parse_append (h : headerLength ≤ data.length) (more : Bytes) :
    Header.parse (data ++ more) = Header.parse data := by
  match data, h with
  | _ :: _ :: _ :: _ :: _ :: _, _ => rfl

theorem Header.parse_short (h : data.length < headerLength) :
    Header.parse data = .error (.underflow headerLength data.length) := by
  match data, h with
  | [], _ => rfl
  | [_], _ => rfl
  | [_, _], _ => rfl
  | [_, _, _], _ => rfl
  | [_, _, _, _], _ => rfl
  | _ :: _ :: _ :: _ :: _ :: rest, h =>
    simp only [List.length_cons, headerLength] at h
    omega

/-- Behind its length a header can only be malformed. -/
theorem Header.malformed_of_parse (h : headerLength ≤ data.length)
    (he : Header.parse data = .error e) : ∃ fault, e = .malformed fault := by
  match data, h with
  | _ :: _ :: _ :: _ :: _ :: _, _ =>
    simp only [Header.parse] at he
    split at he
    · cases he
      exact ⟨_, rfl⟩
    · split at he
      · cases he
      · cases he
        exact ⟨_, rfl⟩

theorem Header.headerLength_le {header : Header} (hp : Header.parse data = .ok header) :
    headerLength ≤ data.length := by
  rcases Nat.lt_or_ge data.length headerLength with hshort | hlong
  · cases (Header.parse_short hshort).symm.trans hp
  · exact hlong

theorem first_short (h : data.length < headerLength) :
    first data = .error (.underflow headerLength data.length) := by
  simp only [first, Header.parse_short h]

theorem first_cut {header : Header} (hp : Header.parse data = .ok header)
    (h : data.length < headerLength + header.length) :
    first data = .error (.underflow (headerLength + header.length) data.length) := by
  have hlong := Header.headerLength_le hp
  have hl : ¬ ((data.drop headerLength).take header.length).length = header.length := by
    rw [List.length_take, List.length_drop]
    omega
  simp only [first, hp]
  exact dif_neg hl

theorem first_whole {header : Header} (hp : Header.parse data = .ok header)
    (h : headerLength + header.length ≤ data.length) : ∃ parts, first data = .ok parts := by
  have hl : ((data.drop headerLength).take header.length).length = header.length := by
    rw [List.length_take, List.length_drop]
    omega
  simp only [first, hp]
  exact ⟨_, dif_pos hl⟩

theorem first_append (h : first data = .ok (r, rest)) (more : Bytes) :
    first (data ++ more) = .ok (r, rest ++ more) := by
  rw [first_eq_ok_iff] at h ⊢
  rw [h, List.append_assoc]

/-- A record is asked for in two steps: its header, and then as much as the header says. -/
theorem incremental_first (data : Bytes) : Incremental first data := by
  by_cases hshort : data.length < headerLength
  · exact .of_underflow hshort fun more hmore => first_short hmore
  · have hlong : headerLength ≤ data.length := Nat.le_of_not_lt hshort
    have hparse := Header.parse_append hlong
    cases hp : Header.parse data with
    | error e =>
      obtain ⟨fault, rfl⟩ := Header.malformed_of_parse hlong hp
      have hbad : ∀ more, first (data ++ more) = .error (.malformed fault) := by
        intro more
        simp only [first, (hparse more).trans hp]
      exact .of_malformed hbad
    | ok header =>
      by_cases hcut : data.length < headerLength + header.length
      · exact .of_underflow hcut fun more hmore => first_cut ((hparse more).trans hp) hmore
      · obtain ⟨parts, hfirst⟩ := first_whole hp (Nat.le_of_not_lt hcut)
        exact .of_ok hfirst

theorem split_nil : split [] = .ok [] := split_encodeAll []

/-- The first record decides how a stream is split, and the rest of the stream does. -/
theorem split_of_first (h : first data = .ok (r, rest)) :
    split data =
      match split rest with
      | .error e => .error (e.shift r.size)
      | .ok rs => .ok (r :: rs) := by
  have hne : ¬ data.isEmpty = true := by
    rw [List.isEmpty_iff]
    rintro rfl
    cases h
  rw [split, if_neg hne]
  split
  · rename_i hf
    cases h.symm.trans hf
  · rename_i hf
    cases h.symm.trans hf
    rfl

theorem split_of_first_error (hne : data ≠ []) (h : first data = .error e) :
    split data = .error e := by
  rw [split, if_neg (by simpa using hne)]
  split
  · rename_i hf
    cases h.symm.trans hf
    rfl
  · rename_i hf
    cases h.symm.trans hf

/-- Whole records in front of a stream are split off, and its errors are counted from their start. -/
theorem split_append (h : split data = .ok rs) (more : Bytes) :
    split (data ++ more) =
      match split more with
      | .error e => .error (e.shift data.length)
      | .ok ss => .ok (rs ++ ss) := by
  rw [eq_encodeAll_of_split h]
  clear h
  induction rs with
  | nil =>
    cases hm : split more with
    | error e => cases e <;> simp [encodeAll, Error.shift, hm]
    | ok ss => simp [encodeAll, hm]
  | cons r rs ih =>
    have hf : first (encodeAll (r :: rs) ++ more) = .ok (r, encodeAll rs ++ more) :=
      first_append (first_eq_ok_iff.2 (encodeAll_cons r rs)) more
    rw [split_of_first hf, ih, encodeAll_cons, List.length_append, length_encode]
    cases split more with
    | error e => simp only [Error.shift_shift]
    | ok ss => rfl

/-- A stream asks for the end of the record that it stops in. -/
theorem incremental_split (data : Bytes) : Incremental split data := by
  fun_induction split data with
  | case1 data hd =>
    rw [List.isEmpty_iff] at hd
    rw [hd]
    exact .of_ok split_nil
  | case2 data hd e hf =>
    have hne : data ≠ [] := by simpa using hd
    have hsplit : ∀ more {e'}, first (data ++ more) = .error e' → split (data ++ more) = .error e' :=
      fun more e' => split_of_first_error (by simp [hne])
    obtain ⟨hwaits, hrejects, hunfragmented⟩ := incremental_first data
    cases e with
    | underflow needed available =>
      obtain ⟨rfl, hlt, hmore⟩ := hwaits _ _ hf
      exact .of_underflow hlt fun more hle => hsplit more (hmore more hle)
    | malformed fault => exact .of_malformed fun more => hsplit more (hrejects fault hf more)
    | fragmented => exact absurd hf hunfragmented
  | case3 data hd r rest hf e hr ih =>
    have hlength := first_length hf
    have hsplit := fun more => split_of_first (first_append hf more)
    obtain ⟨hwaits, hrejects, hunfragmented⟩ := ih
    cases e with
    | underflow needed available =>
      obtain ⟨rfl, hlt, hmore⟩ := hwaits _ _ hr
      have hwaiting : ∀ more, (data ++ more).length < r.size + needed →
          split (data ++ more) = .error (.underflow (r.size + needed) (data ++ more).length) := by
        intro more hle
        rw [List.length_append] at hle
        rw [hsplit, hmore more (by rw [List.length_append]; omega)]
        simp only [Error.shift, List.length_append, hlength, Nat.add_assoc]
      exact .of_underflow (by omega) hwaiting
    | malformed fault =>
      have hbad : ∀ more, split (data ++ more) = .error (.malformed fault) := by
        intro more
        rw [hsplit, hrejects fault hr more]
        rfl
      exact .of_malformed hbad
    | fragmented => exact absurd hr hunfragmented
  | case4 data hd r rest hf rs hr ih =>
    refine .of_ok (a := r :: rs) ?_
    rw [split_of_first hf, hr]

/-- Splitting accepts exactly the streams of whole records, and gives those records; written again,
they are the stream. What stands behind a stream is split on its own. An answer that asks for more
is the same until as much is there, and one that finds a contradiction is final. -/
theorem split_exact (data : Bytes) :
    (∀ rs, split data = .ok rs ↔ Streams rs data) ∧
    (∀ rs, split data = .ok rs → encodeAll rs = data ∧ ∀ r ∈ rs, r.header.length = r.payload.length) ∧
    (∀ rs, split data = .ok rs → ∀ more, split (data ++ more) =
      match split more with
      | .error e => .error (e.shift data.length)
      | .ok ss => .ok (rs ++ ss)) ∧
    Incremental split data := by
  refine ⟨?_, ?_, ?_, incremental_split data⟩
  · intro rs
    exact split_eq_ok_iff.trans streams_iff.symm
  · intro rs h
    exact ⟨(eq_encodeAll_of_split h).symm, fun r _ => rfl⟩
  · intro rs h more
    exact split_append h more

/-- A flight that stops in its second record asks for the end of that record, and still does when
one more byte has come. -/
theorem split_exact_interrupted :
    let data : Bytes := [22, 3, 3, 0, 1, 0, 20, 3, 3, 0, 3, 1]
    split data = .error (.underflow 14 12) ∧ split (data ++ [1]) = .error (.underflow 14 13) := by
  intro data
  have hfirst : first data = .ok (⟨.handshake, .tls12, [0], by decide⟩, [20, 3, 3, 0, 3, 1]) := rfl
  have hdata : split data = .error (.underflow 14 12) := by
    rw [split_of_first hfirst, split_of_first_error (by simp) rfl]
    rfl
  obtain ⟨-, -, -, hincremental⟩ := split_exact data
  obtain ⟨-, -, hmore⟩ := hincremental.waits 14 12 hdata
  exact ⟨hdata, hmore [1] (by decide)⟩

end Record
end AlpnOverlay.Wire
