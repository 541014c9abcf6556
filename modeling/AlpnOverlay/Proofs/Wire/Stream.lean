import AlpnOverlay.Proofs.Wire.Numbers
import AlpnOverlay.Wire.Record
import Mathlib.Algebra.GroupWithZero.Nat

/-!
Record streams: a stream is split into exactly the records that it is the concatenation of, and the
records made for a payload carry that payload and nothing else.
-/
namespace AlpnOverlay.Wire

theorem ContentType.code_inj {s t : ContentType} (h : s.code = t.code) : s = t := by
  have hof := ofCode?_code s
  rw [h, ofCode?_code, Option.some.injEq] at hof
  exact hof.symm

namespace Record

variable {r : Record} {rs ss : List Record} {data rest payload : Bytes} {type : ContentType}
  {version : Version}

theorem encode2 (n : Nat) :
    BigEndian.encode 2 n = [UInt8.ofNat (n / 256), UInt8.ofNat n] := rfl

theorem Header.length_lt (h : Header) : h.length < 256 ^ 2 :=
  Nat.lt_of_le_of_lt h.length_le (by decide)

theorem Header.parse_encode (h : Header) (rest : Bytes) :
    Header.parse (h.encode ++ rest) = .ok h := by
  have hl : BigEndian.decode (BigEndian.encode 2 h.length) = h.length :=
    BigEndian.decode_encode h.length_lt
  rw [encode2] at hl
  simp only [Header.encode, encode2, List.cons_append, List.nil_append, Header.parse,
    ContentType.ofCode?_code, hl]
  rw [dif_pos h.length_le]

theorem Header.eq_encode_of_parse {h : Header} (hp : Header.parse data = .ok h) :
    data = h.encode ++ data.drop headerLength := by
  simp only [Header.parse] at hp
  split at hp
  · rename_i code major minor high low rest
    split at hp
    · cases hp
    · rename_i type ht
      split at hp
      · cases hp
        have hd := BigEndian.encode_decode [high, low]
        simp only [List.length_cons, List.length_nil, Nat.reduceAdd] at hd
        simp only [Header.encode, hd, ContentType.code_of_ofCode? ht, headerLength,
          List.drop_succ_cons, List.drop_zero, List.cons_append, List.nil_append]
      · cases hp
  · cases hp

/-- A record is read exactly where it was written. -/
theorem first_eq_ok_iff : first data = .ok (r, rest) ↔ data = r.encode ++ rest := by
  constructor
  · intro h
    simp only [first] at h
    split at h
    · cases h
    · rename_i header hp
      split at h
      · rename_i hl
        cases h
        have hd := Header.eq_encode_of_parse hp
        have hh : ∀ r : Record, r.type = header.type → r.version = header.version →
            r.payload.length = header.length → r.header = header := by
          rintro r ht hv hp
          simp only [Record.header, ht, hv, hp]
        rw [encode, hh _ rfl rfl hl, List.append_assoc, ← List.drop_drop, List.take_append_drop]
        exact hd
      · cases h
  · rintro rfl
    have hp := Header.parse_encode r.header (r.payload ++ rest)
    have hd : (r.encode ++ rest).drop headerLength = r.payload ++ rest := by
      rw [encode, List.append_assoc, List.drop_left' (length_header_encode _)]
    have ht : ((r.encode ++ rest).drop headerLength).take r.header.length = r.payload := by
      rw [hd]
      exact List.take_left' rfl
    have hr : (r.encode ++ rest).drop (headerLength + r.header.length) = rest := by
      rw [← List.drop_drop, hd]
      exact List.drop_left' rfl
    rw [← List.append_assoc, ← encode] at hp
    simp only [first, hp, ht, hr]
    exact dif_pos rfl

theorem encodeAll_cons (r : Record) (rs : List Record) :
    encodeAll (r :: rs) = r.encode ++ encodeAll rs := List.flatMap_cons

theorem encodeAll_singleton (r : Record) : encodeAll [r] = r.encode := List.append_nil _

theorem encodeAll_append (rs ss : List Record) :
    encodeAll (rs ++ ss) = encodeAll rs ++ encodeAll ss := List.flatMap_append

theorem encode_ne_nil (r : Record) : r.encode ≠ [] := by
  simp [encode, Header.encode]

theorem split_encodeAll (rs : List Record) : split (encodeAll rs) = .ok rs := by
  induction rs with
  | nil => rw [split]; rfl
  | cons r rs ih =>
    have hne : ¬ (encodeAll (r :: rs)).isEmpty = true := by
      simp [encodeAll_cons, encode_ne_nil]
    have hf : first (encodeAll (r :: rs)) = .ok (r, encodeAll rs) :=
      first_eq_ok_iff.2 (encodeAll_cons ..)
    rw [split, if_neg hne]
    split <;> simp_all

theorem eq_encodeAll_of_split (h : split data = .ok rs) : data = encodeAll rs := by
  fun_induction split data generalizing rs with
  | case1 data hd =>
    cases h
    exact List.isEmpty_iff.1 hd
  | case2 => cases h
  | case3 => cases h
  | case4 data _ r rest hf rs' hr ih =>
    cases h
    rw [first_eq_ok_iff.1 hf, ih hr, encodeAll_cons]

/-- A stream is split exactly into the records it was put together from. -/
theorem split_eq_ok_iff : split data = .ok rs ↔ data = encodeAll rs :=
  ⟨eq_encodeAll_of_split, fun h => h ▸ split_encodeAll rs⟩

theorem encodeAll_inj (h : encodeAll rs = encodeAll ss) : rs = ss := by
  have hs := split_encodeAll rs
  rw [h, split_encodeAll] at hs
  cases hs
  rfl

theorem length_encodeAll (rs : List Record) : (encodeAll rs).length = (rs.map size).sum := by
  induction rs with
  | nil => rfl
  | cons r rs ih =>
    rw [encodeAll_cons, List.length_append, length_encode, ih, List.map_cons, List.sum_cons]

theorem sum_size (rs : List Record) :
    (rs.map size).sum = headerLength * rs.length + (rs.flatMap Record.payload).length := by
  induction rs with
  | nil => rfl
  | cons r rs ih =>
    simp only [List.map_cons, List.sum_cons, ih, List.flatMap_cons, List.length_append,
      List.length_cons, size, Nat.mul_add]
    omega

theorem eq_of_fields {r s : Record} (ht : r.type = s.type) (hv : r.version = s.version)
    (hp : r.payload = s.payload) : r = s := by
  cases r
  cases s
  simp_all

/-- The handshake bytes that records carry. -/
def handshakeBytes (rs : List Record) : Bytes :=
  (rs.filter fun r => r.type = .handshake).flatMap Record.payload

theorem handshakeBytes_append (rs ss : List Record) :
    handshakeBytes (rs ++ ss) = handshakeBytes rs ++ handshakeBytes ss := by
  simp only [handshakeBytes, List.filter_append, List.flatMap_append]

theorem carrying_of_le (h : payload.length ≤ maxPlaintext) :
    carrying type version payload =
      [⟨type, version, payload, Nat.le_trans h (Nat.le_add_right ..)⟩] := by
  rw [carrying, dif_pos h]

theorem carrying_of_lt (h : maxPlaintext < payload.length) :
    carrying type version payload =
      ⟨type, version, payload.take maxPlaintext,
        Nat.le_trans (List.length_take_le ..) (Nat.le_add_right ..)⟩ ::
        carrying type version (payload.drop maxPlaintext) := by
  rw [carrying, dif_neg (Nat.not_le.2 h)]

theorem of_mem_carrying (h : r ∈ carrying type version payload) :
    r.type = type ∧ r.version = version ∧ r.payload.length ≤ maxPlaintext := by
  fun_induction carrying type version payload with
  | case1 payload hl =>
    obtain rfl := List.mem_singleton.1 h
    exact ⟨rfl, rfl, hl⟩
  | case2 payload hl ih =>
    rcases List.mem_cons.1 h with rfl | h
    · exact ⟨rfl, rfl, List.length_take_le ..⟩
    · exact ih h

/-- The records made for a payload carry it, piece by piece. -/
theorem flatMap_payload_carrying (type : ContentType) (version : Version) (payload : Bytes) :
    (carrying type version payload).flatMap Record.payload = payload := by
  fun_induction carrying type version payload with
  | case1 => exact List.append_nil _
  | case2 payload _ ih => rw [List.flatMap_cons, ih, List.take_append_drop]

/-- A plaintext travels in the record that it comes from. -/
theorem carrying_self (h : r.payload.length ≤ maxPlaintext) :
    carrying r.type r.version r.payload = [r] := carrying_of_le h

/-- The first record takes as much of a payload as it can, the others take the rest. -/
theorem carrying_eq_cons (type : ContentType) (version : Version) (payload : Bytes) :
    ∃ first more, carrying type version payload = first :: more ∧ first.type = type ∧
      first.version = version ∧ first.payload = payload.take maxPlaintext ∧
      more.flatMap Record.payload = payload.drop maxPlaintext ∧
      (payload.length ≤ maxPlaintext → more = []) := by
  by_cases h : payload.length ≤ maxPlaintext
  · refine ⟨_, [], carrying_of_le h, rfl, rfl, ?_, ?_, fun _ => rfl⟩
    · exact (List.take_of_length_le h).symm
    · exact (List.drop_of_length_le h).symm
  · refine ⟨_, _, carrying_of_lt (Nat.not_le.1 h), rfl, rfl, rfl, ?_, fun hle => absurd hle h⟩
    exact flatMap_payload_carrying ..

theorem payload_pos_of_mem_carrying (hp : payload ≠ []) (h : r ∈ carrying type version payload) :
    0 < r.payload.length := by
  have hmax : 0 < maxPlaintext := by decide
  fun_induction carrying type version payload with
  | case1 payload hl =>
    obtain rfl := List.mem_singleton.1 h
    exact List.length_pos_iff.2 hp
  | case2 payload hl ih =>
    rcases List.mem_cons.1 h with rfl | h
    · rw [List.length_take]
      omega
    · apply ih _ h
      intro hdrop
      have := List.drop_eq_nil_iff.1 hdrop
      omega

/-- A payload takes one record for every `maxPlaintext` bytes that it has begun. -/
theorem length_carrying (type : ContentType) (version : Version) (payload : Bytes) :
    (carrying type version payload).length = (payload.length - 1) / maxPlaintext + 1 := by
  fun_induction carrying type version payload with
  | case1 payload hl =>
    have : (payload.length - 1) / maxPlaintext = 0 := by
      apply Nat.div_eq_of_lt
      simp only [maxPlaintext] at hl ⊢
      omega
    rw [this]
    rfl
  | case2 payload hl ih =>
    rw [List.length_cons, ih, List.length_drop]
    simp only [maxPlaintext] at hl ⊢
    omega

theorem handshakeBytes_carrying (version : Version) (payload : Bytes) :
    handshakeBytes (carrying .handshake version payload) = payload := by
  have hf : (carrying .handshake version payload).filter (fun r => r.type = .handshake) =
      carrying .handshake version payload := by
    rw [List.filter_eq_self]
    intro r hr
    simp [(of_mem_carrying hr).1]
  rw [handshakeBytes, hf, flatMap_payload_carrying]

/-- The whole records that `data` starts with. -/
def leading (data : Bytes) : List Record :=
  match _h : first data with
  | .error _ => []
  | .ok (r, rest) => r :: leading rest
termination_by data.length
decreasing_by
  have := first_length _h
  simp only [size, headerLength] at this
  omega

theorem leading_of_first (h : first data = .ok (r, rest)) : leading data = r :: leading rest := by
  rw [leading]
  split <;> simp_all

theorem leading_append (rs : List Record) (rest : Bytes) :
    leading (encodeAll rs ++ rest) = rs ++ leading rest := by
  induction rs with
  | nil => rfl
  | cons r rs ih =>
    rw [leading_of_first (first_eq_ok_iff.2 (by rw [encodeAll_cons, List.append_assoc])), ih,
      List.cons_append]

theorem leading_encodeAll (rs : List Record) : leading (encodeAll rs) = rs := by
  have hn : leading [] = [] := by
    rw [leading]
    rfl
  have h := leading_append rs []
  rwa [List.append_nil, hn, List.append_nil] at h

/-- The handshake bytes in the whole records that a stream starts with. -/
def handshake (stream : Bytes) : Bytes := handshakeBytes (leading stream)

theorem handshake_encodeAll (rs : List Record) : handshake (encodeAll rs) = handshakeBytes rs := by
  rw [handshake, leading_encodeAll]

theorem handshake_nil : handshake [] = [] := handshake_encodeAll []

theorem handshake_encode (r : Record) : handshake r.encode = handshakeBytes [r] := by
  have h := handshake_encodeAll [r]
  rwa [encodeAll_cons, show encodeAll [] = [] from rfl, List.append_nil] at h

theorem handshakeBytes_singleton (h : r.type = .handshake) : handshakeBytes [r] = r.payload := by
  simp [handshakeBytes, h]

end Record

end AlpnOverlay.Wire
