import AlpnOverlay.Proofs.Wire.Numbers
import AlpnOverlay.Wire.Extension
import AlpnOverlay.Wire.ProtocolList

/-!
Reading undoes writing, and nothing else is read: a reader accepts exactly the written forms of its
results and leaves what stands behind them.
-/
namespace AlpnOverlay.Wire

/-- The cursor moved over `bytes`. -/
def Cursor.Passes (c d : Cursor) (bytes : Bytes) : Prop :=
  c.rest = bytes ++ d.rest ∧ d.position = c.position + bytes.length

variable {α β : Type} {c d e : Cursor} {xs ys : Bytes} {width count : Nat} {field : String}

theorem Cursor.passes_append_iff :
    c.Passes e (xs ++ ys) ↔ ∃ d, c.Passes d xs ∧ d.Passes e ys := by
  constructor
  · rintro ⟨hr, hp⟩
    refine ⟨⟨c.position + xs.length, ys ++ e.rest⟩, ⟨?_, rfl⟩, rfl, ?_⟩
    · rw [hr, List.append_assoc]
    · rw [hp, List.length_append, Nat.add_assoc]
  · rintro ⟨d, ⟨hr, hp⟩, hr', hp'⟩
    refine ⟨?_, ?_⟩
    · rw [hr, hr', List.append_assoc]
    · rw [hp', hp, List.length_append, Nat.add_assoc]

theorem Cursor.passes_nil_iff : c.Passes d [] ↔ d = c := by
  constructor
  · rintro ⟨hr, hp⟩
    cases c
    cases d
    simp_all
  · rintro rfl
    exact ⟨rfl, rfl⟩

theorem Cursor.passes_rest (c : Cursor) : c.Passes ⟨c.position + c.rest.length, []⟩ c.rest :=
  ⟨(List.append_nil _).symm, rfl⟩

namespace Read

theorem bind_eq_ok_iff {x : Read α} {f : α → Read β} {b : β} :
    (x >>= f) c = .ok b e ↔ ∃ a d, x c = .ok a d ∧ f a d = .ok b e := by
  simp only [bind, EStateM.bind]
  cases x c with
  | ok a d =>
    constructor
    · intro h
      exact ⟨a, d, rfl, h⟩
    · rintro ⟨_, _, ha, h⟩
      cases ha
      exact h
  | error f d => simp

theorem pure_eq_ok_iff {a b : α} : (pure a : Read α) c = .ok b d ↔ a = b ∧ c = d := by
  simp [pure, EStateM.pure]

theorem fault_ne_ok {f : Fault} {a : α} : (fault f : Read α) c ≠ .ok a d := by
  intro h
  have he : (fault f : Read α) c = .error (.malformed f) c := rfl
  cases he.symm.trans h

theorem take_eq_ok_iff : take count field c = .ok xs d ↔ xs.length = count ∧ c.Passes d xs := by
  unfold take Cursor.Passes
  constructor
  · intro h
    split at h
    · rename_i hl
      cases h
      exact ⟨hl, (List.take_append_drop ..).symm, by simp only [hl]⟩
    · cases h
  · rintro ⟨rfl, hr, hp⟩
    have ht : c.rest.take xs.length = xs := by rw [hr, List.take_left]
    have hd : c.rest.drop xs.length = d.rest := by rw [hr, List.drop_left]
    rw [if_pos (by rw [ht]), ht, hd, ← hp]

theorem byte_eq_ok_iff {b : UInt8} : byte field c = .ok b d ↔ c.Passes d [b] := by
  obtain ⟨p, rest⟩ := c
  obtain ⟨q, rest'⟩ := d
  cases rest with
  | nil => simp [byte, Cursor.Passes]
  | cons x rest =>
    simp only [byte, Cursor.Passes, EStateM.Result.ok.injEq, Cursor.mk.injEq, List.singleton_append,
      List.cons.injEq, List.length_singleton]
    constructor
    · rintro ⟨rfl, rfl, rfl⟩
      exact ⟨⟨rfl, rfl⟩, rfl⟩
    · rintro ⟨⟨rfl, rfl⟩, rfl⟩
      exact ⟨rfl, rfl, rfl⟩

theorem number_eq_ok_iff {n : Nat} :
    number width field c = .ok n d ↔ n < 256 ^ width ∧ c.Passes d (BigEndian.encode width n) := by
  simp only [number, bind_eq_ok_iff, pure_eq_ok_iff, take_eq_ok_iff]
  constructor
  · rintro ⟨bytes, d, ⟨rfl, hp⟩, rfl, rfl⟩
    exact ⟨BigEndian.decode_lt bytes, by rwa [BigEndian.encode_decode]⟩
  · rintro ⟨hn, hp⟩
    exact ⟨_, d, ⟨BigEndian.length_encode .., hp⟩, BigEndian.decode_encode hn, rfl⟩

theorem vector_eq_ok_iff :
    vector width field c = .ok xs d ↔
      xs.length < 256 ^ width ∧ c.Passes d (BigEndian.encode width xs.length ++ xs) := by
  simp only [vector, bind_eq_ok_iff, number_eq_ok_iff, take_eq_ok_iff, Cursor.passes_append_iff]
  constructor
  · rintro ⟨_, e, ⟨hn, hp⟩, rfl, hp'⟩
    exact ⟨hn, e, hp, hp'⟩
  · rintro ⟨hn, e, hp, hp'⟩
    exact ⟨_, e, ⟨hn, hp⟩, rfl, hp'⟩

theorem isEmpty_eq_ok_iff {b : Bool} : isEmpty c = .ok b d ↔ c.isEmpty = b ∧ c = d := by
  have hr : isEmpty c = .ok c.isEmpty c := rfl
  rw [hr, EStateM.Result.ok.injEq]

theorem rest_eq_ok_iff : rest c = .ok xs d ↔ c.rest = xs ∧ c = d := by
  have hr : rest c = .ok c.rest c := rfl
  rw [hr, EStateM.Result.ok.injEq]

theorem on_eq_ok_iff {data : Bytes} {x : Read α} {a : α} :
    on data x = .ok a ↔ ∃ d, x (Cursor.start data) = .ok a d := by
  unfold on
  cases x (Cursor.start data) <;> simp

end Read

theorem Cursor.isEmpty_iff : c.isEmpty = true ↔ c.rest = [] := by
  simp [Cursor.isEmpty]

namespace Extension

variable {x : Extension} {es : List Extension}

theorem length_encode (x : Extension) : x.encode.length = x.size := by
  simp only [encode, size, List.length_append, BigEndian.length_encode]

theorem encodeAll_cons (x : Extension) (es : List Extension) :
    encodeAll (x :: es) = x.encode ++ encodeAll es := List.flatMap_cons

theorem encodeAll_append (xs ys : List Extension) :
    encodeAll (xs ++ ys) = encodeAll xs ++ encodeAll ys := List.flatMap_append

theorem length_filter_le (keep : Extension → Bool) (es : List Extension) :
    (encodeAll (es.filter keep)).length ≤ (encodeAll es).length := by
  induction es with
  | nil => exact Nat.le_refl _
  | cons x es ih =>
    simp only [List.filter_cons]
    split <;> simp only [encodeAll_cons, List.length_append] <;> omega

theorem length_filter_add_size_le {keep : Extension → Bool} (hx : x ∈ es) (hk : keep x = false) :
    (encodeAll (es.filter keep)).length + x.size ≤ (encodeAll es).length := by
  induction es with
  | nil => cases hx
  | cons y es ih =>
    have hle := length_filter_le keep es
    rcases List.mem_cons.1 hx with rfl | hx
    · simp only [List.filter_cons, hk, Bool.false_eq_true, if_false, encodeAll_cons,
        List.length_append, length_encode]
      omega
    · have := ih hx
      simp only [List.filter_cons]
      split <;> simp only [encodeAll_cons, List.length_append] <;> omega

theorem size_le_of_mem (h : x ∈ es) : x.size ≤ (encodeAll es).length := by
  induction es with
  | nil => cases h
  | cons y es ih =>
    rw [encodeAll_cons, List.length_append, length_encode]
    rcases List.mem_cons.1 h with rfl | h
    · omega
    · have := ih h
      omega

theorem read_eq_ok_iff : read c = .ok x d ↔ x.data.length ≤ maxLength16 ∧ c.Passes d x.encode := by
  have hm : ∀ n, n < 256 ^ 2 ↔ n ≤ maxLength16 := by
    intro n
    simp only [maxLength16]
    omega
  simp only [read, Read.bind_eq_ok_iff, Read.number_eq_ok_iff, Read.vector_eq_ok_iff,
    Read.pure_eq_ok_iff, hm]
  constructor
  · rintro ⟨type, e, ⟨ht, hp⟩, data, d, ⟨hd, hp'⟩, rfl, rfl⟩
    refine ⟨hd, ?_⟩
    have : (UInt16.ofNat type).toNat = type := by
      rw [UInt16.toNat_ofNat']
      simp only [maxLength16] at ht
      omega
    simp only [encode, this, List.append_assoc]
    exact Cursor.passes_append_iff.2 ⟨e, hp, hp'⟩
  · rintro ⟨hd, hp⟩
    simp only [encode, List.append_assoc] at hp
    obtain ⟨e, hp, hp'⟩ := Cursor.passes_append_iff.1 hp
    have ht : x.type.toNat ≤ maxLength16 := by
      have := x.type.toNat_lt
      simp only [maxLength16]
      omega
    exact ⟨_, e, ⟨ht, hp⟩, x.data, d, ⟨hd, hp'⟩, by rw [UInt16.ofNat_toNat], rfl⟩

theorem readAll_encodeAll (hs : ∀ x ∈ es, x.data.length ≤ maxLength16)
    (hc : c.rest = encodeAll es) : readAll c = .ok es := by
  induction es generalizing c with
  | nil => rw [readAll, if_pos (Cursor.isEmpty_iff.2 hc)]
  | cons x es ih =>
    have hne : ¬ c.isEmpty = true := by
      simp [Cursor.isEmpty_iff, hc, encodeAll_cons, encode, BigEndian.encode]
    have hr : read c = .ok x ⟨c.position + x.encode.length, encodeAll es⟩ :=
      read_eq_ok_iff.2 ⟨hs x (List.mem_cons_self ..), hc, rfl⟩
    have ht := ih (c := ⟨c.position + x.encode.length, encodeAll es⟩)
      (fun y hy => hs y (List.mem_cons_of_mem _ hy)) rfl
    rw [readAll, if_neg hne]
    split <;> simp_all

theorem encodeAll_of_readAll (h : readAll c = .ok es) :
    (∀ x ∈ es, x.data.length ≤ maxLength16) ∧ c.rest = encodeAll es := by
  fun_induction readAll c generalizing es with
  | case1 c hc =>
    cases h
    exact ⟨by simp, Cursor.isEmpty_iff.1 hc⟩
  | case2 => cases h
  | case3 => cases h
  | case4 c _ x d hr rest ht ih =>
    cases h
    obtain ⟨hx, hp, -⟩ := read_eq_ok_iff.1 hr
    obtain ⟨hs, he⟩ := ih ht
    refine ⟨?_, by rw [hp, he, encodeAll_cons]⟩
    intro y hy
    rcases List.mem_cons.1 hy with rfl | hy
    · exact hx
    · exact hs y hy

theorem parseAll_eq_ok_iff {block : Bytes} :
    parseAll block = .ok es ↔ (∀ x ∈ es, x.data.length ≤ maxLength16) ∧ block = encodeAll es :=
  ⟨encodeAll_of_readAll, fun h => readAll_encodeAll h.1 h.2⟩

end Extension

namespace ProtocolList

variable {name data bytes : Bytes} {names : List Bytes}

/-- A name that its 8-bit length can announce. -/
def Fits (name : Bytes) : Prop := 0 < name.length ∧ name.length ≤ 255

/-- The names of a list, each behind its length. -/
def entries (names : List Bytes) : Bytes :=
  names.flatMap fun name => UInt8.ofNat name.length :: name

theorem entries_cons (name : Bytes) (names : List Bytes) :
    entries (name :: names) = UInt8.ofNat name.length :: name ++ entries names := List.flatMap_cons

theorem encodeName_eq_ok_iff :
    encodeName name = .ok bytes ↔ Fits name ∧ bytes = UInt8.ofNat name.length :: name := by
  unfold encodeName Fits
  constructor
  · intro h
    split at h
    · cases h
    · split at h
      · cases h
      · rename_i hle hne
        cases h
        refine ⟨⟨?_, by omega⟩, rfl⟩
        cases name with
        | nil => exact (hne rfl).elim
        | cons => exact Nat.zero_lt_succ _
  · rintro ⟨⟨hpos, hle⟩, rfl⟩
    cases name with
    | nil => cases hpos
    | cons b name => rw [if_neg (by omega), if_neg (by simp)]

theorem encodeNames_eq_ok_iff :
    encodeNames names = .ok bytes ↔ (∀ name ∈ names, Fits name) ∧ bytes = entries names := by
  induction names generalizing bytes with
  | nil => simp [encodeNames, entries, eq_comm]
  | cons name names ih =>
    rw [encodeNames]
    constructor
    · intro h
      split at h
      · cases h
      · rename_i first hf
        split at h
        · cases h
        · rename_i more hm
          cases h
          obtain ⟨hn, rfl⟩ := encodeName_eq_ok_iff.1 hf
          obtain ⟨hns, rfl⟩ := ih.1 hm
          refine ⟨?_, (entries_cons ..).symm⟩
          intro n h
          rcases List.mem_cons.1 h with rfl | h
          · exact hn
          · exact hns n h
    · rintro ⟨hn, rfl⟩
      have hf := encodeName_eq_ok_iff.2 ⟨hn name (List.mem_cons_self ..), rfl⟩
      have hm := ih.2 ⟨fun n h => hn n (List.mem_cons_of_mem _ h), rfl⟩
      rw [hf, hm, entries_cons]

theorem encode_eq_ok_iff :
    encode names = .ok bytes ↔
      names ≠ [] ∧ (∀ name ∈ names, Fits name) ∧ (entries names).length ≤ maxLength16 ∧
        bytes = BigEndian.encode 2 (entries names).length ++ entries names := by
  unfold encode
  cases names with
  | nil => simp
  | cons name names =>
    simp only [List.isEmpty_cons, Bool.false_eq_true, if_false, ne_eq, reduceCtorEq,
      not_false_eq_true, true_and]
    constructor
    · intro h
      split at h
      · cases h
      · rename_i list hl
        obtain ⟨hn, rfl⟩ := encodeNames_eq_ok_iff.1 hl
        split at h
        · rename_i hle
          cases h
          exact ⟨hn, hle, rfl⟩
        · cases h
    · rintro ⟨hn, hle, rfl⟩
      rw [encodeNames_eq_ok_iff.2 ⟨hn, rfl⟩]
      exact if_pos hle

theorem readName_eq_ok_iff :
    readName c = .ok name d ↔
      Fits name ∧ c.Passes d (UInt8.ofNat name.length :: name) := by
  simp only [readName, Read.bind_eq_ok_iff, Read.vector_eq_ok_iff, Fits]
  constructor
  · rintro ⟨bytes, e, ⟨hl, hp⟩, h⟩
    split at h
    · cases Read.fault_ne_ok h
    · rename_i hne
      obtain ⟨rfl, rfl⟩ := Read.pure_eq_ok_iff.1 h
      refine ⟨⟨?_, by omega⟩, hp⟩
      cases bytes with
      | nil => simp at hne
      | cons => simp
  · rintro ⟨⟨hpos, hle⟩, hp⟩
    refine ⟨name, d, ⟨by omega, hp⟩, ?_⟩
    cases name with
    | nil => simp at hpos
    | cons => exact Read.pure_eq_ok_iff.2 ⟨rfl, rfl⟩

theorem readNames_entries (hn : ∀ name ∈ names, Fits name) (hc : c.rest = entries names) :
    readNames c = .ok names := by
  induction names generalizing c with
  | nil => rw [readNames, if_pos (Cursor.isEmpty_iff.2 hc)]
  | cons name names ih =>
    have hne : ¬ c.isEmpty = true := by simp [Cursor.isEmpty_iff, hc, entries_cons]
    have hr : readName c = .ok name ⟨c.position + (name.length + 1), entries names⟩ :=
      readName_eq_ok_iff.2 ⟨hn name (List.mem_cons_self ..), hc, rfl⟩
    have ht := ih (c := ⟨c.position + (name.length + 1), entries names⟩)
      (fun n h => hn n (List.mem_cons_of_mem _ h)) rfl
    rw [readNames, if_neg hne]
    split <;> simp_all

theorem entries_of_readNames (h : readNames c = .ok names) :
    (∀ name ∈ names, Fits name) ∧ c.rest = entries names := by
  fun_induction readNames c generalizing names with
  | case1 c hc =>
    cases h
    exact ⟨by simp, Cursor.isEmpty_iff.1 hc⟩
  | case2 => cases h
  | case3 => cases h
  | case4 c _ name d hr rest ht ih =>
    cases h
    obtain ⟨hn, hp, -⟩ := readName_eq_ok_iff.1 hr
    obtain ⟨hns, he⟩ := ih ht
    refine ⟨?_, by rw [hp, he, entries_cons]⟩
    intro n h
    rcases List.mem_cons.1 h with rfl | h
    · exact hn
    · exact hns n h

theorem readList_on_eq_ok_iff :
    Read.on data readList = .ok bytes ↔
      bytes.length ≤ maxLength16 ∧ data = BigEndian.encode 2 bytes.length ++ bytes := by
  simp only [Read.on_eq_ok_iff, readList, Read.bind_eq_ok_iff, Read.vector_eq_ok_iff,
    Read.isEmpty_eq_ok_iff]
  constructor
  · rintro ⟨d, list, e, ⟨hl, hp, -⟩, b, e', ⟨hb, rfl⟩, h⟩
    split at h
    · rename_i he
      obtain ⟨rfl, rfl⟩ := Read.pure_eq_ok_iff.1 h
      rw [he, Cursor.isEmpty_iff] at hb
      rw [hb, List.append_nil] at hp
      exact ⟨by simp only [maxLength16]; omega, hp⟩
    · cases Read.fault_ne_ok h
  · rintro ⟨hl, rfl⟩
    exact ⟨_, bytes, _, ⟨by simp only [maxLength16] at hl; omega, Cursor.passes_rest _⟩, true, _,
      ⟨rfl, rfl⟩, Read.pure_eq_ok_iff.2 ⟨rfl, rfl⟩⟩

/-- Exactly the written lists are read, each back to its names. -/
theorem decode_eq_ok_iff : decode data = .ok names ↔ encode names = .ok data := by
  rw [encode_eq_ok_iff]
  unfold decode
  constructor
  · intro h
    split at h
    · cases h
    · rename_i list hl
      obtain ⟨hle, rfl⟩ := readList_on_eq_ok_iff.1 hl
      split at h
      · cases h
      · cases h
      · rename_i names' hne hr
        cases h
        obtain ⟨hn, he⟩ := entries_of_readNames hr
        simp only [Cursor.start] at he
        subst he
        exact ⟨hne, hn, hle, rfl⟩
  · rintro ⟨hne, hn, hle, rfl⟩
    rw [readList_on_eq_ok_iff.2 ⟨hle, rfl⟩]
    have hr := readNames_entries (c := Cursor.start (entries names)) hn rfl
    cases names with
    | nil => exact (hne rfl).elim
    | cons => simp only [hr]

/-- A list of one name: two lengths and the name. -/
theorem length_of_decode (h : decode data = .ok [name]) :
    data.length = 3 + name.length ∧ 0 < name.length := by
  obtain ⟨-, hf, -, rfl⟩ := encode_eq_ok_iff.1 (decode_eq_ok_iff.1 h)
  have he : entries [name] = UInt8.ofNat name.length :: name := List.append_nil _
  refine ⟨?_, (hf name List.mem_cons_self).1⟩
  rw [he, List.length_append, BigEndian.length_encode, List.length_cons]
  omega

end ProtocolList
end AlpnOverlay.Wire
