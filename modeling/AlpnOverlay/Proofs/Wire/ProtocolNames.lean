import AlpnOverlay.Proofs.Wire.Grammar
import Mathlib.Algebra.GroupWithZero.Nat

/-!
Lists of protocols and the bytes that stand for them. A list that can be written is read again, and
what can be read is written again, so that writing and reading undo each other; both follow one
grammar.
-/
namespace AlpnOverlay.Wire.ProtocolList

variable {names : List Bytes} {data bytes : Bytes}

/-- Names one behind the other, each behind its own length and none of them empty. -/
inductive Entries : List Bytes → Bytes → Prop where
  | nil : Entries [] []
  | cons {name bytes rest : Bytes} {names : List Bytes} (hp : Prefixed 1 name bytes)
      (hpos : 0 < name.length) (h : Entries names rest) : Entries (name :: names) (bytes ++ rest)

/-- At least one name, behind the length of all of them. -/
inductive Lists (names : List Bytes) : Bytes → Prop where
  | mk {inside bytes : Bytes} (he : Entries names inside) (hne : names ≠ [])
      (hp : Prefixed 2 inside bytes) : Lists names bytes

theorem entries_iff :
    Entries names bytes ↔ (∀ name ∈ names, Fits name) ∧ bytes = entries names := by
  constructor
  · intro h
    induction h with
    | nil => exact ⟨by simp, rfl⟩
    | @cons name bytes rest names hp hpos _ ih =>
      obtain ⟨hnames, rfl⟩ := ih
      obtain ⟨hlt, rfl⟩ := prefixed_iff.1 hp
      refine ⟨?_, (entries_cons name names).symm⟩
      intro other ho
      rcases List.mem_cons.1 ho with rfl | ho
      · exact ⟨hpos, by omega⟩
      · exact hnames other ho
  · rintro ⟨hnames, rfl⟩
    induction names with
    | nil => exact .nil
    | cons name names ih =>
      obtain ⟨⟨hpos, hle⟩, htail⟩ := List.forall_mem_cons.1 hnames
      rw [entries_cons]
      exact .cons (prefixed_iff.2 ⟨by omega, rfl⟩) hpos (ih htail)

/-- What is written is what the grammar derives. -/
theorem lists_iff : Lists names data ↔ encode names = .ok data := by
  rw [encode_eq_ok_iff]
  constructor
  · rintro ⟨he, hne, hp⟩
    obtain ⟨hnames, rfl⟩ := entries_iff.1 he
    obtain ⟨hlt, hdata⟩ := prefixed_iff.1 hp
    refine ⟨hne, hnames, ?_, hdata⟩
    simp only [maxLength16]
    omega
  · rintro ⟨hne, hnames, hle, hdata⟩
    apply Lists.mk (entries_iff.2 ⟨hnames, rfl⟩) hne (prefixed_iff.2 ⟨?_, hdata⟩)
    simp only [maxLength16] at hle
    omega

theorem length_entries (names : List Bytes) :
    (entries names).length = (names.map fun name => 1 + name.length).sum := by
  induction names with
  | nil => rfl
  | cons name names ih =>
    rw [entries_cons, List.length_append, List.length_cons, ih, List.map_cons, List.sum_cons,
      Nat.add_comm 1]

theorem encode_succeeds_iff :
    (∃ bytes, encode names = .ok bytes) ↔
      names ≠ [] ∧ (∀ name ∈ names, 1 ≤ name.length ∧ name.length ≤ 255) ∧
        (names.map fun name => 1 + name.length).sum ≤ 65535 := by
  rw [← length_entries]
  constructor
  · rintro ⟨bytes, he⟩
    obtain ⟨hne, hnames, hle, -⟩ := encode_eq_ok_iff.1 he
    exact ⟨hne, hnames, hle⟩
  · rintro ⟨hne, hnames, hle⟩
    exact ⟨_, encode_eq_ok_iff.2 ⟨hne, hnames, hle, rfl⟩⟩

/-- Data that no list stands behind is malformed. -/
theorem malformed_of_unlisted (h : ∀ names, encode names ≠ .ok data) :
    ∃ fault, decode data = .error (.malformed fault) := by
  cases hd : decode data with
  | ok names => exact absurd (decode_eq_ok_iff.1 hd) (h names)
  | error e =>
    obtain ⟨fault, rfl⟩ := isFault_of_decode hd
    exact ⟨fault, rfl⟩

/-- Exactly the lists of short, non-empty names that fit a 16-bit length can be written, each in the
one way of the grammar. Data is read as the list that it was written for; data that was written for
none is malformed. -/
theorem written_iff_read (names : List Bytes) (data : Bytes) :
    ((∃ bytes, encode names = .ok bytes) ↔
      names ≠ [] ∧ (∀ name ∈ names, 1 ≤ name.length ∧ name.length ≤ 255) ∧
        (names.map fun name => 1 + name.length).sum ≤ 65535) ∧
    (encode names = .ok data ↔ decode data = .ok names) ∧
    (encode names = .ok data ↔ Lists names data) ∧
    ((∀ names, encode names ≠ .ok data) → ∃ fault, decode data = .error (.malformed fault)) :=
  ⟨encode_succeeds_iff, decode_eq_ok_iff.symm, lists_iff.symm, malformed_of_unlisted⟩

/-- Two names are read back from what they are written as, and a byte behind a list that its length
does not count makes it malformed. -/
theorem written_iff_read_h2 :
    decode [0, 12, 2, 0x68, 0x32, 8, 0x68, 0x74, 0x74, 0x70, 0x2f, 0x31, 0x2e, 0x31] =
        .ok [utf8 "h2", utf8 "http/1.1"] ∧
      ∃ fault, decode [0, 3, 2, 0x68, 0x32, 0] = .error (.malformed fault) := by
  obtain ⟨-, hread, -, -⟩ := written_iff_read [utf8 "h2", utf8 "http/1.1"]
    [0, 12, 2, 0x68, 0x32, 8, 0x68, 0x74, 0x74, 0x70, 0x2f, 0x31, 0x2e, 0x31]
  refine ⟨hread.1 rfl, ?_⟩
  obtain ⟨-, -, -, hmalformed⟩ := written_iff_read [] [0, 3, 2, 0x68, 0x32, 0]
  apply hmalformed
  intro names he
  obtain ⟨-, -, hlists, -⟩ := written_iff_read names [0, 3, 2, 0x68, 0x32, 0]
  obtain @⟨inside, _, -, -, hp⟩ := hlists.1 he
  obtain ⟨-, hdata⟩ := prefixed_iff.1 hp
  -- Four bytes stand behind the length, which says that there are three.
  have hinside : inside.length = 4 := by
    have hlength := congrArg List.length hdata
    simp only [List.length_append, BigEndian.length_encode, List.length_cons,
      List.length_nil] at hlength
    omega
  rw [hinside] at hdata
  cases hdata

end AlpnOverlay.Wire.ProtocolList
