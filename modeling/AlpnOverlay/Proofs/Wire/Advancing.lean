import AlpnOverlay.Proofs.Wire.Reading

/-!
Where a cursor stands after any reads, failed ones among them. It only moves forward and never
beyond its bytes, and what it has passed is what was read; so a loop that reads while bytes are left
comes to an end.
-/
namespace AlpnOverlay.Wire

/-- The bytes of `data` from one position to another. -/
def between (data : Bytes) (first last : Nat) : Bytes := (data.take last).drop first

/-- The kinds of reads. -/
inductive Reading where
  | take (count : Nat)
  | byte
  | number (width : Nat)
  | vector (width : Nat)
  deriving DecidableEq

namespace Reading

inductive Value where
  | bytes (bytes : Bytes)
  | number (n : Nat)
  deriving DecidableEq

def read (field : String) : Reading → Read Value
  | take count => return .bytes (← Read.take count field)
  | byte => return .number (← Read.byte field).toNat
  | number width => return .number (← Read.number width field)
  | vector width => return .bytes (← Read.vector width field)

/-- The bytes that have to be there before anything is read. -/
def head : Reading → Nat
  | take count => count
  | byte => 1
  | number width => width
  | vector width => width

/-- What a read gives for the bytes that it has passed. -/
def Gives (passed : Bytes) (v : Value) : Reading → Prop
  | take count => passed.length = count ∧ v = .bytes passed
  | byte => passed.length = 1 ∧ v = .number (BigEndian.decode passed)
  | number width => passed.length = width ∧ v = .number (BigEndian.decode passed)
  | vector width => passed.length = width + BigEndian.decode (passed.take width) ∧
      v = .bytes (passed.drop width)

/-- The ways in which a read ends. -/
inductive Ends (field : String) (c : Cursor) (r : Reading) :
    EStateM.Result Error Cursor Value → Prop where
  | passes {passed : Bytes} {v : Value} {d : Cursor} (hp : c.Passes d passed)
      (hg : r.Gives passed v) : Ends field c r (.ok v d)
  | stays (hs : c.remaining < r.head) :
      Ends field c r (.error (.malformed (.short field r.head c.remaining)) c)
  /-- The number in front of a vector is read, and is greater than what is left behind it. -/
  | stops {width : Nat} {written : Bytes} {d : Cursor} (hr : r = .vector width)
      (hw : written.length = width) (hp : c.Passes d written)
      (hs : d.remaining < BigEndian.decode written) :
      Ends field c r
        (.error (.malformed (.short field (BigEndian.decode written) d.remaining)) d)

end Reading

namespace Read

variable {count width : Nat} {field : String}

theorem take_cases (count : Nat) (field : String) (c : Cursor) :
    (∃ bytes d, take count field c = .ok bytes d ∧ bytes.length = count ∧ c.Passes d bytes) ∨
    (take count field c = .error (.malformed (.short field count c.remaining)) c ∧
      c.remaining < count) := by
  by_cases h : (c.rest.take count).length = count
  · refine .inl ⟨_, _, if_pos h, h, (List.take_append_drop ..).symm, ?_⟩
    rw [h]
  · refine .inr ⟨if_neg h, ?_⟩
    rw [List.length_take] at h
    simp only [Cursor.remaining]
    omega

theorem number_cases (width : Nat) (field : String) (c : Cursor) :
    (∃ bytes d, number width field c = .ok (BigEndian.decode bytes) d ∧ bytes.length = width ∧
      c.Passes d bytes) ∨
    (number width field c = .error (.malformed (.short field width c.remaining)) c ∧
      c.remaining < width) := by
  rcases take_cases width field c with ⟨bytes, d, ht, hl, hp⟩ | ⟨ht, hs⟩
  · refine .inl ⟨bytes, d, ?_, hl, hp⟩
    simp only [number, bind, EStateM.bind, ht]
    rfl
  · refine .inr ⟨?_, hs⟩
    simp only [number, bind, EStateM.bind, ht]

end Read

namespace Reading

variable {field : String} {c d : Cursor} {r : Reading}

theorem ends_byte (field : String) (c : Cursor) : byte.Ends field c (byte.read field c) := by
  obtain ⟨position, rest⟩ := c
  cases rest with
  | nil => exact .stays Nat.zero_lt_one
  | cons b rest =>
    have hdecode : BigEndian.decode [b] = b.toNat := Nat.zero_add b.toNat
    have hp : Cursor.Passes ⟨position, b :: rest⟩ ⟨position + 1, rest⟩ [b] := ⟨rfl, rfl⟩
    exact .passes hp ⟨rfl, by rw [hdecode]⟩

theorem ends_vector (width : Nat) (field : String) (c : Cursor) :
    (vector width).Ends field c ((vector width).read field c) := by
  simp only [read, Read.vector, bind, EStateM.bind]
  rcases Read.number_cases width field c with ⟨written, d, hn, hw, hp⟩ | ⟨hn, hs⟩
  · simp only [hn]
    rcases Read.take_cases (BigEndian.decode written) field d with
      ⟨bytes, e, ht, hl, hp'⟩ | ⟨ht, hs⟩
    · simp only [ht]
      refine .passes (Cursor.passes_append_iff.2 ⟨d, hp, hp'⟩) ⟨?_, ?_⟩
      · rw [List.take_left' hw, List.length_append, hw, hl]
      · rw [List.drop_left' hw]
    · simp only [ht]
      exact .stops rfl hw hp hs
  · simp only [hn]
    exact .stays hs

theorem ends_read (field : String) (c : Cursor) (r : Reading) :
    r.Ends field c (r.read field c) := by
  cases r with
  | take count =>
    simp only [read, bind, EStateM.bind]
    rcases Read.take_cases count field c with ⟨bytes, d, ht, hl, hp⟩ | ⟨ht, hs⟩
    · simp only [ht]
      exact .passes hp ⟨hl, rfl⟩
    · simp only [ht]
      exact .stays hs
  | byte => exact ends_byte field c
  | number width =>
    simp only [read, bind, EStateM.bind]
    rcases Read.number_cases width field c with ⟨bytes, d, hn, hl, hp⟩ | ⟨hn, hs⟩
    · simp only [hn]
      exact .passes hp ⟨hl, rfl⟩
    · simp only [hn]
      exact .stays hs
  | vector width => exact ends_vector width field c

end Reading

namespace Cursor

variable {data passed : Bytes} {c d : Cursor} {r : Reading} {field : String}

/-- A cursor somewhere in `data`. -/
structure Within (data : Bytes) (c : Cursor) : Prop where
  rest : c.rest = data.drop c.position
  position : c.position + c.remaining = data.length

theorem within_start (data : Bytes) : Within data (start data) := ⟨rfl, Nat.zero_add _⟩

theorem Within.passes (hc : Within data c) (hp : c.Passes d passed) :
    Within data d ∧ passed = between data c.position d.position := by
  obtain ⟨hrest, hposition⟩ := hp
  have hd : d.rest = data.drop d.position := by
    rw [hposition, ← List.drop_drop, ← hc.rest, hrest, List.drop_left]
  refine ⟨⟨hd, ?_⟩, ?_⟩
  · have hlength := congrArg List.length hrest
    have hin := hc.position
    simp only [remaining, List.length_append] at *
    omega
  · rw [between, List.drop_take, ← hc.rest, hrest, hposition, Nat.add_sub_cancel_left,
      List.take_left]

theorem Within.position_le (hc : Within data c) : c.position ≤ data.length :=
  hc.position ▸ Nat.le_add_right ..

theorem Within.gives {v : Reading.Value} (hc : Within data c) (h : r.read field c = .ok v d) :
    c.position ≤ d.position ∧ d.position ≤ data.length ∧
      r.Gives (between data c.position d.position) v := by
  have he := r.ends_read field c
  rw [h] at he
  cases he with
  | passes hp hg =>
    obtain ⟨hd, hpassed⟩ := hc.passes hp
    exact ⟨hp.2 ▸ Nat.le_add_right .., hd.position_le, hpassed ▸ hg⟩

theorem Within.fails {e : Error} (hc : Within data c) (h : r.read field c = .error e d) :
    d = c ∧ c.remaining < r.head ∧ e = .malformed (.short field r.head c.remaining) ∨
    ∃ width announced, r = .vector width ∧
      d.position = c.position + width ∧ d.position ≤ data.length ∧
      announced = BigEndian.decode (between data c.position d.position) ∧
      d.remaining < announced ∧ e = .malformed (.short field announced d.remaining) := by
  have he := r.ends_read field c
  rw [h] at he
  cases he with
  | stays hs => exact .inl ⟨rfl, hs, rfl⟩
  | @stops width written _ hr hw hp hs =>
    obtain ⟨hd, hpassed⟩ := hc.passes hp
    exact .inr ⟨width, _, hr, hw ▸ hp.2, hd.position_le, hpassed ▸ rfl, hs, rfl⟩

/-- The cursor that a read leaves, whether it succeeds or not. -/
def left {α : Type} : EStateM.Result Error Cursor α → Cursor
  | .ok _ d => d
  | .error _ d => d

/-- The cursor after a number of reads, with all of them tried. -/
def after (c : Cursor) : List (Reading × String) → Cursor
  | [] => c
  | (r, field) :: reads => after (left (r.read field c)) reads

theorem after_append (c : Cursor) (before more : List (Reading × String)) :
    c.after (before ++ more) = (c.after before).after more := by
  induction before generalizing c with
  | nil => rfl
  | cons entry before ih => exact ih _

/-- A read leaves the cursor in its bytes, and nowhere in front of where it was. -/
theorem Within.left (hc : Within data c) (r : Reading) (field : String) :
    Within data (left (r.read field c)) ∧ c.position ≤ (left (r.read field c)).position := by
  have he := r.ends_read field c
  generalize r.read field c = result at he
  cases he with
  | passes hp => exact ⟨(hc.passes hp).1, hp.2 ▸ Nat.le_add_right ..⟩
  | stays => exact ⟨hc, Nat.le_refl _⟩
  | stops _ _ hp => exact ⟨(hc.passes hp).1, hp.2 ▸ Nat.le_add_right ..⟩

theorem Within.after (hc : Within data c) (reads : List (Reading × String)) :
    Within data (c.after reads) ∧ c.position ≤ (c.after reads).position := by
  induction reads generalizing c with
  | nil => exact ⟨hc, Nat.le_refl _⟩
  | cons entry reads ih =>
    obtain ⟨hnext, hle⟩ := hc.left entry.1 entry.2
    obtain ⟨hlast, hle'⟩ := ih hnext
    exact ⟨hlast, Nat.le_trans hle hle'⟩

end Cursor

namespace Read

variable {α : Type}

/-- Reads on while bytes are left, for at most a number of rounds. -/
def whileLeft (read : Read α) : (rounds : Nat) → Cursor → Option (Except Error (List α))
  | 0, c => if c.isEmpty then some (.ok []) else none
  | rounds + 1, c =>
    if c.isEmpty then some (.ok [])
    else
      match read c with
      | .error e _ => some (.error e)
      | .ok a d => (whileLeft read rounds d).map fun more => more.map (a :: ·)

/-- A loop whose every round passes `least` bytes ends when these bytes are used up. -/
theorem whileLeft_ends {read : Read α} {whole : Cursor → Except Error (List α)} {least : Nat}
    (hread : ∀ {c a d}, read c = .ok a d → d.remaining + least ≤ c.remaining)
    (hnil : ∀ {c}, c.isEmpty = true → whole c = .ok [])
    (herror : ∀ {c e d}, c.isEmpty = false → read c = .error e d → whole c = .error e)
    (hcons : ∀ {c a d}, c.isEmpty = false → read c = .ok a d → whole c = (whole d).map (a :: ·))
    {rounds : Nat} {c : Cursor} (hr : c.remaining ≤ least * rounds) :
    whileLeft read rounds c = some (whole c) := by
  induction rounds generalizing c with
  | zero =>
    have hempty : c.isEmpty = true := by
      rw [Cursor.isEmpty_iff]
      exact List.length_eq_zero_iff.1 (Nat.le_zero.1 hr)
    rw [whileLeft, if_pos hempty, hnil hempty]
  | succ rounds ih =>
    rw [whileLeft]
    cases hc : c.isEmpty with
    | true => rw [if_pos rfl, hnil hc]
    | false =>
      rw [if_neg Bool.false_ne_true]
      cases hstep : read c with
      | error e d => exact congrArg some (herror hc hstep).symm
      | ok a d =>
        have hle := hread hstep
        rw [Nat.mul_add_one] at hr
        simp only [ih (show d.remaining ≤ least * rounds by omega), Option.map_some, hcons hc hstep]

end Read

namespace Cursor

variable {c d : Cursor} {passed : Bytes}

theorem Passes.remaining_eq (hp : c.Passes d passed) :
    c.remaining = passed.length + d.remaining := by
  rw [remaining, hp.1, List.length_append]
  rfl

end Cursor

namespace Extension

variable {c d : Cursor} {x : Extension} {e : Error}

theorem readAll_of_error (hc : c.isEmpty = false) (hr : read c = .error e d) :
    readAll c = .error e := by
  rw [readAll, if_neg (by rw [hc]; exact Bool.false_ne_true)]
  split <;> simp_all

theorem readAll_of_ok (hc : c.isEmpty = false) (hr : read c = .ok x d) :
    readAll c = (readAll d).map (x :: ·) := by
  rw [readAll, if_neg (by rw [hc]; exact Bool.false_ne_true)]
  split
  · simp_all
  · rename_i y d' hread
    cases hr.symm.trans hread
    cases readAll d <;> rfl

/-- Every round of the loop passes the four bytes of a type and a length, and the data. -/
theorem readAll_ends {rounds : Nat} (hr : c.remaining ≤ 4 * rounds) :
    Read.whileLeft read rounds c = some (readAll c) := by
  apply Read.whileLeft_ends ?_ ?_ readAll_of_error readAll_of_ok hr
  · intro c x d hread
    rw [(read_eq_ok_iff.1 hread).2.remaining_eq, length_encode, size]
    omega
  · intro c hc
    rw [readAll, if_pos hc]

end Extension

namespace ProtocolList

variable {c d : Cursor} {name : Bytes} {e : Error}

theorem readNames_of_error (hc : c.isEmpty = false) (hr : readName c = .error e d) :
    readNames c = .error e := by
  rw [readNames, if_neg (by rw [hc]; exact Bool.false_ne_true)]
  split <;> simp_all

theorem readNames_of_ok (hc : c.isEmpty = false) (hr : readName c = .ok name d) :
    readNames c = (readNames d).map (name :: ·) := by
  rw [readNames, if_neg (by rw [hc]; exact Bool.false_ne_true)]
  split
  · simp_all
  · rename_i y d' hread
    cases hr.symm.trans hread
    cases readNames d <;> rfl

/-- Every round of the loop passes a length and at least one byte of a name. -/
theorem readNames_ends {rounds : Nat} (hr : c.remaining ≤ 2 * rounds) :
    Read.whileLeft readName rounds c = some (readNames c) := by
  apply Read.whileLeft_ends ?_ ?_ readNames_of_error readNames_of_ok hr
  · intro c name d hread
    obtain ⟨⟨hpos, -⟩, hp⟩ := readName_eq_ok_iff.1 hread
    rw [hp.remaining_eq, List.length_cons]
    omega
  · intro c hc
    rw [readNames, if_pos hc]

end ProtocolList

open Cursor in
/-- After any reads, failed ones among them, a cursor stands in its bytes with the rest of them in
front of it, and later reads move it only forward. A read that succeeds gives what the bytes say
that it has passed. One that fails leaves the cursor where it was, unless it is a vector whose
number could be read; then it stands behind the number. The loops over extensions and over names
advance with every round, so that they end after a quarter and after half as many rounds as there
are bytes, if not before. -/
theorem cursor_stays_in_bytes (data : Bytes) (before : List (Reading × String)) (r : Reading)
    (field : String) :
    let c := (start data).after before
    (c.rest = data.drop c.position ∧ c.position + c.remaining = data.length) ∧
    (∀ more, c.position ≤ ((start data).after (before ++ more)).position) ∧
    (∀ v d, r.read field c = .ok v d →
      c.position ≤ d.position ∧ d.position ≤ data.length ∧
        r.Gives (between data c.position d.position) v) ∧
    (∀ e d, r.read field c = .error e d →
      d = c ∧ c.remaining < r.head ∧ e = .malformed (.short field r.head c.remaining) ∨
      ∃ width announced, r = .vector width ∧
        d.position = c.position + width ∧ d.position ≤ data.length ∧
        announced = BigEndian.decode (between data c.position d.position) ∧
        d.remaining < announced ∧ e = .malformed (.short field announced d.remaining)) ∧
    (∀ x d, Extension.read c = .ok x d →
      d.position = c.position + x.size ∧ d.position ≤ data.length) ∧
    (∀ name d, ProtocolList.readName c = .ok name d →
      d.position = c.position + 1 + name.length ∧ d.position ≤ data.length) ∧
    (∀ rounds, data.length ≤ 4 * rounds →
      Read.whileLeft Extension.read rounds (start data) = some (Extension.parseAll data)) ∧
    ∀ rounds, data.length ≤ 2 * rounds →
      Read.whileLeft ProtocolList.readName rounds (start data) =
        some (ProtocolList.readNames (start data)) := by
  intro c
  have hc : Within data c := ((within_start data).after before).1
  refine ⟨⟨hc.rest, hc.position⟩, ?_, fun v d => hc.gives, fun e d => hc.fails, ?_, ?_, ?_, ?_⟩
  · intro more
    rw [after_append]
    exact (hc.after more).2
  · intro x d hread
    obtain ⟨-, hp⟩ := Extension.read_eq_ok_iff.1 hread
    exact ⟨x.length_encode ▸ hp.2, (hc.passes hp).1.position_le⟩
  · intro name d hread
    obtain ⟨-, hp⟩ := ProtocolList.readName_eq_ok_iff.1 hread
    refine ⟨?_, (hc.passes hp).1.position_le⟩
    rw [hp.2, List.length_cons]
    omega
  · intro rounds hr
    exact Extension.readAll_ends hr
  · intro rounds hr
    exact ProtocolList.readNames_ends hr

open Cursor in
/-- A vector that announces five bytes in front of one fails behind its number, and the byte can
still be read. Two rounds are enough for five bytes of extensions. -/
theorem cursor_stays_in_bytes_behind_number :
    let c := (start [0, 5, 0xaa]).after [(.vector 2, "list")]
    c.position + c.remaining = 3 ∧ c.position = 2 ∧
      (between [0, 5, 0xaa] 2 3).length = 1 ∧
      Read.whileLeft Extension.read 2 (start [0, 0x10, 0, 1, 0xaa]) =
        some (.ok [⟨Extension.alpn, [0xaa]⟩]) := by
  intro c
  obtain ⟨-, -, -, hfails, -⟩ := cursor_stays_in_bytes [0, 5, 0xaa] [] (.vector 2) "list"
  obtain ⟨⟨-, hposition⟩, -, hreads, -⟩ :=
    cursor_stays_in_bytes [0, 5, 0xaa] [(.vector 2, "list")] .byte "value"
  obtain ⟨-, -, -, -, -, -, hloop, -⟩ := cursor_stays_in_bytes [0, 0x10, 0, 1, 0xaa] [] .byte ""
  have hstands : c.position = 2 := by
    rcases hfails _ _ rfl with ⟨-, hshort, -⟩ | ⟨width, announced, hr, hp, -⟩
    · exact absurd hshort (by decide)
    · cases hr
      exact hp
  have hgives := (hreads (.number 0xaa) ⟨3, []⟩ rfl).2.2.1
  refine ⟨hposition, hstands, hgives, ?_⟩
  rw [hloop 2 (by decide)]
  exact congrArg some (Extension.parseAll_eq_ok_iff.2 ⟨by simp [maxLength16], rfl⟩)

end AlpnOverlay.Wire
