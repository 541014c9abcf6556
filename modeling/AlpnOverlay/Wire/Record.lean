import AlpnOverlay.Wire.Cursor

/-!
TLS records: a type, a version and a payload behind a five-byte header. A stream is any number of
whole records one behind the other.
-/
namespace AlpnOverlay.Wire

inductive ContentType where
  | changeCipherSpec
  | alert
  | handshake
  | applicationData
  deriving DecidableEq, Repr

namespace ContentType

def code : ContentType → UInt8
  | changeCipherSpec => 20
  | alert => 21
  | handshake => 22
  | applicationData => 23

def ofCode? (b : UInt8) : Option ContentType :=
  if b = 20 then some changeCipherSpec
  else if b = 21 then some alert
  else if b = 22 then some handshake
  else if b = 23 then some applicationData
  else none

def name : ContentType → String
  | changeCipherSpec => "ChangeCipherSpec"
  | alert => "Alert"
  | handshake => "Handshake"
  | applicationData => "ApplicationData"

theorem ofCode?_code (t : ContentType) : ofCode? t.code = some t := by
  cases t <;> rfl

theorem code_of_ofCode? {b : UInt8} {t : ContentType} (h : ofCode? b = some t) : t.code = b := by
  unfold ofCode? at h
  repeat' split at h
  all_goals cases h <;> simp_all [code]

end ContentType

structure Version where
  major : UInt8
  minor : UInt8
  deriving DecidableEq, Repr

namespace Version

instance : Ord Version where
  compare v w := (compare v.major w.major).then (compare v.minor w.minor)

def tls10 : Version := ⟨3, 1⟩
def tls12 : Version := ⟨3, 3⟩

/-- Versions whose hellos carry their extensions in the clear, so that they can be edited. -/
def isEditable (v : Version) : Bool := (compare tls10 v).isLE && (compare v tls12).isLE

theorem isEditable_iff (v : Version) :
    v.isEditable = true ↔ v.major = 3 ∧ 1 ≤ v.minor ∧ v.minor ≤ 3 := by
  simp only [isEditable, tls10, tls12, compare, compareOfLessAndEq, ← UInt8.toNat_inj,
    UInt8.lt_iff_toNat_lt, UInt8.le_iff_toNat_le]
  simp only [UInt8.reduceToNat, Bool.and_eq_true]
  repeat' split
  all_goals simp [Ordering.then, Ordering.isLE]
  all_goals omega

end Version

/-- The length of a record header. -/
def headerLength : Nat := 5

/-- The longest plaintext of a record. -/
def maxPlaintext : Nat := 0x4000

/-- The longest payload that is accepted: compression and encryption may add to the plaintext. -/
def maxPayload : Nat := maxPlaintext + 2048

namespace Record

structure Header where
  type : ContentType
  version : Version
  length : Nat
  length_le : length ≤ maxPayload
  deriving DecidableEq, Repr

namespace Header

def encode (h : Header) : Bytes :=
  h.type.code :: h.version.major :: h.version.minor :: BigEndian.encode 2 h.length

def parse : Bytes → Except Error Header
  | type :: major :: minor :: high :: low :: _ =>
    match ContentType.ofCode? type with
    | none => .error (.malformed (.unknownRecordType type))
    | some type =>
      let length := BigEndian.decode [high, low]
      if h : length ≤ maxPayload then .ok ⟨type, ⟨major, minor⟩, length, h⟩
      else .error (.malformed (.longRecord length))
  | data => .error (.underflow headerLength data.length)

/-- The same type and version in front of a plaintext of another length. -/
def withLength (h : Header) (length : Nat) : Except Error Header :=
  if hl : length ≤ maxPlaintext then
    .ok { h with length, length_le := Nat.le_trans hl (Nat.le_add_right ..) }
  else .error (.malformed (.longRecord length))

end Header
end Record

structure Record where
  type : ContentType
  version : Version
  payload : Bytes
  payload_le : payload.length ≤ maxPayload
  deriving DecidableEq, Repr

namespace Record

def header (r : Record) : Header := ⟨r.type, r.version, r.payload.length, r.payload_le⟩

def encode (r : Record) : Bytes := r.header.encode ++ r.payload

/-- The number of bytes a record takes. -/
def size (r : Record) : Nat := headerLength + r.payload.length

def encodeAll (rs : List Record) : Bytes := rs.flatMap encode

/-- A handshake record of a version whose hellos can be edited. -/
def isEditable (r : Record) : Bool := decide (r.type = .handshake) && r.version.isEditable

/-- The record that `data` starts with, and what follows it. -/
def first (data : Bytes) : Except Error (Record × Bytes) :=
  match Header.parse data with
  | .error e => .error e
  | .ok h =>
    let payload := (data.drop headerLength).take h.length
    if hl : payload.length = h.length then
      .ok (⟨h.type, h.version, payload, hl ▸ h.length_le⟩, data.drop (headerLength + h.length))
    else .error (.underflow (headerLength + h.length) data.length)

theorem length_header_encode (h : Header) : h.encode.length = headerLength := by
  simp [Header.encode, BigEndian.length_encode, headerLength]

theorem length_encode (r : Record) : r.encode.length = r.size := by
  simp [encode, size, length_header_encode]

theorem first_length {data rest : Bytes} {r : Record} (h : first data = .ok (r, rest)) :
    data.length = r.size + rest.length := by
  unfold first at h
  split at h
  · cases h
  · simp only at h
    split at h
    · rename_i header hp hl
      cases h
      have : headerLength ≤ data.length := by
        unfold Header.parse at hp
        split at hp
        · simp [headerLength]
        · cases hp
      simp only [size, List.length_take, List.length_drop] at hl ⊢
      omega
    · cases h

/-- Splits a stream into its records. -/
def split (data : Bytes) : Except Error (List Record) :=
  if data.isEmpty then .ok []
  else
    match _h : first data with
    | .error e => .error e
    | .ok (r, rest) =>
      match split rest with
      | .error e => .error (e.shift r.size)
      | .ok rs => .ok (r :: rs)
termination_by data.length
decreasing_by
  have := first_length _h
  simp only [size, headerLength] at this
  omega

/-- The records that carry `payload`: plaintexts of the greatest length and one for the rest. An
empty payload is carried by one empty record. -/
def carrying (type : ContentType) (version : Version) (payload : Bytes) : List Record :=
  if h : payload.length ≤ maxPlaintext then
    [⟨type, version, payload, Nat.le_trans h (Nat.le_add_right ..)⟩]
  else
    ⟨type, version, payload.take maxPlaintext,
      Nat.le_trans (List.length_take_le ..) (Nat.le_add_right ..)⟩ ::
      carrying type version (payload.drop maxPlaintext)
termination_by payload.length
decreasing_by
  simp only [List.length_drop, maxPlaintext] at h ⊢
  omega

end Record
end AlpnOverlay.Wire
