import AlpnOverlay.Wire.Cursor

/-! The extensions of a hello: a 16-bit type and data behind its 16-bit length. -/
namespace AlpnOverlay.Wire

structure Extension where
  type : UInt16
  data : Bytes
  deriving DecidableEq, Repr

/-- The greatest number a 16-bit length can hold. -/
def maxLength16 : Nat := 0xffff

namespace Extension

/-- The type that carries application protocol names. -/
def alpn : UInt16 := 0x0010

/-- The type that ties a renegotiation to the handshake before it. -/
def renegotiationInfo : UInt16 := 0xff01

def size (e : Extension) : Nat := 4 + e.data.length

/-- The written form of an extension whose data fits its length field. -/
def encode (e : Extension) : Bytes :=
  BigEndian.encode 2 e.type.toNat ++ BigEndian.encode 2 e.data.length ++ e.data

def encodeAll (es : List Extension) : Bytes := es.flatMap encode

def write (e : Extension) : Except Error Bytes :=
  if e.data.length ≤ maxLength16 then .ok e.encode else .error (.malformed .longExtension)

def read : Read Extension := do
  let type ← Read.number 2 "extension type"
  let data ← Read.vector 2 "extension data"
  return ⟨UInt16.ofNat type, data⟩

theorem read_shorter {c d : Cursor} {e : Extension} (h : read c = .ok e d) :
    d.rest.length < c.rest.length := by
  simp only [read, bind, EStateM.bind] at h
  split at h
  · rename_i hn
    have := Read.number_shorter hn
    split at h
    · rename_i hv
      have := Read.vector_shorter hv
      cases h
      omega
    · cases h
  · cases h

/-- The extensions from a cursor to the end of its bytes. -/
def readAll (c : Cursor) : Except Error (List Extension) :=
  if c.isEmpty then .ok []
  else
    match _h : read c with
    | .error e _ => .error e
    | .ok e d =>
      match readAll d with
      | .error e => .error e
      | .ok es => .ok (e :: es)
termination_by c.rest.length
decreasing_by exact read_shorter _h

/-- Splits the inside of an extensions block. -/
def parseAll (block : Bytes) : Except Error (List Extension) := readAll (Cursor.start block)

end Extension
end AlpnOverlay.Wire
