import AlpnOverlay.Wire.Error

/-!
A checked reading position in a byte string. A read that fails keeps the cursor where its last
successful part left it.
-/
namespace AlpnOverlay.Wire

structure Cursor where
  position : Nat
  rest : Bytes
  deriving DecidableEq, Repr

namespace Cursor

def start (data : Bytes) : Cursor := ⟨0, data⟩

def remaining (c : Cursor) : Nat := c.rest.length

def isEmpty (c : Cursor) : Bool := c.rest.isEmpty

end Cursor

/-- A reading step; it leaves a cursor whether it succeeds or not. -/
abbrev Read := EStateM Error Cursor

namespace Read

/-- Reports a contradiction at the cursor. -/
def fault {α : Type} (f : Fault) : Read α := throw (.malformed f)

/-- The next `count` bytes, all of them or none. -/
def take (count : Nat) (field : String) : Read Bytes := fun c =>
  if (c.rest.take count).length = count then
    .ok (c.rest.take count) ⟨c.position + count, c.rest.drop count⟩
  else .error (.malformed (.short field count c.remaining)) c

def byte (field : String) : Read UInt8 := fun c =>
  match c.rest with
  | [] => .error (.malformed (.short field 1 0)) c
  | b :: rest => .ok b ⟨c.position + 1, rest⟩

/-- A big-endian number of `width` bytes. -/
def number (width : Nat) (field : String) : Read Nat := do
  return BigEndian.decode (← take width field)

/-- As many bytes as a number of `width` bytes in front of them says. -/
def vector (width : Nat) (field : String) : Read Bytes := do
  take (← number width field) field

def rest : Read Bytes := do
  return (← get).rest

def isEmpty : Read Bool := do
  return (← get).isEmpty

/-- Reads all of `data` from its start. -/
def on {α : Type} (data : Bytes) (read : Read α) : Except Error α :=
  match read (Cursor.start data) with
  | .ok a _ => .ok a
  | .error e _ => .error e

theorem take_shorter {count : Nat} {field : String} {c d : Cursor} {bytes : Bytes}
    (h : take count field c = .ok bytes d) :
    c.rest.length = count + d.rest.length := by
  unfold take at h
  split at h
  · rename_i hl
    cases h
    simp at hl ⊢
    omega
  · cases h

theorem number_shorter {width n : Nat} {field : String} {c d : Cursor}
    (h : number width field c = .ok n d) :
    c.rest.length = width + d.rest.length := by
  simp only [number, bind, EStateM.bind] at h
  split at h
  · rename_i ht
    cases h
    exact take_shorter ht
  · cases h

theorem vector_shorter {width : Nat} {field : String} {c d : Cursor} {bytes : Bytes}
    (h : vector width field c = .ok bytes d) :
    width + d.rest.length ≤ c.rest.length := by
  simp only [vector, bind, EStateM.bind] at h
  split at h
  · rename_i hn
    have := number_shorter hn
    have := take_shorter h
    omega
  · cases h

end Read
end AlpnOverlay.Wire
