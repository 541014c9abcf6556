import AlpnOverlay.Text.Invisible

/-!
Texts and byte strings between double quotes. Every quoted form is one line: what has no visible
form is shown by its number.
-/
namespace AlpnOverlay.Text

def hex (n : Nat) : List Char := Nat.toDigits 16 n

/-- The short escapes, shared by texts and byte strings. -/
def shortEscape : Char → Option (List Char)
  | '\x00' => some ['\\', '0']
  | '\t' => some ['\\', 't']
  | '\r' => some ['\\', 'r']
  | '\n' => some ['\\', 'n']
  | '\\' => some ['\\', '\\']
  | '"' => some ['\\', '"']
  | _ => none

def quotedChar (c : Char) : List Char :=
  match shortEscape c with
  | some escape => escape
  | none =>
    if isInvisible c then ['\\', 'u', '\x7b'] ++ hex c.toNat ++ ['\x7d'] else [c]

/-- A text between quotes. -/
def quoted (text : String) : String :=
  String.ofList ('"' :: text.toList.flatMap quotedChar ++ ['"'])

def quotedByte (b : UInt8) : List Char :=
  let c := Char.ofNat b.toNat
  match shortEscape c with
  | some escape => escape
  | none =>
    if 0x20 ≤ b ∧ b < 0x7f then [c]
    else if b < 0x10 then ['\\', 'x', '0'] ++ hex b.toNat
    else ['\\', 'x'] ++ hex b.toNat

/-- A byte string between quotes, marked with a `b`. -/
def quotedBytes (bytes : List UInt8) : String :=
  String.ofList ('b' :: '"' :: bytes.flatMap quotedByte ++ ['"'])

end AlpnOverlay.Text
