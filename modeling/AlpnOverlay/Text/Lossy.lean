/-!
Reading bytes as UTF-8 when they need not be: each longest run of bytes that starts a character
without completing one becomes the replacement character.
-/
namespace AlpnOverlay.Text

/-- What the first byte of a character says: its own bits, how many bytes follow, and the least
and the greatest value of the first of them. -/
structure Lead where
  bits : Nat
  owed : Nat
  least : UInt8
  greatest : UInt8

def lead (b : UInt8) : Option Lead :=
  if b < 0x80 then some ⟨b.toNat, 0, 0x80, 0xbf⟩
  else if 0xc2 ≤ b ∧ b ≤ 0xdf then some ⟨b.toNat % 32, 1, 0x80, 0xbf⟩
  else if b = 0xe0 then some ⟨0, 2, 0xa0, 0xbf⟩
  else if b = 0xed then some ⟨13, 2, 0x80, 0x9f⟩
  else if 0xe1 ≤ b ∧ b ≤ 0xef then some ⟨b.toNat % 16, 2, 0x80, 0xbf⟩
  else if b = 0xf0 then some ⟨0, 3, 0x90, 0xbf⟩
  else if 0xf1 ≤ b ∧ b ≤ 0xf3 then some ⟨b.toNat % 8, 3, 0x80, 0xbf⟩
  else if b = 0xf4 then some ⟨4, 3, 0x80, 0x8f⟩
  else none

/-- The longest start of `bytes` that continues a character; only its first byte has bounds of its
own. -/
def continuation : (owed : Nat) → (least greatest : UInt8) → (bytes : List UInt8) → List UInt8
  | 0, _, _, _ => []
  | _ + 1, _, _, [] => []
  | owed + 1, least, greatest, b :: bytes =>
    if least ≤ b ∧ b ≤ greatest then b :: continuation owed 0x80 0xbf bytes else []

def replacement : Char := '\ufffd'

def lossyChars : List UInt8 → List Char
  | [] => []
  | b :: rest =>
    match lead b with
    | none => replacement :: lossyChars rest
    | some l =>
      let more := continuation l.owed l.least l.greatest rest
      let c :=
        if more.length = l.owed then
          Char.ofNat (more.foldl (fun n d => 64 * n + d.toNat % 64) l.bits)
        else replacement
      c :: lossyChars (rest.drop more.length)
termination_by bytes => bytes.length
decreasing_by all_goals simp; try omega

def lossy (bytes : List UInt8) : String := String.ofList (lossyChars bytes)

end AlpnOverlay.Text
