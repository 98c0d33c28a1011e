-- Characters as bytes of UTF-8. Decoding is strict: no longer form than
-- needed, no surrogates, nothing beyond the last code point.
import TerminalPanes.Text.Basic

namespace TerminalPanes.Text

def bytes (t : Text) : List UInt8 := t.flatMap String.utf8EncodeChar

@[simp] theorem bytes_nil : bytes [] = [] := rfl

@[simp] theorem bytes_append (s t : Text) : bytes (s ++ t) = bytes s ++ bytes t :=
  List.flatMap_append

namespace Utf8

/-- The length of the form that a byte begins, if it can begin a character
beyond ASCII. -/
def formLength? (lead : UInt8) : Option Nat :=
  if 0xC0 ≤ lead && lead ≤ 0xDF then some 2
  else if 0xE0 ≤ lead && lead ≤ 0xEF then some 3
  else if 0xF0 ≤ lead && lead ≤ 0xF7 then some 4
  else none

/-- The six bits of a byte that continues a character. -/
def continuation? (b : UInt8) : Option Nat :=
  if 0x80 ≤ b && b ≤ 0xBF then some (b.toNat - 0x80) else none

/-- The number that the bits of a lead byte and the bytes after it make. -/
def assemble? (bits : Nat) (after : List UInt8) : Option Nat :=
  after.foldlM (fun n b => (continuation? b).map (64 * n + ·)) bits

/-- The character with a code point, if it is one and no less than `least`. -/
def scalar? (least n : Nat) : Option Char :=
  if least ≤ n ∧ n.isValidChar then some (Char.ofNat n) else none

/-- The character that a lead byte and all bytes after it stand for. -/
def decode? (lead : UInt8) (after : List UInt8) : Option Char :=
  match after.length with
  | 1 => (assemble? (lead.toNat - 0xC0) after).bind (scalar? 0x80)
  | 2 => (assemble? (lead.toNat - 0xE0) after).bind (scalar? 0x800)
  | 3 => (assemble? (lead.toNat - 0xF0) after).bind (scalar? 0x10000)
  | _ => none

end Utf8

end TerminalPanes.Text
