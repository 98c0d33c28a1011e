-- Colours and how they are written in markup: three numbers, a hexadecimal
-- form or a name. A channel is any signed word; what lies outside 0 to 255 is
-- passed on as it is.
import TerminalPanes.Text.Decimal

namespace TerminalPanes

structure Color where
  red : Int
  green : Int
  blue : Int
  deriving DecidableEq, Repr, Inhabited

namespace Color

def white : Color := ⟨255, 255, 255⟩
def black : Color := ⟨0, 0, 0⟩

/-- The colours that have a name. -/
def names : List (Text × Color) :=
  [("white".toList, white),
   ("black".toList, black),
   ("red".toList, ⟨255, 0, 0⟩),
   ("green".toList, ⟨0, 255, 0⟩),
   ("blue".toList, ⟨0, 0, 255⟩),
   ("yellow".toList, ⟨255, 255, 0⟩),
   ("cyan".toList, ⟨0, 255, 255⟩),
   ("magenta".toList, ⟨255, 0, 255⟩),
   ("gray".toList, ⟨128, 128, 128⟩)]

/-- The colour of a name. Case matters. -/
def named? (name : Text) : Option Color := names.lookup name

/-- Whether every channel is within 0 to 255. -/
def inRange (c : Color) : Bool :=
  [c.red, c.green, c.blue].all fun v => 0 ≤ v && v ≤ 255

/-- The three channels with commas between them. -/
def write (c : Color) : Text :=
  Decimal.write c.red ++ ',' :: Decimal.write c.green ++ ',' :: Decimal.write c.blue

/-! ## Reading -/

/-- The value of a hexadecimal digit of either case. -/
def hexDigit? (c : Char) : Option Nat :=
  if c.isDigit then some (c.toNat - '0'.toNat)
  else if 'a' ≤ c && c ≤ 'f' then some (c.toNat - 'a'.toNat + 10)
  else if 'A' ≤ c && c ≤ 'F' then some (c.toNat - 'A'.toNat + 10)
  else none

/-- A channel written with two hexadecimal digits. -/
def hexChannel? (high low : Char) : Option Int := do
  let h ← hexDigit? high
  let l ← hexDigit? low
  pure (16 * h + l)

/-- Three digits, each standing for itself twice, or six digits. -/
def readHex? : Text → Option Color
  | [r, g, b] => do pure ⟨← hexChannel? r r, ← hexChannel? g g, ← hexChannel? b b⟩
  | [r, r', g, g', b, b'] => do
    pure ⟨← hexChannel? r r', ← hexChannel? g g', ← hexChannel? b b'⟩
  | _ => none

/-- Three words between commas, with white space allowed around each. -/
def readTriple? (t : Text) : Option Color :=
  match t.splitOn ',' with
  | [r, g, b] => do
    let red ← Decimal.readWord? (Text.trim r)
    let green ← Decimal.readWord? (Text.trim g)
    let blue ← Decimal.readWord? (Text.trim b)
    pure ⟨red, green, blue⟩
  | _ => none

/-- Reads a colour. A comma makes it a triple, a `#` in front hexadecimal, and
anything else a name. -/
def read? (t : Text) : Option Color :=
  if ',' ∈ t then readTriple? t
  else match t with
    | '#' :: digits => readHex? digits
    | _ => named? t

end Color

end TerminalPanes
