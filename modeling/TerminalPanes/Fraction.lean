-- Fractions of a length, as 64-bit binary floating point numbers. A finite
-- one is a whole number of units of 2^-1074, so sums and products with whole
-- cells are exact on integers and are rounded once, to 53 significant bits
-- and to the even neighbour on a tie.
import TerminalPanes.Text.Decimal

namespace TerminalPanes

/-! ## Rounding -/

/-- The whole number nearest to `num / den`, and the even one of two that are
equally near. -/
def roundQuotient (num den : Nat) : Nat :=
  let rest := 2 * (num % den)
  let quotient := num / den
  if den < rest || (den = rest && quotient % 2 = 1) then quotient + 1 else quotient

/-- Rounds `num / den` to 53 significant bits. Below that size it is rounded to a
whole number. -/
def roundRatio (num den : Nat) : Nat :=
  let scale := Nat.pow 2 ((num / den).log2 + 1 - 53)
  roundQuotient num (den * scale) * scale

/-- Rounds a signed ratio, alike on both sides of zero. -/
def roundSigned (num : Int) (den : Nat) : Int :=
  if num < 0 then -Int.ofNat (roundRatio num.natAbs den)
  else Int.ofNat (roundRatio num.natAbs den)

/-! ## Fractions -/

/-- A floating point number. The sign of a zero makes no difference here, so
there is one zero. -/
inductive Fraction where
  | notANumber
  | infinite (negative : Bool)
  | finite (units : Int)
  deriving DecidableEq, Repr

namespace Fraction

/-- One is this many units. -/
def one : Int := Nat.pow 2 1074

/-- The least number of units that is too large to be finite. -/
def overflow : Nat := Nat.pow 2 2098

/-- The number nearest to a ratio of units. -/
def ofUnits (num : Int) (den : Nat) : Fraction :=
  let rounded := roundSigned num den
  if overflow ≤ rounded.natAbs then infinite (rounded < 0) else finite rounded

/-- The number nearest to a decimal with so many places after the point. -/
def ofDecimal (digits : Int) (places : Nat) : Fraction := ofUnits (digits * one) (Nat.pow 10 places)

def zero : Fraction := finite 0

def half : Fraction := finite (Nat.pow 2 1073)

def whole : Fraction := finite one

/-- The sum, rounded once. -/
def add : Fraction → Fraction → Fraction
  | finite a, finite b => ofUnits (a + b) 1
  | notANumber, _ | _, notANumber => notANumber
  | infinite s, infinite t => if s = t then infinite s else notANumber
  | infinite s, finite _ | finite _, infinite s => infinite s

instance : Add Fraction := ⟨add⟩

/-! ## Fractions of a length in cells -/

/-- The nearest signed 32-bit word. -/
def toWord (n : Int) : Int := max Decimal.wordMin (min n Decimal.wordMax)

/-- The cell at a fraction of a length that begins at `start`. Product and sum
are taken exactly and rounded once together, and the result is rounded down to
a cell and kept in the range of a word. What is no number is cell zero. -/
def cellOf (length start : Int) : Fraction → Int
  | finite units => toWord (roundSigned (length * units + start * one) 1 / one)
  | notANumber => 0
  | infinite negative =>
    if length = 0 then 0
    else if decide (length < 0) = negative then Decimal.wordMax else Decimal.wordMin

end Fraction

end TerminalPanes
