-- Rectangles of cells and the padding inside their edges. The start of a
-- rectangle belongs to it and its stop does not. Padding never leaves the
-- range of an unsigned 16-bit number: it stops at both ends. A rectangle can be
-- so wide that a signed word cannot say how wide, and padding can push its
-- corners out of the words: `measured?` and `words?` tell of that.
import TerminalPanes.Grid.Size

namespace TerminalPanes

/-! ## Padding -/

/-- Cells left free at each edge of a rectangle. -/
structure Padding where
  top : Nat
  right : Nat
  bottom : Nat
  left : Nat
  deriving DecidableEq, Repr, Inhabited

namespace Padding

/-- The most cells that one side can hold. -/
def most : Nat := Decimal.shortMax

/-- The same padding on all four sides. -/
def uniform (n : Nat) : Padding := ⟨n, n, n, n⟩

def none : Padding := uniform 0

/-- `n` more cells on every side, up to the most that a side can hold. -/
def grow (p : Padding) (n : Nat) : Padding :=
  ⟨min (p.top + n) most, min (p.right + n) most, min (p.bottom + n) most, min (p.left + n) most⟩

/-- `n` cells fewer on every side, down to zero. -/
def shrink (p : Padding) (n : Nat) : Padding :=
  ⟨p.top - n, p.right - n, p.bottom - n, p.left - n⟩

end Padding

/-! ## Rectangles -/

/-- The cells from `start` up to `stop`, which is outside on both axes. A
rectangle whose stop is not beyond its start holds no cell. -/
structure Rect where
  start : Point
  stop : Point
  deriving DecidableEq, Repr, Inhabited

namespace Rect

def width (r : Rect) : Int := r.stop.x - r.start.x

def height (r : Rect) : Int := r.stop.y - r.start.y

/-- The rectangle inside the padding. Its sides may cross. -/
def inset (r : Rect) (p : Padding) : Rect :=
  ⟨r.start + ⟨p.left, p.top⟩, r.stop - ⟨p.right, p.bottom⟩⟩

/-- The corners are words. -/
structure InWords (r : Rect) : Prop where
  startX : Decimal.IsWord r.start.x
  startY : Decimal.IsWord r.start.y
  stopX : Decimal.IsWord r.stop.x
  stopY : Decimal.IsWord r.stop.y

instance (r : Rect) : Decidable r.InWords :=
  decidable_of_iff (r.start.Words ∧ r.stop.Words)
    ⟨fun h => ⟨h.1.x, h.1.y, h.2.x, h.2.y⟩, fun h => ⟨⟨h.1, h.2⟩, ⟨h.3, h.4⟩⟩⟩

/-- The numbers of columns and rows are words. -/
structure Measured (r : Rect) : Prop where
  width : Decimal.IsWord r.width
  height : Decimal.IsWord r.height

instance (r : Rect) : Decidable r.Measured :=
  decidable_of_iff (Decimal.IsWord r.width ∧ Decimal.IsWord r.height)
    ⟨fun h => ⟨h.1, h.2⟩, fun h => ⟨h.width, h.height⟩⟩

/-- The rectangle, and nothing in place of one with a corner that is not of words. -/
def words? (r : Rect) : Option Rect := if r.InWords then some r else none

/-- The rectangle, and nothing in place of one with more columns or rows than a word can say. -/
def measured? (r : Rect) : Option Rect := if r.Measured then some r else none

theorem words?_eq_some_iff {r s : Rect} : r.words? = some s ↔ r.InWords ∧ r = s :=
  Option.ite_none_right_eq_some.trans (and_congr_right fun _ => Option.some_inj)

theorem measured?_eq_some_iff {r s : Rect} : r.measured? = some s ↔ r.Measured ∧ r = s :=
  Option.ite_none_right_eq_some.trans (and_congr_right fun _ => Option.some_inj)

/-- Half the width and half the height, rounded down. -/
def center (r : Rect) : Int × Int := (r.width / 2, r.height / 2)

def contains (r : Rect) (p : Point) : Bool :=
  r.start.x ≤ p.x && p.x < r.stop.x && r.start.y ≤ p.y && p.y < r.stop.y

/-- The rows from `first` up to `stop`, which is left out. -/
def rowsBetween (first stop : Int) : List Int :=
  (List.range (stop - first).toNat).map fun (i : Nat) => first + i

/-- The rows of the rectangle, from the top. -/
def rows (r : Rect) : List Int := rowsBetween r.start.y r.stop.y

theorem mem_rowsBetween {first stop y : Int} :
    y ∈ rowsBetween first stop ↔ first ≤ y ∧ y < stop := by
  simp only [rowsBetween, List.mem_map, List.mem_range]
  constructor
  · rintro ⟨i, hi, rfl⟩
    omega
  · intro h
    exact ⟨(y - first).toNat, by omega, by omega⟩

end Rect

end TerminalPanes
