-- The size of a terminal in cells. A zero stands for a dimension that is not
-- known.
import TerminalPanes.Grid.Point

namespace TerminalPanes

structure Size where
  width : UInt16
  height : UInt16
  deriving DecidableEq, Repr, Inhabited

namespace Size

def cols (s : Size) : Nat := s.width.toNat

def rows (s : Size) : Nat := s.height.toNat

theorem cols_le (s : Size) : s.cols ≤ Decimal.shortMax := Nat.le_of_lt_succ s.width.toNat_lt

theorem rows_le (s : Size) : s.rows ≤ Decimal.shortMax := Nat.le_of_lt_succ s.height.toNat_lt

/-- The size of a terminal that does not tell it. -/
def unknown : Size := ⟨0, 0⟩

def area (s : Size) : Nat := s.cols * s.rows

def isKnown (s : Size) : Bool := 0 < s.cols && 0 < s.rows

/-- The size as far as it is known. With one dimension alone nothing can be laid
out, so the other counts as unknown too. -/
def known (s : Size) : Size := if s.isKnown then s else unknown

/-- The first point below and to the right of every cell. -/
def corner (s : Size) : Point := ⟨s.cols, s.rows⟩

end Size

end TerminalPanes
