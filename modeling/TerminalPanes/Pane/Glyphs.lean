-- The characters that a border is drawn with.
import TerminalPanes.Text.Basic

namespace TerminalPanes

structure Glyphs where
  topLeft : Char
  topRight : Char
  bottomLeft : Char
  bottomRight : Char
  horizontal : Char
  vertical : Char
  /-- Opens the title on the top edge. -/
  titleOpen : Char
  /-- Closes the title on the top edge. -/
  titleClose : Char
  deriving DecidableEq, Repr

namespace Glyphs

/-- Single lines. -/
def light : Glyphs := ⟨'┌', '┐', '└', '┘', '─', '│', '┤', '├'⟩

/-- Double lines. -/
def double : Glyphs := ⟨'╔', '╗', '╚', '╝', '═', '║', '╡', '╞'⟩

/-- The characters in the order of the fields. -/
def toList (g : Glyphs) : Text :=
  [g.topLeft, g.topRight, g.bottomLeft, g.bottomRight, g.horizontal, g.vertical,
    g.titleOpen, g.titleClose]

/-- A horizontal edge of `width` cells between two corners. The corners stand
even where there is no room for them. -/
def edge (g : Glyphs) (left right : Char) (width : Nat) : Text :=
  left :: List.replicate (width - 2) g.horizontal ++ [right]

end Glyphs

end TerminalPanes
