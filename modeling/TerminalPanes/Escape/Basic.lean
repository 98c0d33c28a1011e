-- The control sequences that a terminal understands, as values and as text.
-- Points in them count from one, as the terminal does.
import TerminalPanes.Grid.Point
import TerminalPanes.Color

namespace TerminalPanes

/-- What an erase removes. The cursor stays where it is. -/
inductive Erase where
  | toScreenEnd
  | toScreenStart
  | screen
  | toLineEnd
  | toLineStart
  | line
  deriving DecidableEq, Repr

inductive Sequence where
  | cursorTo (cell : Point)
  | hideCursor
  | showCursor
  | erase (what : Erase)
  | saveScreen
  | restoreScreen
  /-- Plain style and no colour. -/
  | reset
  /-- One rendition code. -/
  | rendition (code : Nat)
  | foreground (color : Color)
  | background (color : Color)
  deriving DecidableEq, Repr

namespace Sequence

/-- The two characters that open every sequence. -/
def opening : Text := ['\x1b', '[']

/-- The three channels of a colour with semicolons between them. -/
def channels (c : Color) : Text :=
  Decimal.write c.red ++ ';' :: (Decimal.write c.green ++ ';' :: Decimal.write c.blue)

/-- What an erase is known by. -/
def eraseMode : Erase → Char
  | .toScreenEnd | .toLineEnd => '0'
  | .toScreenStart | .toLineStart => '1'
  | .screen | .line => '2'

/-- Screens and lines are erased by different sequences. -/
def eraseFinal : Erase → Char
  | .toScreenEnd | .toScreenStart | .screen => 'J'
  | .toLineEnd | .toLineStart | .line => 'K'

/-- What stands between the opening and the last character. -/
def parameters : Sequence → Text
  | .cursorTo p => Decimal.write p.y ++ ';' :: Decimal.write p.x
  | .hideCursor | .showCursor => ['?', '2', '5']
  | .erase what => [eraseMode what]
  | .saveScreen | .restoreScreen => ['?', '4', '7']
  | .reset => ['0']
  | .rendition code => Decimal.writeNat code
  | .foreground c => ['3', '8', ';', '2', ';'] ++ channels c
  | .background c => ['4', '8', ';', '2', ';'] ++ channels c

/-- The last character, which tells the kind of the sequence. -/
def final : Sequence → Char
  | .cursorTo _ => 'H'
  | .hideCursor | .restoreScreen => 'l'
  | .showCursor | .saveScreen => 'h'
  | .erase what => eraseFinal what
  | .reset | .rendition _ | .foreground _ | .background _ => 'm'

def write (s : Sequence) : Text := opening ++ s.parameters ++ [s.final]

end Sequence

end TerminalPanes
