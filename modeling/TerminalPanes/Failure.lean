-- Why an operation on a terminal or a pane fails, and what is said then.
import TerminalPanes.Markup.Basic
import TerminalPanes.Grid.Rect
import TerminalPanes.Key.Reader

namespace TerminalPanes

/-- Why a terminal operation fails. -/
inductive TerminalError where
  | markup (error : MarkupError)
  /-- The cursor history holds no position. -/
  | missingHistory
  | fault (fault : Fault)
  deriving DecidableEq, Repr

namespace TerminalError

def message : TerminalError → String
  | .markup e => "markup error: " ++ e.message
  | .missingHistory => "no current cursor location exists"
  | .fault f => "terminal i/o error: " ++ f.message

/-- What the cause says by itself. -/
def source? : TerminalError → Option String
  | .markup e => some e.message
  | .missingHistory => none
  | .fault f => some f.message

end TerminalError

/-- Why a pane operation fails. -/
inductive PaneError where
  /-- A move would leave the padded area. -/
  | outOfBounds (point : Point) (area : Rect)
  /-- A new line would be at or below the bottom of the padded area. -/
  | belowBottom (row bottom : Int)
  | terminal (error : TerminalError)
  /-- A number has left the range of a word. The program ends there. -/
  | overflow
  deriving DecidableEq, Repr

namespace PaneError

def message : PaneError → String
  | .outOfBounds point area =>
    point.label ++ " is outside the pane (" ++ area.start.label ++ " to " ++ area.stop.label ++ ")"
  | .belowBottom row bottom =>
    "newline to row " ++ String.ofList (Decimal.write row)
      ++ " exceeds the pane's bottom edge at row " ++ String.ofList (Decimal.write bottom)
  | .terminal e => e.message
  | .overflow => "a number is out of the range of a word"

def source? : PaneError → Option String
  | .terminal e => some e.message
  | _ => none

/-- Whether the cursor would have left the padded area. -/
def isOutOfBounds : PaneError → Bool
  | .outOfBounds .. | .belowBottom .. => true
  | .terminal _ | .overflow => false

end PaneError

end TerminalPanes
