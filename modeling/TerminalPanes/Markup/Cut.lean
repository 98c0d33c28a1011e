-- Cutting styled text to a number of columns. Sections are kept from the
-- front with their instructions, and the last one kept may be clipped.
import TerminalPanes.Markup.Basic
import TerminalPanes.Text.Clip

namespace TerminalPanes.Markup

variable [Text.Measure]

/-- The sections that fit in `room` columns. Each is clipped to what the ones
before it have left, and none is kept once nothing is left. -/
def truncate (room : Nat) : List Section → List Section
  | [] => []
  | s :: rest =>
    if room = 0 then []
    else
      let kept := Text.clip s.content room
      { s with content := kept } :: truncate (room - Text.width kept) rest

end TerminalPanes.Markup
