-- Blanks as they are seen. Each row of a rectangle is covered by one row of
-- blanks, and a move leads back to the corner. A screen of cells shows blanks in
-- the rectangle, as far as the columns of the terminal go, and all else is as it
-- was. A rectangle whose sides cross has no cells, so none is blanked.
import TerminalPanes.Proofs.FramePainted
import TerminalPanes.Text.Tables

namespace TerminalPanes

/-! ## Blanks as pictures -/

namespace Rect

end Rect

namespace Rect

variable {area r : Rect}

end Rect

section

variable [Text.Measure]

/-! ## Blanks on a screen -/

section

variable (hcells : SingleCells) {area r : Rect} (hleft : r.start.x = area.start.x)
variable (hright : r.stop.x = area.stop.x) (hx : 0 ≤ r.start.x) (hy : 0 ≤ r.start.y)
variable (hcols : r.stop.x ≤ Decimal.wordMax) (hrows : r.stop.y ≤ Decimal.wordMax)

include hcells hleft hright hx hy hcols hrows

end

/-! ## Clearing -/

namespace Workspace

variable {w : Workspace} {id : Nat} {op : PaneOperation} {r : Rect} {p : Point} {v : View}

/-- The operation ends well. On any screen of cells that takes in what it has sent, the cells
of the rectangle in the columns of the terminal are blank then and all others as before.
The cursor is at a position, and the pane remembers it. -/
structure Blanks (w : Workspace) (id : Nat) (op : PaneOperation) (r : Rect) (p : Point) :
    Prop where
  result : (w.step (.onPane id op)).result = .ok .nothing
  position : (w.step (.onPane id op)).workspace.terminal.position? = some p
  lastKnown : (w.step (.onPane id op)).workspace.panes.lastKnown id = some p
  cells : ∃ es, (w.step (.onPane id op)).workspace.terminal.sink.emissions =
      w.terminal.sink.emissions ++ es ∧
    ∀ s : Screen,
      let seen := s.takeAll (es.flatMap Emission.chars)
      seen.cursor = p + ⟨1, 1⟩ ∧ ∀ q, seen.glyphs q =
        if r.contains q ∧ w.terminal.size.Reaches q.x then ' ' else s.glyphs q

end Workspace

end

namespace Workspace

end Workspace

end TerminalPanes
