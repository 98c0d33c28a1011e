-- Where a title stands. It is cut to the columns between the corners and the
-- brackets, so with its brackets it never touches a corner. It stands in the
-- middle as far as its halves and those of the pane are rounded the same way.
import TerminalPanes.Proofs.PaneDrawing

namespace TerminalPanes

/-! ## Rectangles with room for a title -/

namespace Canvas

variable {r : Rect}

/-- Rectangles whose top edge is on the screen and has room for a title. -/
structure Titled (r : Rect) : Prop where
  words : r.InWords
  left : 0 ≤ r.start.x
  top : 0 ≤ r.start.y
  width : 5 ≤ r.width
  height : 2 ≤ r.height

theorem Titled.large (h : Titled r) : Large r where
  measured := h.words.measured h.left h.top (Int.le_trans (by decide) h.width)
    (Int.le_trans (by decide) h.height)
  width := Int.le_trans (by decide) h.width
  height := h.height

theorem Titled.width_le (h : Titled r) : r.width ≤ Decimal.wordMax := h.large.measured.width.2

end Canvas

section

variable [Text.Measure]

/-! ## Rows that have room -/

namespace Size

variable {size : Size}

end Size

/-! ## Borders with a title -/

namespace Canvas

variable {size : Size} {g : Glyphs} {v : View} {r : Rect} {c : Canvas} {title : Text}
variable {sections : List Section}

section

variable (h : Titled r) (htame : ∀ s ∈ sections, s.content.Tame)

include h htame

end

end Canvas

namespace Workspace

end Workspace

end

namespace Workspace

end Workspace

section

variable [Text.Measure]

namespace Workspace

end Workspace

end

namespace Workspace

end Workspace

end TerminalPanes
