-- Lines written in a pane from the start of its padded area downwards. Every
-- line is one row of texts, moved to before it is written, so where the one
-- before has ended does not matter. A line is dropped where its row would lie
-- below the padded area. The first line is not asked for its row.
import TerminalPanes.Proofs.PaneDrawing
import TerminalPanes.Text.Tables

namespace TerminalPanes

section

variable [Text.Measure]

/-! ## What lines show -/

namespace Terminal

variable {t u : Terminal} {style : Style} {p : Point}

end Terminal

/-! ## Writing lines -/

namespace Canvas

variable {size : Size} {v : View} {area : Rect} {c : Canvas} {markup : Text}
variable {line : List Section}

/-- Texts of markup and the sections that they read as. -/
abbrev Reads : List Text → List (List Section) → Prop :=
  List.Forall₂ fun markup line => Markup.read markup = .ok line

end Canvas

namespace Workspace

end Workspace

end

namespace Workspace

end Workspace

end TerminalPanes
