-- The measure that the tables give. They cover the scripts and the emoji named
-- with them, so this is one measure among others: it is what the showcase runs
-- with, and what is said of texts elsewhere is said of every measure.
import TerminalPanes.Text.Measure
import TerminalPanes.Text.Cluster
import TerminalPanes.Text.Width

namespace TerminalPanes.Text.Tables

/-- Texts measured and cut by the tables. -/
scoped instance measure : Measure where
  width := width
  clusters := clusters
  width_nil := rfl
  clusters_flatten := clusters_flatten
  clusters_front := clusters_front

/-- The columns of a text in this measure. -/
theorem width_eq (t : Text) : Text.width t = (Text.measure t).1.toNat := rfl

theorem clusters_eq (t : Text) : Text.clusters t = clusters t := rfl

end TerminalPanes.Text.Tables
