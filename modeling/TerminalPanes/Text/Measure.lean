-- How text takes up columns. Two things about a text come from outside the
-- library, and a measure gives both: the number of columns that the text takes,
-- and its clusters, the pieces that a reader takes for one character each. Of
-- the clusters no more is asked than of any cut into graphemes: they make up the
-- text, and up to the end of a cluster the cut does not depend on what follows.
import TerminalPanes.Text.Basic

namespace TerminalPanes.Text

/-- What is known of texts from outside. -/
class Measure where
  /-- The columns of a text, measured as a whole. -/
  width : Text → Nat
  /-- The pieces of a text, from the front. -/
  clusters : Text → List Text
  width_nil : width [] = 0
  clusters_flatten (t : Text) : (clusters t).flatten = t
  /-- The first clusters of a text are the clusters of what they put together. -/
  clusters_front (t : Text) (n : Nat) : clusters ((clusters t).take n).flatten = (clusters t).take n

variable [Measure]

/-- The number of columns that a text takes. -/
def width (t : Text) : Nat := Measure.width t

/-- The pieces of a text that a reader takes for one character each. -/
def clusters (t : Text) : List Text := Measure.clusters t

@[simp] theorem width_nil : width [] = 0 := Measure.width_nil

@[simp] theorem clusters_flatten (t : Text) : (clusters t).flatten = t := Measure.clusters_flatten t

theorem clusters_front (t : Text) (n : Nat) :
    clusters ((clusters t).take n).flatten = (clusters t).take n := Measure.clusters_front t n

/-- The columns that texts take when each is counted by itself. -/
def totalWidth : List Text → Nat
  | [] => 0
  | t :: rest => width t + totalWidth rest

/-- No text is wider than its clusters are, each counted by itself. A measure may or may
not keep to that. -/
def WithinClusters : Prop := ∀ t : Text, width t ≤ totalWidth (clusters t)

end TerminalPanes.Text
