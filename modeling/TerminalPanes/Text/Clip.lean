-- Cutting text to a number of columns. The result is made of whole clusters
-- from the front, as many as fit.
import TerminalPanes.Text.Measure

namespace TerminalPanes.Text

variable [Measure]

/-- The clusters from the front whose widths together stay within `room`. -/
def fitting (room : Nat) : List Text → List Text
  | [] => []
  | cluster :: rest =>
    if width cluster ≤ room then cluster :: fitting (room - width cluster) rest else []

/-- The part of the text that fits in `room` columns, cut between clusters. -/
def clip (t : Text) (room : Nat) : Text := (fitting room (clusters t)).flatten

theorem fitting_append (room : Nat) (ts : List Text) : ∃ rest, ts = fitting room ts ++ rest := by
  induction ts generalizing room with
  | nil => exact ⟨[], rfl⟩
  | cons t rest ih =>
    unfold fitting
    split
    · obtain ⟨r, hr⟩ := ih (room - width t)
      exact ⟨r, by rw [List.cons_append, ← hr]⟩
    · exact ⟨t :: rest, rfl⟩

/-- Clipping only takes away from the end. -/
theorem clip_append (t : Text) (room : Nat) : ∃ rest, t = clip t room ++ rest := by
  obtain ⟨r, hr⟩ := fitting_append room (clusters t)
  refine ⟨r.flatten, ?_⟩
  conv => lhs; rw [← clusters_flatten t, hr]
  simp [clip]

/-- What is kept fits, counted cluster by cluster. -/
theorem totalWidth_fitting_le (room : Nat) (ts : List Text) :
    totalWidth (fitting room ts) ≤ room := by
  induction ts generalizing room with
  | nil => exact Nat.zero_le room
  | cons t rest ih =>
    unfold fitting
    split
    · have hrest := ih (room - width t)
      rw [totalWidth]
      omega
    · exact Nat.zero_le room

end TerminalPanes.Text
