-- Points as text. A point whose coordinates are signed words is given back by
-- the text it is written as. A text is read as a point just where it has a bar
-- and a word stands on either side of the first one.
import TerminalPanes.Grid.Point
import TerminalPanes.Proofs.MarkupText
import TerminalPanes.Proofs.WordLiteral

namespace TerminalPanes

namespace Point

variable {t : Text} {p : Point}

/-- The text has a bar, and before and after the first one stand the words of the point. -/
def Denotes (t : Text) (p : Point) : Prop :=
  ∃ before after, t = before ++ '|' :: after ∧ '|' ∉ before ∧
    Decimal.SpacedWord before p.x ∧ Decimal.SpacedWord after p.y

/-! ## Reading -/

theorem read?_eq_some_iff : read? t = some p ↔ Denotes t p := by
  unfold read?
  constructor
  · intro h
    obtain ⟨⟨before, after⟩, hcut, h⟩ := Option.bind_eq_some_iff.1 h
    obtain ⟨x, hx, h⟩ := Option.bind_eq_some_iff.1 h
    obtain ⟨y, hy, h⟩ := Option.bind_eq_some_iff.1 h
    cases h
    obtain ⟨ht, hfirst⟩ := Text.cut?_eq_some_iff.1 hcut
    exact ⟨before, after, ht, hfirst, Decimal.readWord?_trim_eq_some_iff.1 hx,
      Decimal.readWord?_trim_eq_some_iff.1 hy⟩
  · rintro ⟨before, after, ht, hfirst, hx, hy⟩
    rw [Text.cut?_eq_some_iff.2 ⟨ht, hfirst⟩]
    simp [Decimal.readWord?_trim_eq_some_iff.2 hx, Decimal.readWord?_trim_eq_some_iff.2 hy]

theorem Denotes.words (h : Denotes t p) : p.Words := by
  obtain ⟨before, after, -, -, ⟨-, -, -, hx⟩, -, -, -, hy⟩ := h
  exact ⟨hx, hy⟩

/-! ## Writing -/

theorem denotes_write (h : p.Words) : Denotes p.write p := by
  have hbar : '|' ∉ Decimal.write p.x := Decimal.not_mem_write (by decide) (by decide) p.x
  exact ⟨Decimal.write p.x, Decimal.write p.y, rfl, hbar,
    Decimal.spacedWord_of_spaced_write (.refl _) h.x,
    Decimal.spacedWord_of_spaced_write (.refl _) h.y⟩

/-- A point is given back by its text, up to the least and the greatest of words. A text is
read as a point just where there is a bar in it and a word before and after the first one,
with white space around it or without. Whatever is read has words for coordinates, so it is
given back by a text of its own. -/
theorem stored_points_are_read_back :
    (∀ p : Point, p.Words → read? p.write = some p) ∧
      (∀ t p, read? t = some p ↔ Denotes t p) ∧
      ∀ t p, read? t = some p → p.Words ∧ read? p.write = some p := by
  have hback : ∀ p : Point, p.Words → read? p.write = some p := fun p hp =>
    read?_eq_some_iff.2 (denotes_write hp)
  refine ⟨hback, fun t p => read?_eq_some_iff, ?_⟩
  intro t p h
  have hwords : p.Words := (read?_eq_some_iff.1 h).words
  exact ⟨hwords, hback p hwords⟩

/-- The two limits of a word, a plus sign and a zero in front among white space, a second bar,
and a number beyond the greatest word. -/
theorem both_limits_and_a_spaced_text_and_two_bars :
    read? (write ⟨-2147483648, 2147483647⟩) = some ⟨-2147483648, 2147483647⟩ ∧
      read? "\t+07 | -0".toList = some ⟨7, 0⟩ ∧ read? (write ⟨7, 0⟩) = some ⟨7, 0⟩ ∧
      (∀ p, ¬ Denotes "1|2|3".toList p) ∧ ∀ p, ¬ Denotes "0|2147483648".toList p := by
  obtain ⟨hback, hforms, hagain⟩ := stored_points_are_read_back
  have hspaced : read? "\t+07 | -0".toList = some ⟨7, 0⟩ := by decide
  have hno : ∀ t : Text, read? t = none → ∀ p, ¬ Denotes t p := by
    intro t hnone p hp
    rw [(hforms t p).2 hp] at hnone
    cases hnone
  exact ⟨hback _ (by decide), hspaced, (hagain _ _ hspaced).2, hno _ (by decide),
    hno _ (by decide)⟩

end Point

end TerminalPanes
