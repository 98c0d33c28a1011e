-- The fronts of a text: its first clusters, put together. What a clip keeps of a
-- text is a front of it. A measure may keep to more than its laws say, for all
-- texts or for those at hand: a front may be no wider than its clusters, or no
-- wider than the text, or just as wide as its clusters. The first two are what a
-- text must keep to that is written into a place of so many columns.
import TerminalPanes.Text.Clip

namespace TerminalPanes.Text

variable [Measure]

/-! ## Columns -/

theorem totalWidth_append (before after : List Text) :
    totalWidth (before ++ after) = totalWidth before + totalWidth after := by
  induction before with
  | nil => exact (Nat.zero_add _).symm
  | cons t rest ih => rw [List.cons_append, totalWidth, totalWidth, ih, Nat.add_assoc]

theorem width_le_totalWidth {t : Text} {texts : List Text} (h : t ∈ texts) :
    width t ≤ totalWidth texts := by
  obtain ⟨before, after, rfl⟩ := List.append_of_mem h
  rw [totalWidth_append, totalWidth]
  omega

/-! ## Fronts -/

/-- The first clusters of a text, put together. -/
def front (t : Text) (n : Nat) : Text := ((clusters t).take n).flatten

variable {t : Text}

theorem clusters_of_front (t : Text) (n : Nat) : clusters (front t n) = (clusters t).take n :=
  clusters_front t n

theorem front_length (t : Text) : front t (clusters t).length = t := by
  rw [front, List.take_length, clusters_flatten]

theorem front_front (t : Text) (m n : Nat) : front (front t m) n = front t (min n m) := by
  rw [front, clusters_of_front, List.take_take, front]

/-- No front of the text is wider than its clusters. -/
def FrontsFit (t : Text) : Prop := ∀ n, width (front t n) ≤ totalWidth ((clusters t).take n)

/-- Nor is it wider than the fronts that go further. -/
structure Tame (t : Text) : Prop where
  fits : FrontsFit t
  narrows (m n : Nat) : m ≤ n → width (front t m) ≤ width (front t n)

/-- Each front is just as wide as its clusters. -/
def Additive (t : Text) : Prop := ∀ n, width (front t n) = totalWidth ((clusters t).take n)

/-- It is enough to look at the fronts there are. -/
theorem additive_iff : Additive t ↔
    ∀ n < (clusters t).length + 1, width (front t n) = totalWidth ((clusters t).take n) := by
  refine ⟨fun h n _ => h n, fun h n => ?_⟩
  by_cases hn : n < (clusters t).length + 1
  · exact h n hn
  · have hall : (clusters t).take n = (clusters t).take (clusters t).length := by
      rw [List.take_length, List.take_of_length_le (by omega)]
    rw [front, hall]
    exact h _ (Nat.lt_succ_self _)

instance : Decidable (Additive t) := decidable_of_iff _ additive_iff.symm

theorem WithinClusters.frontsFit (h : WithinClusters) (t : Text) : FrontsFit t := fun n =>
  clusters_of_front t n ▸ h (front t n)

theorem FrontsFit.width_le (h : FrontsFit t) : width t ≤ totalWidth (clusters t) := by
  have hall := h (clusters t).length
  rwa [front_length, List.take_length] at hall

theorem Additive.width_eq (h : Additive t) : width t = totalWidth (clusters t) := by
  have hall := h (clusters t).length
  rwa [front_length, List.take_length] at hall

theorem Additive.tame (h : Additive t) : Tame t where
  fits n := Nat.le_of_eq (h n)
  narrows m n hle := by
    obtain ⟨rest, hrest⟩ := List.take_prefix_take_left (l := clusters t) hle
    rw [h, h, ← hrest, totalWidth_append]
    exact Nat.le_add_right _ _

theorem Tame.front (h : Tame t) (n : Nat) : Tame (front t n) where
  fits m := by
    rw [front_front, clusters_of_front, List.take_take]
    exact h.fits _
  narrows m m' hle := by
    rw [front_front, front_front]
    exact h.narrows _ _ (by omega)

/-! ## Clipped text -/

theorem fitting_eq_take (room : Nat) (ts : List Text) :
    fitting room ts = ts.take (fitting room ts).length := by
  obtain ⟨rest, hrest⟩ := fitting_append room ts
  exact List.prefix_iff_eq_take.1 ⟨rest, hrest.symm⟩

theorem clip_eq_front (t : Text) (room : Nat) :
    clip t room = front t (fitting room (clusters t)).length := by
  rw [clip, front, ← fitting_eq_take]

theorem clusters_clip (t : Text) (room : Nat) :
    clusters (clip t room) = fitting room (clusters t) := by
  rw [clip_eq_front, clusters_of_front, ← fitting_eq_take]

/-- What is kept of a text fits, measured as a whole. -/
theorem FrontsFit.width_clip_le (h : FrontsFit t) (room : Nat) : width (clip t room) ≤ room := by
  have hfront := h (fitting room (clusters t)).length
  rw [← clip_eq_front, ← fitting_eq_take] at hfront
  exact Nat.le_trans hfront (totalWidth_fitting_le room (clusters t))

/-- A text that is clipped takes no more columns than before. -/
theorem Tame.width_clip_le_width (h : Tame t) (room : Nat) : width (clip t room) ≤ width t := by
  obtain ⟨rest, hrest⟩ := fitting_append room (clusters t)
  have hfewer : (fitting room (clusters t)).length ≤ (clusters t).length :=
    List.IsPrefix.length_le ⟨rest, hrest.symm⟩
  have hle := h.narrows _ _ hfewer
  rwa [← clip_eq_front, front_length] at hle

theorem Tame.clip (h : Tame t) (room : Nat) : Tame (clip t room) :=
  clip_eq_front t room ▸ h.front _

theorem fitting_of_totalWidth_le {room : Nat} {ts : List Text} (h : totalWidth ts ≤ room) :
    fitting room ts = ts := by
  induction ts generalizing room with
  | nil => rfl
  | cons t rest ih =>
    rw [totalWidth] at h
    rw [fitting, if_pos (by omega), ih (by omega)]

/-- A text with room for all of its clusters is kept whole. -/
theorem clip_of_totalWidth_le {t : Text} {room : Nat} (h : totalWidth (clusters t) ≤ room) :
    clip t room = t := by
  rw [clip, fitting_of_totalWidth_le h, clusters_flatten]

end TerminalPanes.Text
