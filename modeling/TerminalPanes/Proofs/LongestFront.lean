-- Clipped text is the longest front that has room. It depends on nothing but
-- how a text is cut into pieces and how wide each piece is, so it is stated for
-- every such cut that gives the front of a text the front of its pieces. The
-- clusters of a text and their widths are one of them in every measure.
import Mathlib.Data.List.Infix
import TerminalPanes.Proofs.ClusterWidth
import TerminalPanes.Text.Clip

namespace TerminalPanes.Text

/-! ## Clipping by any pieces -/

/-- The columns of all pieces together. -/
def columnsOf (columns : Text → Nat) : List Text → Nat
  | [] => 0
  | piece :: rest => columns piece + columnsOf columns rest

/-- The pieces from the front whose columns together stay within `room`. -/
def fittingBy (columns : Text → Nat) (room : Nat) : List Text → List Text
  | [] => []
  | piece :: rest =>
    if columns piece ≤ room then piece :: fittingBy columns (room - columns piece) rest else []

/-- The part of the text that fits in `room` columns, cut between pieces. -/
def clipBy (cut : Text → List Text) (columns : Text → Nat) (t : Text) (room : Nat) : Text :=
  (fittingBy columns room (cut t)).flatten

/-- A text is put together from its pieces, and the first of them are the pieces of what they
put together. -/
structure CutsFronts (cut : Text → List Text) (t : Text) : Prop where
  flatten : (cut t).flatten = t
  front : ∀ n, cut ((cut t).take n).flatten = (cut t).take n

/-- The front of a text up to the end of a piece, with room for each of its pieces. -/
structure FittingFront (cut : Text → List Text) (columns : Text → Nat) (t : Text) (room : Nat)
    (front : Text) : Prop where
  pieces : ∃ n, front = ((cut t).take n).flatten
  fits : columnsOf columns (cut front) ≤ room

/-! ## The pieces that fit -/

section Pieces

variable {columns : Text → Nat} {room a b : Nat} {front pieces : List Text}

theorem columnsOf_append (columns : Text → Nat) (front rest : List Text) :
    columnsOf columns (front ++ rest) = columnsOf columns front + columnsOf columns rest := by
  induction front with
  | nil => exact (Nat.zero_add _).symm
  | cons piece front ih => rw [List.cons_append, columnsOf, columnsOf, ih, Nat.add_assoc]

theorem columnsOf_le_of_isPrefix (h : front <+: pieces) :
    columnsOf columns front ≤ columnsOf columns pieces := by
  obtain ⟨rest, rfl⟩ := h
  rw [columnsOf_append]
  exact Nat.le_add_right _ _

theorem fittingBy_isPrefix (columns : Text → Nat) (room : Nat) (pieces : List Text) :
    fittingBy columns room pieces <+: pieces := by
  induction pieces generalizing room with
  | nil => exact List.prefix_rfl
  | cons piece rest ih =>
    unfold fittingBy
    split
    · exact List.cons_prefix_cons.2 ⟨rfl, ih _⟩
    · exact List.nil_prefix

theorem columnsOf_fittingBy_le (columns : Text → Nat) (room : Nat) (pieces : List Text) :
    columnsOf columns (fittingBy columns room pieces) ≤ room := by
  induction pieces generalizing room with
  | nil => exact Nat.zero_le room
  | cons piece rest ih =>
    unfold fittingBy
    split
    · have hrest := ih (room - columns piece)
      rw [columnsOf]
      omega
    · exact Nat.zero_le room

/-- Whatever fits from the front is among the pieces that are kept. -/
theorem prefix_fittingBy (h : front <+: pieces) (hfits : columnsOf columns front ≤ room) :
    front <+: fittingBy columns room pieces := by
  induction pieces generalizing front room with
  | nil => exact h
  | cons piece rest ih =>
    rcases front with _ | ⟨first, front⟩
    · exact List.nil_prefix
    · obtain ⟨rfl, hrest⟩ := List.cons_prefix_cons.1 h
      rw [columnsOf] at hfits
      have hroom : columns first ≤ room := by omega
      rw [fittingBy, if_pos hroom, List.cons_prefix_cons]
      exact ⟨rfl, ih hrest (by omega)⟩

theorem fittingBy_mono (hle : a ≤ b) (pieces : List Text) :
    fittingBy columns a pieces <+: fittingBy columns b pieces := by
  apply prefix_fittingBy (fittingBy_isPrefix columns a pieces)
  exact Nat.le_trans (columnsOf_fittingBy_le columns a pieces) hle

/-- What fits in two rooms, one after the other, is what fits in the smaller one. -/
theorem fittingBy_fittingBy (columns : Text → Nat) (a b : Nat) (pieces : List Text) :
    fittingBy columns b (fittingBy columns a pieces) = fittingBy columns (min a b) pieces := by
  have hinner := fittingBy_isPrefix columns b (fittingBy columns a pieces)
  have hsmaller : fittingBy columns b (fittingBy columns a pieces) <+:
      fittingBy columns (min a b) pieces := by
    apply prefix_fittingBy (hinner.trans (fittingBy_isPrefix columns a pieces))
    have hfirst := columnsOf_fittingBy_le columns a pieces
    have hthen := columnsOf_fittingBy_le columns b (fittingBy columns a pieces)
    exact Nat.le_min.2 ⟨Nat.le_trans (columnsOf_le_of_isPrefix hinner) hfirst, hthen⟩
  have hboth : fittingBy columns (min a b) pieces <+:
      fittingBy columns b (fittingBy columns a pieces) := by
    apply prefix_fittingBy (fittingBy_mono (Nat.min_le_left a b) pieces)
    have hfits := columnsOf_fittingBy_le columns (min a b) pieces
    exact Nat.le_trans hfits (Nat.min_le_right a b)
  exact antisymm hsmaller hboth

end Pieces

/-! ## The text they put together -/

section Clipped

variable {cut : Text → List Text} {columns : Text → Nat} {t front : Text} {room : Nat}

theorem CutsFronts.pieces_of_isPrefix (hcut : CutsFronts cut t) {pieces : List Text}
    (h : pieces <+: cut t) : cut pieces.flatten = pieces := by
  rw [List.prefix_iff_eq_take.1 h, hcut.front]

theorem CutsFronts.cut_clipBy (hcut : CutsFronts cut t) (columns : Text → Nat) (room : Nat) :
    cut (clipBy cut columns t room) = fittingBy columns room (cut t) :=
  hcut.pieces_of_isPrefix (fittingBy_isPrefix columns room (cut t))

theorem fittingFront_clipBy (hcut : CutsFronts cut t) (columns : Text → Nat) (room : Nat) :
    FittingFront cut columns t room (clipBy cut columns t room) := by
  have hkept := fittingBy_isPrefix columns room (cut t)
  refine ⟨⟨_, congrArg List.flatten (List.prefix_iff_eq_take.1 hkept)⟩, ?_⟩
  rw [hcut.cut_clipBy]
  exact columnsOf_fittingBy_le columns room (cut t)

theorem FittingFront.prefix_clipBy (hcut : CutsFronts cut t)
    (h : FittingFront cut columns t room front) : front <+: clipBy cut columns t room := by
  obtain ⟨⟨n, rfl⟩, hfits⟩ := h
  rw [hcut.front] at hfits
  have hfirst := List.take_prefix n (cut t)
  exact (prefix_fittingBy hfirst hfits).flatten

end Clipped

/-! ## Clusters and their widths -/

section

variable [Measure]

theorem fitting_eq_fittingBy (room : Nat) (ts : List Text) :
    fitting room ts = fittingBy width room ts := by
  induction ts generalizing room with
  | nil => rfl
  | cons t rest ih =>
    rw [fitting, fittingBy]
    simp only [ih]

theorem totalWidth_eq_columnsOf (ts : List Text) : totalWidth ts = columnsOf width ts := by
  induction ts with
  | nil => rfl
  | cons t rest ih => rw [totalWidth, columnsOf, ih]

theorem cutsFronts_clusters (t : Text) : CutsFronts clusters t :=
  ⟨clusters_flatten t, clusters_front t⟩

/-- A clipped text is a front up to the end of a piece that has room, and every such front is
a front of it. So clipping twice is clipping to the smaller room, and with more room only
more is kept at the end. A text that is never wider than its pieces has room when it is
clipped. All of this holds of the clusters of a text and their widths, whatever measures
them, and by the tables no text is wider than its clusters. -/
theorem clipped_text_is_longest_fitting_front {cut : Text → List Text} {t : Text}
    (hcut : CutsFronts cut t) (columns : Text → Nat) :
    (∀ room, FittingFront cut columns t room (clipBy cut columns t room) ∧
        ∀ front, FittingFront cut columns t room front → front <+: clipBy cut columns t room) ∧
      (∀ a b, clipBy cut columns (clipBy cut columns t a) b = clipBy cut columns t (min a b)) ∧
      (∀ a b, a ≤ b → clipBy cut columns t a <+: clipBy cut columns t b) ∧
      (∀ room, let kept := clipBy cut columns t room
        columns kept ≤ columnsOf columns (cut kept) → columns kept ≤ room) ∧
      clip = clipBy clusters width ∧ (∀ s, CutsFronts clusters s) ∧
      ∀ s, Tables.width s ≤ columnsOf Tables.width (Tables.clusters s) := by
  refine ⟨?_, ?_, ?_, ?_, ?_, cutsFronts_clusters, ?_⟩
  · intro room
    exact ⟨fittingFront_clipBy hcut columns room, fun front h => h.prefix_clipBy hcut⟩
  · intro a b
    rw [clipBy, hcut.cut_clipBy, fittingBy_fittingBy, ← clipBy]
  · intro a b hle
    exact (fittingBy_mono hle (cut t)).flatten
  · intro room kept hpieces
    exact Nat.le_trans hpieces (fittingFront_clipBy hcut columns room).fits
  · funext s room
    rw [clip, fitting_eq_fittingBy, clipBy]
  · intro s
    have hwithin := Tables.withinClusters s
    rwa [@totalWidth_eq_columnsOf Tables.measure] at hwithin

end

open scoped Tables in
/-- A space without width stays behind the letter where there is no room for the wide character
after it, with one column left or with none. -/
theorem a_wide_character_straddles_the_room :
    let t := ['a', '\u200B', '日', 'b']
    CutsFronts clusters t ∧ clip t 1 = ['a', '\u200B'] ∧ clip t 2 = ['a', '\u200B'] ∧
      FittingFront clusters width t 3 ['a', '\u200B', '日'] ∧
      ['a', '\u200B', '日'] <+: clipBy clusters width t 3 ∧
      clipBy clusters width (clipBy clusters width t 3) 2 = clip t 2 := by
  intro t
  obtain ⟨hlongest, htwice, -, -, hclip, -⟩ :=
    clipped_text_is_longest_fitting_front (cutsFronts_clusters t) width
  have hfront : FittingFront clusters width t 3 ['a', '\u200B', '日'] :=
    ⟨⟨3, by decide +kernel⟩, by decide +kernel⟩
  refine ⟨cutsFronts_clusters t, by decide +kernel, by decide +kernel, hfront, ?_, ?_⟩
  · exact (hlongest 3).2 _ hfront
  · rw [htwice, hclip]
    rfl

end TerminalPanes.Text
