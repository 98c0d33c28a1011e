-- Padding and border together. A pane keeps one number for each edge, which is
-- the padding set on it and its border added up. Whatever the order in which
-- the two are set, the border can be taken off again, and where each padding
-- fits in one number together with each border nothing of either is lost.
import TerminalPanes.Proofs.PaneShape
import TerminalPanes.Text.Tables

namespace TerminalPanes

/-! ## Four sides at once -/

namespace Padding

/-- The cells at the four edges. -/
def sides (p : Padding) : List Nat := [p.top, p.right, p.bottom, p.left]

variable {p q : Padding} {n : Nat}

theorem eq_of_sides (h : p.sides = q.sides) : p = q := by
  cases p
  cases q
  simp only [sides, List.cons.injEq] at h
  simp [h]

theorem sides_grow (p : Padding) (n : Nat) :
    (p.grow n).sides = p.sides.map fun side => min (side + n) most := rfl

theorem sides_shrink (p : Padding) (n : Nat) :
    (p.shrink n).sides = p.sides.map fun side => side - n := rfl

/-- `n` more cells on every side, whether or not a side can hold them. -/
def plus (p : Padding) (n : Nat) : Padding :=
  ⟨p.top + n, p.right + n, p.bottom + n, p.left + n⟩

theorem sides_plus (p : Padding) (n : Nat) :
    (p.plus n).sides = p.sides.map fun side => side + n := rfl

/-- Every side can hold `n` more cells. -/
def FitsWith (p : Padding) (n : Nat) : Prop := ∀ side ∈ p.sides, side + n ≤ most

theorem grow_of_fitsWith (h : p.FitsWith n) : p.grow n = p.plus n := by
  apply eq_of_sides
  rw [sides_grow, sides_plus]
  apply List.map_congr_left
  intro side hside
  exact Nat.min_eq_left (h side hside)

theorem eq_zero_of_mem_none {side : Nat} (h : side ∈ none.sides) : side = 0 := by
  unfold sides none uniform at h
  simpa using h

theorem fitsWith_none (h : n ≤ most) : none.FitsWith n := by
  intro side hside
  rw [eq_zero_of_mem_none hside, Nat.zero_add]
  exact h

/-- What was added can be taken off. -/
theorem shrink_plus (p : Padding) (n : Nat) : (p.plus n).shrink n = p := by
  simp [shrink, plus]

/-- What was taken off can be put back, where there was as much. -/
theorem plus_shrink (h : ∀ side ∈ p.sides, n ≤ side) : (p.shrink n).plus n = p := by
  apply eq_of_sides
  rw [sides_plus, sides_shrink, List.map_map]
  refine (List.map_congr_left ?_).trans (List.map_id _)
  intro side hside
  exact Nat.sub_add_cancel (h side hside)

end Padding

/-! ## One pane -/

namespace Pane

variable {p : Pane} {padding : Padding} {border : Nat}

/-- The border is within the padding on every side, and no side has more cells than it can
hold. -/
def Bordered (p : Pane) : Prop :=
  ∀ side ∈ p.padding.sides, p.borderWidth ≤ side ∧ side ≤ Padding.most

theorem Bordered.borderWidth_le (h : p.Bordered) : p.borderWidth ≤ Padding.most := by
  obtain ⟨hborder, hmost⟩ := h p.padding.top List.mem_cons_self
  exact Nat.le_trans hborder hmost

/-- What has grown by the border has it within. -/
theorem within_of_mem_grow {side : Nat} (hborder : border ≤ Padding.most)
    (h : side ∈ (padding.grow border).sides) : border ≤ side ∧ side ≤ Padding.most := by
  rw [Padding.sides_grow] at h
  obtain ⟨cells, -, rfl⟩ := List.mem_map.1 h
  omega

theorem Bordered.setPadding (h : p.Bordered) (padding : Padding) :
    (p.setPadding padding).Bordered := fun _ => within_of_mem_grow h.borderWidth_le

theorem bordered_setBorderWidth (p : Pane) (h : border ≤ Padding.most) :
    (p.setBorderWidth border).Bordered := fun _ => within_of_mem_grow h

/-- The same border once more changes nothing, also where the padding is at its most. -/
theorem Bordered.setBorderWidth_self (h : p.Bordered) : p.setBorderWidth p.borderWidth = p := by
  have hback := Padding.plus_shrink fun side hside => (h side hside).1
  have hfits : (p.padding.shrink p.borderWidth).FitsWith p.borderWidth := by
    intro side hside
    rw [Padding.sides_shrink] at hside
    obtain ⟨cells, hcells, rfl⟩ := List.mem_map.1 hside
    obtain ⟨hborder, hmost⟩ := h cells hcells
    omega
  unfold setBorderWidth
  rw [Padding.grow_of_fitsWith hfits, hback]

/-- The padding that is kept is the one set and the border, added up. -/
structure AddsUp (p : Pane) (padding : Padding) (border : Nat) : Prop where
  padding_eq : p.padding = padding.plus border
  border_eq : p.borderWidth = border

theorem AddsUp.setPadding {padding' : Padding} (h : p.AddsUp padding border)
    (hfits : padding'.FitsWith border) : (p.setPadding padding').AddsUp padding' border := by
  refine ⟨?_, h.border_eq⟩
  unfold Pane.setPadding
  rw [h.border_eq, Padding.grow_of_fitsWith hfits]

theorem AddsUp.setBorderWidth {border' : Nat} (h : p.AddsUp padding border)
    (hfits : padding.FitsWith border') : (p.setBorderWidth border').AddsUp padding border' := by
  refine ⟨?_, rfl⟩
  unfold Pane.setBorderWidth
  rw [h.padding_eq, h.border_eq, Padding.shrink_plus, Padding.grow_of_fitsWith hfits]

end Pane

/-! ## What operations set -/

namespace Workspace

/-- The padding that an operation sets on the pane of a number, if it sets one. -/
def Operation.paddingOn? (id : Nat) : Operation → Option Padding
  | .onPane other (.setPadding padding) => if other = id then some padding else none
  | _ => none

/-- The border that an operation sets on the pane of a number, if it sets one. -/
def Operation.borderOn? (id : Nat) : Operation → Option Nat
  | .onPane other (.setBorderWidth border) => if other = id then some border else none
  | _ => none

/-- The paddings set on the pane of a number, in their order. -/
def paddingsOn (id : Nat) (ops : List Operation) : List Padding :=
  ops.filterMap fun op => op.paddingOn? id

/-- The borders set on the pane of a number, in their order. -/
def bordersOn (id : Nat) (ops : List Operation) : List Nat :=
  ops.filterMap fun op => op.borderOn? id

variable {id : Nat} {p : Pane} {padding : Padding} {border : Nat}

/-- What an operation sets on a pane: a padding, a border or nothing. -/
inductive Operation.Sets (id : Nat) (p : Pane) (op : Operation) : Prop where
  | padding (padding : Padding) (on : op.paddingOn? id = some padding)
      (off : op.borderOn? id = none) (set : op.setsOn id p = p.setPadding padding)
  | border (border : Nat) (off : op.paddingOn? id = none) (on : op.borderOn? id = some border)
      (set : op.setsOn id p = p.setBorderWidth border)
  | nothing (noPadding : op.paddingOn? id = none) (noBorder : op.borderOn? id = none)
      (set : op.setsOn id p = p)

theorem Operation.sets (id : Nat) (p : Pane) (op : Operation) : op.Sets id p := by
  cases op with
  | onPane other op =>
    by_cases hother : other = id
    · cases op with
      | setPadding padding => exact .padding padding (if_pos hother) rfl (if_pos hother)
      | setBorderWidth border => exact .border border rfl (if_pos hother) (if_pos hother)
      | _ => exact .nothing rfl rfl (if_pos hother)
    · cases op with
      | setPadding padding => exact .nothing (if_neg hother) rfl (if_neg hother)
      | setBorderWidth border => exact .nothing rfl (if_neg hother) (if_neg hother)
      | _ => exact .nothing rfl rfl (if_neg hother)
  | _ => exact .nothing rfl rfl rfl

theorem setOn_cons (op : Operation) (rest : List Operation) (id : Nat) (p : Pane) :
    setOn (op :: rest) id p = setOn rest id (op.setsOn id p) := rfl

theorem bordered_setOn {ops : List Operation} (hp : p.Bordered)
    (hborders : ∀ border ∈ bordersOn id ops, border ≤ Padding.most) :
    (setOn ops id p).Bordered := by
  unfold bordersOn at hborders
  induction ops generalizing p with
  | nil => exact hp
  | cons op rest ih =>
    rw [setOn_cons]
    cases op.sets id p with
    | padding padding on off set =>
      rw [List.filterMap_cons_none off] at hborders
      rw [set]
      exact ih (hp.setPadding padding) hborders
    | border border off on set =>
      rw [List.filterMap_cons_some on, List.forall_mem_cons] at hborders
      rw [set]
      exact ih (Pane.bordered_setBorderWidth p hborders.1) hborders.2
    | nothing noPadding noBorder set =>
      rw [List.filterMap_cons_none noBorder] at hborders
      rw [set]
      exact ih hp hborders

/-- Where each padding fits with each border, the last ones of both add up. -/
theorem addsUp_setOn {ops : List Operation} (hp : p.AddsUp padding border)
    (hfits : ∀ q ∈ padding :: paddingsOn id ops, ∀ n ∈ border :: bordersOn id ops, q.FitsWith n) :
    (setOn ops id p).AddsUp ((paddingsOn id ops).getLastD padding)
      ((bordersOn id ops).getLastD border) := by
  unfold paddingsOn bordersOn at hfits ⊢
  -- What was set first gives way to what is set next, so the start of the run is general.
  induction ops generalizing p padding border with
  | nil => exact hp
  | cons op rest ih =>
    rw [setOn_cons]
    cases op.sets id p with
    | padding padding' on off set =>
      rw [List.filterMap_cons_some on, List.filterMap_cons_none off] at hfits ⊢
      have hlater := (List.forall_mem_cons.1 hfits).2
      have hnow : padding'.FitsWith border := hlater padding' List.mem_cons_self border
        List.mem_cons_self
      rw [List.getLastD_cons, set]
      exact ih (hp.setPadding hnow) hlater
    | border border' off on set =>
      rw [List.filterMap_cons_none off, List.filterMap_cons_some on] at hfits ⊢
      have hlater := fun q hq => (List.forall_mem_cons.1 (hfits q hq)).2
      have hnow : padding.FitsWith border' := hlater padding List.mem_cons_self border'
        List.mem_cons_self
      rw [List.getLastD_cons, set]
      exact ih (hp.setBorderWidth hnow) hlater
    | nothing noPadding noBorder set =>
      rw [List.filterMap_cons_none noPadding, List.filterMap_cons_none noBorder] at hfits ⊢
      rw [set]
      exact ih hp hfits

theorem bordered_ofPlacement (placement : Placement) : (Pane.ofPlacement placement).Bordered := by
  intro side hside
  rw [Padding.eq_zero_of_mem_none hside]
  exact ⟨Nat.le_refl 0, Nat.zero_le _⟩

theorem addsUp_ofPlacement (placement : Placement) :
    (Pane.ofPlacement placement).AddsUp Padding.none 0 := ⟨rfl, rfl⟩

/-- Padding and border add up, in whatever order they are set on a pane and whatever else is
done. The border is always within the padding, so taking it off never stops at zero, and
setting it once more changes nothing. Where each padding set fits in 16 bits with each border
set, the padding kept is the last one of the first and the last one of the second. -/
theorem padding_and_border_add_up [Text.Measure] {w : Workspace} {placement : Placement}
    (hid : w.panes.pane? id = some (Pane.ofPlacement placement)) (ops : List Operation)
    (hpaddings : ∀ padding ∈ paddingsOn id ops, ∀ side ∈ padding.sides, side ≤ Padding.most)
    (hborders : ∀ border ∈ bordersOn id ops, border ≤ Padding.most) :
    ∃ p, (w.after ops).panes.pane? id = some p ∧
      (∀ side ∈ p.padding.sides, p.borderWidth ≤ side) ∧
      (p.padding.shrink p.borderWidth).plus p.borderWidth = p.padding ∧
      (w.after ops).step (.onPane id (.setBorderWidth p.borderWidth)) =
        ⟨.ok .nothing, w.after ops⟩ ∧
      ((∀ padding ∈ paddingsOn id ops, ∀ border ∈ bordersOn id ops, padding.FitsWith border) →
        p.borderWidth = (bordersOn id ops).getLastD 0 ∧
        p.padding = ((paddingsOn id ops).getLastD Padding.none).plus
          ((bordersOn id ops).getLastD 0)) := by
  obtain ⟨p, hp, hshape⟩ := shape_after ops w hid
  injection hshape with _ hpadding hborder
  have hset := bordered_setOn (bordered_ofPlacement placement) hborders
  have hbordered : p.Bordered := by
    unfold Pane.Bordered at hset ⊢
    rwa [hpadding, hborder]
  have hwithin : ∀ side ∈ p.padding.sides, p.borderWidth ≤ side :=
    fun side hside => (hbordered side hside).1
  refine ⟨p, hp, hwithin, Padding.plus_shrink hwithin, ?_, ?_⟩
  · have hsame : (w.after ops).panes.modify (·.setBorderWidth p.borderWidth) id =
        (w.after ops).panes := by
      apply Forest.modify_eq_self
      rw [Forest.pane, hp]
      exact hbordered.setBorderWidth_self
    change Outcome.mk _ { w.after ops with panes := _ } = _
    rw [hsame]
  · intro hfits
    have hpairs : ∀ q ∈ Padding.none :: paddingsOn id ops, ∀ n ∈ 0 :: bordersOn id ops,
        q.FitsWith n := by
      intro q hq n hn
      rcases List.mem_cons.1 hq with rfl | hq
      · apply Padding.fitsWith_none
        rcases List.mem_cons.1 hn with rfl | hn
        · exact Nat.zero_le _
        · exact hborders n hn
      · rcases List.mem_cons.1 hn with rfl | hn
        · exact hpaddings q hq
        · exact hfits q hq n hn
    have hsum := addsUp_setOn (addsUp_ofPlacement placement) hpairs
    exact ⟨hborder.trans hsum.border_eq, hpadding.trans hsum.padding_eq⟩

open scoped Text.Tables in
/-- A border of two, and then a narrower one, around paddings that came before and after it. The
left half that is made meanwhile has a border of its own. A side that is full keeps as much as
it can hold when a border comes to it, and the same border again takes nothing from it. -/
theorem a_narrower_border_and_a_full_side :
    let room : Workspace := ⟨Terminal.blank Sink.unlimited ⟨80, 24⟩ Config.default,
      [Pane.ofPlacement .fullScreen], KeyInput.ofScript []⟩
    let ops : List Operation := [.onPane 0 (.setPadding ⟨1, 2, 3, 4⟩),
      .onPane 0 (.setBorderWidth 2), .onPane 0 (.split [.leftHalf]),
      .onPane 1 (.setBorderWidth 9), .onPane 0 (.setPadding ⟨0, 5, 0, 7⟩),
      .onPane 0 (.setBorderWidth 1)]
    let full : List Operation := [.onPane 0 (.setPadding ⟨65535, 0, 65534, 1⟩),
      .onPane 0 (.setBorderWidth 2)]
    let kept : Pane :=
      { Pane.ofPlacement .fullScreen with padding := ⟨65535, 2, 65535, 3⟩, borderWidth := 2 }
    room.panes.pane? 0 = some (Pane.ofPlacement .fullScreen) ∧
      (∃ p, (room.after ops).panes.pane? 0 = some p ∧ p.borderWidth = 1 ∧
        p.padding = ⟨1, 6, 1, 8⟩) ∧
      (room.after full).panes.pane? 0 = some kept ∧
      (room.after full).step (.onPane 0 (.setBorderWidth 2)) = ⟨.ok .nothing, room.after full⟩ := by
  intro room ops full kept
  have hroom : room.panes.pane? 0 = some (Pane.ofPlacement .fullScreen) := rfl
  have hfull : (room.after full).panes.pane? 0 = some kept := rfl
  obtain ⟨p, hp, -, -, -, hsum⟩ :=
    padding_and_border_add_up hroom ops (by unfold Padding.most; decide) (by decide)
  obtain ⟨q, hq, -, -, hagain, -⟩ := padding_and_border_add_up hroom full (by decide) (by decide)
  obtain ⟨hborder, hpadding⟩ := hsum (by unfold Padding.FitsWith; decide)
  obtain rfl : _ = q := Option.some.inj (hfull.symm.trans hq)
  exact ⟨hroom, ⟨p, hp, hborder, hpadding⟩, hfull, hagain⟩

end Workspace

end TerminalPanes
