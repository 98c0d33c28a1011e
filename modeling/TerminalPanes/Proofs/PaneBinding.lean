-- Panes are bound to their parents late. Whatever is done in a workspace, a
-- pane stays the part of its parent that it was made as, and it lies where a
-- part made anew would lie. What its parent has for padding and border is what
-- was last set on that pane, and nothing else that is done touches it.
import TerminalPanes.Proofs.PaddingSum
import TerminalPanes.Proofs.PaneParts
import TerminalPanes.Text.Tables

namespace TerminalPanes

namespace Workspace

/-! ## Where parts lie -/

/-- The corners that a pane tells, at a terminal size. There is none where a number leaves
the words on the way to it. -/
def cornersAt (w : Workspace) (size : Size) (id : Nat) : Option Point × Option Point :=
  ((w.corners id).1.resolve size, (w.corners id).2.resolve size)

/-- Both corners of a rectangle, if there is one. -/
def cornersOf (r? : Option Rect) : Option Point × Option Point :=
  (r?.map Rect.start, r?.map Rect.stop)

/-- The corners of a part are words, so no more than the columns and rows of its parent
decides whether there are any. -/
theorem cornersAt_part {w : Workspace} {q id : Nat} {d : Detail} (size : Size)
    (h : w.panes.IsPart q d id) :
    w.cornersAt size id = cornersOf ((Forest.areaOf? size w.panes q).bind d.rectIn?) := by
  obtain ⟨p, hp, hplace⟩ := h
  have hcorners : w.corners id =
      Placement.corners (fun size parent => Forest.areaOf? size w.panes parent) (.within q d) := by
    rw [corners, Forest.pane, hp, Option.getD_some, hplace]
  unfold cornersAt cornersOf
  rw [hcorners]
  cases hrect : (Forest.areaOf? size w.panes q).bind d.rectIn? with
  | none =>
    simp only [Placement.corners, Corner.resolve, hrect, Option.map_none, Option.bind_none]
  | some r =>
    have hwords : r.InWords := by
      obtain ⟨area, -, hpart⟩ := Option.bind_eq_some_iff.1 hrect
      obtain ⟨-, rfl⟩ := Detail.rectIn?_eq_some_iff.1 hpart
      exact d.inWords_rectIn area
    have hstart : r.start.words? = some r.start :=
      Point.words?_eq_some_iff.2 ⟨⟨hwords.startX, hwords.startY⟩, rfl⟩
    have hstop : r.stop.words? = some r.stop :=
      Point.words?_eq_some_iff.2 ⟨⟨hwords.stopX, hwords.stopY⟩, rfl⟩
    simp only [Placement.corners, Corner.resolve, hrect, Option.map_some, Option.bind_some, hstart,
      hstop]

/-- Whatever is changed of a pane that keeps its place, the corners of no other
pane change but those of the panes below it. -/
theorem cornersAt_modify {change : Pane → Pane} (hchange : ∀ p, (change p).placement = p.placement)
    (w : Workspace) (size : Size) {target other : Nat} (h : ¬ w.panes.Below target other) :
    cornersAt { w with panes := w.panes.modify change target } size other =
      w.cornersAt size other := by
  unfold cornersAt corners Forest.pane
  dsimp only
  cases hp : w.panes.pane? other with
  | none =>
    have hsame : (w.panes.modify change target).pane? other = none := by
      by_contra hne
      obtain ⟨p, hp'⟩ := Option.ne_none_iff_exists'.mp hne
      have hlt := Forest.lt_of_pane? hp'
      rw [Forest.length_modify] at hlt
      obtain ⟨p', hp''⟩ := Forest.exists_pane? hlt
      rw [hp] at hp''
      cases hp''
    rw [hsame]
    rfl
  | some p =>
    obtain ⟨p', hp', hplace⟩ := (Forest.Keeps.modify hchange w.panes target).kept hp
    rw [hp', Option.getD_some, Option.getD_some, hplace]
    cases hwithin : p.placement with
    | between start stop => rfl
    | within parent d =>
      have hpart : w.panes.IsPart parent d other := ⟨p, hp, hwithin⟩
      have harea : Forest.areaOf? size (w.panes.modify change target) parent =
          Forest.areaOf? size w.panes parent := by
        refine (Forest.rectOf?_and_areaOf?_modify hchange size fun hb => h (.deeper hb hpart)).2 ?_
        rintro rfl
        exact h (.part hpart)
      simp only [Placement.corners, Corner.resolve, harea]

/-- From `w` to `u` no pane has moved but those below `target`, by its corners or
by the rectangle it is drawn in, and no pane was changed but `target` itself. -/
structure ChangesBelow (target : Nat) (w u : Workspace) : Prop where
  corners : ∀ {other : Nat} (size : Size), ¬ w.panes.Below target other →
    u.cornersAt size other = w.cornersAt size other
  rect : ∀ {other : Nat} (size : Size), ¬ w.panes.Below target other →
    (u.view size other).rect? = (w.view size other).rect?
  pane : ∀ {other : Nat}, other ≠ target → u.panes.pane? other = w.panes.pane? other

theorem ChangesBelow.of_modify {change : Pane → Pane}
    (hchange : ∀ p, (change p).placement = p.placement) (w : Workspace) (target : Nat) :
    ChangesBelow target w { w with panes := w.panes.modify change target } where
  corners size h := cornersAt_modify hchange w size h
  rect size h := Forest.rectOf?_modify hchange size h
  pane h := Forest.pane?_modify_of_ne h

end Workspace

section

variable [Text.Measure]

namespace Workspace

variable {w : Workspace} {id : Nat} {p : Pane}

/-! ## Setting and dividing -/

/-- The operation sets something on one of the first `count` panes, drops one of
them or does something to the terminal. -/
def Operation.Adjusts (count : Nat) : Operation → Prop
  | .onPane id (.setPadding _) | .onPane id (.setBorderWidth _) | .onPane id .drop => id < count
  | .terminal _ => True
  | _ => False

theorem panes_terminal (op : Terminal.Operation) (w : Workspace) :
    (w.step (.terminal op)).workspace.panes = w.panes := by
  unfold step Operation.run
  simp only [bind, EStateM.bind, onTerminal]
  cases op.run w.terminal <;> rfl

/-- Panes that come later are not in the way of an adjustment. -/
theorem panes_adjust {op : Operation} {u : Workspace} {newer : List Pane}
    (hop : op.Adjusts w.panes.length) (hu : u.panes = newer ++ w.panes) :
    (u.step op).workspace.panes = newer ++ (w.step op).workspace.panes ∧
      (w.step op).workspace.panes.length = w.panes.length := by
  have change_panes : ∀ (change : Pane → Pane) {id : Nat}, id < w.panes.length →
      Forest.modify change u.panes id = newer ++ Forest.modify change w.panes id ∧
        (Forest.modify change w.panes id).length = w.panes.length := by
    intro change id h
    rw [hu]
    exact ⟨Forest.modify_append change newer h, Forest.length_modify _ _ _⟩
  unfold Operation.Adjusts at hop
  split at hop
  · exact change_panes _ hop
  · exact change_panes _ hop
  · exact change_panes _ hop
  · rw [panes_terminal, panes_terminal]
    exact ⟨hu, rfl⟩
  · exact hop.elim

theorem panes_after_adjust {ops : List Operation} {u : Workspace} {newer : List Pane}
    (hops : ∀ op ∈ ops, op.Adjusts w.panes.length) (hu : u.panes = newer ++ w.panes) :
    (u.after ops).panes = newer ++ (w.after ops).panes ∧
      (w.after ops).panes.length = w.panes.length := by
  induction ops generalizing w u with
  | nil => exact ⟨hu, rfl⟩
  | cons op rest ih =>
    obtain ⟨hstep, hlength⟩ := panes_adjust (hops op List.mem_cons_self) hu
    have hrest := ih (fun op' h => hlength ▸ hops op' (List.mem_cons_of_mem _ h)) hstep
    exact ⟨hrest.1, hrest.2.trans hlength⟩

/-- Dividing a pane and then adjusting panes that were there before leaves the
panes as adjusting and then dividing does, with the same numbers for the parts. -/
theorem split_then_adjust {ops : List Operation} (hops : ∀ op ∈ ops, op.Adjusts w.panes.length)
    (q : Nat) (details : List Detail) :
    ((w.step (.onPane q (.split details))).workspace.after ops).panes =
        ((w.after ops).step (.onPane q (.split details))).workspace.panes ∧
      (w.step (.onPane q (.split details))).result =
        ((w.after ops).step (.onPane q (.split details))).result := by
  have hsplit : ∀ u : Workspace, u.step (.onPane q (.split details)) =
      ⟨.ok (.panes (u.panes.split q details).1),
        { u with panes := (u.panes.split q details).2 }⟩ := fun _ => rfl
  rw [hsplit, hsplit, Forest.split_eq, Forest.split_eq]
  obtain ⟨hpanes, hlength⟩ := panes_after_adjust
    (u := { w with panes := (w.panes.split q details).2 }) hops (by rw [Forest.split_eq])
  rw [Forest.split_eq] at hpanes
  exact ⟨hpanes, by rw [hlength]⟩

/-! ## Parts made anew -/

/-- At every terminal size the pane lies where a part of `q` made at present
would lie, by its corners and by the rectangle it is drawn in. -/
def LiesAsNew (w : Workspace) (q : Nat) (d : Detail) (id : Nat) : Prop :=
  ∃ new w', w.step (.onPane q (.split [d])) = ⟨.ok (.panes [new]), w'⟩ ∧
    ∀ size, w.cornersAt size id = w'.cornersAt size new ∧
      w.cornersAt size id = cornersOf (w.view size id).rect?

variable {q : Nat} {d : Detail}

theorem liesAsNew_of_isPart (hq : q < w.panes.length) (hlt : q < id)
    (h : w.panes.IsPart q d id) : w.LiesAsNew q d id := by
  refine ⟨w.panes.length, { w with panes := (w.panes.split q [d]).2 }, rfl, fun size => ?_⟩
  have hnew : (w.panes.split q [d]).2.IsPart q d w.panes.length := by
    have hparts := Forest.isPart_split w.panes q [d]
    rw [Forest.split_eq] at hparts ⊢
    cases hparts with
    | cons hnew _ => exact hnew.2
  rw [cornersAt_part size h, cornersAt_part size hnew, Forest.areaOf?_split size hq]
  exact ⟨rfl, congrArg cornersOf (Forest.rectOf?_part size hlt h).symm⟩

/-- The operations that set something on a pane. -/
def PaneOperation.IsSetting : PaneOperation → Prop
  | .setPadding _ | .setBorderWidth _ => True
  | _ => False

theorem changesBelow_of_setting {op : PaneOperation} (hop : op.IsSetting) (w : Workspace)
    (target : Nat) : ChangesBelow target w (w.step (.onPane target op)).workspace := by
  unfold PaneOperation.IsSetting at hop
  split at hop
  · exact .of_modify (by exact fun _ => rfl) w target
  · exact .of_modify (by exact fun _ => rfl) w target
  · exact hop.elim

/-- The parts of a pane are bound to it late. After whatever else is done, each
lies as a part made anew would. The pane itself has the padding and the border
that were set on it, its drop changes nothing of that, and dividing it first or
last makes no difference. Where a padding and a border were set that fit in one
number, and each that is set later fits, it has the last padding and the last border,
added up. What is set on one pane leaves the others alone and moves only what is
below. -/
theorem parts_are_bound_late (w : Workspace) (hq : w.panes.pane? q = some p)
    (details : List Detail) (ops : List Operation) :
    let made := w.step (.onPane q (.split details))
    let later := made.workspace.after ops
    (∃ ids, made.result = .ok (.panes ids) ∧ List.Forall₂ (later.LiesAsNew q) details ids) ∧
      (∃ p', later.panes.pane? q = some p' ∧ p'.padding = (setOn ops q p).padding ∧
        p'.borderWidth = (setOn ops q p).borderWidth ∧
        (∀ size, (later.view size q).area? =
          (later.view size q).rect?.bind fun r => (r.inset (setOn ops q p).padding).words?) ∧
        ∀ padding border, p.AddsUp padding border →
          (∀ set ∈ padding :: paddingsOn q ops, ∀ n ∈ border :: bordersOn q ops, set.FitsWith n) →
          p'.AddsUp ((paddingsOn q ops).getLastD padding) ((bordersOn q ops).getLastD border)) ∧
      ((∀ op ∈ ops, op.Adjusts w.panes.length) →
        made.result = ((w.after ops).step (.onPane q (.split details))).result ∧
          later.panes = ((w.after ops).step (.onPane q (.split details))).workspace.panes) ∧
      ∀ (target : Nat) (setting : PaneOperation), setting.IsSetting →
        ChangesBelow target later (later.step (.onPane target setting)).workspace := by
  intro made later
  have hlt := Forest.lt_of_pane? hq
  -- Dividing a pane leaves it as it is, and every later run does so but for what it sets.
  have hmade : made.workspace.panes.pane? q = some p := by
    obtain ⟨p', hp', rfl⟩ := (Forest.Keeps.split (fun p => p) w.panes q details).kept hq
    exact hp'
  obtain ⟨p', hp', hshape⟩ := shape_after ops made.workspace hmade
  injection hshape with _ hpadding hborder
  have hkeeps := keeps_placement ops made.workspace
  refine ⟨⟨(w.panes.split q details).1, rfl, ?_⟩, ?_, ?_, ?_⟩
  · refine (Forest.isPart_split w.panes q details).imp ?_
    rintro d id ⟨hle, hpart⟩
    exact liesAsNew_of_isPart (Forest.lt_of_pane? hp') (Nat.lt_of_lt_of_le hlt hle)
      (hkeeps.isPart hpart)
  · refine ⟨p', hp', hpadding, hborder, fun size => ?_, fun padding border hsum hfits => ?_⟩
    · have hview : (later.view size q).padding = (setOn ops q p).padding := by
        rw [view, Forest.pane, hp']
        exact hpadding
      rw [View.area?, hview]
    · have hadded := addsUp_setOn hsum hfits
      exact ⟨hpadding.trans hadded.padding_eq, hborder.trans hadded.border_eq⟩
  · intro hops
    exact ⟨(split_then_adjust hops q details).2, (split_then_adjust hops q details).1⟩
  · intro target setting hsetting
    exact changesBelow_of_setting hsetting later target

end Workspace

end

namespace Workspace

open scoped Text.Tables in
/-- A padding and a border that the whole terminal gets after it was divided move its left
half, although the whole is dropped then. A border of the half moves nothing. -/
theorem a_late_border_moves_the_left_half :
    let room : Workspace := ⟨Terminal.blank Sink.unlimited ⟨80, 24⟩ Config.default,
      [Pane.ofPlacement .fullScreen], KeyInput.ofScript []⟩
    let ops : List Operation := [.onPane 0 (.setPadding ⟨1, 2, 3, 4⟩),
      .onPane 0 (.setBorderWidth 2), .onPane 0 .drop]
    let later := (room.step (.onPane 0 (.split [.leftHalf]))).workspace.after ops
    let bordered := (later.step (.onPane 1 (.setBorderWidth 1))).workspace
    room.panes.pane? 0 = some (Pane.ofPlacement .fullScreen) ∧ later.LiesAsNew 0 .leftHalf 1 ∧
      (∃ p, later.panes.pane? 0 = some p ∧ p.AddsUp ⟨1, 2, 3, 4⟩ 2) ∧
      later.panes = ((room.after ops).step (.onPane 0 (.split [.leftHalf]))).workspace.panes ∧
      (∀ size, (bordered.view size 0).rect? = (later.view size 0).rect?) ∧
      later.cornersAt ⟨80, 24⟩ 1 = (some ⟨6, 3⟩, some ⟨41, 19⟩) := by
  intro room ops later bordered
  have hroom : room.panes.pane? 0 = some (Pane.ofPlacement .fullScreen) := rfl
  obtain ⟨⟨ids, hids, hparts⟩, ⟨p, hp, -, -, -, hsum⟩, hlast, hframe⟩ :=
    parts_are_bound_late room hroom [.leftHalf] ops
  have hadds : p.AddsUp ⟨1, 2, 3, 4⟩ 2 :=
    hsum .none 0 (addsUp_ofPlacement _) (by unfold Padding.FitsWith; decide)
  have hadjust : ∀ op ∈ ops, op.Adjusts room.panes.length := by
    simp only [ops, List.forall_mem_cons]
    exact ⟨Nat.zero_lt_one, Nat.zero_lt_one, Nat.zero_lt_one, by simp⟩
  have hnot : ¬ later.panes.Below 1 0 := by
    rintro (⟨p, hp, hplace⟩ | ⟨_, p, hp, hplace⟩) <;> cases hp <;> cases hplace
  cases hids
  cases hparts with
  | cons hpart _ =>
    exact ⟨hroom, hpart, ⟨p, hp, hadds⟩, (hlast hadjust).2,
      fun size => (hframe 1 (.setBorderWidth 1) trivial).rect size hnot, by decide +kernel⟩

end Workspace

end TerminalPanes
