-- The screen of the showcase. All that it writes of its own can be read as
-- markup, whatever the sizes are, and lines without room are left out. No
-- terminal and no padding is so large that a number leaves the words. So on a
-- sink that takes everything only a title can be at fault, and only where there
-- is a border to put it on.
import TerminalPanes.Showcase.Program
import TerminalPanes.Proofs.PaneDrawing
import TerminalPanes.Proofs.WorkspaceReach
import TerminalPanes.Proofs.MarkupShown
import TerminalPanes.Proofs.MarkupText

namespace TerminalPanes

/-! ## Texts that can be read -/

namespace Markup

theorem chunks_between {chunk : Text} (h : sectionMark ∉ chunk) (hne : chunk ≠ []) :
    chunks (sectionMark :: (chunk ++ [sectionMark])) = [chunk] := by
  have hpieces : ∀ piece ∈ [[], chunk, []], sectionMark ∉ piece := by
    simp [h]
  have hsplit := List.splitOn_intercalate sectionMark hpieces (by simp)
  have htext : [sectionMark].intercalate [[], chunk, []] =
      sectionMark :: (chunk ++ [sectionMark]) := by
    simp [List.intercalate, List.intersperse]
  rw [htext] at hsplit
  unfold chunks
  rw [hsplit]
  cases chunk with
  | nil => contradiction
  | cons c rest => rfl

/-- The text can be read. -/
def Readable (t : Text) : Prop := ∃ sections, read t = .ok sections

theorem readable_of_isOk {t : Text} (h : (read t).isOk = true) : Readable t := by
  cases hread : read t with
  | ok sections => exact ⟨sections, hread⟩
  | error m =>
    rw [hread] at h
    cases h

theorem not_readable_iff {t : Text} : ¬ Readable t ↔ ∃ m, read t = .error m := by
  unfold Readable
  cases read t with
  | ok sections => simp
  | error m => simp

/-- Nothing can be wrong with a text that can be read. -/
theorem Readable.covers {t : Text} (h : Readable t) (E : PaneError → Prop) : Covers E t := by
  intro m hm
  obtain ⟨sections, hsections⟩ := h
  rw [hsections] at hm
  cases hm

/-- A text in a style that can be read, between two marks, can be read. -/
theorem readable_between {head content : Text} (hsection : sectionMark ∉ head)
    (hinstruction : instructionMark ∉ head) (hescape : escapeMark ∉ head)
    (hread : ((expressions head).mapM readInstruction).isOk = true)
    (hcontent : sectionMark ∉ content) :
    Readable (sectionMark :: (head ++ instructionMark :: content ++ [sectionMark])) := by
  have hchunk : sectionMark ∉ head ++ instructionMark :: content := by
    simp only [List.mem_append, List.mem_cons, not_or]
    exact ⟨hsection, by decide, hcontent⟩
  have hsplit : splitSection (head ++ instructionMark :: content) = (head, content) := by
    have hlast : head.getLast? ≠ some escapeMark := fun h => hescape (List.mem_of_getLast? h)
    simp only [splitSection, Text.cut?_append hinstruction content, if_neg hlast]
  cases hinstructions : (expressions head).mapM readInstruction with
  | ok instructions =>
    refine ⟨[⟨content, instructions⟩], ?_⟩
    rw [read, chunks_between hchunk (by simp), mapM_eq_ok_iff]
    exact .cons (readSection_of_split hsplit hinstructions) .nil
  | error m =>
    rw [hinstructions] at hread
    cases hread

end Markup

/-! ## Where the panes lie -/

/-- No side holds more than a side can hold. -/
structure Padding.Bounded (p : Padding) : Prop where
  top : p.top ≤ most
  right : p.right ≤ most
  bottom : p.bottom ≤ most
  left : p.left ≤ most

theorem Padding.bounded_grow (p : Padding) (n : Nat) : (p.grow n).Bounded :=
  ⟨Nat.min_le_right _ _, Nat.min_le_right _ _, Nat.min_le_right _ _, Nat.min_le_right _ _⟩

namespace Rect

/-- The coordinate is no further from zero than the edge of a terminal can be. -/
def IsNear (n : Int) : Prop := -(Decimal.shortMax : Int) ≤ n ∧ n ≤ Decimal.shortMax

/-- So are the corners. -/
structure Near (r : Rect) : Prop where
  startX : IsNear r.start.x
  startY : IsNear r.start.y
  stopX : IsNear r.stop.x
  stopY : IsNear r.stop.y

namespace Near

variable {r : Rect} {p : Padding}

theorem measured (h : r.Near) : r.Measured := by
  obtain ⟨⟨hleft, hleft'⟩, ⟨htop, htop'⟩, ⟨hright, hright'⟩, hbottom, hbottom'⟩ := h
  unfold Decimal.shortMax at *
  constructor <;> simp only [width, height] <;>
    unfold Decimal.IsWord Decimal.wordMin Decimal.wordMax <;> omega

/-- Nor does padding push the corners out of the words. -/
theorem words?_inset (h : r.Near) (hp : p.Bounded) : (r.inset p).words? = some (r.inset p) := by
  refine words?_eq_some_iff.2 ⟨?_, rfl⟩
  obtain ⟨⟨hleft, hleft'⟩, ⟨htop, htop'⟩, ⟨hright, hright'⟩, hbottom, hbottom'⟩ := h
  obtain ⟨hp₁, hp₂, hp₃, hp₄⟩ := hp
  unfold Padding.most at *
  unfold Decimal.shortMax at *
  constructor <;> simp only [inset, Point.add_x, Point.add_y, Point.sub_x, Point.sub_y] <;>
    unfold Decimal.IsWord Decimal.wordMin Decimal.wordMax <;> omega

/-- A number between two that are near is near. -/
theorem isNear_of_between {a b n : Int} (ha : IsNear a) (hb : IsNear b)
    (h : min a b ≤ n ∧ n ≤ max a b) : IsNear n := by
  unfold IsNear at *
  omega

/-- The halves of an area are no further out than the area. -/
theorem halves (h : r.Near) :
    (Detail.leftHalf.rectIn r).Near ∧ (Detail.rightHalf.rectIn r).Near := by
  have hword : ∀ {n : Int}, IsNear n → Decimal.IsWord n := by
    rintro n ⟨hmin, hmax⟩
    unfold Decimal.shortMax at hmin hmax
    unfold Decimal.IsWord Decimal.wordMin Decimal.wordMax
    omega
  have hwords : r.InWords := ⟨hword h.startX, hword h.startY, hword h.stopX, hword h.stopY⟩
  obtain ⟨hstart, hmiddle, hbottom, htop, hstop⟩ := Detail.halves_fill hwords
  have hhalf : IsNear (Detail.rightHalf.rectIn r).start.x := by
    have hright : Decimal.IsWord (r.start.x + r.width) := r.start_x_add_width ▸ hwords.stopX
    have hcell : (Detail.rightHalf.rectIn r).start.x =
        Fraction.cellOf r.width r.start.x .half := rfl
    have hbetween := Fraction.cellOf_half_between hwords.startX hright
    rw [r.start_x_add_width, ← hcell] at hbetween
    exact isNear_of_between h.startX h.stopX hbetween
  constructor
  · constructor
    · rw [hstart]; exact h.startX
    · rw [hstart]; exact h.startY
    · rw [hmiddle]; exact hhalf
    · rw [hbottom]; exact h.stopY
  · constructor
    · exact hhalf
    · rw [htop]; exact h.startY
    · rw [hstop]; exact h.stopX
    · rw [hstop]; exact h.stopY

end Near

/-- The cells of a terminal. -/
def ofSize (size : Size) : Rect := ⟨Point.origin, size.corner⟩

theorem width_ofSize (size : Size) : (ofSize size).width = size.cols := Int.sub_zero _

theorem height_ofSize (size : Size) : (ofSize size).height = size.rows := Int.sub_zero _

theorem near_ofSize (size : Size) : (ofSize size).Near := by
  have hcols := size.cols_le
  have hrows := size.rows_le
  constructor <;> unfold IsNear <;> simp only [ofSize, Point.origin, Size.corner] <;> omega

/-- Padding leaves the rectangle of a terminal near. -/
theorem near_inset_ofSize (size : Size) {p : Padding} (hp : p.Bounded) :
    ((ofSize size).inset p).Near := by
  have hcols := size.cols_le
  have hrows := size.rows_le
  obtain ⟨hp₁, hp₂, hp₃, hp₄⟩ := hp
  unfold Padding.most at *
  constructor <;> unfold IsNear <;>
    simp only [ofSize, inset, Point.origin, Size.corner, Point.add_x, Point.add_y, Point.sub_x,
      Point.sub_y] <;> omega

end Rect

/-! ## A sink that takes everything -/

/-- No error at all. -/
def Never (_ : PaneError) : Prop := False

namespace Terminal

/-- A terminal over a sink that takes everything, in its plain style. -/
structure Ready (size : Size) (config : Config) (t : Terminal) : Prop where
  unlimited : t.sink.room = none
  valid : t.history.Valid
  plain : t.style = config.plainStyle
  size : t.size = size
  config : t.config = config

variable {size : Size} {config : Config}

theorem upholds_of_ends {m : Action Unit}
    (h : ∀ t, Ready size config t → ∃ es style history, style = config.plainStyle ∧
      history.Valid ∧ Ends m t () (t.became es style history)) :
    Upholds (Ready size config) (fun e => Never (.terminal e)) m := by
  intro t ht
  obtain ⟨es, style, history, hstyle, hvalid, hends⟩ := h t ht
  obtain ⟨hok, hroom⟩ := hends.unlimited ht.unlimited
  exact Upholds.at_ok hok ⟨hroom, hvalid, hstyle, ht.size, ht.config⟩

/-- Sections leave the plain style behind. -/
theorem Ready.ends_writeSections [Text.Measure] {t : Terminal} (ht : Ready size config t)
    (sections : List Section) (wrap : Wrap) :
    ∃ cell history, history.Valid ∧ Ends (writeSections sections wrap) t ()
      (t.became (Section.emissionsOfAll t.config t.style (t.cutFrom cell wrap sections))
        config.plainStyle history) := by
  obtain ⟨cell, hcell⟩ := History.current?_of_lt ht.valid.index_lt
  obtain ⟨history, hvalid, hends⟩ := Terminal.ends_writeSections ht.valid hcell sections wrap
  have hstyle : t.style.actAll (sections.flatMap (Section.acts t.config)) = config.plainStyle := by
    rw [ht.config]
    cases sections with
    | nil => exact ht.plain
    | cons s rest => exact Section.actAll_flatMap_acts config _ (List.cons_ne_nil s rest)
  rw [hstyle] at hends
  exact ⟨cell, history, hvalid, hends⟩

/-- On such a terminal nothing that panes do goes wrong. -/
theorem footing_ready [Text.Measure] : Footing (Ready size config) (fun _ => True) Never where
  position t ht := by
    obtain ⟨cell, hcell⟩ := History.current?_of_lt ht.valid.index_lt
    refine ⟨cell - ⟨1, 1⟩, ?_, trivial⟩
    rw [position?, hcell]
    rfl
  moveTo p := upholds_of_ends fun t ht =>
    ⟨_, _, _, ht.plain, History.stable_valid.push ht.valid (isCell_cellOf p), Ends.moveTo p t⟩
  writeRaw text := upholds_of_ends fun t ht => ⟨_, _, _, ht.plain, ht.valid, Ends.emit _ t⟩
  writeClipped text := upholds_of_ends fun t ht => by
    obtain ⟨cell, hcell⟩ := History.current?_of_lt ht.valid.index_lt
    exact ⟨_, _, _, ht.plain, valid_advanced ht.valid hcell _, Ends.write hcell text .clip⟩
  writeSections sections wrap := upholds_of_ends fun t ht => by
    obtain ⟨cell, history, hvalid, hends⟩ := ht.ends_writeSections sections wrap
    exact ⟨_, _, history, rfl, hvalid, hends⟩

theorem upholds_clearScreen [Text.Measure] :
    Upholds (Ready size config) (fun e => Never (.terminal e)) clearScreen :=
  .bind (upholds_of_ends fun t ht => ⟨_, _, _, ht.plain, ht.valid, Ends.send _ t⟩) fun _ =>
    footing_ready.moveTo _

end Terminal

namespace Showcase

open Markup (Readable sectionMark)

theorem readable_styleLines : ∀ line ∈ styleLines, Readable line := by
  have hall : ∀ line ∈ styleLines, (Markup.read line).isOk = true := by decide +kernel
  exact fun line hline => Markup.readable_of_isOk (hall line hline)

/-- Whatever the numbers are, they hold none of the marks. -/
theorem readable_geometryLine (r : Rect) : Readable (geometryLine r) := by
  have hnumber : ∀ n, '|' ∉ Decimal.write n := Decimal.not_mem_write rfl (by decide)
  have hline : geometryLine r = sectionMark :: ("fg[gray]".toList ++ Markup.instructionMark ::
      ("this pane: ".toList ++ Decimal.write r.width ++ 'x' :: Decimal.write r.height
        ++ " at ".toList ++ Decimal.write r.start.x ++ ',' :: Decimal.write r.start.y)
      ++ [sectionMark]) := by
    have hstart : "|fg[gray]>this pane: ".toList =
        sectionMark :: ("fg[gray]".toList ++ Markup.instructionMark :: "this pane: ".toList) := by
      decide +kernel
    unfold geometryLine
    simp only [hstart, List.append_assoc, List.cons_append, sectionMark]
  rw [hline]
  refine Markup.readable_between (by decide) (by decide) (by decide) (by decide +kernel) ?_
  simp [hnumber, sectionMark]

theorem readable_layoutLines (r : Rect) (wrap : Wrap) :
    ∀ line ∈ layoutLines r wrap, Readable line := by
  have hwrap : (Markup.read (wrapLine wrap)).isOk = true := by cases wrap <;> decide +kernel
  have hfixed : ∀ line ∈ ["|b;fg[magenta]>Layout|", "", "Each half is computed from the frame's",
      "padded area on every access, so the",
      "split follows the terminal as it resizes."].map String.toList,
      (Markup.read line).isOk = true := by decide +kernel
  intro line hline
  rcases List.mem_append.1 hline with hline | hline
  · exact Markup.readable_of_isOk (hfixed line hline)
  · rcases List.mem_pair.1 hline with rfl | rfl
    · exact readable_geometryLine r
    · exact Markup.readable_of_isOk hwrap

end Showcase

/-! ## The panes -/

namespace Showcase

/-- The frame as it is when its border is drawn. -/
def framePane (options : Options) : Pane :=
  { (Pane.ofPlacement .fullScreen).setBorderWidth options.borderWidth with
    glyphs := options.glyphs
    title := some options.title }

/-- A half of the frame. -/
def halfPane (d : Detail) : Pane := (Pane.ofPlacement (.within 0 d)).setPadding halfPadding

/-- The panes once the frame is divided. -/
def divided (frame : Pane) : Forest := [halfPane .rightHalf, halfPane .leftHalf, frame]

/-- The frame fills the terminal, and its padding is one that a pane can have. -/
structure IsFrame (p : Pane) : Prop where
  placement : p.placement = .fullScreen
  bounded : p.padding.Bounded

theorem isFrame_framePane (options : Options) : IsFrame (framePane options) :=
  ⟨rfl, Padding.bounded_grow _ _⟩

theorem IsFrame.rectOf? {p : Pane} (h : IsFrame p) (size : Size) :
    Forest.rectOf? size [p] 0 = some (Rect.ofSize size) := by
  have hcorner : size.corner.words? = some size.corner := by
    have hcols := size.cols_le
    have hrows := size.rows_le
    unfold Decimal.shortMax at hcols hrows
    refine Point.words?_eq_some_iff.2 ⟨?_, rfl⟩
    constructor <;> unfold Decimal.IsWord Decimal.wordMin Decimal.wordMax <;>
      simp only [Size.corner] <;> omega
  have horigin : Point.origin.words? = some Point.origin := rfl
  have hplace : Forest.rectOf? size [p] 0 = p.placement.rect? size (Forest.areaOf? size []) := rfl
  rw [hplace, h.placement]
  simp only [Placement.fullScreen, Placement.rect?, Corner.resolve, horigin, Option.bind_some,
    hcorner, Option.bind_eq_bind]
  rfl

theorem IsFrame.areaOf? {p : Pane} (h : IsFrame p) (size : Size) :
    Forest.areaOf? size [p] 0 = some ((Rect.ofSize size).inset p.padding) := by
  have hpane : Forest.pane? [p] 0 = some p := rfl
  rw [Forest.areaOf?_eq_inset hpane, h.rectOf? size, Option.bind_some]
  exact (Rect.near_ofSize size).words?_inset h.bounded

/-- The frame as it lies on a terminal. -/
def frameView (size : Size) (p : Pane) : View :=
  ⟨some (Rect.ofSize size), p.padding, p.title, p.glyphs⟩

theorem IsFrame.view {p : Pane} (h : IsFrame p) (size : Size) {w : Workspace}
    (hpanes : w.panes = [p]) : w.view size 0 = frameView size p := by
  have hrect := h.rectOf? size
  rw [← hpanes] at hrect
  unfold Workspace.view frameView
  rw [hrect, hpanes]
  rfl

/-- A half as it lies in an area. -/
def halfView (d : Detail) (area : Rect) : View :=
  ⟨some (d.rectIn area), halfPadding.grow 0, none, Glyphs.light⟩

/-- The frame and its halves as they lie once it is divided. -/
theorem IsFrame.view_divided {p : Pane} (h : IsFrame p) (size : Size) {w : Workspace}
    (hpanes : w.panes = divided p) :
    w.view size 0 = frameView size p ∧
      w.view size 1 = halfView .leftHalf ((Rect.ofSize size).inset p.padding) ∧
      w.view size 2 = halfView .rightHalf ((Rect.ofSize size).inset p.padding) := by
  have hpart : ∀ (d : Detail) {older : Forest},
      Forest.areaOf? size older 0 = Forest.areaOf? size [p] 0 →
      (Placement.within 0 d).rect? size (Forest.areaOf? size older) =
        some (d.rectIn ((Rect.ofSize size).inset p.padding)) := by
    intro d older holder
    have hmeasured := Rect.measured?_eq_some_iff.2
      ⟨(Rect.near_inset_ofSize size h.bounded).measured, rfl⟩
    simp only [Placement.rect?, holder, h.areaOf? size, Option.bind_some, Detail.rectIn?,
      hmeasured, Option.map_some]
  have hframe : Forest.rectOf? size (divided p) 0 = _ := h.rectOf? size
  have hleft : Forest.rectOf? size (divided p) 1 = _ := hpart .leftHalf rfl
  have hright : Forest.rectOf? size (divided p) 2 = _ := @hpart .rightHalf [_, p] rfl
  unfold Workspace.view halfView frameView
  rw [hpanes, hframe, hleft, hright]
  exact ⟨rfl, rfl, rfl⟩

/-- No number leaves the words in a half. -/
theorem halfView_counts {area : Rect} {d : Detail} (h : (d.rectIn area).Near) :
    (halfView d area).area? = some ((d.rectIn area).inset (halfPadding.grow 0)) ∧
      (halfView d area).rect?.bind Rect.measured? = some (d.rectIn area) :=
  ⟨h.words?_inset (Padding.bounded_grow halfPadding 0),
    Rect.measured?_eq_some_iff.2 ⟨h.measured, rfl⟩⟩

end Showcase

/-! ## Actions on panes that stay where they are -/

namespace Workspace

/-- Where a pane last left the cursor has no part in how panes lie. -/
theorem view_leave (w : Workspace) (id : Nat) (c : Canvas) (size : Size) (other : Nat) :
    (w.leave id c).view size other = w.view size other := by
  let change : Pane → Pane := fun p => { p with lastKnown := c.lastKnown }
  obtain ⟨hrect, -⟩ := @Forest.rectOf?_modify_of_same change (fun _ => rfl) (fun _ => rfl)
    w.panes size id
  have hlook : ∀ {β : Type} {look : Pane → β}, (∀ p, look (change p) = look p) →
      look ((w.panes.modify change id).pane other) = look (w.panes.pane other) :=
    fun h => Forest.look_pane_modify h w.panes id other
  have hpadding := @hlook _ Pane.padding fun _ => rfl
  have htitle := @hlook _ Pane.title fun _ => rfl
  have hglyphs := @hlook _ Pane.glyphs fun _ => rfl
  have hview : (w.leave id c).view size other =
      let pane := (w.panes.modify change id).pane other
      ⟨Forest.rectOf? size (w.panes.modify change id) other, pane.padding, pane.title,
        pane.glyphs⟩ := rfl
  rw [hview, hrect]
  dsimp only
  rw [hpadding, htitle, hglyphs]
  rfl

/-- What is kept, with the panes where they are. -/
structure Seen (P : Terminal → Prop) (size : Size) (views : Nat → View) (w : Workspace) : Prop where
  kept : w.Kept P fun _ => True
  view : ∀ id, w.view size id = views id

variable {P : Terminal → Prop} {E : PaneError → Prop} {size : Size} {views : Nat → View} {α : Type}

/-- Of an action on a pane it is enough to know what it does where the pane lies. -/
theorem upholds_onPane_seen (hsize : ∀ t, P t → t.size = size) {id : Nat}
    {action : View → Canvas.Action α}
    (h : Upholds (Canvas.Kept P fun _ => True) E (action (views id))) :
    Upholds (Seen P size views) E (onPane id action) := by
  intro w hw
  have hview : w.view w.terminal.size id = views id := by
    rw [hsize _ hw.kept.terminal, hw.view]
  have hleave : ∀ c : Canvas, (c.Kept P fun _ => True) → Seen P size views (w.leave id c) := by
    intro c hc
    exact ⟨hw.kept.leave hc id, fun other => (view_leave w id c size other).trans (hw.view other)⟩
  obtain ⟨hok, herror⟩ := h (w.canvas id) (hw.kept.canvas id)
  cases hend : action (views id) (w.canvas id) with
  | ok a c => exact Upholds.at_ok (by rw [onPane_eq, hview, hend]; rfl) (hleave c (hok a c hend))
  | error e c =>
    obtain ⟨hc, he⟩ := herror e c hend
    exact Upholds.at_error (by rw [onPane_eq, hview, hend]; rfl) (hleave c hc) he

end Workspace

/-! ## The halves -/

namespace Showcase

variable {size : Size} {config : Config}

/-- What is drawn after the border. -/
def halves [Text.Measure] (options : Options) (frame : Nat) : Workspace.Action Nat := do
  let left ← Workspace.newPane (.within frame .leftHalf)
  let right ← Workspace.newPane (.within frame .rightHalf)
  Workspace.changePane left fun p => p.setPadding halfPadding
  Workspace.changePane right fun p => p.setPadding halfPadding
  let half ← Workspace.onPane right fun v => Canvas.reckon (v.rect?.bind Rect.measured?)
  Workspace.onPane left fun v => Canvas.writeLines v styleLines
  Workspace.onPane right fun v => Canvas.writeLines v (layoutLines half options.wrap)
  pure frame

/-- What is written once the frame is divided. -/
def lines [Text.Measure] (options : Options) : Workspace.Action Unit := do
  let half ← Workspace.onPane 2 fun v => Canvas.reckon (v.rect?.bind Rect.measured?)
  Workspace.onPane 1 fun v => Canvas.writeLines v styleLines
  Workspace.onPane 2 fun v => Canvas.writeLines v (layoutLines half options.wrap)

theorem halves_eq [Text.Measure] (options : Options) {w : Workspace} {p : Pane}
    (hpanes : w.panes = [p]) :
    halves options 0 w = (lines options >>= fun _ => pure 0) { w with panes := divided p } := by
  obtain ⟨terminal, panes, keys⟩ := w
  obtain rfl : panes = [p] := hpanes
  simp only [lines, bind_assoc]
  rfl

section

variable [Text.Measure] {P : Terminal → Prop} {T : Section → Prop}

/-- The halves are drawn on a terminal of any size where their lines can be written. -/
theorem exists_halves (g : Standing P (fun _ => True) Never T) (hsize : ∀ t, P t → t.size = size)
    (options : Options) (hstyle : ∀ line ∈ styleLines, Yields Never T line)
    (hlayout : ∀ r, ∀ line ∈ layoutLines r options.wrap, Yields Never T line) {w : Workspace}
    (hw : w.Kept P fun _ => True) {p : Pane} (hpanes : w.panes = [p]) (hframe : IsFrame p) :
    ∃ u, halves options 0 w = .ok 0 u ∧ (u.Kept P fun _ => True) ∧
      u.view size 0 = frameView size p := by
  let start : Workspace := { w with panes := divided p }
  obtain ⟨hwhole, hleft, hright⟩ := @IsFrame.view_divided p hframe size start rfl
  obtain ⟨hnearLeft, hnearRight⟩ := (Rect.near_inset_ofSize size hframe.bounded).halves
  obtain ⟨harea, -⟩ := halfView_counts hnearLeft
  obtain ⟨harea', hmeasured⟩ := halfView_counts hnearRight
  rw [← hleft] at harea
  rw [← hright] at harea' hmeasured
  have hstart : Workspace.Seen P size (start.view size) start :=
    ⟨⟨hw.terminal, fun _ _ _ => trivial⟩, fun _ => rfl⟩
  have hlines : Upholds (Workspace.Seen P size (start.view size)) Never (lines options) := by
    refine .bind (Workspace.upholds_onPane_seen hsize ?_) fun half => ?_
    · rw [hmeasured]
      exact .pure _
    refine .bind (Workspace.upholds_onPane_seen hsize ?_) fun _ =>
      Workspace.upholds_onPane_seen hsize ?_
    · exact Canvas.upholds_writeLines g (fun h => nomatch harea.symm.trans h) hstyle
    · exact Canvas.upholds_writeLines g (fun h => nomatch harea'.symm.trans h) (hlayout half)
  obtain ⟨_, u, hu, hseen⟩ := hlines.exists_ok hstart
  refine ⟨u, ?_, hseen.kept, (hseen.view 0).trans hwhole⟩
  rw [halves_eq options hpanes, bind_of_ok hu]
  rfl

end

/-! ## The border -/

abbrev Ready (size : Size) (config : Config) (w : Workspace) : Prop :=
  w.Kept (Terminal.Ready size config) fun _ => True

/-- What is drawn once the screen is clear and the frame is there. -/
def bordered [Text.Measure] (options : Options) : Workspace.Action Nat := do
  if 0 < options.borderWidth then
    Workspace.onPane 0 Canvas.drawBorder
  halves options 0

theorem draw_eq_of [Text.Measure] {P : Terminal → Prop}
    (hclear : Upholds P (fun e => Never (.terminal e)) Terminal.clearScreen) (options : Options)
    {w : Workspace} (hw : w.Kept P fun _ => True) (hpanes : w.panes = []) :
    ∃ u, (u.Kept P fun _ => True) ∧ u.panes = [framePane options] ∧
      draw options w = bordered options u := by
  obtain ⟨terminal, panes, keys⟩ := w
  obtain rfl : panes = [] := hpanes
  have hclear : Upholds (Workspace.Kept P fun _ => True) Never
      (Workspace.onTerminal Terminal.clearScreen) := Workspace.upholds_onTerminal hclear
  obtain ⟨_, cleared, hcleared, hkept⟩ := hclear.exists_ok hw
  obtain ⟨t, -, rfl⟩ := Workspace.of_onTerminal_ok hcleared
  refine ⟨⟨t, [framePane options], keys⟩, ⟨hkept.terminal, fun _ _ _ => trivial⟩, rfl, ?_⟩
  unfold draw
  rw [bind_of_ok hcleared]
  rfl

/-- There is a border for a title to stand on, and the title cannot be read. -/
def TitleFails (options : Options) (size : Size) : Prop :=
  0 < options.borderWidth ∧ 2 ≤ size.cols ∧ 2 ≤ size.rows ∧
    ∃ m, Markup.read options.title = .error m

theorem large_ofSize {size : Size} (hcols : 2 ≤ size.cols) (hrows : 2 ≤ size.rows) :
    Canvas.Large (Rect.ofSize size) := by
  refine ⟨(Rect.near_ofSize size).measured, ?_, ?_⟩
  · rw [Rect.width_ofSize]
    omega
  · rw [Rect.height_ofSize]
    omega

section

variable [Text.Measure]

theorem bordered_of_titleFails {options : Options} {w : Workspace} (hw : Ready size config w)
    (hpanes : w.panes = [framePane options]) (hborder : 0 < options.borderWidth)
    (hcols : 2 ≤ size.cols) (hrows : 2 ≤ size.rows) {m : MarkupError}
    (hm : Markup.read options.title = .error m) :
    ∃ u, bordered options w = .error (.terminal (.markup m)) u := by
  have hview : w.view w.terminal.size 0 = frameView size (framePane options) := by
    rw [hw.terminal.size, (isFrame_framePane options).view size hpanes]
  obtain ⟨_, c, hc, -⟩ := (Canvas.upholds_drawFrame Terminal.footing_ready
    (frameView size (framePane options)).glyphs (Rect.ofSize size)).exists_ok (hw.canvas 0)
  have hdraw : Canvas.drawBorder (frameView size (framePane options)) (w.canvas 0) =
      .error (.terminal (.markup m)) c := by
    have htitle : (frameView size (framePane options)).title = some options.title := rfl
    rw [Canvas.drawBorder_of_large rfl (large_ofSize hcols hrows),
      Canvas.drawInFrame_of_some htitle, bind_of_ok hc, Canvas.drawTitle_of_error hm]
  have hpane : Workspace.onPane 0 Canvas.drawBorder w =
      .error (.terminal (.markup m)) (w.leave 0 c) := by
    rw [Workspace.onPane_eq, hview, hdraw]
    rfl
  refine ⟨w.leave 0 c, ?_⟩
  unfold bordered
  rw [if_pos hborder, bind_of_error hpane]

/-- Where the border and the lines can be drawn, both are, and the panes stay where they
are. -/
theorem exists_bordered {P : Terminal → Prop} {T : Section → Prop} {options : Options}
    (g : Standing P (fun _ => True) Never T) (hsize : ∀ t, P t → t.size = size)
    (hstyle : ∀ line ∈ styleLines, Yields Never T line)
    (hlayout : ∀ r, ∀ line ∈ layoutLines r options.wrap, Yields Never T line) {w : Workspace}
    (hw : w.Kept P fun _ => True) (hpanes : w.panes = [framePane options])
    (hborder : 0 < options.borderWidth → Upholds (Canvas.Kept P fun _ => True) Never
      (Canvas.drawBorder (frameView size (framePane options)))) :
    ∃ p u, IsFrame p ∧ bordered options w = .ok 0 u ∧ (u.Kept P fun _ => True) ∧
      u.view size 0 = frameView size p := by
  unfold bordered
  by_cases h : 0 < options.borderWidth
  · have hview : w.view w.terminal.size 0 = frameView size (framePane options) := by
      rw [hsize _ hw.terminal, (isFrame_framePane options).view size hpanes]
    obtain ⟨_, c, hc, hkept⟩ := (hborder h).exists_ok (hw.canvas 0)
    have hpane : Workspace.onPane 0 Canvas.drawBorder w = .ok () (w.leave 0 c) := by
      rw [Workspace.onPane_eq, hview, hc]
      rfl
    let p : Pane := { framePane options with lastKnown := c.lastKnown }
    have hframe : IsFrame p := ⟨rfl, (isFrame_framePane options).bounded⟩
    have hleave : (w.leave 0 c).panes = [p] := by
      unfold Workspace.leave
      rw [hpanes]
      rfl
    obtain ⟨u, hu, hend⟩ :=
      exists_halves g hsize options hstyle hlayout (hw.leave hkept 0) hleave hframe
    refine ⟨p, u, hframe, ?_, hend⟩
    rw [if_pos h, bind_of_ok hpane]
    exact hu
  · obtain ⟨u, hu, hend⟩ :=
      exists_halves g hsize options hstyle hlayout hw hpanes (isFrame_framePane options)
    rw [if_neg h]
    exact ⟨_, u, isFrame_framePane options, hu, hend⟩

theorem bordered_of_not_titleFails {options : Options} {w : Workspace} (hw : Ready size config w)
    (hpanes : w.panes = [framePane options]) (h : ¬ TitleFails options size) :
    ∃ p u, IsFrame p ∧ bordered options w = .ok 0 u ∧ Ready size config u ∧
      u.view size 0 = frameView size p := by
  refine exists_bordered Terminal.footing_ready.standing (fun _ ht => ht.size)
    (fun line hline => ((readable_styleLines line hline).covers _).yields)
    (fun r line hline => ((readable_layoutLines r options.wrap line hline).covers _).yields)
    hw hpanes fun hborder => ?_
  by_cases hlarge : 2 ≤ size.cols ∧ 2 ≤ size.rows
  · refine Canvas.upholds_drawBorder Terminal.footing_ready (fun hnone => ?_) fun title ht => ?_
    · exact nomatch (Canvas.hasRoom?_of_large (large_ofSize hlarge.1 hlarge.2)).symm.trans hnone
    · cases ht
      have hreadable : Markup.Readable options.title := by
        by_contra hnot
        exact h ⟨hborder, hlarge.1, hlarge.2, Markup.not_readable_iff.1 hnot⟩
      exact hreadable.covers _
  · have hsmall : (Rect.ofSize size).width < 2 ∨ (Rect.ofSize size).height < 2 := by
      rw [Rect.width_ofSize, Rect.height_ofSize]
      omega
    have hdraw := Canvas.drawBorder_of_small (v := frameView size (framePane options)) rfl
      (Rect.near_ofSize size).measured hsmall
    exact fun c hc => Upholds.at_ok (hdraw c) hc

end

/-! ## Opening -/

/-- A terminal once it has been opened. -/
def opened (sink : Sink) (size : Size) (config : Config) : Terminal :=
  let t := Terminal.blank sink size config
  t.became ((t.style.tellsAll config.closingActs).map .control) config.plainStyle t.history

section

variable {sink : Sink} (hroom : sink.room = none) (size : Size) (config : Config)

include hroom

theorem opening_eq (script : Script) :
    Workspace.opening (Workspace.blank sink size config script) =
      .ok () ⟨opened sink size config, [], KeyInput.ofScript script⟩ := by
  obtain ⟨hok, -⟩ := (Terminal.Ends.closing (Terminal.blank sink size config)).unlimited hroom
  rw [Workspace.opening, Workspace.onTerminal_eq]
  exact congrArg (liftEnd _ _) hok

theorem ready_opened : Terminal.Ready size config (opened sink size config) := by
  obtain ⟨-, hunlimited⟩ :=
    (Terminal.Ends.closing (Terminal.blank sink size config)).unlimited hroom
  exact ⟨hunlimited, History.valid_ofLimit _, rfl, rfl, rfl⟩

/-- A terminal over a sink that takes everything can be opened. -/
theorem opening_of_room (script : Script) :
    ∃ w, Workspace.opening (Workspace.blank sink size config script) = .ok () w ∧
      Ready size config w ∧ w.panes = [] :=
  ⟨_, opening_eq hroom size config script, ⟨ready_opened hroom size config, fun _ _ _ => trivial⟩,
    rfl⟩

end

/-- On a sink that takes everything a terminal of any size is opened, and the showcase is
drawn on it unless there is a border for the title and the title cannot be read. Then
that is the error. What is left behind once all is drawn is the plain style. -/
theorem only_a_title_keeps_the_showcase_from_being_drawn [Text.Measure] (options : Options)
    (size : Size) (config : Config) (script : Script) :
    ∃ w, Workspace.opening (Workspace.blank Sink.unlimited size config script) = .ok () w ∧
      ((∃ e u, draw options w = .error e u) ↔
        0 < options.borderWidth ∧ 2 ≤ size.cols ∧ 2 ≤ size.rows ∧
          ∃ m, Markup.read options.title = .error m) ∧
      (∀ e u, draw options w = .error e u →
        ∃ m, Markup.read options.title = .error m ∧ e = .terminal (.markup m)) ∧
      ∀ id u, draw options w = .ok id u → u.terminal.style =
        ⟨Attributes.empty, some config.foreground, some config.background⟩ := by
  have hroom : Sink.unlimited.room = none := rfl
  obtain ⟨w, hopened, hready, hpanes⟩ := opening_of_room hroom size config script
  obtain ⟨u, hu, hframe, hdraw⟩ := draw_eq_of Terminal.upholds_clearScreen options hready hpanes
  refine ⟨w, hopened, ?_⟩
  rw [hdraw]
  by_cases h : TitleFails options size
  · obtain ⟨hborder, hcols, hrows, m, hm⟩ := h
    obtain ⟨v, hv⟩ := bordered_of_titleFails hu hframe hborder hcols hrows hm
    rw [hv]
    refine ⟨⟨fun _ => ⟨hborder, hcols, hrows, m, hm⟩, fun _ => ⟨_, v, rfl⟩⟩, ?_, ?_⟩
    · intro e u he
      cases he
      exact ⟨m, hm, rfl⟩
    · intro id u hid
      cases hid
  · obtain ⟨-, v, -, hv, hplain, -⟩ := bordered_of_not_titleFails hu hframe h
    rw [hv]
    refine ⟨⟨?_, fun hfails => absurd hfails h⟩, ?_, ?_⟩
    · rintro ⟨e, u, he⟩
      cases he
    · intro e u he
      cases he
    · intro id u hid
      cases hid
      exact hplain.terminal.plain

end Showcase

end TerminalPanes
