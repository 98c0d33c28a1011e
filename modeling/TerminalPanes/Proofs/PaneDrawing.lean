-- What drawing in a pane sends. Frames and blanks are put down piece by piece,
-- each with a move in front of it, so where the cursor was before does not
-- matter. A title is one row of texts.
import TerminalPanes.Proofs.DrawnRows
import TerminalPanes.Proofs.PaneParts
import TerminalPanes.Proofs.SectionFit
import TerminalPanes.Proofs.SingleCells

namespace TerminalPanes

/-! ## Rectangles -/

namespace Rect

/-- The row of a rectangle, which may lie above or below it. -/
def line (r : Rect) (y : Int) : Rect := ⟨⟨r.start.x, y⟩, ⟨r.stop.x, y + 1⟩⟩

theorem rows_line (r : Rect) (y : Int) : (r.line y).rows = [y] := by
  have hone : (y + 1 - y).toNat = 1 := by omega
  simp only [rows, rowsBetween, line, hone, List.range_one, List.map_cons, List.map_nil]
  exact congrArg ([·]) (Int.add_zero y)

/-- The columns and rows of a rectangle on the screen can be counted if neither number is
negative. -/
theorem InWords.measured {r : Rect} (h : r.InWords) (hx : 0 ≤ r.start.x)
    (hy : 0 ≤ r.start.y) (hwidth : 0 ≤ r.width) (hheight : 0 ≤ r.height) : r.Measured := by
  have hright := h.stopX.2
  have hbottom := h.stopY.2
  unfold Rect.width Rect.height at *
  constructor <;> unfold Decimal.IsWord Decimal.wordMin <;> constructor <;>
    simp only [Rect.width, Rect.height] <;> omega

end Rect

namespace Glyphs

variable {g : Glyphs} {r : Rect} {k : Stroke}

/-- The frame of a rectangle, as if there were no edge of the screen. -/
def frameStrokes (g : Glyphs) (r : Rect) : List Stroke :=
  ⟨r.start, g.edge g.topLeft g.topRight r.width.toNat⟩ ::
    ((Rect.rowsBetween (r.start.y + 1) (r.stop.y - 1)).flatMap fun y =>
      [⟨⟨r.start.x, y⟩, [g.vertical]⟩, ⟨⟨r.stop.x - 1, y⟩, [g.vertical]⟩]) ++
    [⟨⟨r.start.x, r.stop.y - 1⟩, g.edge g.bottomLeft g.bottomRight r.width.toNat⟩]

theorem mem_frameStrokes :
    k ∈ g.frameStrokes r ↔
      k = ⟨r.start, g.edge g.topLeft g.topRight r.width.toNat⟩ ∨
      (∃ y, (r.start.y < y ∧ y < r.stop.y - 1) ∧
        (k = ⟨⟨r.start.x, y⟩, [g.vertical]⟩ ∨ k = ⟨⟨r.stop.x - 1, y⟩, [g.vertical]⟩)) ∨
      k = ⟨⟨r.start.x, r.stop.y - 1⟩, g.edge g.bottomLeft g.bottomRight r.width.toNat⟩ := by
  simp only [frameStrokes, List.cons_append, List.mem_cons, List.mem_append, List.mem_flatMap,
    List.not_mem_nil, or_false, Rect.mem_rowsBetween, Int.add_one_le_iff]

end Glyphs

/-- The padded area is in words, and it is the rectangle inside the padding. -/
theorem View.of_area?_eq_some {v : View} {area : Rect} (h : v.area? = some area) :
    area.InWords ∧ ∃ r, v.rect? = some r ∧ r.inset v.padding = area := by
  obtain ⟨r, hr, hinset⟩ := Option.bind_eq_some_iff.1 h
  obtain ⟨hwords, rfl⟩ := Rect.words?_eq_some_iff.1 hinset
  exact ⟨hwords, r, hr, rfl⟩

namespace Canvas

/-- There is room for a title where the brackets leave a column between the corners. -/
theorem titleRoom_ne_zero_iff {r : Rect} : titleRoom r ≠ 0 ↔ 5 ≤ r.width := by
  unfold titleRoom
  omega

/-- A rectangle has a border where its columns and rows can be counted and there are two of
each at least. -/
structure Large (r : Rect) : Prop where
  measured : r.Measured
  width : 2 ≤ r.width
  height : 2 ≤ r.height

theorem hasRoom?_of_large (h : Large r) : hasRoom? r = some true :=
  hasRoom?_eq_some_iff.2 ⟨⟨h.measured.width, fun _ => h.measured.height⟩,
    iff_of_true rfl ⟨h.width, h.height⟩⟩

theorem blank_of_nonpos {columns : Int} (h : columns ≤ 0) : blank columns = [] := by
  rw [blank, Int.toNat_of_nonpos h]
  rfl

theorem readTitle_of_ok {title : Text} {sections : List Section}
    (h : Markup.read title = .ok sections) (c : Canvas) :
    onTerminal (Terminal.readMarkup title) c = .ok sections c := by
  rw [onTerminal_eq, Terminal.readMarkup_of_ok h]
  rfl

end Canvas

/-! ## Actions that draw -/

namespace Canvas

variable {size : Size}

/-- On a terminal of the size the action ends well and sends just these emissions. The
style stays as it is. -/
def Draws (size : Size) (m : Action Unit) (es : List Emission) : Prop :=
  ∀ c, c.terminal.Boundless size → ∃ u, m c = .ok () u ∧ c.terminal.Drawn size es u.terminal ∧
    u.terminal.style = c.terminal.style

theorem onTerminal_of_ends {α : Type} {m : Terminal.Action α} {c : Canvas} {a : α} {t : Terminal}
    (hroom : c.terminal.sink.room = none) (h : Terminal.Ends m c.terminal a t) :
    onTerminal m c = .ok a { c with terminal := t } := by
  rw [onTerminal_eq, (h.unlimited hroom).1]
  rfl

/-- The canvas after a move. -/
def moved (c : Canvas) (p : Point) : Canvas where
  terminal := c.terminal.became [.control (.cursorTo (p.clamped + ⟨1, 1⟩))] c.terminal.style
    (c.terminal.history.push (p.clamped + ⟨1, 1⟩))
  lastKnown := some p.clamped

theorem moveTo_eq {c : Canvas} (hc : c.terminal.Boundless size) (p : Point) :
    moveTo p c = .ok () (c.moved p) ∧
      c.terminal.Drawn size [.control (.cursorTo (p.clamped + ⟨1, 1⟩))] (c.moved p).terminal ∧
      (c.moved p).terminal.history.current? = some (p.clamped + ⟨1, 1⟩) := by
  have hends := Terminal.Ends.moveTo p c.terminal
  rw [← p.clamped_add_cell] at hends
  have hcurrent := History.current?_push hc.valid (p.clamped + ⟨1, 1⟩)
  have hpush : (c.terminal.history.push (p.clamped + ⟨1, 1⟩)).Valid :=
    History.stable_valid.push hc.valid (p.clamped_add_cell ▸ Terminal.isCell_cellOf p)
  refine ⟨?_, ⟨⟨Sink.room_takeAll hc.unlimited _, hpush, hc.size_eq⟩, rfl⟩, hcurrent⟩
  unfold moveTo
  rw [bind_of_ok (onTerminal_of_ends hc.unlimited hends)]
  exact remember_of_position? (Terminal.position?_of_current? hcurrent)

namespace Draws

variable {m n : Action Unit} {es es' : List Emission}

theorem pure : Draws size (Pure.pure ()) [] := fun c hc => ⟨c, rfl, hc.drawn_nil, rfl⟩

theorem seq (hm : Draws size m es) (hn : Draws size n es') :
    Draws size (m >>= fun _ => n) (es ++ es') := by
  intro c hc
  obtain ⟨u, hu, hfirst, hstyle⟩ := hm c hc
  obtain ⟨v, hv, hthen, hstyle'⟩ := hn u hfirst.boundless
  exact ⟨v, by rw [bind_of_ok hu, hv], hfirst.append hthen, hstyle'.trans hstyle⟩

theorem forM {ι : Type} {f : ι → Action Unit} {g : ι → List Emission}
    (h : ∀ i, Draws size (f i) (g i)) (is : List ι) : Draws size (is.forM f) (is.flatMap g) := by
  induction is with
  | nil => exact pure
  | cons i rest ih => exact (h i).seq ih

theorem moveTo (p : Point) :
    Draws size (moveTo p) [.control (.cursorTo (p.clamped + ⟨1, 1⟩))] := by
  intro c hc
  obtain ⟨hok, hdrawn, -⟩ := moveTo_eq hc p
  exact ⟨_, hok, hdrawn, rfl⟩

/-- A move behind an action decides where the cursor is left. -/
theorem then_moveTo (hm : Draws size m es) (p : Point) {c : Canvas}
    (hc : c.terminal.Boundless size) :
    ∃ u, (m >>= fun _ => Canvas.moveTo p) c = .ok () u ∧
      c.terminal.Drawn size (es ++ [.control (.cursorTo (p.clamped + ⟨1, 1⟩))]) u.terminal ∧
      u.terminal.position? = some p.clamped ∧ u.lastKnown = some p.clamped := by
  obtain ⟨t, ht, hdrawn, -⟩ := hm c hc
  obtain ⟨hok, hmoved, hcurrent⟩ := moveTo_eq hdrawn.boundless p
  exact ⟨t.moved p, by rw [bind_of_ok ht, hok], hdrawn.append hmoved,
    Terminal.position?_of_current? hcurrent, rfl⟩

section

variable [Text.Measure]

/-- A text that is written where the cursor was moved. -/
theorem put (k : Stroke) :
    Draws size (Canvas.moveTo k.start >>= fun _ => writeClipped k.text) (size.put k) := by
  intro c hc
  obtain ⟨hok, hdrawn, hcurrent⟩ := moveTo_eq hc k.start
  have hends := Terminal.Ends.write hcurrent k.text .clip
  rw [Terminal.visibleAt_clip, hdrawn.boundless.size_eq] at hends
  have hwrite := onTerminal_of_ends hdrawn.boundless.unlimited hends
  have hvalid := Terminal.valid_advanced hdrawn.boundless.valid hcurrent
    (size.visible k.start.clamped.x k.text).width
  refine ⟨_, (bind_of_ok hok).trans hwrite, hdrawn.append ⟨⟨?_, hvalid, hc.size_eq⟩, rfl⟩, rfl⟩
  exact Sink.room_takeAll hdrawn.boundless.unlimited _

theorem put_seq (k : Stroke) (hn : Draws size n es) :
    Draws size (Canvas.moveTo k.start >>= fun _ => writeClipped k.text >>= fun _ => n)
      (size.put k ++ es) := by
  have h := (put k).seq hn
  rwa [bind_assoc] at h

end

end Draws

end Canvas

/-! ## Actions on a pane of a workspace -/

namespace Workspace

variable {w : Workspace} {id : Nat} {action : View → Canvas.Action Unit} {v : View} {u : Canvas}

/-- How the workspace comes out of an action on a pane. -/
def acted (w : Workspace) (id : Nat) (action : View → Canvas.Action Unit) : Outcome :=
  outcomeOf (silent (onPane id action) w)

/-- What is done in a pane well is done in the workspace. -/
theorem acted_of_ok (hv : w.view w.terminal.size id = v)
    (h : action v (w.canvas id) = .ok () u) :
    w.acted id action = ⟨.ok .nothing, w.leave id u⟩ := by
  have hpane : onPane id action w = .ok () (w.leave id u) := by
    rw [onPane_eq, hv, h]
    rfl
  have hrun : silent (onPane id action) w = .ok .nothing (w.leave id u) := bind_of_ok hpane
  exact congrArg outcomeOf hrun

theorem acted_of_error (hv : w.view w.terminal.size id = v) {e : PaneError}
    (h : action v (w.canvas id) = .error e u) :
    w.acted id action = ⟨.error e, w.leave id u⟩ := by
  have hpane : onPane id action w = .error e (w.leave id u) := by
    rw [onPane_eq, hv, h]
    rfl
  have hrun : silent (onPane id action) w = .error e (w.leave id u) := bind_of_error hpane
  exact congrArg outcomeOf hrun

end Workspace

variable [Text.Measure]

/-! ## Frames and blanks -/

theorem Glyphs.singles_frameStrokes {g : Glyphs} {r : Rect} (h : g.Singles) :
    ∀ k ∈ g.frameStrokes r, k.text.Singles := by
  intro k hk
  rcases mem_frameStrokes.1 hk with rfl | ⟨y, -, rfl | rfl⟩ | rfl
  · exact h.edge (by simp [toList]) (by simp [toList]) _
  · exact h.vertical
  · exact h.vertical
  · exact h.edge (by simp [toList]) (by simp [toList]) _

namespace Rect

/-- The blanks that cover a row of an area. -/
def blankStroke (area : Rect) (y : Int) : Stroke :=
  ⟨⟨area.start.x, y⟩, Canvas.blank area.width⟩

/-- What is sent for blanks in the rows of a rectangle, as wide as an area, and for the move
to a position behind them. -/
def blanking (size : Size) (area r : Rect) (p : Point) : List Emission :=
  (r.rows.map area.blankStroke).flatMap size.put ++ [.control (.cursorTo (p + ⟨1, 1⟩))]

theorem show_blanking (size : Size) (area r : Rect) (p : Point) :
    Emission.Show (area.blanking size r p) ((r.rows.map area.blankStroke).map size.cut) := by
  have hboth := (Emission.show_put size (r.rows.map area.blankStroke)).append
    (Emission.show_cursorTo (p + ⟨1, 1⟩))
  rwa [List.append_nil] at hboth

end Rect

namespace Canvas

variable {size : Size}

theorem draws_drawFrame (size : Size) (g : Glyphs) (r : Rect) :
    Draws size (drawFrame g r) ((g.frameStrokes r).flatMap size.put) := by
  simp only [Glyphs.frameStrokes, List.cons_append, List.flatMap_cons, List.flatMap_append,
    List.flatMap_assoc, List.flatMap_nil, List.append_nil]
  refine .put_seq ⟨r.start, _⟩ (.seq (.forM (fun y => ?_) _) ?_)
  · exact .put_seq ⟨⟨r.start.x, y⟩, [g.vertical]⟩ (.put ⟨⟨r.stop.x - 1, y⟩, [g.vertical]⟩)
  · exact .put ⟨⟨r.start.x, r.stop.y - 1⟩, _⟩

/-- The action blanks the columns of an area in the rows of a rectangle and leaves the cursor
at a position, which the pane remembers. -/
def Blanks (size : Size) (area r : Rect) (p : Point) (m : Action Unit) (c : Canvas) : Prop :=
  ∃ u, m c = .ok () u ∧ c.terminal.Drawn size (area.blanking size r p) u.terminal ∧
    u.terminal.position? = some p ∧ u.lastKnown = some p

variable {v : View} {area : Rect} (harea : v.area? = some area)

include harea

theorem blanks_clear (hwidth : Decimal.IsWord area.width) {c : Canvas}
    (hc : c.terminal.Boundless size) :
    Blanks size area area area.start.clamped (clear v) c := by
  have hrow : ∀ y, Draws size _ (size.put (area.blankStroke y)) := fun y =>
    .put (area.blankStroke y)
  have hend := (Draws.forM hrow area.rows).then_moveTo area.start hc
  unfold Blanks Rect.blanking clear
  rw [harea, reckon_some_bind, Decimal.word?_of_isWord hwidth, reckon_some_bind]
  rwa [List.flatMap_map]

/-- Columns that cannot be counted are not blanked. -/
theorem clear_of_not_isWord (hwidth : ¬ Decimal.IsWord area.width) (c : Canvas) :
    clear v c = .error .overflow c := by
  unfold clear
  rw [harea, reckon_some_bind, Decimal.word?_of_not_isWord hwidth]
  rfl

/-- Whatever the columns, the cursor moves to the margin of its row first. -/
theorem clearLine_eq {c : Canvas} {cursor : Point} (hcursor : c.terminal.position? = some cursor)
    (hc : c.terminal.Boundless size) :
    clearLine v c = (do
      let columns ← reckon (Decimal.word? area.width)
      writeClipped (blank columns)
      moveTo ⟨area.start.x, cursor.y⟩) (c.moved ⟨area.start.x, cursor.y⟩) := by
  obtain ⟨hwords, r, hr, rfl⟩ := View.of_area?_eq_some harea
  have hstart : (r.inset v.padding).start.words? = some (r.inset v.padding).start :=
    Point.words?_eq_some_iff.2 ⟨⟨hwords.startX, hwords.startY⟩, rfl⟩
  unfold clearLine
  rw [hr, reckon_some_bind, hstart, reckon_some_bind, bind_of_ok (position_of_position? hcursor)]
  rw [bind_of_ok (moveTo_eq hc _).1, harea, reckon_some_bind]

/-- The row that is cleared is the one that the cursor is in. -/
theorem blanks_clearLine (hwidth : Decimal.IsWord area.width) {c : Canvas} {cursor : Point}
    (hcursor : c.terminal.position? = some cursor) (hc : c.terminal.Boundless size) :
    Blanks size area (area.line cursor.y) (Point.clamped ⟨area.start.x, cursor.y⟩)
      (clearLine v) c := by
  obtain ⟨u, hok, hend⟩ :=
    (Draws.put (area.blankStroke cursor.y)).then_moveTo ⟨area.start.x, cursor.y⟩ hc
  rw [bind_assoc, bind_of_ok (moveTo_eq hc _).1] at hok
  refine ⟨u, ?_, ?_⟩
  · rw [clearLine_eq harea hcursor hc, Decimal.word?_of_isWord hwidth, reckon_some_bind]
    exact hok
  · unfold Rect.blanking
    rwa [Rect.rows_line, List.map_singleton, List.flatMap_singleton]

/-- Where its columns cannot be counted, the cursor stays at the margin. -/
theorem clearLine_of_not_isWord (hwidth : ¬ Decimal.IsWord area.width) {c : Canvas}
    {cursor : Point} (hcursor : c.terminal.position? = some cursor)
    (hc : c.terminal.Boundless size) :
    clearLine v c = .error .overflow (c.moved ⟨area.start.x, cursor.y⟩) := by
  rw [clearLine_eq harea hcursor hc, Decimal.word?_of_not_isWord hwidth]
  rfl

end Canvas

/-! ## Titles -/

namespace Canvas

variable {size : Size} {g : Glyphs} {r : Rect} {sections : List Section}

/-- What is kept of a title. -/
def keptSections (r : Rect) (sections : List Section) : List Section :=
  Markup.truncate (titleRoom r) sections

/-- The columns that it takes. -/
def keptColumns (r : Rect) (sections : List Section) : Int :=
  Text.totalWidth ((keptSections r sections).map Section.content)

/-- What the row of a title is made of. -/
def titleTexts (g : Glyphs) (r : Rect) (sections : List Section) : List Text :=
  [[g.titleOpen]] ++ (keptSections r sections).map Section.content ++ [[g.titleClose]]

/-- Where on the screen the opening bracket stands. -/
def titleCorner (r : Rect) (sections : List Section) : Point :=
  Point.clamped ⟨titleStart r (keptSections r sections), r.start.y⟩

theorem totalWidth_titleTexts (h : g.Singles) (r : Rect) (sections : List Section) :
    (Text.totalWidth (titleTexts g r sections) : Int) = keptColumns r sections + 2 := by
  simp only [titleTexts, keptColumns, Text.totalWidth_append, Text.totalWidth, h.titleOpen.width,
    h.titleClose.width, List.length_singleton]
  omega

section

variable (htame : ∀ s ∈ sections, s.content.Tame)

include htame

theorem tame_titleTexts (h : g.Singles) : ∀ t ∈ titleTexts g r sections, t.Tame := by
  simp only [titleTexts, List.forall_mem_append, List.forall_mem_singleton]
  exact ⟨⟨h.titleOpen.additive.tame, List.forall_mem_map.2 (Markup.tame_truncate htame _)⟩,
    h.titleClose.additive.tame⟩

/-- What is kept of a title has room between the corners and the brackets. -/
theorem keptColumns_le (r : Rect) : keptColumns r sections ≤ max (r.width - 4) 0 := by
  have hfits := Markup.totalWidth_truncate_le (fun s hs => (htame s hs).fits) (titleRoom r)
  have hroom : (titleRoom r : Int) = max (r.width - 4) 0 := Int.toNat_eq_max _
  unfold keptColumns keptSections
  omega

theorem titleStart_eq (hwidth : r.width ≤ Decimal.wordMax) :
    titleStart r (keptSections r sections) =
      max (r.start.x + r.width / 2 - (keptColumns r sections + 3) / 2) (r.start.x + 1) := by
  have hfits := keptColumns_le htame r
  have hroom : keptColumns r sections ≤ Decimal.wordMax - 2 := by
    unfold Decimal.wordMax at *
    omega
  have hcolumns : titleColumns (keptSections r sections) = keptColumns r sections + 2 :=
    congrArg (· + 2) (Int.min_eq_left hroom)
  rw [titleStart, hcolumns, Int.add_assoc]
  rfl

/-- A title stands with its brackets between the corners. -/
theorem titleStart_bounds (hwidth : r.width ≤ Decimal.wordMax) (hroom : titleRoom r ≠ 0) :
    r.start.x + 1 ≤ titleStart r (keptSections r sections) ∧
      titleStart r (keptSections r sections) + (keptColumns r sections + 2) ≤ r.stop.x - 1 := by
  have hfits := keptColumns_le htame r
  rw [titleStart_eq htame hwidth]
  rw [titleRoom_ne_zero_iff] at hroom
  unfold Rect.width at *
  omega

/-- Where the rectangle begins on the screen, no move to its title is clamped. -/
theorem titleCorner_x (hwords : r.InWords) (hleft : 0 ≤ r.start.x) (hroom : titleRoom r ≠ 0) :
    (titleCorner r sections).x = titleStart r (keptSections r sections) := by
  have hstop := hwords.stopX.2
  have hwidth := r.start_x_add_width
  obtain ⟨hbegin, hend⟩ := titleStart_bounds htame (by omega) hroom
  have hkept : 0 ≤ keptColumns r sections := Int.natCast_nonneg _
  refine (Point.clamped_x _).trans ?_
  dsimp only
  omega

theorem narrow_titleTexts (h : g.Singles) (hwords : r.InWords) (hin : size.KeepsIn r) :
    ∀ t ∈ titleTexts g r sections, size.Narrow t := by
  intro t ht
  have hstop := hwords.stopX.2
  have htext := tame_titleTexts htame h t ht
  rcases hin with hleft | ⟨hknown, hcols⟩
  · refine Size.narrow_of_width htext ?_
    have hfits := keptColumns_le htame r
    have hsum := totalWidth_titleTexts h r sections
    have hone := Text.width_le_totalWidth ht
    unfold Rect.width at hfits
    unfold Decimal.wordMax at *
    omega
  · exact Size.narrow_of_cols htext.fits hknown (Int.le_trans hcols hstop)

end

/-- The texts of a title are written from its corner on. -/
theorem drawTitle_of_room {title : Text} (hread : Markup.read title = .ok sections)
    (hroom : titleRoom r ≠ 0) {c : Canvas} (hc : c.terminal.Boundless size)
    (hnarrow : ∀ t ∈ titleTexts g r sections, size.Narrow t) :
    let p := titleCorner r sections
    let row := size.visibleRow p.x (titleTexts g r sections)
    ∃ es u, drawTitle g r title c = .ok () u ∧
      c.terminal.Drawn size (.control (.cursorTo (p + ⟨1, 1⟩)) :: es) u.terminal ∧
      Emission.Lays p row es ∧ u.terminal.position? = some (p + ⟨Text.totalWidth row, 0⟩) := by
  intro p row
  simp only [titleTexts, List.forall_mem_append, List.forall_mem_singleton] at hnarrow
  obtain ⟨⟨hopen, hkept⟩, hclose⟩ := hnarrow
  have hx : 0 ≤ p.x := by
    rw [show p.x = _ from Point.clamped_x _]
    unfold Decimal.wordMax
    omega
  obtain ⟨hmove, hmoved, hcurrent⟩ :=
    moveTo_eq hc ⟨titleStart r (keptSections r sections), r.start.y⟩
  obtain ⟨es₁, t₁, hends₁, hrow₁⟩ := Terminal.rowDrawn_write hmoved.boundless hcurrent hx hopen
  have hx₁ := Int.add_nonneg hx
    (Int.natCast_nonneg (Text.totalWidth (size.visibleRow p.x [[g.titleOpen]])))
  obtain ⟨es₂, t₂, hends₂, hrow₂⟩ := Terminal.rowDrawn_writeSections hrow₁.drawn.boundless
    hrow₁.current hx₁ (List.forall_mem_map.1 hkept)
  have hrow₁₂ := hrow₁.append hrow₂
  have hx₂ := Int.add_nonneg hx (Int.natCast_nonneg (Text.totalWidth (size.visibleRow p.x
    ([[g.titleOpen]] ++ (keptSections r sections).map Section.content))))
  obtain ⟨es₃, t₃, hends₃, hrow₃⟩ := Terminal.rowDrawn_write hrow₁₂.drawn.boundless
    hrow₁₂.current hx₂ hclose
  have hall := hrow₁₂.append hrow₃
  have hposition : t₃.position? = some (p + ⟨Text.totalWidth row, 0⟩) :=
    Terminal.position?_of_current? hall.current
  refine ⟨es₁ ++ es₂ ++ es₃, ⟨t₃, some (p + ⟨Text.totalWidth row, 0⟩)⟩, ?_,
    hmoved.append hall.drawn, hall.lays, hposition⟩
  unfold drawTitle
  rw [bind_of_ok (readTitle_of_ok hread c), if_pos hroom]
  refine (bind_of_ok hmove).trans ?_
  refine (bind_of_ok (onTerminal_of_ends hmoved.boundless.unlimited hends₁)).trans ?_
  refine (bind_of_ok (onTerminal_of_ends hrow₁.drawn.boundless.unlimited hends₂)).trans ?_
  refine (bind_of_ok (onTerminal_of_ends hrow₁₂.drawn.boundless.unlimited hends₃)).trans ?_
  exact remember_of_position? hposition

/-- A title for which there is no room is left out. -/
theorem drawTitle_of_no_room {title : Text} (hread : Markup.read title = .ok sections)
    (hroom : titleRoom r = 0) (c : Canvas) : drawTitle g r title c = .ok () c := by
  unfold drawTitle
  rw [bind_of_ok (readTitle_of_ok hread c), if_neg (not_not_intro hroom)]
  rfl

theorem drawTitle_of_error {title : Text} {e : MarkupError}
    (hread : Markup.read title = .error e) (c : Canvas) :
    drawTitle g r title c = .error (.terminal (.markup e)) c := by
  refine bind_of_error ?_
  rw [onTerminal_eq, Terminal.readMarkup_of_error hread]
  rfl

/-! ## Borders -/

variable {v : View}

/-- What is drawn in a frame. -/
def drawInFrame (v : View) (r : Rect) : Action Unit :=
  match v.title with
  | some title => drawTitle v.glyphs r title
  | none => pure ()

theorem drawInFrame_of_none (h : v.title = none) : drawInFrame v r = pure () := by
  unfold drawInFrame
  rw [h]

theorem drawInFrame_of_some {title : Text} (h : v.title = some title) :
    drawInFrame v r = drawTitle v.glyphs r title := by
  unfold drawInFrame
  rw [h]

theorem drawBorder_of_large (hr : v.rect? = some r) (h : Large r) :
    drawBorder v = drawFrame v.glyphs r >>= fun _ => drawInFrame v r := by
  unfold drawBorder drawInFrame
  rw [hr, reckon_some_bind, hasRoom?_of_large h, reckon_some_bind]
  exact if_pos rfl

/-- Any other has none, whatever its title. -/
theorem drawBorder_eq_of_not_large (hr : v.rect? = some r) (h : ¬ Large r) :
    drawBorder v = reckon (hasRoom? r) >>= fun _ => pure () := by
  unfold drawBorder
  rw [hr, reckon_some_bind]
  cases hroom : hasRoom? r with
  | none => rfl
  | some room =>
    obtain ⟨⟨hwidth, hheight⟩, hlarge⟩ := hasRoom?_eq_some_iff.1 hroom
    cases room with
    | false => rfl
    | true =>
      obtain ⟨hcolumns, hrows⟩ := hlarge.1 rfl
      exact absurd ⟨⟨hwidth, hheight hcolumns⟩, hcolumns, hrows⟩ h

/-- It ends well where the columns can be counted and, where there are enough of them, the
rows as well. -/
theorem drawBorder_of_not_large (hr : v.rect? = some r) (h : ¬ Large r) (c : Canvas) :
    drawBorder v c = .error .overflow c ∨ drawBorder v c = .ok () c := by
  rw [drawBorder_eq_of_not_large hr h]
  cases hasRoom? r with
  | none => exact .inl rfl
  | some _ => exact .inr rfl

theorem drawBorder_of_small (hr : v.rect? = some r) (hmeasured : r.Measured)
    (h : r.width < 2 ∨ r.height < 2) (c : Canvas) : drawBorder v c = .ok () c := by
  have hroom : hasRoom? r = some false :=
    hasRoom?_eq_some_iff.2 ⟨⟨hmeasured.width, fun _ => hmeasured.height⟩,
      iff_of_false nofun (by omega)⟩
  unfold drawBorder
  rw [hr, reckon_some_bind, hroom]
  rfl

end Canvas

/-! ## Panes of a workspace -/

namespace Workspace

variable {w : Workspace} {id : Nat} {op : PaneOperation} {action : View → Canvas.Action Unit}
variable {v : View} {u : Canvas}

theorem boundless_canvas (hw : Reachable w) (hroom : w.terminal.sink.room = none) (id : Nat) :
    (w.canvas id).terminal.Boundless w.terminal.size := ⟨hroom, hw.sound.terminal.valid, rfl⟩

theorem step_eq_acted (hop : op.run id = silent (onPane id action)) :
    w.step (.onPane id op) = w.acted id action := by
  rw [step_eq, acted, ← hop]
  rfl

theorem step_of_ok (hop : op.run id = silent (onPane id action))
    (hv : w.view w.terminal.size id = v) (h : action v (w.canvas id) = .ok () u) :
    w.step (.onPane id op) = ⟨.ok .nothing, w.leave id u⟩ :=
  (step_eq_acted hop).trans (acted_of_ok hv h)

theorem step_of_error (hop : op.run id = silent (onPane id action))
    (hv : w.view w.terminal.size id = v) {e : PaneError}
    (h : action v (w.canvas id) = .error e u) :
    w.step (.onPane id op) = ⟨.error e, w.leave id u⟩ :=
  (step_eq_acted hop).trans (acted_of_error hv h)

theorem step_drawBorder_of_ok (hv : w.view w.terminal.size id = v)
    (h : Canvas.drawBorder v (w.canvas id) = .ok () u) :
    w.step (.onPane id .drawBorder) = ⟨.ok .nothing, w.leave id u⟩ := step_of_ok rfl hv h

end Workspace

end TerminalPanes
