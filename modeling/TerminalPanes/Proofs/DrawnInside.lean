-- Drawing and the columns of a pane. The rows of a border and of blanks are as
-- wide as the pane, wherever it lies. A move to the left of the screen stops at
-- its edge, and what is written there is cut at the right edge alone. So a pane
-- that begins left of the screen is drawn beyond its right edge, unless the
-- screen ends before.
import TerminalPanes.Proofs.PaneDrawing
import TerminalPanes.Text.Tables

namespace TerminalPanes

namespace Canvas

/-- The terminal has sent at least this. -/
def HasSent (size : Size) (before : List Emission) (t : Terminal) : Prop :=
  t.Boundless size ∧ before <+: t.sink.emissions

theorem upholds_of_ends {size : Size} {before : List Emission} {m : Terminal.Action Unit}
    (h : ∀ t : Terminal, t.Boundless size → ∃ es style history, history.Valid ∧
      Terminal.Ends m t () (t.became es style history)) :
    Upholds (HasSent size before) (fun e => AnyError (.terminal e)) m := by
  rintro t ⟨ht, hbefore⟩
  obtain ⟨es, style, history, hvalid, hends⟩ := h t ht
  refine Upholds.at_ok (hends.unlimited ht.unlimited).1
    ⟨⟨Sink.room_takeAll ht.unlimited es, hvalid, ht.size_eq⟩, ?_⟩
  rw [Terminal.became_sink, Sink.emissions_takeAll]
  exact hbefore.trans (List.prefix_append _ es)

end Canvas

namespace Workspace

/-- The columns of an area can be counted and there are some. -/
def HasColumns (area : Rect) : Prop := 0 < area.width ∧ area.width ≤ Decimal.wordMax

theorem isWord_width_of_hasColumns {area : Rect} (h : HasColumns area) :
    Decimal.IsWord area.width := by
  obtain ⟨hsome, hmost⟩ := h
  unfold Decimal.IsWord Decimal.wordMin
  omega

end Workspace

section

variable [Text.Measure]

/-! ## Strokes in columns -/

namespace Stroke

/-- No column of the text lies outside the columns of the rectangle. -/
def InColumns (r : Rect) (k : Stroke) : Prop := ∀ p, k.Covers p → r.start.x ≤ p.x ∧ p.x < r.stop.x

/-- The text runs from the left edge of the rectangle to the right one. -/
structure Spans (r : Rect) (k : Stroke) : Prop where
  start : k.start.x = r.start.x
  width : (k.text.width : Int) = r.width

variable {r : Rect} {k : Stroke}

theorem Spans.inColumns (h : k.Spans r) : k.InColumns r := by
  rintro p ⟨-, hle, hlt⟩
  obtain ⟨hstart, hwidth⟩ := h
  unfold Rect.width at hwidth
  omega

end Stroke

namespace Size

variable {size : Size} {r : Rect} {k : Stroke}

/-- No column of a text that was cut lies beyond the right edge of the screen. -/
theorem lt_cols_of_covers_cut (htext : k.text.Tame) (h : size.cols ≠ 0) {p : Point}
    (hp : (size.cut k).Covers p) : p.x < size.cols := by
  obtain ⟨-, hle, hlt⟩ := hp
  have hroom := width_visible_le_room htext.fits h k.start.clamped.x
  simp only [cut] at hle hlt
  omega

/-- A stroke that is put on the screen stays in the columns. -/
theorem inColumns_cut (htext : k.text.Tame) (hk : k.InColumns r)
    (hstop : r.stop.x ≤ Decimal.wordMax) (h : size.KeepsIn r) : (size.cut k).InColumns r := by
  intro p hp
  have hcols : size.cols ≠ 0 → p.x < size.cols := fun h => lt_cols_of_covers_cut htext h hp
  obtain ⟨-, hle, hlt⟩ := hp
  have hwidth := width_visible_le htext size k.start.clamped.x
  simp only [cut, Point.clamped_x] at hle hlt hwidth
  have hbegin := hk k.start ⟨rfl, Int.le_refl _, by omega⟩
  rcases h with hleft | ⟨hknown, hright⟩
  · exact hk ⟨p.x, k.start.y⟩ ⟨rfl, by dsimp only; omega, by dsimp only; omega⟩
  · have hlast := hcols hknown
    omega

/-- A row that is as wide as the rectangle leaves it where the left edge is off the screen
and the screen goes on behind the right edge. -/
theorem inColumns_cut_iff (hk : k.Spans r) (hsingles : k.text.Singles) (hwidth : 0 < r.width)
    (hstop : r.stop.x ≤ Decimal.wordMax) : (size.cut k).InColumns r ↔ size.KeepsIn r := by
  refine ⟨fun hin => ?_, inColumns_cut hsingles.additive.tame hk.inColumns hstop⟩
  obtain ⟨hstart, hwide⟩ := hk
  unfold Rect.width at hwidth hwide
  unfold KeepsIn
  by_contra hnot
  -- The first column behind the right edge, or the first of the screen.
  have hcovers : (size.cut k).Covers ⟨max r.stop.x 0, k.start.clamped.y⟩ := by
    refine ⟨rfl, ?_, ?_⟩ <;> simp only [cut, Point.clamped_x]
    · omega
    · have hzero : min (max k.start.x 0) (Decimal.wordMax - 1) = 0 := by
        unfold Decimal.wordMax
        omega
      rw [hzero]
      by_cases hcols : size.cols = 0
      · rw [visible_of_unknown hcols]
        omega
      · rw [visible_of_known hcols, hsingles.clip, (hsingles.take _).width, List.length_take,
          ← hsingles.width]
        omega
  have hlt := (hin _ hcovers).2
  dsimp only at hlt
  omega

end Size

theorem Stroke.inColumns_nil (r : Rect) (start : Point) : InColumns r ⟨start, []⟩ := by
  rintro p ⟨-, hle, hlt⟩
  rw [Text.width_nil] at hlt
  dsimp only at hle hlt
  omega

/-! ## Frames, blanks and titles -/

theorem Rect.spans_blankStroke (hcells : SingleCells) {area : Rect} (hwidth : 0 ≤ area.width)
    (y : Int) : (area.blankStroke y).Spans area where
  start := rfl
  width := by
    change ((Text.width (List.replicate area.width.toNat ' ') : Nat) : Int) = area.width
    rw [(hcells.blanks _).width, List.length_replicate]
    omega

/-- A row of blanks leaves the area where a row as wide as it does. -/
theorem Rect.inColumns_blankStrokes_iff (hcells : SingleCells) (size : Size) {area : Rect}
    (hstop : area.stop.x ≤ Decimal.wordMax) (ys : List Int) :
    (∀ k ∈ (ys.map area.blankStroke).map size.cut, k.InColumns area) ↔
      area.width ≤ 0 ∨ ys = [] ∨ size.KeepsIn area := by
  simp only [List.map_map, List.forall_mem_map, Function.comp_apply]
  by_cases hwidth : area.width ≤ 0
  · refine iff_of_true (fun y _ => ?_) (.inl hwidth)
    rw [blankStroke, Canvas.blank_of_nonpos hwidth, Size.cut_nil]
    exact Stroke.inColumns_nil area _
  · have hrow : ∀ y, (size.cut (area.blankStroke y)).InColumns area ↔ size.KeepsIn area :=
      fun y => Size.inColumns_cut_iff (spans_blankStroke hcells (by omega) y) (hcells.blanks _)
        (by omega) hstop
    rw [or_iff_right hwidth]
    cases ys with
    | nil => simp
    | cons y rest =>
      simp only [hrow, List.forall_mem_cons, List.cons_ne_nil, false_or]
      exact ⟨fun h => h.1, fun h => ⟨h, fun _ _ => h⟩⟩

namespace Glyphs

variable {g : Glyphs} {r : Rect}

theorem spans_edge (h : g.Singles) (hwidth : 2 ≤ r.width) {left right : Char}
    (hleft : left ∈ g.toList) (hright : right ∈ g.toList) (y : Int) :
    Stroke.Spans r ⟨⟨r.start.x, y⟩, g.edge left right r.width.toNat⟩ where
  start := rfl
  width := by
    rw [(h.edge hleft hright _).width, length_edge _ _ _ (by omega)]
    omega

theorem spans_top (h : g.Singles) (hwidth : 2 ≤ r.width) :
    Stroke.Spans r ⟨r.start, g.edge g.topLeft g.topRight r.width.toNat⟩ :=
  spans_edge h hwidth (by simp [toList]) (by simp [toList]) r.start.y

theorem inColumns_frameStrokes (h : g.Singles) (hwidth : 2 ≤ r.width) :
    ∀ k ∈ g.frameStrokes r, k.InColumns r := by
  have hvertical : Text.width [g.vertical] = 1 := h.vertical.width
  have hinner : ∀ {k : Stroke}, (k.text.width : Int) = 1 → r.start.x ≤ k.start.x →
      k.start.x < r.stop.x → k.InColumns r := by
    rintro k hone hle hlt p ⟨-, hle', hlt'⟩
    omega
  intro k hk
  unfold Rect.width at hwidth
  rcases mem_frameStrokes.1 hk with rfl | ⟨y, -, rfl | rfl⟩ | rfl
  · exact (spans_top h hwidth).inColumns
  · exact hinner (by dsimp only; omega) (by dsimp only; omega) (by dsimp only; omega)
  · exact hinner (by dsimp only; omega) (by dsimp only; omega) (by dsimp only; omega)
  · exact (spans_edge h hwidth (by simp [toList]) (by simp [toList]) _).inColumns

/-- A title stays in the columns wherever a row of the frame does. -/
theorem inColumns_title {size : Size} (h : g.Singles) (hwords : r.InWords)
    (hin : size.KeepsIn r) (hroom : Canvas.titleRoom r ≠ 0) {sections : List Section}
    (htame : ∀ s ∈ sections, s.content.Tame) :
    let p := Canvas.titleCorner r sections
    ∀ k ∈ Stroke.inRow p (size.visibleRow p.x (Canvas.titleTexts g r sections)),
      k.InColumns r := by
  intro p k hk q hq
  obtain ⟨-, hle, hlt⟩ := Stroke.covers_inRow hk hq
  have hstop := hwords.stopX.2
  have htexts := Canvas.tame_titleTexts (r := r) htame h
  by_cases hleft : 0 ≤ r.start.x
  · have hwidth := r.start_x_add_width
    have hrow := Size.totalWidth_visibleRow_le htexts size p.x
    have hsum := Canvas.totalWidth_titleTexts h r sections
    obtain ⟨hbegin, hend⟩ := Canvas.titleStart_bounds htame (by omega) hroom
    have hcorner : p.x = _ := Canvas.titleCorner_x htame hwords hleft hroom
    omega
  · obtain ⟨hknown, hcols⟩ := hin.resolve_left hleft
    have hrow := Size.add_totalWidth_visibleRow_le (fun t ht => (htexts t ht).fits) hknown p.x
    have hcorner : p.x = _ := Point.clamped_x _
    unfold Decimal.wordMax at hcorner
    omega

end Glyphs

/-! ## However drawing ends -/

namespace Canvas

variable {size : Size} {before : List Emission}

/-- Nothing that is done in a pane takes back what was sent. -/
theorem footing_hasSent (size : Size) (before : List Emission) :
    Footing (HasSent size before) (fun _ => True) AnyError where
  position t ht := by
    obtain ⟨cell, hcell⟩ := History.current?_of_lt ht.1.valid.index_lt
    exact ⟨_, Option.map_eq_some_iff.2 ⟨cell, hcell, rfl⟩, trivial⟩
  moveTo p := upholds_of_ends fun t ht =>
    ⟨_, _, _, History.stable_valid.push ht.valid (Terminal.isCell_cellOf p),
      Terminal.Ends.moveTo p t⟩
  writeRaw text := upholds_of_ends fun t ht => ⟨_, _, _, ht.valid, Terminal.Ends.emit _ t⟩
  writeClipped text := upholds_of_ends fun t ht => by
    obtain ⟨cell, hcell⟩ := History.current?_of_lt ht.valid.index_lt
    exact ⟨_, _, _, Terminal.valid_advanced ht.valid hcell _, Terminal.Ends.write hcell text .clip⟩
  writeSections sections wrap := upholds_of_ends fun t ht => by
    obtain ⟨cell, hcell⟩ := History.current?_of_lt ht.valid.index_lt
    obtain ⟨history, hvalid, hends⟩ :=
      Terminal.ends_writeSections ht.valid hcell sections wrap
    exact ⟨_, _, history, hvalid, hends⟩

variable {v : View} {r : Rect} {c : Canvas}

theorem upholds_drawInFrame {P : Terminal → Prop} {K : Point → Prop} (g : Footing P K AnyError)
    (v : View) (r : Rect) : Upholds (Kept P K) AnyError (drawInFrame v r) := by
  unfold drawInFrame
  split
  · exact upholds_drawTitle g v.glyphs r (covers_any _)
  · exact .pure ()

/-- However a border ends, the frame was sent. -/
theorem frame_isPrefix (hr : v.rect? = some r) (hlarge : Large r)
    (hc : c.terminal.Boundless size) :
    ∃ u : Canvas, (drawBorder v c = .ok () u ∨ ∃ e, drawBorder v c = .error e u) ∧
      c.terminal.sink.emissions ++ (v.glyphs.frameStrokes r).flatMap size.put <+:
        u.terminal.sink.emissions := by
  obtain ⟨framed, hframe, hdrawn, -⟩ := draws_drawFrame size v.glyphs r c hc
  have hsame : framed.terminal.sink.emissions =
      c.terminal.sink.emissions ++ (v.glyphs.frameStrokes r).flatMap size.put := by
    rw [hdrawn.sink, Sink.emissions_takeAll]
  have hsent : HasSent size
      (c.terminal.sink.emissions ++ (v.glyphs.frameStrokes r).flatMap size.put)
      framed.terminal := ⟨hdrawn.boundless, hsame ▸ List.prefix_rfl⟩
  have g := footing_hasSent size
    (c.terminal.sink.emissions ++ (v.glyphs.frameStrokes r).flatMap size.put)
  obtain ⟨hok, herror⟩ := upholds_drawInFrame g v r framed ⟨hsent, fun _ _ => trivial⟩
  rw [drawBorder_of_large hr hlarge, bind_of_ok hframe]
  cases h : drawInFrame v r framed with
  | ok a u => exact ⟨u, .inl rfl, (hok a u h).terminal.2⟩
  | error e u => exact ⟨u, .inr ⟨e, rfl⟩, (herror e u h).1.terminal.2⟩

/-- However a border ends, it stays in the columns where a row of the frame does. -/
theorem drawn_drawBorder (hr : v.rect? = some r) (hlarge : Large r) (hglyphs : v.glyphs.Singles)
    (htitle : ∀ title ∈ v.title, ∀ sections, Markup.read title = .ok sections →
      ∀ s ∈ sections, s.content.Tame)
    (hwords : r.InWords) (hin : size.KeepsIn r) (hc : c.terminal.Boundless size) :
    ∃ es u, (drawBorder v c = .ok () u ∨ ∃ e, drawBorder v c = .error e u) ∧
      c.terminal.Drawn size es u.terminal ∧
      ∀ cell, ∀ k ∈ Emission.strokes cell es, k.InColumns r := by
  have hframe : ∀ cell, ∀ k ∈ Emission.strokes cell ((v.glyphs.frameStrokes r).flatMap size.put),
      k.InColumns r := by
    intro cell k hk
    rw [Emission.show_put] at hk
    obtain ⟨whole, hwhole, rfl⟩ := List.mem_map.1 hk
    have hsingles := Glyphs.singles_frameStrokes hglyphs whole hwhole
    have hwide := Glyphs.inColumns_frameStrokes hglyphs hlarge.width whole hwhole
    exact Size.inColumns_cut hsingles.additive.tame hwide hwords.stopX.2 hin
  obtain ⟨framed, hok, hdrawn, -⟩ := draws_drawFrame size v.glyphs r c hc
  have hborder : drawBorder v c = drawInFrame v r framed := by
    rw [drawBorder_of_large hr hlarge, bind_of_ok hok]
  rw [hborder]
  cases hsome : v.title with
  | none =>
    rw [drawInFrame_of_none hsome]
    exact ⟨_, framed, .inl rfl, hdrawn, hframe⟩
  | some title =>
    rw [drawInFrame_of_some hsome]
    cases hread : Markup.read title with
    | error e => exact ⟨_, framed, .inr ⟨_, drawTitle_of_error hread framed⟩, hdrawn, hframe⟩
    | ok sections =>
      by_cases hroom : titleRoom r = 0
      · exact ⟨_, framed, .inl (drawTitle_of_no_room hread hroom framed), hdrawn, hframe⟩
      · have htame := htitle title hsome sections hread
        obtain ⟨es, u, hu, hthen, hlays, -⟩ := drawTitle_of_room hread hroom hdrawn.boundless
          (narrow_titleTexts htame hglyphs hwords hin)
        refine ⟨_, u, .inl hu, hdrawn.append hthen, fun cell k hk => ?_⟩
        rw [Emission.strokes_append, List.mem_append, hlays.show] at hk
        rcases hk with hk | hk
        · exact hframe cell k hk
        · exact Glyphs.inColumns_title hglyphs hwords hin hroom htame k hk

end Canvas

/-! ## Drawing in a workspace -/

namespace Workspace

variable {w : Workspace} {id : Nat} {op : PaneOperation} {r : Rect} {cell : Point} {v : View}

/-- The operation only adds to what was sent, and with the cursor in the cell before,
nothing of it is seen outside the columns of the rectangle. -/
def DrawsInside (w : Workspace) (cell : Point) (id : Nat) (op : PaneOperation) (r : Rect) : Prop :=
  ∃ es, (w.step (.onPane id op)).workspace.terminal.sink.emissions =
      w.terminal.sink.emissions ++ es ∧
    ∀ k ∈ Emission.strokes cell es, k.InColumns r

theorem drawsInside_iff {es : List Emission} {u : Canvas} {size : Size}
    (hstep : (w.step (.onPane id op)).workspace = w.leave id u)
    (hdrawn : w.terminal.Drawn size es u.terminal) :
    w.DrawsInside cell id op r ↔ ∀ k ∈ Emission.strokes cell es, k.InColumns r := by
  have hsent : (w.step (.onPane id op)).workspace.terminal.sink.emissions =
      w.terminal.sink.emissions ++ es := by
    rw [hstep, ← Sink.emissions_takeAll, ← hdrawn.sink]
    rfl
  unfold DrawsInside
  rw [hsent]
  simp

theorem drawsInside_drawBorder_iff (hw : Reachable w) (hroom : w.terminal.sink.room = none)
    (hv : w.view w.terminal.size id = v) (hr : v.rect? = some r) (hglyphs : v.glyphs.Singles)
    (htitle : ∀ title ∈ v.title, ∀ sections, Markup.read title = .ok sections →
      ∀ s ∈ sections, s.content.Tame)
    (hwords : r.InWords) :
    w.DrawsInside cell id .drawBorder r ↔ ¬ Canvas.Large r ∨ w.terminal.size.KeepsIn r := by
  have hc := boundless_canvas hw hroom id
  have hleave : ∀ {u : Canvas}, (Canvas.drawBorder v (w.canvas id) = .ok () u ∨
      ∃ e, Canvas.drawBorder v (w.canvas id) = .error e u) →
        (w.step (.onPane id .drawBorder)).workspace = w.leave id u := by
    rintro u (hok | ⟨e, herror⟩)
    · exact congrArg Outcome.workspace (step_drawBorder_of_ok hv hok)
    · have hstep : w.step (.onPane id .drawBorder) = ⟨.error e, w.leave id u⟩ :=
        step_of_error rfl hv herror
      rw [hstep]
  by_cases hlarge : Canvas.Large r
  · rw [or_iff_right (not_not_intro hlarge)]
    constructor
    · rintro ⟨es, hsent, hin⟩
      -- The first stroke of the frame is as wide as the pane.
      obtain ⟨u, hend, hprefix⟩ := Canvas.frame_isPrefix hr hlarge hc
      rw [hleave hend] at hsent
      change u.terminal.sink.emissions = _ at hsent
      rw [hsent] at hprefix
      obtain ⟨rest, rfl⟩ := (List.prefix_append_right_inj _).1 hprefix
      rw [Emission.strokes_append, Emission.show_put] at hin
      have hspans := Glyphs.spans_top hglyphs hlarge.width
      have hsingles := Glyphs.singles_frameStrokes (r := r) hglyphs _ List.mem_cons_self
      exact (Size.inColumns_cut_iff hspans hsingles
        (Int.lt_of_lt_of_le (by decide) hlarge.width) hwords.stopX.2).1
          (hin _ (List.mem_append_left _ List.mem_cons_self))
    · intro hin
      obtain ⟨es, u, hend, hdrawn, hcolumns⟩ :=
        Canvas.drawn_drawBorder hr hlarge hglyphs htitle hwords hin hc
      exact (drawsInside_iff (hleave hend) hdrawn).2 (hcolumns cell)
  · have hend : Canvas.drawBorder v (w.canvas id) = .ok () (w.canvas id) ∨
        ∃ e, Canvas.drawBorder v (w.canvas id) = .error e (w.canvas id) :=
      (Canvas.drawBorder_of_not_large hr hlarge (w.canvas id)).symm.imp_right fun h => ⟨_, h⟩
    rw [drawsInside_iff (hleave hend) hc.drawn_nil]
    exact iff_of_true nofun (.inl hlarge)

section

variable {area : Rect} (hw : Reachable w) (hroom : w.terminal.sink.room = none)
variable (hcells : SingleCells) (hv : w.view w.terminal.size id = v) (harea : v.area? = some area)

include hw hroom hcells hv harea

theorem drawsInside_clear_iff :
    w.DrawsInside cell id .clear area ↔
      ¬ HasColumns area ∨ area.height ≤ 0 ∨ w.terminal.size.KeepsIn area := by
  have hc := boundless_canvas hw hroom id
  have hwords := (View.of_area?_eq_some harea).1
  have hrows : area.rows = [] ↔ area.height ≤ 0 := by
    unfold Rect.rows Rect.rowsBetween Rect.height
    rw [List.map_eq_nil_iff, List.range_eq_nil]
    omega
  by_cases hwidth : Decimal.IsWord area.width
  · obtain ⟨u, hok, hdrawn, -⟩ := Canvas.blanks_clear harea hwidth hc
    have hstep : w.step (.onPane id .clear) = ⟨.ok .nothing, w.leave id u⟩ := step_of_ok rfl hv hok
    have hcolumns : area.width ≤ 0 ↔ ¬ HasColumns area := by
      unfold HasColumns
      have hmost := hwidth.2
      omega
    rw [drawsInside_iff (congrArg Outcome.workspace hstep) hdrawn, Rect.show_blanking,
      Rect.inColumns_blankStrokes_iff hcells _ hwords.stopX.2, hrows, hcolumns]
  · have hstep : w.step (.onPane id .clear) = ⟨.error .overflow, w.leave id (w.canvas id)⟩ :=
      step_of_error rfl hv (Canvas.clear_of_not_isWord harea hwidth _)
    rw [drawsInside_iff (congrArg Outcome.workspace hstep) hc.drawn_nil]
    exact iff_of_true nofun (.inl (mt isWord_width_of_hasColumns hwidth))

theorem drawsInside_clearLine_iff :
    w.DrawsInside cell id .clearLine area ↔
      ¬ HasColumns area ∨ w.terminal.size.KeepsIn area := by
  have hc := boundless_canvas hw hroom id
  have hwords := (View.of_area?_eq_some harea).1
  obtain ⟨cursor, hcursor⟩ := Terminal.exists_current? hc.valid
  have hposition := Terminal.position?_of_current? hcursor
  by_cases hwidth : Decimal.IsWord area.width
  · obtain ⟨u, hok, hdrawn, -⟩ := Canvas.blanks_clearLine harea hwidth hposition hc
    have hstep : w.step (.onPane id .clearLine) = ⟨.ok .nothing, w.leave id u⟩ :=
      step_of_ok rfl hv hok
    have hcolumns : area.width ≤ 0 ↔ ¬ HasColumns area := by
      unfold HasColumns
      have hmost := hwidth.2
      omega
    rw [drawsInside_iff (congrArg Outcome.workspace hstep) hdrawn, Rect.show_blanking,
      Rect.inColumns_blankStrokes_iff hcells _ hwords.stopX.2, Rect.rows_line, hcolumns]
    simp
  · have hstep := @step_of_error _ w id .clearLine Canvas.clearLine v _ rfl hv _
      (Canvas.clearLine_of_not_isWord harea hwidth hposition hc)
    obtain ⟨-, hdrawn, -⟩ := Canvas.moveTo_eq hc ⟨area.start.x, cursor.y⟩
    rw [drawsInside_iff (congrArg Outcome.workspace hstep) hdrawn, Emission.show_cursorTo]
    exact iff_of_true nofun (.inl (mt isWord_width_of_hasColumns hwidth))

end

/-- Drawing in a pane is seen in its columns alone, just if the left edge is on the
screen or the screen ends before the right edge of the pane does. For blanks it is the
padded area that counts. Where there is nothing to draw, or where the columns or the rows
cannot be counted, nothing is seen. Positions are those of the moves and of the widths
written since, wherever the cursor was before. -/
theorem drawing_keeps_to_the_columns_but_for_the_left_edge {w : Workspace} (hw : w.Reachable)
    (hroom : w.terminal.sink.room = none) (hcells : SingleCells) {id : Nat} {v : View}
    (hv : w.view w.terminal.size id = v) (hglyphs : v.glyphs = .light ∨ v.glyphs = .double)
    (htitle : ∀ title ∈ v.title, ∀ sections, Markup.read title = .ok sections →
      ∀ s ∈ sections, s.content.Tame)
    {r : Rect} (hr : v.rect? = some r) (cell : Point) :
    (w.DrawsInside cell id .drawBorder r ↔ ¬ Canvas.Large r ∨ w.terminal.size.KeepsIn r) ∧
    ∀ area, v.area? = some area →
      (w.DrawsInside cell id .clear area ↔
        ¬ HasColumns area ∨ area.height ≤ 0 ∨ w.terminal.size.KeepsIn area) ∧
      (w.DrawsInside cell id .clearLine area ↔
        ¬ HasColumns area ∨ w.terminal.size.KeepsIn area) := by
  have hwords : r.InWords := by
    subst hv
    exact Forest.inWords_of_rectOf? hr
  refine ⟨drawsInside_drawBorder_iff hw hroom hv hr (hcells.glyphs hglyphs) htitle hwords,
    fun area harea => ⟨?_, ?_⟩⟩
  · exact drawsInside_clear_iff hw hroom hcells hv harea
  · exact drawsInside_clearLine_iff hw hroom hcells hv harea

end Workspace

end

namespace Workspace

open scoped Text.Tables in
/-- A pane of three columns that begins two columns left of the screen. Drawing in it reaches
two columns beyond its right edge. -/
theorem a_pane_off_the_left_edge_is_drawn_beyond_the_right_one :
    let room := left opening (Workspace.blank Sink.unlimited ⟨80, 24⟩ Config.default [])
    let w := (room.step (.newPane (.between (.fixed ⟨-2, 0⟩) (.fixed ⟨1, 2⟩)))).workspace
    let v := w.view w.terminal.size 0
    w.Reachable ∧ w.terminal.sink.room = none ∧ SingleCells ∧ v.glyphs = .light ∧
      v.title = none ∧ v.rect? = some ⟨⟨-2, 0⟩, ⟨1, 2⟩⟩ ∧ v.area? = some ⟨⟨-2, 0⟩, ⟨1, 2⟩⟩ ∧
      ∀ cell, ¬ w.DrawsInside cell 0 .drawBorder ⟨⟨-2, 0⟩, ⟨1, 2⟩⟩ ∧
        ¬ w.DrawsInside cell 0 .clear ⟨⟨-2, 0⟩, ⟨1, 2⟩⟩ ∧
        ¬ w.DrawsInside cell 0 .clearLine ⟨⟨-2, 0⟩, ⟨1, 2⟩⟩ := by
  intro room w v
  have hopened : opening (Workspace.blank Sink.unlimited ⟨80, 24⟩ Config.default []) =
      .ok () room := rfl
  have hw : w.Reachable := .stepped _ (.opened hopened)
  have hv : w.view w.terminal.size 0 = v := rfl
  refine ⟨hw, rfl, Text.Tables.singleCells, rfl, rfl, rfl, rfl, fun cell => ?_⟩
  obtain ⟨hborder, hcleared⟩ := drawing_keeps_to_the_columns_but_for_the_left_edge hw rfl
    Text.Tables.singleCells hv (.inl rfl) nofun rfl cell
  obtain ⟨hclear, hline⟩ := hcleared ⟨⟨-2, 0⟩, ⟨1, 2⟩⟩ rfl
  have hlarge : Canvas.Large ⟨⟨-2, 0⟩, ⟨1, 2⟩⟩ := ⟨by decide, by decide, by decide⟩
  have hcolumns : HasColumns ⟨⟨-2, 0⟩, ⟨1, 2⟩⟩ := ⟨by decide, by decide⟩
  have hout : ¬ w.terminal.size.KeepsIn ⟨⟨-2, 0⟩, ⟨1, 2⟩⟩ := by decide +kernel
  refine ⟨fun h => ?_, fun h => ?_, fun h => ?_⟩
  · exact (hborder.1 h).elim (· hlarge) hout
  · exact (hclear.1 h).elim (· hcolumns) fun h => h.elim (absurd · (by decide)) hout
  · exact (hline.1 h).elim (· hcolumns) hout

open scoped Text.Tables in
/-- Its first row is cleared three columns wide, although one of them alone is in the pane. -/
theorem a_clear_blanks_the_columns_behind_a_pane :
    let room := left opening (Workspace.blank Sink.unlimited ⟨80, 24⟩ Config.default [])
    let w := (room.step (.newPane (.between (.fixed ⟨-2, 0⟩) (.fixed ⟨1, 1⟩)))).workspace
    (w.view w.terminal.size 0).area? = some ⟨⟨-2, 0⟩, ⟨1, 1⟩⟩ ∧
      ∀ cell, ¬ w.DrawsInside cell 0 .clear ⟨⟨-2, 0⟩, ⟨1, 1⟩⟩ := by
  intro room w
  refine ⟨rfl, ?_⟩
  rintro cell ⟨es, hsent, hin⟩
  have hemissions : (w.step (.onPane 0 .clear)).workspace.terminal.sink.emissions =
      w.terminal.sink.emissions ++ [.control (.cursorTo ⟨1, 1⟩), .text [' ', ' ', ' '],
        .control (.cursorTo ⟨1, 1⟩)] := by decide +kernel
  obtain rfl := List.append_cancel_left (hsent.symm.trans hemissions)
  rw [Emission.strokes_cursorTo] at hin
  exact absurd (hin ⟨⟨0, 0⟩, [' ', ' ', ' ']⟩ List.mem_cons_self ⟨2, 0⟩ (by decide)).2 (by decide)

end Workspace

end TerminalPanes
