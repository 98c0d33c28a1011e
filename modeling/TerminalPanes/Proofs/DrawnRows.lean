-- Rows of texts. A move leads to a cell of the screen, and the texts that are
-- written from there on stand one behind the other. Each is cut at the right
-- edge of the screen. The terminal's record of the cursor keeps up with them, so
-- each is cut where it stands.
import TerminalPanes.Proofs.Strokes
import TerminalPanes.Proofs.TextFront
import TerminalPanes.Proofs.PaneMemory

namespace TerminalPanes

/-! ## Positions -/

theorem Point.clamped_x (p : Point) : p.clamped.x = min (max p.x 0) (Decimal.wordMax - 1) := by
  simp only [clamped, Point.sub_x, Terminal.cellOf]
  omega

theorem Point.add_no_columns (p : Point) : p + ⟨((0 : Nat) : Int), 0⟩ = p :=
  congrArg₂ Point.mk (Int.add_zero _) (Int.add_zero _)

theorem Point.add_columns (p : Point) (m n : Nat) :
    p + ⟨(m : Int), 0⟩ + ⟨(n : Int), 0⟩ = p + ⟨((m + n : Nat) : Int), 0⟩ := by
  rw [Point.mk.injEq]
  simp only [Point.add_x, Point.add_y]
  omega

theorem Point.add_columns_cell (p : Point) (n : Int) :
    p + ⟨n, 0⟩ + ⟨1, 1⟩ = p + ⟨1, 1⟩ + ⟨n, 0⟩ := by
  rw [Point.mk.injEq]
  simp only [Point.add_x, Point.add_y]
  omega

theorem Point.add_sub_cell (p : Point) : p + ⟨1, 1⟩ - ⟨1, 1⟩ = p :=
  congrArg₂ Point.mk (Int.add_sub_cancel _ _) (Int.add_sub_cancel _ _)

theorem Point.sub_add_cell (p : Point) : p - ⟨1, 1⟩ + ⟨1, 1⟩ = p :=
  congrArg₂ Point.mk (Int.sub_add_cancel _ _) (Int.sub_add_cancel _ _)

theorem Terminal.position?_of_current? {t : Terminal} {p : Point}
    (h : t.history.current? = some (p + ⟨1, 1⟩)) : t.position? = some p := by
  rw [position?, h, Option.map_some, Point.add_sub_cell]

theorem Terminal.exists_current? {t : Terminal} (hv : t.history.Valid) :
    ∃ p, t.history.current? = some (p + ⟨1, 1⟩) := by
  obtain ⟨cell, hcell⟩ := History.current?_of_lt hv.index_lt
  exact ⟨cell - ⟨1, 1⟩, by rw [hcell, Point.sub_add_cell]⟩

/-! ## Drawing on a terminal -/

/-- A terminal of a size over a sink that takes everything. -/
structure Terminal.Boundless (size : Size) (t : Terminal) : Prop where
  unlimited : t.sink.room = none
  valid : t.history.Valid
  size_eq : t.size = size

namespace Terminal

variable {size : Size} {t u v : Terminal} {es es' : List Emission}

/-- What was sent between two states of a terminal. -/
structure Drawn (size : Size) (t : Terminal) (es : List Emission) (u : Terminal) : Prop where
  boundless : u.Boundless size
  sink : u.sink = t.sink.takeAll es

theorem Drawn.append (h : Drawn size t es u) (h' : Drawn size u es' v) :
    Drawn size t (es ++ es') v where
  boundless := h'.boundless
  sink := by rw [h'.sink, h.sink, Sink.takeAll_append]

theorem Boundless.drawn_nil (h : t.Boundless size) : Drawn size t [] t := ⟨h, rfl⟩

end Terminal

variable [Text.Measure]

/-! ## Rows of texts -/

namespace Stroke

/-- Texts one behind the other, each by its whole width. -/
def inRow (p : Point) : List Text → List Stroke
  | [] => []
  | t :: rest => ⟨p, t⟩ :: inRow (p + ⟨t.width, 0⟩) rest

/-- A row covers no more than the columns that its texts take together. -/
theorem covers_inRow {p q : Point} {texts : List Text} {k : Stroke} (hk : k ∈ inRow p texts)
    (hq : k.Covers q) : q.y = p.y ∧ p.x ≤ q.x ∧ q.x < p.x + Text.totalWidth texts := by
  induction texts generalizing p with
  | nil => cases hk
  | cons t rest ih =>
    rw [Text.totalWidth]
    rcases List.mem_cons.1 hk with rfl | hk
    · obtain ⟨hy, hle, hlt⟩ := hq
      dsimp only at hy hle hlt
      omega
    · obtain ⟨hy, hle, hlt⟩ := ih hk
      simp only [Point.add_x, Point.add_y] at hy hle hlt
      omega

theorem inRow_append (p : Point) (before after : List Text) :
    inRow p (before ++ after) =
      inRow p before ++ inRow (p + ⟨Text.totalWidth before, 0⟩) after := by
  induction before generalizing p with
  | nil => exact congrArg (inRow · after) p.add_no_columns.symm
  | cons t rest ih =>
    rw [List.cons_append, inRow, inRow, ih, Point.add_columns, Text.totalWidth, List.cons_append]

end Stroke

/-! ## The right edge -/

namespace Size

variable {size : Size}

/-- The part of a text that is left from a column on, if there is an edge. -/
def visible (size : Size) (x : Int) (t : Text) : Text :=
  if size.cols = 0 then t else t.clip (size.cols - x).toNat

theorem visible_of_unknown (h : size.cols = 0) (x : Int) (t : Text) : size.visible x t = t :=
  if_pos h

theorem visible_of_known (h : size.cols ≠ 0) (x : Int) (t : Text) :
    size.visible x t = t.clip (size.cols - x).toNat := if_neg h

theorem width_visible_le {t : Text} (h : t.Tame) (size : Size) (x : Int) :
    (size.visible x t).width ≤ t.width := by
  unfold visible
  split
  · exact Nat.le_refl _
  · exact h.width_clip_le_width _

theorem width_visible_le_room {t : Text} (hfit : t.FrontsFit) (h : size.cols ≠ 0) (x : Int) :
    (size.visible x t).width ≤ (size.cols - x).toNat := by
  rw [visible_of_known h]
  exact hfit.width_clip_le _

/-- The stroke with its start put on the screen and its text cut at the right edge. -/
def cut (size : Size) (k : Stroke) : Stroke :=
  ⟨k.start.clamped, size.visible k.start.clamped.x k.text⟩

/-- Nothing is left of nothing. -/
theorem cut_nil (size : Size) (start : Point) : size.cut ⟨start, []⟩ = ⟨start.clamped, []⟩ := by
  obtain ⟨rest, hrest⟩ := Text.clip_append [] (size.cols - start.clamped.x).toNat
  have hclip := (List.append_eq_nil_iff.1 hrest.symm).1
  unfold cut visible
  dsimp only
  rw [hclip, ite_self]

/-- What is sent for a stroke. -/
def put (size : Size) (k : Stroke) : List Emission :=
  [.control (.cursorTo (k.start.clamped + ⟨1, 1⟩)), .text (size.cut k).text]

/-- What is left of texts one behind the other from a column on. -/
def visibleRow (size : Size) (x : Int) : List Text → List Text
  | [] => []
  | t :: rest => size.visible x t :: visibleRow size (x + (size.visible x t).width) rest

theorem visibleRow_append (x : Int) (before after : List Text) :
    size.visibleRow x (before ++ after) = size.visibleRow x before ++
      size.visibleRow (x + Text.totalWidth (size.visibleRow x before)) after := by
  induction before generalizing x with
  | nil => exact congrArg (size.visibleRow · after) (Int.add_zero x).symm
  | cons t rest ih =>
    rw [List.cons_append, visibleRow, visibleRow, ih, Text.totalWidth, Int.natCast_add,
      Int.add_assoc, List.cons_append]

theorem totalWidth_visibleRow_le {texts : List Text} (h : ∀ t ∈ texts, t.Tame) (size : Size)
    (x : Int) : Text.totalWidth (size.visibleRow x texts) ≤ Text.totalWidth texts := by
  induction texts generalizing x with
  | nil => exact Nat.le_refl 0
  | cons t rest ih =>
    obtain ⟨ht, hrest⟩ := List.forall_mem_cons.1 h
    exact Nat.add_le_add (width_visible_le ht size x) (ih hrest _)

/-- A row that begins on the screen ends there. -/
theorem add_totalWidth_visibleRow_le {texts : List Text} (hfit : ∀ t ∈ texts, t.FrontsFit)
    (h : size.cols ≠ 0) (x : Int) :
    x + Text.totalWidth (size.visibleRow x texts) ≤ max x size.cols := by
  induction texts generalizing x with
  | nil => exact (Int.add_zero x).symm ▸ Int.le_max_left x _
  | cons t rest ih =>
    obtain ⟨ht, hrest⟩ := List.forall_mem_cons.1 hfit
    have hfirst := width_visible_le_room ht h x
    have hlater := ih hrest (x + (size.visible x t).width)
    rw [visibleRow, Text.totalWidth]
    omega

/-- Wherever on the screen it begins, what is left of the text is not wider than a
position can be. -/
def Narrow (size : Size) (t : Text) : Prop :=
  ∀ x, 0 ≤ x → ((size.visible x t).width : Int) ≤ Decimal.wordMax

theorem narrow_of_width {t : Text} (htame : t.Tame) (h : (t.width : Int) ≤ Decimal.wordMax) :
    size.Narrow t :=
  fun x _ => Int.le_trans (Int.ofNat_le.2 (width_visible_le htame size x)) h

/-- The left edge of the rectangle is on the screen, or the screen ends before the right
edge of the rectangle does. -/
def KeepsIn (size : Size) (r : Rect) : Prop :=
  0 ≤ r.start.x ∨ (size.cols ≠ 0 ∧ (size.cols : Int) ≤ r.stop.x)

instance (size : Size) (r : Rect) : Decidable (size.KeepsIn r) :=
  inferInstanceAs (Decidable (_ ∨ (_ ∧ _)))

theorem narrow_of_cols {t : Text} (hfit : t.FrontsFit) (h : size.cols ≠ 0)
    (hle : (size.cols : Int) ≤ Decimal.wordMax) : size.Narrow t := by
  intro x hx
  have hroom := width_visible_le_room hfit h x
  omega

end Size

theorem Terminal.visibleAt_clip (t : Terminal) (p : Point) (text : Text) :
    t.visibleAt (p + ⟨1, 1⟩) text .clip = t.size.visible p.x text := by
  have hroom : (t.size.cols : Int) - (p + ⟨1, 1⟩).x + 1 = t.size.cols - p.x := by
    simp only [Point.add_x]
    omega
  unfold visibleAt roomAt Size.visible
  rw [hroom]
  split <;> split <;> simp_all

/-! ## What emissions show -/

namespace Emission

/-- The strokes of the emissions, wherever the cursor is before. -/
def Show (es : List Emission) (ks : List Stroke) : Prop := ∀ cell, strokes cell es = ks

/-- From a position on, the emissions show the texts as one row and leave the cursor
behind them. -/
structure Lays (p : Point) (texts : List Text) (es : List Emission) : Prop where
  strokes_eq : strokes (p + ⟨1, 1⟩) es = Stroke.inRow p texts
  shiftAll_eq : shiftAll (p + ⟨1, 1⟩) es = p + ⟨Text.totalWidth texts, 0⟩ + ⟨1, 1⟩

variable {es es' : List Emission} {ks ks' : List Stroke} {p : Point} {texts texts' : List Text}

theorem show_nil : Show [] [] := fun _ => rfl

theorem Show.append (h : Show es ks) (h' : Show es' ks') : Show (es ++ es') (ks ++ ks') := by
  intro cell
  rw [strokes_append, h, h']

theorem show_cursorTo (cell : Point) : Show [.control (.cursorTo cell)] [] :=
  fun before => strokes_cursorTo before cell []

theorem Lays.show (h : Lays p texts es) :
    Show (.control (.cursorTo (p + ⟨1, 1⟩)) :: es) (Stroke.inRow p texts) := by
  intro cell
  rw [strokes_cursorTo, h.strokes_eq]

theorem show_put (size : Size) (ks : List Stroke) :
    Show (ks.flatMap size.put) (ks.map size.cut) := by
  induction ks with
  | nil => exact show_nil
  | cons k rest ih =>
    have hfirst : Show (size.put k) [size.cut k] := by
      intro cell
      rw [Size.put, strokes_cursorTo]
      exact congrArg (fun q => [Stroke.mk q (size.cut k).text]) (Point.add_sub_cell _)
    exact hfirst.append ih

theorem lays_text (p : Point) (t : Text) : Lays p [t] [.text t] where
  strokes_eq := congrArg (fun q => [Stroke.mk q t]) (Point.add_sub_cell p)
  shiftAll_eq := (Point.add_columns_cell p t.width).symm

theorem lays_controls (p : Point) {qs : List Sequence} (h : ∀ q ∈ qs, q.final ≠ 'H') :
    Lays p [] (qs.map .control) where
  strokes_eq := (strokes_controls _ h).1
  shiftAll_eq := by
    rw [(strokes_controls _ h).2]
    exact congrArg (· + ⟨1, 1⟩) p.add_no_columns.symm

theorem Lays.append (h : Lays p texts es) (h' : Lays (p + ⟨Text.totalWidth texts, 0⟩) texts' es') :
    Lays p (texts ++ texts') (es ++ es') where
  strokes_eq := by
    rw [strokes_append, h.strokes_eq, h.shiftAll_eq, h'.strokes_eq, Stroke.inRow_append]
  shiftAll_eq := by
    rw [shiftAll_append, h.shiftAll_eq, h'.shiftAll_eq, Point.add_columns, Text.totalWidth_append]

/-- The style of a section takes no columns. -/
theorem lays_section (c : Config) (start : Style) (s : Section) (p : Point) :
    Lays p [s.content] (s.emissions c start) := by
  have hstill : ∀ (acts : List StyleAct), ∀ q ∈ start.tellsAll acts, q.final ≠ 'H' := by
    intro acts q hq
    rw [Style.final_of_mem_tellsAll hq]
    decide
  have hopen := lays_controls p (hstill (s.instructions.map Instruction.act))
  have htext := lays_text (p + ⟨Text.totalWidth [], 0⟩) s.content
  exact hopen.append (htext.append (lays_controls _ (hstill c.closingActs)))

end Emission

/-! ## Rows on a terminal -/

namespace Terminal

variable {size : Size} {t u v : Terminal} {es es' : List Emission}

/-- Between the two states the texts were written in one row from a position on, each up
to the right edge. -/
structure RowDrawn (size : Size) (p : Point) (texts : List Text) (t : Terminal)
    (es : List Emission) (u : Terminal) : Prop where
  drawn : Drawn size t es u
  lays : Emission.Lays p (size.visibleRow p.x texts) es
  current : u.history.current? =
    some (p + ⟨Text.totalWidth (size.visibleRow p.x texts), 0⟩ + ⟨1, 1⟩)

variable {p : Point} {texts texts' : List Text}

theorem RowDrawn.append (h : RowDrawn size p texts t es u)
    (h' : RowDrawn size (p + ⟨Text.totalWidth (size.visibleRow p.x texts), 0⟩) texts' u es' v) :
    RowDrawn size p (texts ++ texts') t (es ++ es') v where
  drawn := h.drawn.append h'.drawn
  lays := by
    rw [Size.visibleRow_append]
    exact h.lays.append h'.lays
  current := by
    rw [h'.current, Point.add_columns, Size.visibleRow_append, Text.totalWidth_append]
    rfl

theorem rowDrawn_nil (ht : t.Boundless size) (hp : t.history.current? = some (p + ⟨1, 1⟩)) :
    RowDrawn size p [] t [] t where
  drawn := ht.drawn_nil
  lays := @Emission.lays_controls _ p [] nofun
  current := by
    rw [hp]
    exact congrArg (fun q => some (q + ⟨1, 1⟩)) p.add_no_columns.symm

/-- A text that is sent together with sequences that name no cell. The record moves by
its width, as the screen's cursor does. -/
theorem rowDrawn_became (ht : t.Boundless size) (hp : t.history.current? = some (p + ⟨1, 1⟩))
    (hx : 0 ≤ p.x) {text : Text} (hnarrow : size.Narrow text) {es : List Emission} (style : Style)
    (hlays : Emission.Lays p [size.visible p.x text] es) :
    RowDrawn size p [text] t es
      (t.became es style (t.history.advanced (size.visible p.x text).width)) where
  drawn := ⟨⟨Sink.room_takeAll ht.unlimited _, valid_advanced ht.valid hp _, ht.size_eq⟩, rfl⟩
  lays := hlays
  current := by
    rw [became_history, current?_advanced hp, Int.min_eq_left (hnarrow p.x hx),
      ← Point.add_columns_cell]
    rfl

theorem rowDrawn_write (ht : t.Boundless size) (hp : t.history.current? = some (p + ⟨1, 1⟩))
    (hx : 0 ≤ p.x) {text : Text} (hnarrow : size.Narrow text) :
    ∃ es u, Ends (write text .clip) t () u ∧ RowDrawn size p [text] t es u := by
  have hends := Ends.write hp text .clip
  rw [visibleAt_clip, ht.size_eq] at hends
  exact ⟨_, _, hends, rowDrawn_became ht hp hx hnarrow t.style (Emission.lays_text p _)⟩

/-- Sections are written as one row of their contents. -/
theorem rowDrawn_writeSections (ht : t.Boundless size)
    (hp : t.history.current? = some (p + ⟨1, 1⟩)) (hx : 0 ≤ p.x) {sections : List Section}
    (hnarrow : ∀ s ∈ sections, size.Narrow s.content) :
    ∃ es u, Ends (writeSections sections .clip) t () u ∧
      RowDrawn size p (sections.map Section.content) t es u := by
  induction sections generalizing t p with
  | nil => exact ⟨[], t, Ends.pure () t, rowDrawn_nil ht hp⟩
  | cons s rest ih =>
    obtain ⟨hs, hrest⟩ := List.forall_mem_cons.1 hnarrow
    have hends := Ends.writeSection hp s .clip
    rw [visibleAt_clip, ht.size_eq] at hends
    have hrow := rowDrawn_became ht hp hx hs t.config.plainStyle
      (Emission.lays_section t.config t.style { s with content := size.visible p.x s.content } p)
    obtain ⟨es, u, hthen, hrows⟩ := ih hrow.drawn.boundless hrow.current
      (Int.add_nonneg hx (Int.natCast_nonneg _)) hrest
    exact ⟨_, u, Ends.seq hends hthen, hrow.append hrows⟩

end Terminal

end TerminalPanes
