-- Where a pane last left the cursor. Most of what is done in a pane ends with
-- the pane taking note of where the cursor is. Nothing else changes what it
-- has noted, whatever is done on the terminal or in other panes, and focus
-- brings the cursor back there.
import TerminalPanes.Proofs.PaneRefusals
import TerminalPanes.Proofs.CursorReplay
import TerminalPanes.Proofs.PaneBinding
import TerminalPanes.Text.Tables

namespace TerminalPanes

/-! ## What is noted -/

/-- Where a move to a logical position leads. -/
def Point.clamped (p : Point) : Point := ⟨Terminal.cellOf p.x, Terminal.cellOf p.y⟩ - ⟨1, 1⟩

theorem Point.clamped_add_cell (p : Point) :
    p.clamped + ⟨1, 1⟩ = ⟨Terminal.cellOf p.x, Terminal.cellOf p.y⟩ :=
  congrArg₂ Point.mk (Int.sub_add_cancel _ _) (Int.sub_add_cancel _ _)

/-- A position on the screen and in the range of a word is where a move to it leads. -/
theorem Point.clamped_of_onScreen {p : Point} (h : p.OnScreen) (hx : p.x < Decimal.wordMax) :
    p.clamped = p := by
  obtain ⟨h0, h1, hy⟩ := h
  have hcell : ∀ v : Int, 0 ≤ v → v < Decimal.wordMax → Terminal.cellOf v - 1 = v := by
    intro v hv hlt
    unfold Terminal.cellOf
    omega
  cases p with
  | mk x y => exact congrArg₂ Point.mk (hcell x h0 hx) (hcell y h1 hy)

theorem Terminal.of_moveTo_ok {t u : Terminal} {p : Point} {a : Unit} (hv : t.history.Valid)
    (h : moveTo p t = .ok a u) :
    u.position? = some p.clamped ∧
      u.sink.emissions = t.sink.emissions ++ [.control (.cursorTo (p.clamped + ⟨1, 1⟩))] := by
  obtain ⟨-, rfl⟩ := (Ends.moveTo p t).only h
  refine ⟨?_, ?_⟩
  · rw [position?, became_history, History.current?_push hv]
    rfl
  · rw [became_sink, Sink.emissions_takeAll, p.clamped_add_cell]

/-- What becomes of the place that a pane remembers. -/
inductive Mark where
  /-- It stays as it is. -/
  | kept
  /-- It is where the cursor is in the end. -/
  | atEnd
  /-- It is a place that the cursor came through. -/
  | onTheWay (p : Point)
  deriving DecidableEq

/-- The pane remembers where the cursor is. -/
def Canvas.AtCursor (c : Canvas) : Prop :=
  ∃ p, c.terminal.position? = some p ∧ c.lastKnown = some p

/-- The pane remembers what the mark says, having remembered `before`. -/
def Mark.Holds (before : Option Point) (c : Canvas) : Mark → Prop
  | .kept => c.lastKnown = before
  | .atEnd => c.AtCursor
  | .onTheWay p => c.lastKnown = some p

namespace Workspace

/-- The mark of an operation in a pane that is seen as `v`. A border without a title
leaves the lower left corner, to which the cursor was moved last. -/
def PaneOperation.mark (v : View) : PaneOperation → Mark
  | .moveTo _ | .moveToRelative _ | .moveToPadded _ => .atEnd
  | .moveToStart _ | .moveToEnd _ | .moveToBottomLeft _ | .moveToTopRight _ => .atEnd
  | .write _ | .writeRaw _ | .writeOnNewline _ | .writeLines _ | .newline => .atEnd
  | .clear | .clearLine | .confirm _ | .pause _ => .atEnd
  | .drawBorder =>
    match v.rect? with
    | none => .kept
    | some r =>
      if r.width < 2 ∨ r.height < 2 then .kept
      else if v.title.isSome ∧ Canvas.titleRoom r ≠ 0 then .atEnd
      else .onTheWay (Point.clamped ⟨r.start.x, r.stop.y - 1⟩)
  | .focus | .drop | .split _ => .kept
  | .setPadding _ | .setBorderWidth _ | .setTitle _ | .setGlyphs _ => .kept

/-- The mark that an operation leaves in the pane of a number. -/
def mark (w : Workspace) (id : Nat) : Operation → Mark
  | .onPane other op =>
    if other = id ∧ id < w.panes.length then op.mark (w.view w.terminal.size id) else .kept
  | _ => .kept

end Workspace

/-! ## What a pane action leaves -/

namespace Canvas

variable {α β : Type}

abbrev Sound (c : Canvas) : Prop := Kept (fun t => t.history.OfCells) Point.OnScreen c

/-- Where only what has ended well counts, any error will do. -/
def AnyError (_ : PaneError) : Prop := True

theorem covers_any (markup : Text) : Covers AnyError markup := fun _ _ => trivial

theorem of_reckon_bind_ok {x : Option α} {f : α → Action β} {c u : Canvas} {b : β}
    (h : (reckon x >>= f) c = .ok b u) : ∃ a, x = some a ∧ f a c = .ok b u := by
  cases x with
  | none => cases h
  | some a => exact ⟨a, rfl, h⟩

/-- What holds of the pane once the action has ended well. -/
def Leaves (Q : Canvas → Prop) (m : Action α) : Prop :=
  ∀ c a u, c.Sound → m c = .ok a u → Q u

namespace Leaves

variable {Q : Canvas → Prop}

theorem throw (e : PaneError) : Leaves Q (MonadExcept.throw e : Action α) := by
  intro c a u _ h
  cases h

/-- It is the last of several actions that counts. -/
theorem after {m : Action α} {f : α → Action β} (hm : Upholds Sound AnyError m)
    (hf : ∀ a, Leaves Q (f a)) : Leaves Q (m >>= f) := by
  intro c b u hc h
  obtain ⟨a, v, hok, h⟩ := of_bind_ok h
  exact hf a v b u ((hm c hc).1 a v hok) h

/-- Where there is nothing to go on with the action does not end well. -/
theorem reckon {x : Option α} {f : α → Action β} (hf : ∀ a, x = some a → Leaves Q (f a)) :
    Leaves Q (Canvas.reckon x >>= f) := by
  intro c b u hc h
  obtain ⟨a, ha, h⟩ := of_reckon_bind_ok h
  exact hf a ha c b u hc h

end Leaves

/-- The action ends with the pane taking note of where the cursor is. -/
abbrev Settles (m : Action α) : Prop := Leaves AtCursor m

/-- What is left of a place when the action has ended well. -/
def Marks (mark : Mark) (m : Action α) : Prop :=
  ∀ c a u, c.Sound → m c = .ok a u → mark.Holds c.lastKnown u

theorem upholds_readTitle (title : Text) :
    Upholds Sound AnyError (onTerminal (Terminal.readMarkup title)) :=
  upholds_onTerminal (Terminal.upholds_readMarkup (covers_any title))

theorem focus_of_some {c : Canvas} {p : Point} (h : c.lastKnown = some p) :
    focus c = onTerminal (Terminal.moveTo p) c := by
  have hget : (get : Action Canvas) c = .ok c c := rfl
  unfold focus
  rw [bind_of_ok hget, h]

theorem focus_of_none {c : Canvas} (h : c.lastKnown = none) : focus c = .ok () c := by
  have hget : (get : Action Canvas) c = .ok c c := rfl
  unfold focus
  rw [bind_of_ok hget, h]
  rfl

theorem marks_focus : Marks .kept focus := by
  intro c a u _ h
  cases hknown : c.lastKnown with
  | none =>
    rw [focus_of_none hknown] at h
    cases h
    exact hknown
  | some p =>
    rw [focus_of_some hknown] at h
    obtain ⟨t, -, rfl⟩ := of_onTerminal_ok h
    exact hknown

/-- Whether there is room can be told where the columns can be counted and, where there are
enough of them, the rows as well. -/
theorem hasRoom?_eq_some_iff {r : Rect} {room : Bool} :
    hasRoom? r = some room ↔
      (Decimal.IsWord r.width ∧ (2 ≤ r.width → Decimal.IsWord r.height)) ∧
        (room = true ↔ 2 ≤ r.width ∧ 2 ≤ r.height) := by
  unfold hasRoom?
  by_cases hwidth : Decimal.IsWord r.width
  · rw [Decimal.word?_of_isWord hwidth]
    by_cases hfew : r.width < 2
    · have hroom : ((some false : Option Bool) = some room) ↔ room = false := by
        rw [Option.some_inj, eq_comm]
      refine (iff_of_eq (congrArg (· = some room) (if_pos hfew))).trans (hroom.trans ?_)
      constructor
      · rintro rfl
        exact ⟨⟨hwidth, fun hmany => by omega⟩, iff_of_false nofun fun hmany => by omega⟩
      · rintro ⟨-, hlarge⟩
        exact Bool.eq_false_iff.2 fun htrue => absurd (hlarge.1 htrue).1 (by omega)
    · have hmany : 2 ≤ r.width := by omega
      refine (iff_of_eq (congrArg (· = some room) (if_neg hfew))).trans ?_
      by_cases hheight : Decimal.IsWord r.height
      · have hroom : (some (decide (2 ≤ r.height)) = some room) ↔ (room = true ↔ 2 ≤ r.height) := by
          rw [Option.some_inj, eq_comm, Bool.eq_iff_iff, decide_eq_true_iff]
        rw [Decimal.word?_of_isWord hheight]
        refine hroom.trans ?_
        exact ⟨fun h => ⟨⟨hwidth, fun _ => hheight⟩, h.trans (and_iff_right hmany).symm⟩,
          fun h => h.2.trans (and_iff_right hmany)⟩
      · rw [Decimal.word?_of_not_isWord hheight]
        exact iff_of_false nofun fun h => hheight (h.1.2 hmany)
  · rw [Decimal.word?_of_not_isWord hwidth]
    exact iff_of_false nofun fun h => hwidth h.1.1

/-! ## The actions one by one -/

section

variable [Text.Measure]

theorem footing : Footing (fun t => t.history.OfCells) Point.OnScreen AnyError :=
  footing_ofCells.weaken fun _ _ => trivial

theorem settles_remember : Settles remember := by
  intro c a u hc h
  obtain ⟨p, hp, -⟩ := footing.position c.terminal hc.terminal
  rw [remember_of_position? hp] at h
  cases h
  exact ⟨p, hp, rfl⟩

theorem settles_moveTo (p : Point) : Settles (moveTo p) :=
  .after (upholds_onTerminal (footing.moveTo p)) fun _ => settles_remember

theorem settles_moveToPadded (v : View) (p : Point) : Settles (moveToPadded v p) := by
  refine .reckon fun area _ => .reckon fun target _ => ?_
  split
  · exact settles_moveTo _
  · exact .throw _

theorem settles_moveToPlace (r? : Option Rect) (place : Rect → Point) :
    Settles (moveToPlace r? place) :=
  .reckon fun _ _ => .reckon fun p _ => settles_moveTo p

theorem settles_moveToStart (v : View) (inset : Inset) : Settles (moveToStart v inset) :=
  .reckon fun _ _ => settles_moveTo _

theorem settles_write (markup : Text) : Settles (write markup) :=
  .after (upholds_writeMarkup footing.standing (covers_any markup).yields) fun _ => settles_remember

theorem settles_writeRaw (text : Text) : Settles (writeRaw text) :=
  .after (upholds_onTerminal (footing.writeRaw text)) fun _ => settles_remember

theorem settles_newline (v : View) : Settles (newline v) := by
  refine .reckon fun area _ => .after (upholds_position footing.standing) fun p => ?_
  dsimp only
  split
  · exact .after (.throw trivial) fun _ => settles_moveTo _
  · exact settles_moveTo _

theorem settles_writeOnNewline (v : View) (markup : Text) : Settles (writeOnNewline v markup) :=
  .after (upholds_newline footing.standing (fun _ => trivial) fun _ _ => trivial) fun _ =>
    settles_write markup

/-- Each line is noted when it is written, and a line that finds no row leaves
everything as it was. -/
theorem atCursor_of_writeRest (v : View) (lines : List Text) {c u : Canvas} (hc : c.Sound)
    (hbefore : c.AtCursor) (h : writeLines.writeRest v lines c = .ok () u) : u.AtCursor := by
  induction lines generalizing c with
  | nil =>
    cases h
    exact hbefore
  | cons line rest ih =>
    have hone := @upholds_writeOnNewline _ _ _ _ _ footing.standing v (fun _ => trivial)
      (fun _ _ => trivial) _ (covers_any line).yields
    unfold writeLines.writeRest at h
    split at h
    · rename_i w hw
      exact ih ((hone c hc).1 () w hw) (settles_writeOnNewline v line c () w hc hw) h
    · rename_i e w hw
      split at h
      · rename_i he
        cases h
        have hrefused := refuses_writeOnNewline v line
        have hsame := hrefused.refused hc (hrefused.only hc he hw)
        rw [hw] at hsame
        cases hsame
        exact hbefore
      · cases h

theorem settles_writeLines (v : View) (lines : List Text) : Settles (writeLines v lines) := by
  intro c a u hc h
  obtain ⟨_, c₁, hmove, h⟩ := of_bind_ok h
  have hc₁ := (upholds_moveToStart footing.standing trivial v .padded c hc).1 _ c₁ hmove
  cases lines with
  | nil =>
    cases h
    exact settles_moveToStart v .padded c _ _ hc hmove
  | cons first rest =>
    obtain ⟨_, c₂, hwrite, h⟩ := of_bind_ok h
    have hc₂ := (upholds_write footing.standing (covers_any first).yields c₁ hc₁).1 _ c₂ hwrite
    exact atCursor_of_writeRest v rest hc₂ (settles_write first c₁ _ c₂ hc₁ hwrite) h

theorem settles_clear (v : View) : Settles (clear v) := by
  refine .reckon fun area _ => .reckon fun columns _ => ?_
  refine .after (.forM (fun _ => ?_) _) fun _ => settles_moveTo _
  exact .bind (upholds_moveTo footing.standing _) fun _ => upholds_writeClipped footing _

theorem settles_clearLine (v : View) : Settles (clearLine v) := by
  refine .reckon fun r _ => .reckon fun start _ => ?_
  refine .after (upholds_position footing.standing) fun _ => ?_
  refine .after (upholds_moveTo footing.standing _) fun _ => ?_
  refine .reckon fun area _ => .reckon fun columns _ => ?_
  exact .after (upholds_writeClipped footing _) fun _ => settles_moveTo _

/-! ## Borders -/

/-- The move to a place is noted, and the text that is written there is not. -/
theorem leaves_writeAt (p : Point) (text : Text) :
    Leaves (fun c => c.lastKnown = some p.clamped) (moveTo p >>= fun _ => writeClipped text) := by
  intro c a u hc h
  obtain ⟨_, v, hmove, h⟩ := of_bind_ok h
  obtain ⟨t, -, rfl⟩ := of_onTerminal_ok h
  obtain ⟨_, c₁, hterminal, hremember⟩ := of_bind_ok hmove
  obtain ⟨t₁, ht₁, rfl⟩ := of_onTerminal_ok hterminal
  have hp := (Terminal.of_moveTo_ok hc.terminal.valid ht₁).1
  rw [remember_of_position? hp] at hremember
  cases hremember
  rfl

theorem leaves_drawFrame (g : Glyphs) (r : Rect) :
    Leaves (fun c => c.lastKnown = some (Point.clamped ⟨r.start.x, r.stop.y - 1⟩))
      (drawFrame g r) := by
  refine .after (upholds_moveTo footing.standing _) fun _ => ?_
  refine .after (upholds_writeClipped footing _) fun _ => ?_
  refine .after (.forM (fun _ => ?_) _) fun _ => leaves_writeAt _ _
  refine .bind (upholds_moveTo footing.standing _) fun _ => ?_
  refine .bind (upholds_writeClipped footing _) fun _ => ?_
  exact .bind (upholds_moveTo footing.standing _) fun _ => upholds_writeClipped footing _

theorem settles_drawTitle (g : Glyphs) {r : Rect} (hroom : titleRoom r ≠ 0) (title : Text) :
    Settles (drawTitle g r title) := by
  refine .after (upholds_readTitle title) fun _ => ?_
  rw [if_pos hroom]
  refine .after (upholds_moveTo footing.standing _) fun _ => ?_
  refine .after (upholds_writeClipped footing _) fun _ => ?_
  refine .after (upholds_onTerminal (footing.writeSections _ _)) fun _ => ?_
  exact .after (upholds_writeClipped footing _) fun _ => settles_remember

/-- A title that has no room is read and left out. -/
theorem eq_of_drawTitle_ok {g : Glyphs} {r : Rect} (hroom : titleRoom r = 0) {title : Text}
    {c u : Canvas} (h : drawTitle g r title c = .ok () u) : u = c := by
  obtain ⟨sections, c₁, hread, h⟩ := of_bind_ok h
  rw [if_neg (not_not_intro hroom)] at h
  cases h
  obtain ⟨t, ht, rfl⟩ := of_onTerminal_ok hread
  cases hmarkup : Markup.read title with
  | ok sections =>
    rw [Terminal.readMarkup_of_ok hmarkup] at ht
    cases ht
    rfl
  | error m =>
    rw [Terminal.readMarkup_of_error hmarkup] at ht
    cases ht

theorem marks_drawBorder (v : View) :
    Marks (Workspace.PaneOperation.mark v .drawBorder) (drawBorder v) := by
  intro c a u hc h
  obtain ⟨r, hr, h⟩ := of_reckon_bind_ok h
  obtain ⟨room, hroom, h⟩ := of_reckon_bind_ok h
  obtain ⟨-, hlarge⟩ := hasRoom?_eq_some_iff.1 hroom
  unfold Workspace.PaneOperation.mark
  rw [hr]
  dsimp only
  cases room with
  | false =>
    have hsmall : r.width < 2 ∨ r.height < 2 := by
      have hnot := mt hlarge.2 nofun
      omega
    rw [if_pos hsmall]
    cases h
    rfl
  | true =>
    have hboth := hlarge.1 rfl
    rw [if_neg (by omega)]
    obtain ⟨_, c₁, hframe, h⟩ := of_bind_ok h
    have hcorner := leaves_drawFrame v.glyphs r c _ c₁ hc hframe
    cases htitle : v.title with
    | some title =>
      rw [htitle] at h
      by_cases hroom : titleRoom r = 0
      · rw [if_neg (fun hc => hc.2 hroom)]
        rw [eq_of_drawTitle_ok hroom h]
        exact hcorner
      · rw [if_pos ⟨rfl, hroom⟩]
        have hc₁ := (upholds_drawFrame footing v.glyphs r c hc).1 _ c₁ hframe
        exact settles_drawTitle v.glyphs hroom title c₁ a u hc₁ h
    | none =>
      rw [htitle] at h
      rw [if_neg (fun hc => Bool.noConfusion hc.1)]
      cases h
      exact hcorner

end

end Canvas

/-! ## What an operation leaves -/

namespace Workspace

variable {α β : Type} {w u : Workspace} {id : Nat}

theorem canvas_leave (h : id < w.panes.length) (c : Canvas) : (w.leave id c).canvas id = c := by
  have hknown : (w.leave id c).panes.lastKnown id = c.lastKnown := by
    unfold Forest.lastKnown leave
    rw [Forest.pane_modify_self h]
  unfold canvas
  rw [hknown]
  rfl

theorem lastKnown_leave_of_ne {other : Nat} (h : other ≠ id) (c : Canvas) :
    (w.leave id c).panes.lastKnown other = w.panes.lastKnown other := by
  unfold Forest.lastKnown leave
  rw [Forest.pane_modify_of_ne h]

theorem panes_leave_of_le (h : w.panes.length ≤ id) (c : Canvas) :
    (w.leave id c).panes = w.panes := Forest.modify_of_le _ h

/-- What an action that ends well leaves of the places that panes remember: what the mark
says in one pane, and nothing new in all others. -/
structure Marked (id : Nat) (mark : Mark) (w u : Workspace) : Prop where
  here : id < w.panes.length → mark.Holds (w.panes.lastKnown id) (u.canvas id)
  elsewhere : ∀ other, other ≠ id ∨ w.panes.length ≤ id →
    u.panes.lastKnown other = w.panes.lastKnown other

theorem marked_of_lastKnown (h : ∀ id, u.panes.lastKnown id = w.panes.lastKnown id) :
    Marked id .kept w u := ⟨fun _ => h id, fun other _ => h other⟩

theorem marked_onPane (hw : w.Sound) {action : View → Canvas.Action α} {mark : Mark}
    {a : α} (h : onPane id action w = .ok a u)
    (haction : Canvas.Marks mark (action (w.view w.terminal.size id))) : Marked id mark w u := by
  obtain ⟨c, hc, rfl⟩ := of_onPane_ok h
  have hholds := haction (w.canvas id) a c (hw.canvas id) hc
  refine ⟨fun hlt => ?_, fun other hother => ?_⟩
  · rw [canvas_leave hlt]
    exact hholds
  · rcases hother with hne | hle
    · exact lastKnown_leave_of_ne hne c
    · rw [panes_leave_of_le hle]

theorem of_asking_ok {ask : KeyInput → Except Fault α × KeyInput} {a : α}
    (h : asking ask w = .ok a u) : u.terminal = w.terminal ∧ u.panes = w.panes := by
  unfold asking at h
  split at h
  · cases h
    exact ⟨rfl, rfl⟩
  · cases h

theorem Marked.congr {mark : Mark} {v : Workspace} (h : Marked id mark w v)
    (hterminal : u.terminal = v.terminal) (hpanes : u.panes = v.panes) : Marked id mark w u := by
  have hcanvas : u.canvas id = v.canvas id := by rw [canvas, canvas, hterminal, hpanes]
  refine ⟨fun hlt => ?_, fun other hother => ?_⟩
  · rw [hcanvas]
    exact h.here hlt
  · rw [hpanes]
    exact h.elsewhere other hother

theorem of_silent_ok {action : Action Unit} {answer : Answer} (h : silent action w = .ok answer u) :
    action w = .ok () u := by
  obtain ⟨_, v, hok, h⟩ := of_bind_ok h
  cases h
  exact hok

theorem marked_changePane {change : Pane → Pane} (hchange : ∀ p, (change p).lastKnown = p.lastKnown)
    {answer : Answer} (h : silent (changePane id change) w = .ok answer u) :
    Marked id .kept w u := by
  cases of_silent_ok h
  exact marked_of_lastKnown (Forest.lastKnown_modify hchange w.panes id)

theorem panes_leave_of_eq {c : Canvas} (h : c.lastKnown = w.panes.lastKnown id) :
    (w.leave id c).panes = w.panes := by
  unfold leave
  rw [h]
  exact Forest.modify_eq_self rfl

theorem panes_opened {sink : Sink} {size : Size} {config : Config} {script : Script}
    (h : opening (Workspace.blank sink size config script) = .ok () w) : w.panes = [] := by
  obtain ⟨t, -, rfl⟩ := of_onTerminal_ok h
  rfl

section

variable [Text.Measure]

theorem marked_write (hw : w.Sound) {markup : Text} {a : Unit}
    (h : onPane id (fun _ => Canvas.write markup) w = .ok a u) : Marked id .atEnd w u :=
  marked_onPane hw h (Canvas.settles_write markup)

theorem PaneOperation.marked_run (hw : w.Sound) {op : PaneOperation} {answer : Answer}
    (h : op.run id w = .ok answer u) : Marked id (op.mark (w.view w.terminal.size id)) w u := by
  have hsettles : ∀ {action : View → Canvas.Action Unit}, (∀ v, Canvas.Settles (action v)) →
      Workspace.silent (onPane id action) w = .ok answer u → Marked id .atEnd w u :=
    fun haction h => marked_onPane hw (of_silent_ok h) (haction _)
  cases op with
  | drop => exact marked_changePane (fun _ => by rfl) h
  | split details =>
    obtain ⟨ids, v, hsplit, h⟩ := of_bind_ok h
    cases h
    cases hsplit
    exact marked_of_lastKnown (Forest.lastKnown_split w.panes id details)
  | setPadding padding => exact marked_changePane (fun _ => by rfl) h
  | setBorderWidth width => exact marked_changePane (fun _ => by rfl) h
  | setTitle title => exact marked_changePane (fun _ => by rfl) h
  | setGlyphs glyphs => exact marked_changePane (fun _ => by rfl) h
  | moveTo p => exact hsettles (fun _ => Canvas.settles_moveTo p) h
  | moveToRelative p => exact hsettles (fun _ => Canvas.settles_moveToPlace _ _) h
  | moveToPadded p => exact hsettles (fun v => Canvas.settles_moveToPadded v p) h
  | moveToStart inset => exact hsettles (fun v => Canvas.settles_moveToStart v inset) h
  | moveToEnd inset => exact hsettles (fun _ => Canvas.settles_moveToPlace _ _) h
  | moveToBottomLeft inset => exact hsettles (fun _ => Canvas.settles_moveToPlace _ _) h
  | moveToTopRight inset => exact hsettles (fun _ => Canvas.settles_moveToPlace _ _) h
  | write markup => exact hsettles (fun _ => Canvas.settles_write markup) h
  | writeRaw text => exact hsettles (fun _ => Canvas.settles_writeRaw text) h
  | writeOnNewline markup => exact hsettles (fun v => Canvas.settles_writeOnNewline v markup) h
  | writeLines lines => exact hsettles (fun v => Canvas.settles_writeLines v lines) h
  | focus => exact marked_onPane hw (of_silent_ok h) Canvas.marks_focus
  | clear => exact hsettles Canvas.settles_clear h
  | clearLine => exact hsettles Canvas.settles_clearLine h
  | newline => exact hsettles Canvas.settles_newline h
  | drawBorder => exact marked_onPane hw (of_silent_ok h) (Canvas.marks_drawBorder _)
  | confirm message =>
    obtain ⟨truth, v, hconfirm, h⟩ := of_bind_ok h
    cases h
    rw [confirm_eq] at hconfirm
    obtain ⟨_, written, hwrite, hask⟩ := of_bind_ok hconfirm
    obtain ⟨hterminal, hpanes⟩ := of_asking_ok hask
    exact (marked_write hw hwrite).congr hterminal hpanes
  | pause message =>
    obtain ⟨_, written, hwrite, hread⟩ := of_bind_ok (of_silent_ok h)
    obtain ⟨key, v, hask, h⟩ := of_bind_ok hread
    cases h
    rw [readKey_eq] at hask
    obtain ⟨hterminal, hpanes⟩ := of_asking_ok hask
    exact (marked_write hw hwrite).congr hterminal hpanes

/-- What an operation that ends well leaves of the place that a pane remembers. -/
theorem holds_run (hw : w.Sound) {op : Operation} {answer : Answer} (h : op.run w = .ok answer u)
    (id : Nat) : (w.mark id op).Holds (w.panes.lastKnown id) (u.canvas id) := by
  cases op with
  | terminal op =>
    obtain ⟨told, v, hterminal, h⟩ := of_bind_ok h
    cases h
    obtain ⟨t, -, rfl⟩ := of_onTerminal_ok hterminal
    rfl
  | newPane placement =>
    obtain ⟨new, v, hadd, h⟩ := of_bind_ok h
    cases h
    cases hadd
    exact Forest.lastKnown_add w.panes placement id
  | onPane other op =>
    have hmarked := PaneOperation.marked_run hw h
    unfold mark
    dsimp only
    by_cases hhere : other = id ∧ id < w.panes.length
    · rw [if_pos hhere]
      obtain ⟨rfl, hlt⟩ := hhere
      exact hmarked.here hlt
    · rw [if_neg hhere]
      refine hmarked.elsewhere id ?_
      by_cases hid : id = other
      · exact .inr (by omega)
      · exact .inl hid
  | feed chunks =>
    cases of_silent_ok h
    rfl
  | readKey =>
    obtain ⟨key, v, hask, h⟩ := of_bind_ok h
    cases h
    rw [readKey_eq] at hask
    exact congrArg (Forest.lastKnown · id) (of_asking_ok hask).2

/-! ## Focus -/

theorem step_focus_of_none (h : w.panes.lastKnown id = none) :
    w.step (.onPane id .focus) = ⟨.ok .nothing, w⟩ := by
  have hfocus : onPane id (fun _ => Canvas.focus) w = .ok () w := by
    rw [onPane_eq, Canvas.focus_of_none (c := w.canvas id) h]
    exact congrArg (EStateM.Result.ok ()) (w.leave_canvas id)
  have hrun : silent (onPane id fun _ => Canvas.focus) w = .ok .nothing w := by
    unfold silent
    rw [bind_of_ok hfocus]
    rfl
  rw [step_eq]
  exact congrArg outcomeOf hrun

/-- Focus changes the memory of no pane, even if the sink fails. -/
theorem panes_step_focus (w : Workspace) (id : Nat) :
    (w.step (.onPane id .focus)).workspace.panes = w.panes := by
  cases hknown : w.panes.lastKnown id with
  | none => rw [step_focus_of_none hknown]
  | some p =>
    have hrun : onPane id (fun _ => Canvas.focus) w = liftEnd (w.leave id) (fun e => e)
        (Canvas.onTerminal (Terminal.moveTo p) (w.canvas id)) := by
      rw [onPane_eq, Canvas.focus_of_some (c := w.canvas id) hknown]
    rw [Canvas.onTerminal_eq] at hrun
    rw [step_eq]
    change (outcomeOf (silent (onPane id fun _ => Canvas.focus) w)).workspace.panes = w.panes
    unfold silent
    cases hmove : Terminal.moveTo p (w.canvas id).terminal with
    | ok a t =>
      rw [hmove] at hrun
      rw [bind_of_ok hrun]
      exact panes_leave_of_eq rfl
    | error e t =>
      rw [hmove] at hrun
      rw [bind_of_error hrun]
      exact panes_leave_of_eq rfl

theorem run_of_step_ok {op : Operation} {answer : Answer} (h : (w.step op).result = .ok answer) :
    op.run w = .ok answer (w.step op).workspace := by
  rw [step_eq] at h ⊢
  cases hrun : op.run w with
  | ok b v =>
    rw [hrun] at h
    cases h
    rfl
  | error e v =>
    rw [hrun] at h
    cases h

/-- Focus sends the cursor to the place that the pane remembers. -/
theorem moved_of_step_focus (hw : w.Sound) {p : Point} (h : w.panes.lastKnown id = some p)
    (hx : p.x < Decimal.wordMax) {answer : Answer}
    (hok : (w.step (.onPane id .focus)).result = .ok answer) :
    (w.step (.onPane id .focus)).workspace.terminal.position? = some p ∧
      (w.step (.onPane id .focus)).workspace.terminal.sink.emissions =
        w.terminal.sink.emissions ++ [.control (.cursorTo (p + ⟨1, 1⟩))] := by
  obtain ⟨c, hfocus, hleft⟩ := of_onPane_ok (of_silent_ok (run_of_step_ok hok))
  rw [Canvas.focus_of_some (c := w.canvas id) h] at hfocus
  obtain ⟨t, ht, rfl⟩ := Canvas.of_onTerminal_ok hfocus
  have hmoved := Terminal.of_moveTo_ok hw.terminal.valid ht
  rw [Point.clamped_of_onScreen (hw.lastKnown id p h) hx] at hmoved
  rw [hleft]
  exact hmoved

/-! ## Runs -/

/-- Every operation of a run ends well. -/
def AllWell (w : Workspace) (ops : List Operation) : Prop :=
  ∀ o ∈ w.play ops, ∃ answer, o.result = .ok answer

/-- None of the operations leaves a mark in the pane of a number. -/
def Unmarked (id : Nat) : Workspace → List Operation → Prop
  | _, [] => True
  | w, op :: rest => w.mark id op = .kept ∧ Unmarked id (w.step op).workspace rest

variable {op : Operation} {ops before later : List Operation}

theorem allWell_cons :
    w.AllWell (op :: ops) ↔
      (∃ answer, (w.step op).result = .ok answer) ∧ (w.step op).workspace.AllWell ops := by
  simp only [AllWell, play, List.forall_mem_cons]

theorem allWell_append :
    w.AllWell (before ++ later) ↔ w.AllWell before ∧ (w.after before).AllWell later := by
  induction before generalizing w with
  | nil => simp [AllWell, play, after]
  | cons op rest ih =>
    rw [List.cons_append, allWell_cons, allWell_cons, ih, and_assoc]
    rfl

theorem sound_after (hw : w.Sound) (ops : List Operation) : (w.after ops).Sound := by
  induction ops generalizing w with
  | nil => exact hw
  | cons op rest ih => exact ih (sound_step hw op)

theorem holds_step (hw : w.Sound) (hok : ∃ answer, (w.step op).result = .ok answer) (id : Nat) :
    (w.mark id op).Holds (w.panes.lastKnown id) ((w.step op).workspace.canvas id) := by
  obtain ⟨answer, hok⟩ := hok
  exact holds_run hw (run_of_step_ok hok) id

theorem lastKnown_after (hw : w.Sound) (hwell : w.AllWell ops) (h : w.Unmarked id ops) :
    (w.after ops).panes.lastKnown id = w.panes.lastKnown id := by
  induction ops generalizing w with
  | nil => rfl
  | cons op rest ih =>
    obtain ⟨hok, hrest⟩ := allWell_cons.1 hwell
    have hstep := holds_step hw hok id
    rw [h.1] at hstep
    exact (ih (sound_step hw op) hrest h.2).trans hstep

section

variable {sink : Sink} {size : Size} {config : Config} {script : Script} {w₀ : Workspace}

/-- In a session where all goes well a pane remembers nothing until an operation leaves a
mark in it. From then on it remembers the place of the last mark: where the cursor was
at the end of that operation or, for a border without a title, the corner that it
was moved to last. Focus leaves everything alone while there is no such place.
Then it moves the cursor there and changes no pane's memory. A column beyond
the range of a word would be out of its reach. -/
theorem a_pane_remembers_where_it_left_the_cursor
    (hopened : opening (Workspace.blank sink size config script) = .ok () w₀) (id : Nat) :
    (∀ ops, w₀.AllWell ops → w₀.Unmarked id ops → (w₀.after ops).panes.lastKnown id = none) ∧
    (∀ before op later, w₀.AllWell (before ++ op :: later) →
      let w := w₀.after before
      let u := (w.step op).workspace
      u.Unmarked id later →
        (w.mark id op = .atEnd → ∃ p, u.terminal.position? = some p ∧
          (w₀.after (before ++ op :: later)).panes.lastKnown id = some p) ∧
        ∀ p, w.mark id op = .onTheWay p →
          (w₀.after (before ++ op :: later)).panes.lastKnown id = some p) ∧
    ∀ ops,
      let w := w₀.after ops
      let focused := w.step (.onPane id .focus)
      (w.panes.lastKnown id = none → focused = ⟨.ok .nothing, w⟩) ∧
      (∀ p answer, w.panes.lastKnown id = some p → p.x < Decimal.wordMax →
        focused.result = .ok answer →
          focused.workspace.terminal.position? = some p ∧
          focused.workspace.terminal.sink.emissions =
            w.terminal.sink.emissions ++ [.control (.cursorTo (p + ⟨1, 1⟩))]) ∧
      ∀ other, focused.workspace.panes.lastKnown other = w.panes.lastKnown other := by
  have hw₀ : w₀.Sound := sound_opened hopened
  refine ⟨fun ops hwell hunmarked => ?_, fun before op later hwell => ?_, fun ops => ?_⟩
  · rw [lastKnown_after hw₀ hwell hunmarked, panes_opened hopened]
    rfl
  · intro w u hunmarked
    obtain ⟨_, hwell⟩ := allWell_append.1 hwell
    obtain ⟨hok, hlater⟩ := allWell_cons.1 hwell
    have hw : w.Sound := sound_after hw₀ before
    have hholds := holds_step hw hok id
    have hafter : w₀.after (before ++ op :: later) = u.after later := List.foldl_append
    rw [hafter, lastKnown_after (sound_step hw op) hlater hunmarked]
    refine ⟨fun hmark => ?_, fun p hmark => ?_⟩
    · rw [hmark] at hholds
      exact hholds
    · rw [hmark] at hholds
      exact hholds
  · intro w focused
    have hw : w.Sound := sound_after hw₀ ops
    refine ⟨step_focus_of_none, fun p answer hknown hx hok => ?_, fun other => ?_⟩
    · exact moved_of_step_focus hw hknown hx hok
    · rw [panes_step_focus]

end

/-- Whether every operation of a run ends well. -/
def goesWell (w : Workspace) (ops : List Operation) : Bool :=
  (w.play ops).all fun o =>
    match o.result with
    | .ok _ => true
    | .error _ => false

theorem allWell_of_goesWell (h : w.goesWell ops = true) : w.AllWell ops := by
  intro o ho
  have hend := List.all_eq_true.1 h o ho
  split at hend
  · exact ⟨_, by assumption⟩
  · contradiction

end


open scoped Text.Tables in
/-- A move stops at the left edge, and then the cursor is moved elsewhere. -/
theorem a_move_that_stopped_at_the_edge_is_found_again :
    let room := left opening (Workspace.blank Sink.unlimited ⟨80, 24⟩ Config.default [])
    let w := room.after
      [.newPane .fullScreen, .onPane 0 (.moveTo ⟨-3, 2⟩), .terminal (.moveTo ⟨9, 9⟩)]
    opening (Workspace.blank Sink.unlimited ⟨80, 24⟩ Config.default []) = .ok () room ∧
      w.panes.lastKnown 0 = some ⟨0, 2⟩ ∧ w.terminal.position? = some ⟨9, 9⟩ ∧
      (w.step (.onPane 0 .focus)).workspace.terminal.position? = some ⟨0, 2⟩ := by
  intro room w
  have hopened : opening (Workspace.blank Sink.unlimited ⟨80, 24⟩ Config.default []) =
      .ok () room := rfl
  obtain ⟨-, hlast, hfocus⟩ := a_pane_remembers_where_it_left_the_cursor hopened 0
  obtain ⟨p, hp, hknown⟩ := (hlast [.newPane .fullScreen] (.onPane 0 (.moveTo ⟨-3, 2⟩))
    [.terminal (.moveTo ⟨9, 9⟩)] (allWell_of_goesWell (by decide +kernel)) ⟨rfl, trivial⟩).1 rfl
  have hedge : p = ⟨0, 2⟩ := Option.some_inj.1 (hp.symm.trans (by decide +kernel))
  rw [hedge] at hknown
  have hgoes : w.AllWell [.onPane 0 .focus] := allWell_of_goesWell (by decide +kernel)
  obtain ⟨⟨answer, hanswer⟩, -⟩ := allWell_cons.1 hgoes
  have hfound := (hfocus _).2.1 ⟨0, 2⟩ answer hknown (by decide) hanswer
  exact ⟨hopened, hknown, by decide +kernel, hfound.1⟩

open scoped Text.Tables in
/-- The frame of a pane without a title is drawn, and the pane remembers the lower left
corner. The cursor is beyond the lower right one. -/
theorem a_frame_without_a_title_is_remembered :
    let room := left opening (Workspace.blank Sink.unlimited ⟨80, 24⟩ Config.default [])
    let made := room.after [.newPane (.between (.fixed ⟨0, 0⟩) (.fixed ⟨6, 4⟩))]
    let w := (made.step (.onPane 0 .drawBorder)).workspace
    opening (Workspace.blank Sink.unlimited ⟨80, 24⟩ Config.default []) = .ok () room ∧
      room.AllWell [.newPane (.between (.fixed ⟨0, 0⟩) (.fixed ⟨6, 4⟩)), .onPane 0 .drawBorder] ∧
      (made.panes.pane 0).title = none ∧ w.terminal.position? = some ⟨6, 3⟩ ∧
      w.panes.lastKnown 0 = some ⟨0, 3⟩ := by
  intro room made w
  exact ⟨rfl, allWell_of_goesWell (by decide +kernel), rfl, by decide +kernel, by decide +kernel⟩

end Workspace

end TerminalPanes
