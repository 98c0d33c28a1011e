-- What no workspace operation breaks. Panes do little on a terminal: they move
-- the cursor, send text and ask where the cursor is. What all of these keep is
-- kept by everything that is done in a pane, and so by every workspace
-- operation. A pane remembers a position on the screen or none at all.
import TerminalPanes.Workspace.Operation
import TerminalPanes.Proofs.TerminalReach
import TerminalPanes.Proofs.PaneForest

namespace TerminalPanes

variable {α β : Type}

/-! ## What panes do on a terminal -/

/-- What everything that a pane does on a terminal upholds. The places where it
is told that the cursor is have `K`, and it fails with errors that have `E`. -/
structure Footing [Text.Measure] (P : Terminal → Prop) (K : Point → Prop) (E : PaneError → Prop) :
    Prop where
  position : ∀ t, P t → ∃ p, t.position? = some p ∧ K p
  moveTo : ∀ p, Upholds P (fun e => E (.terminal e)) (Terminal.moveTo p)
  writeRaw : ∀ text, Upholds P (fun e => E (.terminal e)) (Terminal.writeRaw text)
  writeClipped : ∀ text, Upholds P (fun e => E (.terminal e)) (Terminal.write text .clip)
  writeSections : ∀ sections wrap,
    Upholds P (fun e => E (.terminal e)) (Terminal.writeSections sections wrap)

variable {P : Terminal → Prop} {K : Point → Prop} {E : PaneError → Prop}

theorem Footing.weaken [Text.Measure] {E' : PaneError → Prop} (g : Footing P K E)
    (h : ∀ e, E e → E' e) :
    Footing P K E' where
  position := g.position
  moveTo p := (g.moveTo p).weaken fun _ => h _
  writeRaw text := (g.writeRaw text).weaken fun _ => h _
  writeClipped text := (g.writeClipped text).weaken fun _ => h _
  writeSections sections wrap := (g.writeSections sections wrap).weaken fun _ => h _

/-- That the text cannot be read counts among the errors. -/
def Covers (E : PaneError → Prop) (markup : Text) : Prop :=
  ∀ m, Markup.read markup = .error m → E (.terminal (.markup m))

/-- The sections that the text is read as have `T`, and that it cannot be read counts
among the errors. -/
structure Yields (E : PaneError → Prop) (T : Section → Prop) (markup : Text) : Prop where
  covers : Covers E markup
  sections : ∀ sections, Markup.read markup = .ok sections → ∀ s ∈ sections, T s

/-- What moving upholds, and what writing does where the sections have `T`. -/
structure Standing [Text.Measure] (P : Terminal → Prop) (K : Point → Prop) (E : PaneError → Prop)
    (T : Section → Prop) : Prop where
  position : ∀ t, P t → ∃ p, t.position? = some p ∧ K p
  moveTo : ∀ p, Upholds P (fun e => E (.terminal e)) (Terminal.moveTo p)
  writeSections : ∀ sections wrap, (∀ s ∈ sections, T s) →
    Upholds P (fun e => E (.terminal e)) (Terminal.writeSections sections wrap)

variable {T : Section → Prop}

theorem Footing.standing [Text.Measure] (g : Footing P K E) : Standing P K E fun _ => True where
  position := g.position
  moveTo := g.moveTo
  writeSections sections wrap _ := g.writeSections sections wrap

theorem Covers.yields {markup : Text} (h : Covers E markup) : Yields E (fun _ => True) markup :=
  ⟨h, fun _ _ _ _ => trivial⟩

theorem Standing.weaken [Text.Measure] {E' : PaneError → Prop} (g : Standing P K E T)
    (h : ∀ e, E e → E' e) :
    Standing P K E' T where
  position := g.position
  moveTo p := (g.moveTo p).weaken fun _ => h _
  writeSections sections wrap hs := (g.writeSections sections wrap hs).weaken fun _ => h _

namespace Terminal

theorem position_of_position? {t : Terminal} {p : Point} (h : t.position? = some p) :
    position t = .ok p t := by
  obtain ⟨cell, hcell, rfl⟩ := Option.map_eq_some_iff.1 h
  have hget : (get : Action Terminal) t = .ok t t := rfl
  have hcurrent : currentCell t = .ok cell t := by
    unfold currentCell
    rw [bind_of_ok hget, hcell]
    rfl
  unfold position
  rw [bind_of_ok hcurrent]
  rfl

theorem readMarkup_of_ok {markup : Text} {sections : List Section}
    (h : Markup.read markup = .ok sections) : readMarkup markup = pure sections := by
  unfold readMarkup
  rw [h]

theorem readMarkup_of_error {markup : Text} {m : MarkupError}
    (h : Markup.read markup = .error m) : readMarkup markup = throw (.markup m) := by
  unfold readMarkup
  rw [h]

theorem upholds_readMarkup {markup : Text} (h : Covers E markup) :
    Upholds P (fun e => E (.terminal e)) (readMarkup markup) := by
  cases hread : Markup.read markup with
  | ok sections =>
    rw [readMarkup_of_ok hread]
    exact .pure _
  | error m =>
    rw [readMarkup_of_error hread]
    exact .throw (h m hread)

end Terminal

/-! ## Actions in a pane -/

namespace Canvas

/-- The terminal has `P`, and the place that is remembered has `K`. -/
structure Kept (P : Terminal → Prop) (K : Point → Prop) (c : Canvas) : Prop where
  terminal : P c.terminal
  lastKnown : ∀ p, c.lastKnown = some p → K p

theorem onTerminal_eq (action : Terminal.Action α) (c : Canvas) :
    onTerminal action c =
      liftEnd (fun t => { c with terminal := t }) .terminal (action c.terminal) := by
  unfold onTerminal liftEnd
  cases action c.terminal <;> rfl

theorem of_onTerminal_ok {action : Terminal.Action α} {c u : Canvas} {a : α}
    (h : onTerminal action c = .ok a u) :
    ∃ t, action c.terminal = .ok a t ∧ u = { c with terminal := t } := by
  rw [onTerminal_eq] at h
  exact of_liftEnd_ok h

theorem upholds_onTerminal {action : Terminal.Action α}
    (h : Upholds P (fun e => E (.terminal e)) action) :
    Upholds (Kept P K) E (onTerminal action) :=
  .within (onTerminal_eq action) (fun _ => h) (fun _ hc => hc.terminal)
    fun _ _ hc ht => ⟨ht, hc.lastKnown⟩

theorem position_of_position? {c : Canvas} {p : Point} (h : c.terminal.position? = some p) :
    onTerminal Terminal.position c = .ok p c := by
  rw [onTerminal_eq, Terminal.position_of_position? h]
  rfl

theorem remember_of_position? {c : Canvas} {p : Point} (h : c.terminal.position? = some p) :
    remember c = .ok () { c with lastKnown := some p } := by
  unfold remember
  rw [bind_of_ok (position_of_position? h)]
  rfl

theorem reckon_some_bind (a : α) (f : α → Action β) : (reckon (some a) >>= f) = f a := pure_bind a f

/-- What follows on a number is done where there is one. That there is none counts among the
errors. -/
theorem upholds_reckon {x : Option α} {f : α → Action β} (hnone : x = none → E .overflow)
    (hsome : ∀ a, x = some a → Upholds (Kept P K) E (f a)) :
    Upholds (Kept P K) E (reckon x >>= f) := by
  cases x with
  | none =>
    have hthrow : (reckon none >>= f) = throw .overflow := rfl
    exact hthrow ▸ Upholds.throw (hnone rfl)
  | some a => exact hsome a rfl

section

variable [Text.Measure] (g : Standing P K E T)

include g

theorem upholds_position : Upholds (Kept P K) E (onTerminal Terminal.position) := by
  intro c hc
  obtain ⟨p, hp, -⟩ := g.position c.terminal hc.terminal
  exact Upholds.at_ok (position_of_position? hp) hc

theorem upholds_remember : Upholds (Kept P K) E remember := by
  intro c hc
  obtain ⟨p, hp, hK⟩ := g.position c.terminal hc.terminal
  refine Upholds.at_ok (remember_of_position? hp) ⟨hc.terminal, fun q hq => ?_⟩
  cases hq
  exact hK

theorem upholds_moveTo (p : Point) : Upholds (Kept P K) E (moveTo p) :=
  .bind (upholds_onTerminal (g.moveTo p)) fun _ => upholds_remember g

theorem upholds_moveToPlace (hover : E .overflow) (r? : Option Rect) (place : Rect → Point) :
    Upholds (Kept P K) E (moveToPlace r? place) :=
  upholds_reckon (fun _ => hover) fun _ _ =>
    upholds_reckon (fun _ => hover) fun p _ => upholds_moveTo g p

theorem upholds_moveToPadded (hover : E .overflow)
    (hout : ∀ point area, E (.outOfBounds point area)) (v : View) (p : Point) :
    Upholds (Kept P K) E (moveToPadded v p) := by
  refine upholds_reckon (fun _ => hover) fun area _ => upholds_reckon (fun _ => hover) fun p _ => ?_
  split
  · exact upholds_moveTo g _
  · exact .throw (hout _ _)

theorem upholds_moveToStart (hover : E .overflow) (v : View) (inset : Inset) :
    Upholds (Kept P K) E (moveToStart v inset) :=
  upholds_reckon (fun _ => hover) fun _ _ => upholds_moveTo g _

theorem upholds_focus : Upholds (Kept P K) E focus := by
  refine .get_bind fun c _ => ?_
  split
  · exact upholds_onTerminal (g.moveTo _)
  · exact .pure ()

theorem upholds_writeMarkup {markup : Text} (h : Yields E T markup) :
    Upholds (Kept P K) E (onTerminal (Terminal.writeMarkup markup)) := by
  refine upholds_onTerminal ?_
  unfold Terminal.writeMarkup
  cases hread : Markup.read markup with
  | ok sections =>
    rw [Terminal.readMarkup_of_ok hread, pure_bind]
    exact .get_bind fun _ _ => g.writeSections _ _ (h.sections sections hread)
  | error m =>
    rw [Terminal.readMarkup_of_error hread]
    exact Upholds.throw (h.covers m hread)

theorem upholds_write {markup : Text} (h : Yields E T markup) :
    Upholds (Kept P K) E (write markup) :=
  .bind (upholds_writeMarkup g h) fun _ => upholds_remember g

section

variable {v : View} (hover : v.area? = none → E .overflow)

include hover

theorem upholds_newline (hbelow : ∀ row bottom, E (.belowBottom row bottom)) :
    Upholds (Kept P K) E (newline v) := by
  refine upholds_reckon hover fun area _ => .bind (upholds_position g) fun p => ?_
  dsimp only
  split
  · exact .bind (.throw (hbelow _ _)) fun _ => upholds_moveTo g _
  · exact upholds_moveTo g _

theorem upholds_writeOnNewline (hbelow : ∀ row bottom, E (.belowBottom row bottom))
    {markup : Text} (h : Yields E T markup) : Upholds (Kept P K) E (writeOnNewline v markup) :=
  .bind (upholds_newline g hover hbelow) fun _ => upholds_write g h

theorem upholds_writeRest {lines : List Text} (h : ∀ line ∈ lines, Yields E T line) :
    Upholds (Kept P K) E (writeLines.writeRest v lines) := by
  -- A line that would be out of bounds ends the writing and no more.
  have g' : Standing P K (fun e => e.isOutOfBounds ∨ E e) T := g.weaken fun _ => Or.inr
  induction lines with
  | nil => exact .pure ()
  | cons line rest ih =>
    obtain ⟨hline, hrest⟩ := List.forall_mem_cons.1 h
    intro c hc
    have hone := upholds_writeOnNewline g' (fun h => .inr (hover h)) (fun _ _ => .inl rfl)
      ⟨fun m hm => .inr (hline.covers m hm), hline.sections⟩
    obtain ⟨hok, herror⟩ := hone c hc
    unfold writeLines.writeRest
    split
    · rename_i u hu
      exact ih hrest _ (hok _ _ hu)
    · rename_i e u hu
      obtain ⟨hkept, he⟩ := herror _ _ hu
      split
      · exact Upholds.pure () _ hkept
      · rename_i hnot
        exact Upholds.throw (he.resolve_left hnot) _ hkept

theorem upholds_writeLines {lines : List Text} (h : ∀ line ∈ lines, Yields E T line) :
    Upholds (Kept P K) E (writeLines v lines) := by
  refine .bind (upholds_reckon hover fun _ _ => upholds_moveTo g _) fun _ => ?_
  cases lines with
  | nil => exact .pure ()
  | cons first rest =>
    obtain ⟨hfirst, hrest⟩ := List.forall_mem_cons.1 h
    exact .bind (upholds_write g hfirst) fun _ => upholds_writeRest g hover hrest

end

end

section

variable [Text.Measure] (g : Footing P K E)

include g

theorem upholds_writeRaw (text : Text) : Upholds (Kept P K) E (writeRaw text) :=
  .bind (upholds_onTerminal (g.writeRaw text)) fun _ => upholds_remember g.standing

theorem upholds_writeClipped (text : Text) : Upholds (Kept P K) E (writeClipped text) :=
  upholds_onTerminal (g.writeClipped text)

theorem upholds_clear (hover : E .overflow) (v : View) : Upholds (Kept P K) E (clear v) := by
  refine upholds_reckon (fun _ => hover) fun area _ => upholds_reckon (fun _ => hover) fun _ _ => ?_
  refine .bind (.forM (fun _ => ?_) _) fun _ => upholds_moveTo g.standing _
  exact .bind (upholds_moveTo g.standing _) fun _ => upholds_writeClipped g _

theorem upholds_clearLine (hover : E .overflow) (v : View) :
    Upholds (Kept P K) E (clearLine v) := by
  refine upholds_reckon (fun _ => hover) fun r _ => upholds_reckon (fun _ => hover) fun _ _ => ?_
  refine .bind (upholds_position g.standing) fun _ => ?_
  refine .bind (upholds_moveTo g.standing _) fun _ => ?_
  refine upholds_reckon (fun _ => hover) fun area _ => upholds_reckon (fun _ => hover) fun _ _ => ?_
  exact .bind (upholds_writeClipped g _) fun _ => upholds_moveTo g.standing _

theorem upholds_drawFrame (glyphs : Glyphs) (r : Rect) :
    Upholds (Kept P K) E (drawFrame glyphs r) := by
  refine .bind (upholds_moveTo g.standing _) fun _ => .bind (upholds_writeClipped g _) fun _ => ?_
  refine .bind (.forM (fun _ => ?_) _) fun _ => ?_
  · refine .bind (upholds_moveTo g.standing _) fun _ => .bind (upholds_writeClipped g _) fun _ => ?_
    exact .bind (upholds_moveTo g.standing _) fun _ => upholds_writeClipped g _
  · exact .bind (upholds_moveTo g.standing _) fun _ => upholds_writeClipped g _

theorem upholds_drawTitle (glyphs : Glyphs) (r : Rect) {title : Text} (h : Covers E title) :
    Upholds (Kept P K) E (drawTitle glyphs r title) := by
  refine .bind (upholds_onTerminal (Terminal.upholds_readMarkup h)) fun _ => ?_
  split
  · refine .bind (upholds_moveTo g.standing _) fun _ => .bind (upholds_writeClipped g _) fun _ => ?_
    refine .bind (upholds_onTerminal (g.writeSections _ _)) fun _ => ?_
    exact .bind (upholds_writeClipped g _) fun _ => upholds_remember g.standing
  · exact .pure ()

theorem upholds_drawBorder {v : View} (hover : v.rect?.bind hasRoom? = none → E .overflow)
    (h : ∀ title ∈ v.title, Covers E title) : Upholds (Kept P K) E (drawBorder v) := by
  refine upholds_reckon (fun hnone => hover (by rw [hnone]; rfl)) fun r hr => ?_
  refine upholds_reckon (fun hnone => hover (by rw [hr]; exact hnone)) fun room _ => ?_
  split
  · refine .bind (upholds_drawFrame g v.glyphs r) fun _ => ?_
    split
    · rename_i title htitle
      exact upholds_drawTitle g v.glyphs r (h title htitle)
    · exact .pure ()
  · exact .pure ()

end

end Canvas

/-! ## The places that panes remember -/

namespace Forest

/-- Where a pane last left the cursor. -/
def lastKnown (f : Forest) (id : Nat) : Option Point := (f.pane id).lastKnown

theorem lastKnown_add (f : Forest) (placement : Placement) (id : Nat) :
    (f.add placement).2.lastKnown id = f.lastKnown id := by
  by_cases h : id = f.length
  · have hnone : f.pane? id = none := by
      cases hp : f.pane? id with
      | none => rfl
      | some p => exact absurd (lt_of_pane? hp) (by omega)
    have hnew : (f.add placement).2.pane? id = some (Pane.ofPlacement placement) := if_pos h
    rw [lastKnown, lastKnown, pane, pane, hnone, hnew]
    rfl
  · have hold : (f.add placement).2.pane? id = f.pane? id := if_neg h
    rw [lastKnown, lastKnown, pane, pane, hold]

theorem lastKnown_split (f : Forest) (parent : Nat) (details : List Detail) (id : Nat) :
    (f.split parent details).2.lastKnown id = f.lastKnown id := by
  induction details generalizing f with
  | nil => rfl
  | cons d rest ih => exact (ih _).trans (lastKnown_add f _ id)

/-- A change that leaves the place alone leaves all places alone. -/
theorem lastKnown_modify {change : Pane → Pane} (h : ∀ p, (change p).lastKnown = p.lastKnown)
    (f : Forest) (target id : Nat) : (f.modify change target).lastKnown id = f.lastKnown id :=
  look_pane_modify h f target id

end Forest

/-! ## Actions in a workspace -/

namespace Workspace

/-- The terminal has `P`, and the places that panes remember have `K`. -/
structure Kept (P : Terminal → Prop) (K : Point → Prop) (w : Workspace) : Prop where
  terminal : P w.terminal
  lastKnown : ∀ id p, w.panes.lastKnown id = some p → K p

theorem onTerminal_eq (action : Terminal.Action α) (w : Workspace) :
    onTerminal action w =
      liftEnd (fun t => { w with terminal := t }) .terminal (action w.terminal) := by
  unfold onTerminal liftEnd
  cases action w.terminal <;> rfl

theorem of_onTerminal_ok {action : Terminal.Action α} {w u : Workspace} {a : α}
    (h : onTerminal action w = .ok a u) :
    ∃ t, action w.terminal = .ok a t ∧ u = { w with terminal := t } := by
  rw [onTerminal_eq] at h
  exact of_liftEnd_ok h

/-- The terminal in the hands of a pane. -/
def canvas (w : Workspace) (id : Nat) : Canvas := ⟨w.terminal, w.panes.lastKnown id⟩

theorem Kept.canvas {w : Workspace} (hw : Kept P K w) (id : Nat) : (w.canvas id).Kept P K :=
  ⟨hw.terminal, hw.lastKnown id⟩

/-- The workspace when a pane gives the terminal back. -/
def leave (w : Workspace) (id : Nat) (c : Canvas) : Workspace :=
  { w with
    terminal := c.terminal
    panes := w.panes.modify (fun p => { p with lastKnown := c.lastKnown }) id }

theorem onPane_eq (id : Nat) (action : View → Canvas.Action α) (w : Workspace) :
    onPane id action w =
      liftEnd (w.leave id) (fun e => e) (action (w.view w.terminal.size id) (w.canvas id)) := by
  change onPane id action w = liftEnd (w.leave id) (fun e => e)
    (action (w.view w.terminal.size id) ⟨w.terminal, (w.panes.pane id).lastKnown⟩)
  unfold onPane liftEnd
  dsimp only
  cases action (w.view w.terminal.size id) ⟨w.terminal, (w.panes.pane id).lastKnown⟩ <;> rfl

theorem of_onPane_ok {action : View → Canvas.Action α} {id : Nat} {w u : Workspace} {a : α}
    (h : onPane id action w = .ok a u) :
    ∃ c, action (w.view w.terminal.size id) (w.canvas id) = .ok a c ∧ u = w.leave id c := by
  rw [onPane_eq] at h
  exact of_liftEnd_ok h

/-- Asks the keys for something. -/
def asking (ask : KeyInput → Except Fault α × KeyInput) : Action α := fun w =>
  match ask w.keys with
  | (.ok a, keys) => .ok a { w with keys }
  | (.error f, keys) => .error (.terminal (.fault f)) { w with keys }

theorem readKey_eq : readKey = asking KeyInput.next := by
  funext w
  unfold readKey asking
  rcases w.keys.next with ⟨f | key, keys⟩ <;> rfl

theorem confirm_eq [Text.Measure] (id : Nat) (message : Option Text) :
    confirm id message =
      onPane id (fun _ => Canvas.write (message.getD defaultQuestion ++ choices)) >>= fun _ =>
        asking (KeyInput.await answer?) := by
  refine bind_congr fun _ => funext fun w => ?_
  unfold asking
  rcases w.keys.await answer? with ⟨f | answer, keys⟩ <;> rfl

theorem upholds_onTerminal {action : Terminal.Action α}
    (h : Upholds P (fun e => E (.terminal e)) action) :
    Upholds (Kept P K) E (onTerminal action) :=
  .within (onTerminal_eq action) (fun _ => h) (fun _ hw => hw.terminal)
    fun _ _ hw ht => ⟨ht, hw.lastKnown⟩

theorem Kept.leave {w : Workspace} {c : Canvas} (hw : Kept P K w) (hc : c.Kept P K) (id : Nat) :
    Kept P K (w.leave id c) := by
  refine ⟨hc.terminal, fun other p hp => ?_⟩
  change (w.panes.modify _ id).lastKnown other = some p at hp
  by_cases hid : other = id
  · subst hid
    rcases Nat.lt_or_ge other w.panes.length with hlt | hle
    · rw [Forest.lastKnown, Forest.pane_modify_self hlt] at hp
      exact hc.lastKnown p hp
    · rw [Forest.modify_of_le _ hle] at hp
      exact hw.lastKnown other p hp
  · rw [Forest.lastKnown, Forest.pane_modify_of_ne hid] at hp
    exact hw.lastKnown other p hp

theorem upholds_onPane (id : Nat) {action : View → Canvas.Action α}
    (h : ∀ v, Upholds (Canvas.Kept P K) E (action v)) : Upholds (Kept P K) E (onPane id action) :=
  .within (onPane_eq id action) (fun _ => h _) (fun _ hw => hw.canvas id)
    fun _ _ hw hc => hw.leave hc id

theorem upholds_onPanes {change : Forest → α × Forest}
    (h : ∀ f id, (change f).2.lastKnown id = f.lastKnown id) :
    Upholds (Kept P K) E (onPanes change) := by
  refine fun w hw => Upholds.at_ok rfl ⟨hw.terminal, fun id p hp => hw.lastKnown id p ?_⟩
  rw [← hp, ← h]

theorem upholds_changePane {change : Pane → Pane} (h : ∀ p, (change p).lastKnown = p.lastKnown)
    (id : Nat) : Upholds (Kept P K) E (changePane id change) :=
  upholds_onPanes fun f => Forest.lastKnown_modify h f id

theorem upholds_asking (hfault : ∀ f, E (.terminal (.fault f)))
    (ask : KeyInput → Except Fault α × KeyInput) : Upholds (Kept P K) E (asking ask) := by
  intro w hw
  have hkept : ∀ keys, Kept P K { w with keys } := fun _ => ⟨hw.terminal, hw.lastKnown⟩
  rcases hask : ask w.keys with ⟨f | a, keys⟩
  · exact Upholds.at_error (by rw [asking, hask]) (hkept keys) (hfault f)
  · exact Upholds.at_ok (by rw [asking, hask]) (hkept keys)

theorem upholds_silent {action : Action Unit} (h : Upholds (Kept P K) E action) :
    Upholds (Kept P K) E (silent action) :=
  .bind h fun _ => .pure _

/-! ## Every operation -/

section

variable [Text.Measure] (g : Footing P K E) (hfault : ∀ f, E (.terminal (.fault f)))
  (hmarkup : ∀ m, E (.terminal (.markup m)))
  (hout : ∀ point area, E (.outOfBounds point area))
  (hbelow : ∀ row bottom, E (.belowBottom row bottom)) (hover : E .overflow)

include g hfault hmarkup hout hbelow hover

theorem PaneOperation.upholds_run (id : Nat) (op : PaneOperation) :
    Upholds (Kept P K) E (op.run id) := by
  have hcovers : ∀ markup, Covers E markup := fun _ m _ => hmarkup m
  cases op with
  | drop => exact upholds_silent (upholds_changePane (fun _ => by rfl) id)
  | split details =>
    exact .bind (upholds_onPanes fun f => Forest.lastKnown_split f id details) fun _ => .pure _
  | setPadding padding => exact upholds_silent (upholds_changePane (fun _ => by rfl) id)
  | setBorderWidth width => exact upholds_silent (upholds_changePane (fun _ => by rfl) id)
  | setTitle title => exact upholds_silent (upholds_changePane (fun _ => by rfl) id)
  | setGlyphs glyphs => exact upholds_silent (upholds_changePane (fun _ => by rfl) id)
  | moveTo p => exact upholds_silent (upholds_onPane id fun _ => Canvas.upholds_moveTo g.standing p)
  | moveToRelative p =>
    exact upholds_silent (upholds_onPane id fun _ =>
      Canvas.upholds_moveToPlace g.standing hover _ _)
  | moveToPadded p =>
    exact upholds_silent (upholds_onPane id fun v =>
      Canvas.upholds_moveToPadded g.standing hover hout v p)
  | moveToStart inset =>
    exact upholds_silent (upholds_onPane id fun v =>
      Canvas.upholds_moveToStart g.standing hover v inset)
  | moveToEnd inset =>
    exact upholds_silent (upholds_onPane id fun _ =>
      Canvas.upholds_moveToPlace g.standing hover _ _)
  | moveToBottomLeft inset =>
    exact upholds_silent (upholds_onPane id fun _ =>
      Canvas.upholds_moveToPlace g.standing hover _ _)
  | moveToTopRight inset =>
    exact upholds_silent (upholds_onPane id fun _ =>
      Canvas.upholds_moveToPlace g.standing hover _ _)
  | write markup =>
    exact upholds_silent (upholds_onPane id fun _ =>
      Canvas.upholds_write g.standing (hcovers markup).yields)
  | writeRaw t => exact upholds_silent (upholds_onPane id fun _ => Canvas.upholds_writeRaw g t)
  | writeOnNewline markup =>
    exact upholds_silent (upholds_onPane id fun _ =>
      Canvas.upholds_writeOnNewline g.standing (fun _ => hover) hbelow (hcovers markup).yields)
  | writeLines lines =>
    exact upholds_silent (upholds_onPane id fun _ =>
      Canvas.upholds_writeLines g.standing (fun _ => hover) fun line _ => (hcovers line).yields)
  | focus => exact upholds_silent (upholds_onPane id fun _ => Canvas.upholds_focus g.standing)
  | clear => exact upholds_silent (upholds_onPane id (Canvas.upholds_clear g hover))
  | clearLine => exact upholds_silent (upholds_onPane id (Canvas.upholds_clearLine g hover))
  | newline =>
    exact upholds_silent (upholds_onPane id fun _ =>
      Canvas.upholds_newline g.standing (fun _ => hover) hbelow)
  | drawBorder =>
    exact upholds_silent (upholds_onPane id fun _ =>
      Canvas.upholds_drawBorder g (fun _ => hover) fun title _ => hcovers title)
  | confirm message =>
    have hconfirm : Upholds (Kept P K) E (Workspace.confirm id message) := by
      rw [confirm_eq]
      exact .bind (upholds_onPane id fun _ => Canvas.upholds_write g.standing (hcovers _).yields)
        fun _ => upholds_asking hfault _
    exact .bind hconfirm fun _ => .pure _
  | pause message =>
    have hread : Upholds (Kept P K) E readKey := readKey_eq ▸ upholds_asking hfault _
    refine upholds_silent (.bind (upholds_onPane id fun _ => ?_) fun _ =>
      .bind hread fun _ => .pure _)
    exact Canvas.upholds_write g.standing (hcovers _).yields

theorem Operation.upholds_run
    (hterminal : ∀ op : Terminal.Operation, Upholds P (fun e => E (.terminal e)) op.run)
    (op : Operation) : Upholds (Kept P K) E op.run := by
  cases op with
  | terminal op => exact .bind (upholds_onTerminal (hterminal op)) fun _ => .pure _
  | newPane placement =>
    exact .bind (upholds_onPanes fun f => Forest.lastKnown_add f placement) fun _ => .pure _
  | onPane id op => exact PaneOperation.upholds_run g hfault hmarkup hout hbelow hover id op
  | feed chunks => exact upholds_silent (.modify fun _ hw => ⟨hw.terminal, hw.lastKnown⟩)
  | readKey =>
    have hread : Upholds (Kept P K) E Workspace.readKey := readKey_eq ▸ upholds_asking hfault _
    exact .bind hread fun _ => .pure _

end

/-! ## Steps -/

/-- How an operation ended and what it left behind. -/
def outcomeOf : EStateM.Result PaneError Workspace Answer → Outcome
  | .ok answer w => ⟨.ok answer, w⟩
  | .error e w => ⟨.error e, w⟩

theorem step_eq [Text.Measure] (w : Workspace) (op : Operation) :
    w.step op = outcomeOf (op.run w) := by
  unfold step outcomeOf
  cases op.run w <;> rfl

end Workspace

/-! ## Every workspace there can be -/

/-- A logical position that the cursor can be at: no coordinate is negative, and
the line is in the range of a machine word. -/
structure Point.OnScreen (p : Point) : Prop where
  zero_le_x : 0 ≤ p.x
  zero_le_y : 0 ≤ p.y
  y_lt : p.y < Decimal.wordMax

/-- A history that holds a current position, and cells alone. -/
structure History.OfCells (h : History) : Prop where
  valid : h.Valid
  cells : ∀ p ∈ h.entries, p.IsCell

theorem History.ofCells_ofLimit (limit : Nat) : (ofLimit limit).OfCells := by
  refine ⟨valid_ofLimit limit, fun p hp => ?_⟩
  obtain rfl : p = ⟨1, 1⟩ := List.mem_singleton.1 hp
  exact ⟨by decide, by decide, by decide⟩

theorem History.stable_ofCells : Stable OfCells where
  current hh := stable_valid.current hh.valid
  push {h p} hh hp := by
    refine ⟨stable_valid.push hh.valid hp, fun q hq => ?_⟩
    rcases List.mem_cons.1 (List.mem_of_mem_take hq) with rfl | hq
    · exact hp
    · exact hh.cells q hq
  back hh hb := by
    refine ⟨stable_valid.back hh.valid hb, ?_⟩
    obtain ⟨-, rfl⟩ := back?_eq_some_iff.1 hb
    exact hh.cells
  forward hh hf := by
    refine ⟨stable_valid.forward hh.valid hf, ?_⟩
    obtain ⟨-, rfl⟩ := forward?_eq_some_iff.1 hf
    exact hh.cells
  advance {h h' columns} hh hcolumns ha := by
    refine ⟨stable_valid.advance hh.valid hcolumns ha, fun q hq => ?_⟩
    obtain ⟨-, rfl⟩ := advance?_eq_some_iff.1 ha
    obtain ⟨i, hi, rfl⟩ := List.getElem_of_mem hq
    rw [List.length_modify] at hi
    obtain ⟨hx, hy, hle⟩ := hh.cells _ (List.getElem_mem hi)
    rw [List.getElem_modify]
    split
    · -- Only the column grows.
      refine ⟨?_, ?_, ?_⟩ <;> simp only [Point.add_x, Point.add_y] <;> omega
    · exact ⟨hx, hy, hle⟩

theorem Terminal.exists_position {t : Terminal} (h : t.history.OfCells) :
    ∃ p, t.position? = some p ∧ p.OnScreen := by
  obtain ⟨cell, hcell⟩ := History.current?_of_lt h.valid.index_lt
  obtain ⟨hx, hy, hle⟩ := h.cells cell (List.mem_of_getElem? hcell)
  refine ⟨cell - ⟨1, 1⟩, ?_, ?_, ?_, ?_⟩
  · rw [position?, hcell]
    rfl
  · simp only [Point.sub_x]
    omega
  · simp only [Point.sub_y]
    omega
  · simp only [Point.sub_y]
    omega

/-- Something outside has failed. -/
def PaneError.IsFault (e : PaneError) : Prop := ∃ f, e = .terminal (.fault f)

/-- What panes do on a terminal goes well but for faults from outside. -/
theorem footing_ofCells [Text.Measure] :
    Footing (fun t => t.history.OfCells) Point.OnScreen PaneError.IsFault := by
  have hparts := Terminal.Keeps.ofParts History.stable_ofCells
  have hfault : ∀ {m : Terminal.Action Unit}, Terminal.Keeps History.OfCells m →
      Upholds (fun t : Terminal => t.history.OfCells)
        (fun e => PaneError.IsFault (.terminal e)) m := by
    refine fun h => Upholds.weaken h ?_
    rintro e ⟨f, rfl⟩
    exact ⟨f, rfl⟩
  exact
    { position := fun _ => Terminal.exists_position
      moveTo := fun p => hfault (hparts.moveTo p)
      writeRaw := fun text => hfault (hparts.emit _)
      writeClipped := fun text => hfault (hparts.write text .clip)
      writeSections := fun sections wrap => hfault (hparts.writeSections sections wrap) }

namespace Workspace

/-- The cursor is somewhere, and the places that panes remember are on the screen. -/
abbrev Sound (w : Workspace) : Prop := Kept (fun t => t.history.OfCells) Point.OnScreen w

/-- No operation breaks what is sound, and none fails for want of a position. -/
theorem upholds_sound [Text.Measure] (op : Operation) :
    Upholds Sound (· ≠ .terminal .missingHistory) op.run := by
  have g : Footing (fun t => t.history.OfCells) Point.OnScreen (· ≠ .terminal .missingHistory) := by
    refine footing_ofCells.weaken ?_
    rintro e ⟨f, rfl⟩
    simp
  refine Operation.upholds_run g (by simp) (by simp) (by simp) (by simp) (by simp) (fun op => ?_) op
  refine Upholds.weaken (Terminal.KeepsReading.run History.stable_ofCells op) fun e he => ?_
  simpa using he

/-- The workspaces that come from opening one and doing operations, whether or
not they fail. The sink belongs to the caller, who may change it at any time. -/
inductive Reachable [Text.Measure] : Workspace → Prop where
  | opened {sink : Sink} {size : Size} {config : Config} {script : Script} {w : Workspace} :
    opening (blank sink size config script) = .ok () w → Reachable w
  | stepped {w : Workspace} (op : Operation) : Reachable w → Reachable (w.step op).workspace
  | changedSink {w : Workspace} (sink : Sink) :
    Reachable w → Reachable { w with terminal := { w.terminal with sink } }

theorem sound_step [Text.Measure] {w : Workspace} (hw : w.Sound) (op : Operation) :
    (w.step op).workspace.Sound := by
  obtain ⟨hok, herror⟩ := upholds_sound op w hw
  rw [step_eq]
  cases h : op.run w with
  | ok answer u => exact hok answer u h
  | error e u => exact (herror e u h).1

theorem sound_opened {sink : Sink} {size : Size} {config : Config} {script : Script}
    {w : Workspace} (h : opening (blank sink size config script) = .ok () w) : w.Sound := by
  have hblank : (blank sink size config script).Sound :=
    ⟨History.ofCells_ofLimit _, fun _ _ hp => by cases hp⟩
  have hopening : Upholds Sound (fun _ => True) opening :=
    upholds_onTerminal
      ((Terminal.Keeps.ofParts History.stable_ofCells).opening.weaken fun _ _ => trivial)
  exact (hopening _ hblank).1 () w h

/-- The history of every workspace has a current position. -/
theorem Reachable.sound [Text.Measure] {w : Workspace} (hw : Reachable w) : w.Sound := by
  induction hw with
  | opened h => exact sound_opened h
  | stepped op _ ih => exact sound_step ih op
  | changedSink sink _ ih => exact ⟨ih.terminal, ih.lastKnown⟩

end Workspace

end TerminalPanes
