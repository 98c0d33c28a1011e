-- Runs over a limited sink. Pane and workspace operations stop where their
-- sink does, as terminal operations do: no failure for want of room is passed
-- over, and nothing is sent after one. So a run over a limit goes like the run
-- without one up to the operation whose bytes go beyond the limit, which
-- fails, and the bytes taken by then are the first of the whole run.
import TerminalPanes.Proofs.SinkLimit
import TerminalPanes.Proofs.WorkspaceReach
import TerminalPanes.Text.Tables

namespace TerminalPanes

open HasSink

/-! ## Panes -/

instance : HasSink Canvas PaneError where
  sink c := c.terminal.sink
  onSink c sink := { c with terminal := c.terminal.onSink sink }
  full := .terminal (.fault .sinkFull)

namespace Canvas

/-- The terminal in the hands of a pane. -/
def terminalPart : Part Terminal Canvas where
  inner := Canvas.terminal
  outer c t := { c with terminal := t }
  wrap := .terminal
  sink_inner _ := rfl
  sink_outer _ _ := rfl
  limited_inner _ _ := rfl
  limited_outer _ _ _ := rfl
  wrap_full := by simp [full]

variable {α : Type}

theorem stops_onTerminal {action : Terminal.Action α} (h : Stops action) :
    Stops (onTerminal action) := by
  refine terminalPart.stops (fun c => ?_) (fun _ _ => rfl) fun _ => h
  unfold onTerminal terminalPart
  cases action c.terminal <;> rfl

theorem stops_remember : Stops remember := by
  apply Stops.bind (stops_onTerminal Terminal.ofParts_stops.position)
  intro p
  exact .modify (fun _ => rfl) fun _ _ => rfl

theorem stops_moveTo (p : Point) : Stops (moveTo p) :=
  .bind (stops_onTerminal (Terminal.stops_moveTo p)) fun _ => stops_remember

theorem stops_reckon {β : Type} (x : Option α) {f : α → Action β} (h : ∀ a, Stops (f a)) :
    Stops (reckon x >>= f) := by
  cases x with
  | none => exact .throw (by simp [full])
  | some a => exact h a

theorem stops_moveToPlace (r? : Option Rect) (place : Rect → Point) :
    Stops (moveToPlace r? place) :=
  stops_reckon _ fun _ => stops_reckon _ fun _ => stops_moveTo _

theorem stops_moveToStart (v : View) (inset : Inset) : Stops (moveToStart v inset) :=
  stops_reckon _ fun _ => stops_moveTo _

theorem stops_moveToPadded (v : View) (p : Point) : Stops (moveToPadded v p) := by
  refine stops_reckon _ fun area => stops_reckon _ fun target => ?_
  split
  · exact stops_moveTo _
  · exact .throw (by simp [full])

theorem stops_focus : Stops focus := by
  apply Stops.get_bind fun _ _ => rfl
  intro c
  split
  · exact stops_onTerminal (Terminal.stops_moveTo _)
  · exact .pure ()

theorem stops_write [Text.Measure] (markup : Text) : Stops (write markup) := by
  have hmarkup := Terminal.ofParts_stops.writeMarkup Terminal.stops_refuse markup
  exact .bind (stops_onTerminal hmarkup) fun _ => stops_remember

theorem stops_writeRaw (t : Text) : Stops (writeRaw t) :=
  .bind (stops_onTerminal (Terminal.stops_emit _)) fun _ => stops_remember

theorem stops_writeClipped [Text.Measure] (t : Text) : Stops (writeClipped t) :=
  stops_onTerminal (Terminal.ofParts_stops.write t .clip)

/-- Most of what a pane draws is text at a place. -/
theorem stops_writeAt [Text.Measure] (p : Point) (t : Text) :
    Stops (moveTo p >>= fun _ => writeClipped t) :=
  .bind (stops_moveTo p) fun _ => stops_writeClipped t

theorem stops_newline (v : View) : Stops (newline v) := by
  refine stops_reckon _ fun area => .bind (stops_onTerminal Terminal.ofParts_stops.position) ?_
  intro p
  dsimp only
  split
  · exact .bind (.throw (by simp [full])) fun _ => stops_moveTo _
  · exact stops_moveTo _

theorem stops_writeOnNewline [Text.Measure] (v : View) (markup : Text) :
    Stops (writeOnNewline v markup) :=
  .bind (stops_newline v) fun _ => stops_write markup

/-- A line that finds no row ends the rest, a sink that is full is reported. -/
theorem stops_writeRest [Text.Measure] (v : View) (lines : List Text) :
    Stops (writeLines.writeRest v lines) := by
  induction lines with
  | nil => exact .pure ()
  | cons line rest ih =>
    refine .followed (fun e => if e.isOutOfBounds then some () else none) ?_ ?_ ?_ rfl
      (stops_writeOnNewline v line) fun _ => ih
    · intro c a u h
      simp only [writeLines.writeRest, h]
    · intro c e u b hpass h
      have he : e.isOutOfBounds = true := by
        by_contra hne
        rw [if_neg hne] at hpass
        contradiction
      simp only [writeLines.writeRest, h, he, if_true]
    · intro c e u hfail h
      have he : ¬ e.isOutOfBounds = true := by
        intro he
        rw [if_pos he] at hfail
        contradiction
      simp only [writeLines.writeRest, h, if_neg he]

theorem stops_writeLines [Text.Measure] (v : View) (lines : List Text) :
    Stops (writeLines v lines) := by
  apply Stops.bind (stops_moveToStart v _)
  intro _
  cases lines with
  | nil => exact .pure ()
  | cons first rest => exact .bind (stops_write first) fun _ => stops_writeRest v rest

theorem stops_clear [Text.Measure] (v : View) : Stops (clear v) := by
  refine stops_reckon _ fun area => stops_reckon _ fun columns => Stops.bind ?_ ?_
  · exact .forM (fun y => stops_writeAt ⟨area.start.x, y⟩ _) _
  · intro _
    exact stops_moveTo _

theorem stops_clearLine [Text.Measure] (v : View) : Stops (clearLine v) := by
  refine stops_reckon _ fun r => stops_reckon _ fun start => ?_
  apply Stops.bind (stops_onTerminal Terminal.ofParts_stops.position)
  intro p
  apply Stops.bind (stops_moveTo _)
  intro _
  refine stops_reckon _ fun area => stops_reckon _ fun columns => ?_
  exact .bind (stops_writeClipped _) fun _ => stops_moveTo _

theorem stops_drawFrame [Text.Measure] (g : Glyphs) (r : Rect) : Stops (drawFrame g r) := by
  apply Stops.bind (stops_moveTo _)
  intro _
  apply Stops.bind (stops_writeClipped _)
  intro _
  apply Stops.bind
  · apply Stops.forM
    intro y
    apply Stops.bind (stops_moveTo _)
    intro _
    apply Stops.bind (stops_writeClipped _)
    intro _
    exact stops_writeAt _ _
  · intro _
    exact stops_writeAt _ _

theorem stops_drawTitle [Text.Measure] (g : Glyphs) (r : Rect) (title : Text) :
    Stops (drawTitle g r title) := by
  have hread := Terminal.ofParts_stops.readMarkup Terminal.stops_refuse title
  apply Stops.bind (stops_onTerminal hread)
  intro sections
  dsimp only
  split
  · apply Stops.bind (stops_moveTo _)
    intro _
    apply Stops.bind (stops_writeClipped _)
    intro _
    apply Stops.bind (stops_onTerminal (Terminal.ofParts_stops.writeSections _ _))
    intro _
    exact .bind (stops_writeClipped _) fun _ => stops_remember
  · exact .pure ()

theorem stops_drawBorder [Text.Measure] (v : View) : Stops (drawBorder v) := by
  refine stops_reckon _ fun r => stops_reckon _ fun room => ?_
  split
  · apply Stops.bind (stops_drawFrame v.glyphs r)
    intro _
    split
    · exact stops_drawTitle v.glyphs r _
    · exact .pure ()
  · exact .pure ()

end Canvas

/-! ## Keys -/

namespace KeyInput

/-- Reading has nothing to do with the sink. -/
theorem next_ne_sinkFull (i : KeyInput) : i.next.1 ≠ .error .sinkFull := by
  have htake : ∀ (reader : KeyReader) (script : Script),
      (takeOrClosed reader script).1 ≠ .error .sinkFull := by
    intro reader script
    unfold takeOrClosed
    split <;> simp
  obtain ⟨reader, script⟩ := i
  change (readKey reader script).1 ≠ _
  fun_induction readKey reader script with
  | case1 => simp
  | case2 => exact htake _ _
  | case3 => simp
  | case4 => exact htake _ _
  | case5 waiting b bs later ih => exact ih

theorem await_ne_sinkFull {α : Type} (answer? : Key → Option α) (i : KeyInput) :
    (i.await answer?).1 ≠ .error .sinkFull := by
  fun_induction await answer? i with
  | case1 i fault later h =>
    intro hfull
    cases hfull
    exact next_ne_sinkFull i (congrArg Prod.fst h)
  | case2 => simp
  | case3 i key later h _ hnone ih => exact ih

end KeyInput

/-! ## Workspaces -/

instance : HasSink Workspace PaneError where
  sink w := w.terminal.sink
  onSink w sink := { w with terminal := w.terminal.onSink sink }
  full := .terminal (.fault .sinkFull)

namespace Workspace

def terminalPart : Part Terminal Workspace where
  inner := Workspace.terminal
  outer w t := { w with terminal := t }
  wrap := .terminal
  sink_inner _ := rfl
  sink_outer _ _ := rfl
  limited_inner _ _ := rfl
  limited_outer _ _ _ := rfl
  wrap_full := by simp [full]

/-- The terminal in the hands of one of the panes. -/
def canvasPart (id : Nat) : Part Canvas Workspace where
  inner w := ⟨w.terminal, (w.panes.pane id).lastKnown⟩
  outer w c :=
    { w with
      terminal := c.terminal
      panes := w.panes.modify (fun p => { p with lastKnown := c.lastKnown }) id }
  wrap := fun e => e
  sink_inner _ := rfl
  sink_outer _ _ := rfl
  limited_inner _ _ := rfl
  limited_outer _ _ _ := rfl
  wrap_full := Iff.rfl

variable {α : Type}

theorem stops_onTerminal {action : Terminal.Action α} (h : Stops action) :
    Stops (onTerminal action) := by
  refine terminalPart.stops (fun w => ?_) (fun _ _ => rfl) fun _ => h
  unfold onTerminal terminalPart
  cases action w.terminal <;> rfl

theorem stops_onPane (id : Nat) {action : View → Canvas.Action α} (h : ∀ v, Stops (action v)) :
    Stops (onPane id action) := by
  refine (canvasPart id).stops (fun w => ?_) (fun _ _ => rfl) fun w =>
    h (w.view w.terminal.size id)
  unfold onPane canvasPart
  dsimp only
  cases action (w.view w.terminal.size id) ⟨w.terminal, (w.panes.pane id).lastKnown⟩ <;> rfl

theorem stops_onPanes (change : Forest → α × Forest) : Stops (onPanes change) :=
  .of_still (fun _ => rfl) (fun h => nomatch h) fun _ _ => rfl

theorem stops_changePane (id : Nat) (change : Pane → Pane) : Stops (changePane id change) :=
  stops_onPanes _

theorem stops_asking {ask : KeyInput → Except Fault α × KeyInput}
    (hask : ∀ i, (ask i).1 ≠ .error .sinkFull) : Stops (asking ask) := by
  refine .of_still ?_ ?_ ?_
  · intro w
    unfold asking
    split <;> rfl
  · intro w u h
    unfold asking at h
    split at h
    · cases h
    · rename_i f keys hf
      cases h
      exact hask w.keys (congrArg Prod.fst hf)
  · intro n w
    have hkeys : (limited n w).keys = w.keys := rfl
    unfold asking
    rw [hkeys]
    rcases ask w.keys with ⟨a | f, keys⟩ <;> rfl

theorem stops_readKey : Stops readKey := by
  rw [readKey_eq]
  exact stops_asking KeyInput.next_ne_sinkFull

theorem stops_confirm [Text.Measure] (id : Nat) (message : Option Text) :
    Stops (confirm id message) := by
  rw [confirm_eq]
  exact .bind (stops_onPane id fun _ => Canvas.stops_write _) fun _ =>
    stops_asking (KeyInput.await_ne_sinkFull answer?)

theorem stops_pause [Text.Measure] (id : Nat) (message : Option Text) : Stops (pause id message) :=
  .bind (stops_onPane id fun _ => Canvas.stops_write _) fun _ =>
    .bind stops_readKey fun _ => .pure ()

theorem stops_silent {action : Action Unit} (h : Stops action) : Stops (silent action) :=
  .bind h fun _ => .pure Answer.nothing

theorem PaneOperation.stops_run [Text.Measure] (id : Nat) (op : PaneOperation) :
    Stops (op.run id) := by
  cases op with
  | drop => exact stops_silent (stops_changePane id _)
  | split details => exact .bind (stops_onPanes _) fun _ => .pure _
  | setPadding padding => exact stops_silent (stops_changePane id _)
  | setBorderWidth width => exact stops_silent (stops_changePane id _)
  | setTitle title => exact stops_silent (stops_changePane id _)
  | setGlyphs glyphs => exact stops_silent (stops_changePane id _)
  | moveTo p => exact stops_silent (stops_onPane id fun _ => Canvas.stops_moveTo p)
  | moveToRelative p => exact stops_silent (stops_onPane id fun _ => Canvas.stops_moveToPlace _ _)
  | moveToPadded p => exact stops_silent (stops_onPane id fun v => Canvas.stops_moveToPadded v p)
  | moveToStart inset =>
    exact stops_silent (stops_onPane id fun v => Canvas.stops_moveToStart v inset)
  | moveToEnd inset => exact stops_silent (stops_onPane id fun _ => Canvas.stops_moveToPlace _ _)
  | moveToBottomLeft inset =>
    exact stops_silent (stops_onPane id fun _ => Canvas.stops_moveToPlace _ _)
  | moveToTopRight inset =>
    exact stops_silent (stops_onPane id fun _ => Canvas.stops_moveToPlace _ _)
  | write markup => exact stops_silent (stops_onPane id fun _ => Canvas.stops_write markup)
  | writeRaw t => exact stops_silent (stops_onPane id fun _ => Canvas.stops_writeRaw t)
  | writeOnNewline markup =>
    exact stops_silent (stops_onPane id fun v => Canvas.stops_writeOnNewline v markup)
  | writeLines lines =>
    exact stops_silent (stops_onPane id fun v => Canvas.stops_writeLines v lines)
  | focus => exact stops_silent (stops_onPane id fun _ => Canvas.stops_focus)
  | clear => exact stops_silent (stops_onPane id Canvas.stops_clear)
  | clearLine => exact stops_silent (stops_onPane id Canvas.stops_clearLine)
  | newline => exact stops_silent (stops_onPane id Canvas.stops_newline)
  | drawBorder => exact stops_silent (stops_onPane id Canvas.stops_drawBorder)
  | confirm message => exact .bind (stops_confirm id message) fun _ => .pure _
  | pause message => exact stops_silent (stops_pause id message)

/-- Every operation stops where the sink does. -/
theorem Operation.stops_run [Text.Measure] (op : Operation) : Stops op.run := by
  cases op with
  | terminal op => exact .bind (stops_onTerminal (Terminal.stops_run op)) fun _ => .pure _
  | newPane placement => exact .bind (stops_onPanes _) fun _ => .pure _
  | onPane id op => exact op.stops_run id
  | feed chunks => exact stops_silent (.modify (fun _ => rfl) fun _ _ => rfl)
  | readKey => exact .bind stops_readKey fun _ => .pure _

/-! ## Runs -/

theorem workspace_outcomeOf (r : EStateM.Result PaneError Workspace Answer) :
    (outcomeOf r).workspace = HasSink.left r := by
  cases r <;> rfl

namespace Outcome

/-- The bytes that the sink had taken then. -/
def bytes (o : Outcome) : List UInt8 := o.workspace.terminal.sink.bytes

/-- The same outcome over a sink that takes so many bytes in all. -/
def limited (n : Nat) (o : Outcome) : Outcome := ⟨o.result, HasSink.limited n o.workspace⟩

/-- Whether it is for want of room that the operation failed. -/
def WasFull (o : Outcome) : Prop := o.result = .error (.terminal (.fault .sinkFull))

/-- Outcomes that are alike in everything but the room that is left in the sink. -/
structure Alike (o p : Outcome) : Prop where
  result : p.result = o.result
  bytes : p.bytes = o.bytes
  flushes : p.workspace.terminal.sink.flushes = o.workspace.terminal.sink.flushes
  style : p.workspace.terminal.style = o.workspace.terminal.style
  history : p.workspace.terminal.history = o.workspace.terminal.history
  /-- The panes, and where each of them last left the cursor. -/
  panes : p.workspace.panes = o.workspace.panes
  keys : p.workspace.keys = o.workspace.keys

theorem alike_limited (n : Nat) (o : Outcome) : Alike o (o.limited n) :=
  ⟨rfl, rfl, rfl, rfl, rfl, rfl, rfl⟩

end Outcome

/-! ## Runs without a limit -/

/-- What an operation leaves behind over a sink that takes everything. -/
structure Grew (w : Workspace) (o : Outcome) : Prop where
  unlimited : o.workspace.terminal.sink.Unlimited
  grows : w.terminal.sink.bytes <+: o.bytes
  not_full : ¬ o.WasFull

variable {w : Workspace} {n : Nat}

theorem grew_of_stops {m : Action Answer} (hm : Stops m) (hw : w.terminal.sink.Unlimited) :
    Grew w (outcomeOf (m w)) := by
  have hstops := hm w hw
  refine ⟨?_, ?_, ?_⟩
  · rw [workspace_outcomeOf]
    exact hstops.unlimited
  · rw [Outcome.bytes, workspace_outcomeOf]
    exact hstops.grows
  · intro hfull
    cases h : m w with
    | ok answer u =>
      rw [h] at hfull
      cases hfull
    | error e u =>
      rw [h] at hfull
      obtain rfl : e = .terminal (.fault .sinkFull) := Except.error.inj hfull
      exact hstops.not_full h

/-- Every step of a run grows what the steps before it have sent. -/
theorem grew_play [Text.Measure] (hw : w.terminal.sink.Unlimited) (ops : List Operation) :
    ∀ o ∈ w.play ops, Grew w o := by
  induction ops generalizing w with
  | nil => exact fun _ h => nomatch h
  | cons op rest ih =>
    have hfirst := grew_of_stops op.stops_run hw
    rw [← step_eq] at hfirst
    intro o ho
    rcases List.mem_cons.1 ho with rfl | ho
    · exact hfirst
    · obtain ⟨hunlimited, hgrows, hfull⟩ := ih hfirst.unlimited o ho
      exact ⟨hunlimited, hfirst.grows.trans hgrows, hfull⟩

theorem pairwise_play [Text.Measure] (hw : w.terminal.sink.Unlimited) (ops : List Operation) :
    (w.play ops).Pairwise fun o p => o.bytes <+: p.bytes := by
  induction ops generalizing w with
  | nil => exact .nil
  | cons op rest ih =>
    have hfirst := (grew_of_stops op.stops_run hw).unlimited
    rw [← step_eq] at hfirst
    exact .cons (fun p hp => (grew_play hfirst rest p hp).grows) (ih hfirst)

/-! ## Runs over a limit -/

/-- The outcomes of a run, and those of the same run over a limit: alike while they are
within, until one goes beyond. -/
inductive AlikeUntil (n : Nat) : List Outcome → List Outcome → Prop where
  | done : AlikeUntil n [] []
  | within {o : Outcome} {whole cut : List Outcome} (hle : o.bytes.length ≤ n)
    (hrest : AlikeUntil n whole cut) : AlikeUntil n (o :: whole) (o.limited n :: cut)
  | beyond {o p : Outcome} {whole cut : List Outcome} (hlt : n < o.bytes.length)
    (hfull : p.WasFull) (hbytes : p.bytes = o.bytes.take n) :
    AlikeUntil n (o :: whole) (p :: cut)

theorem alikeUntil_cons {m : Action Answer} (hm : Stops m) (hw : w.terminal.sink.Unlimited)
    (hle : w.terminal.sink.bytes.length ≤ n) {whole cut : List Outcome}
    (hrest : (outcomeOf (m w)).bytes.length ≤ n →
      outcomeOf (m (limited n w)) = (outcomeOf (m w)).limited n → AlikeUntil n whole cut) :
    AlikeUntil n (outcomeOf (m w) :: whole) (outcomeOf (m (limited n w)) :: cut) := by
  have hstops := hm w hw
  have hbytes : (outcomeOf (m w)).bytes = HasSink.bytes (HasSink.left (m w)) :=
    congrArg HasSink.bytes (workspace_outcomeOf (m w))
  by_cases hwithin : (outcomeOf (m w)).bytes.length ≤ n
  · have hsame : outcomeOf (m (limited n w)) = (outcomeOf (m w)).limited n := by
      rw [hstops.within (hbytes ▸ hwithin)]
      cases m w <;> rfl
    rw [hsame]
    exact .within hwithin (hrest hwithin hsame)
  · have hlt := Nat.lt_of_not_le hwithin
    obtain ⟨u, herror, hu⟩ := hstops.beyond hle (hbytes ▸ hlt)
    rw [herror]
    refine .beyond hlt rfl ?_
    rw [hbytes]
    exact hu

theorem alikeUntil_play [Text.Measure] (hw : w.terminal.sink.Unlimited)
    (hle : w.terminal.sink.bytes.length ≤ n)
    (ops : List Operation) : AlikeUntil n (w.play ops) ((limited n w).play ops) := by
  induction ops generalizing w with
  | nil => exact .done
  | cons op rest ih =>
    rw [play, play, step_eq, step_eq]
    refine alikeUntil_cons op.stops_run hw hle fun hwithin hsame => ?_
    rw [hsame]
    exact ih (grew_of_stops op.stops_run hw).unlimited hwithin

namespace AlikeUntil

variable {whole cut : List Outcome}

/-- Outcomes that are within are alike. -/
theorem alike (h : AlikeUntil n whole cut)
    (hgrows : whole.Pairwise fun o p => o.bytes <+: p.bytes) {k : Nat} {o : Outcome}
    (ho : whole[k]? = some o) (hle : o.bytes.length ≤ n) :
    ∃ p, cut[k]? = some p ∧ o.Alike p := by
  induction h generalizing k with
  | done => contradiction
  | @within first whole cut hfirst _ ih =>
    cases k with
    | zero =>
      cases ho
      exact ⟨o.limited n, rfl, o.alike_limited n⟩
    | succ k => exact ih (List.pairwise_cons.1 hgrows).2 ho
  | @beyond first p whole cut hlt hfull hbytes =>
    exfalso
    cases k with
    | zero =>
      cases ho
      omega
    | succ k =>
      -- a later outcome has all the bytes of the one that is beyond
      have hlonger := ((List.pairwise_cons.1 hgrows).1 o (List.mem_of_getElem? ho)).length_le
      omega

/-- The first outcome that goes beyond fails for want of room, and the bytes taken then
are the first of all that are sent. -/
theorem first_beyond (h : AlikeUntil n whole cut)
    (hgrows : whole.Pairwise fun o p => o.bytes <+: p.bytes) {k : Nat} {o : Outcome}
    (ho : whole[k]? = some o) (hlt : n < o.bytes.length)
    (hbefore : ∀ j < k, ∀ p, whole[j]? = some p → p.bytes.length ≤ n) :
    ∃ p, cut[k]? = some p ∧ p.WasFull ∧
      ∀ j, k ≤ j → ∀ q, whole[j]? = some q → p.bytes = q.bytes.take n := by
  induction h generalizing k with
  | done => contradiction
  | @within first whole cut hfirst _ ih =>
    cases k with
    | zero =>
      cases ho
      omega
    | succ k =>
      have hearlier : ∀ j < k, ∀ p, whole[j]? = some p → p.bytes.length ≤ n :=
        fun j hj => hbefore (j + 1) (Nat.succ_lt_succ hj)
      obtain ⟨p, hp, hfull, hall⟩ := ih (List.pairwise_cons.1 hgrows).2 ho hearlier
      refine ⟨p, hp, hfull, fun j hj q hq => ?_⟩
      obtain ⟨i, rfl⟩ : ∃ i, j = i + 1 := ⟨j - 1, by omega⟩
      exact hall i (Nat.le_of_succ_le_succ hj) q hq
  | @beyond first p whole cut hbeyond hfull hbytes =>
    cases k with
    | succ k =>
      have := hbefore 0 (Nat.succ_pos k) first rfl
      omega
    | zero =>
      refine ⟨p, rfl, hfull, fun j _ q hq => ?_⟩
      cases j with
      | zero =>
        cases hq
        exact hbytes
      | succ j =>
        obtain ⟨later, hlater⟩ := (List.pairwise_cons.1 hgrows).1 q (List.mem_of_getElem? hq)
        rw [hbytes, ← hlater, List.take_append_of_le_length (Nat.le_of_lt hbeyond)]

/-- If all is within, so is all of the run over the limit. -/
theorem all_within (h : AlikeUntil n whole cut) (hwithin : ∀ o ∈ whole, o.bytes.length ≤ n) :
    cut = whole.map (Outcome.limited n) := by
  induction h with
  | done => rfl
  | @within first whole cut _ _ ih =>
    rw [ih (List.forall_mem_cons.1 hwithin).2]
    rfl
  | @beyond first p whole cut hlt _ _ =>
    have := (List.forall_mem_cons.1 hwithin).1
    omega

end AlikeUntil

/-! ## Sessions -/

/-- How opening a terminal and then, if that went well, each of some operations ended. -/
def session [Text.Measure] (limit : Option Nat) (size : Size) (config : Config) (script : Script)
    (ops : List Operation) : List Outcome :=
  let opened := outcomeOf (silent opening (blank (Sink.ofLimit limit) size config script))
  opened :: match opened.result with
    | .ok _ => opened.workspace.play ops
    | .error _ => []

theorem stops_opening : Stops opening := stops_onTerminal Terminal.ofParts_stops.opening

section

variable (size : Size) (config : Config) (script : Script) (ops : List Operation)

theorem alikeUntil_session [Text.Measure] (n : Nat) :
    AlikeUntil n (session none size config script ops)
      (session (some n) size config script ops) := by
  have hstart : blank (Sink.ofLimit (some n)) size config script =
      limited n (blank (Sink.ofLimit none) size config script) := rfl
  rw [session, session, hstart]
  refine alikeUntil_cons (stops_silent stops_opening) ⟨rfl, rfl⟩ (Nat.zero_le n) ?_
  intro hwithin hsame
  rw [hsame]
  have hunlimited := (grew_of_stops (w := blank (Sink.ofLimit none) size config script)
    (stops_silent stops_opening) ⟨rfl, rfl⟩).unlimited
  generalize outcomeOf (silent opening (blank (Sink.ofLimit none) size config script)) = opened
    at hwithin hunlimited
  obtain ⟨_ | answer, w⟩ := opened
  · exact .done
  · exact alikeUntil_play hunlimited hwithin ops

/-- Every step of a session without a limit grows what the steps before it have sent,
and none fails for want of room. -/
theorem grown_session [Text.Measure] :
    (session none size config script ops).Pairwise (fun o p => o.bytes <+: p.bytes) ∧
      ∀ o ∈ session none size config script ops, ¬ o.WasFull := by
  have hopened := grew_of_stops (w := blank (Sink.ofLimit none) size config script)
    (stops_silent stops_opening) ⟨rfl, rfl⟩
  rw [session]
  generalize outcomeOf (silent opening (blank (Sink.ofLimit none) size config script)) = opened
    at hopened
  obtain ⟨_ | answer, w⟩ := opened
  · exact ⟨List.pairwise_singleton _ _, List.forall_mem_singleton.2 hopened.not_full⟩
  · have hplay := grew_play hopened.unlimited ops
    refine ⟨.cons (fun p hp => (hplay p hp).grows) (pairwise_play hopened.unlimited ops), ?_⟩
    exact List.forall_mem_cons.2 ⟨hopened.not_full, fun o ho => (hplay o ho).not_full⟩

/-- A session over a sink that takes so many bytes in all, beside the same session over
a sink that takes everything. No step of the latter fails for want of room. Every
step before its bytes go beyond the limit is alike in both. The first that goes beyond
fails for want of room, and the sink has then taken the first bytes of what is
sent, by then and later. If none goes beyond, the sessions are alike throughout
and no step fails for want of room. -/
theorem a_limited_sink_takes_the_beginning [Text.Measure] (n : Nat) :
    let whole := session none size config script ops
    let cut := session (some n) size config script ops
    (∀ o ∈ whole, ¬ o.WasFull) ∧
    (∀ (k : Nat) (o : Outcome), whole[k]? = some o → o.bytes.length ≤ n →
      ∃ p, cut[k]? = some p ∧ o.Alike p) ∧
    (∀ (k : Nat) (o : Outcome), whole[k]? = some o → n < o.bytes.length →
      (∀ j < k, ∀ p : Outcome, whole[j]? = some p → p.bytes.length ≤ n) →
      ∃ p, cut[k]? = some p ∧ p.WasFull ∧
        ∀ j, k ≤ j → ∀ q : Outcome, whole[j]? = some q → p.bytes = q.bytes.take n) ∧
    ((∀ o ∈ whole, o.bytes.length ≤ n) →
      List.Forall₂ Outcome.Alike whole cut ∧ ∀ p ∈ cut, ¬ p.WasFull) := by
  intro whole cut
  obtain ⟨hgrows, hfull⟩ := grown_session size config script ops
  have halike := alikeUntil_session size config script ops n
  refine ⟨hfull, fun k o ho hle => halike.alike hgrows ho hle,
    fun k o ho hlt hbefore => halike.first_beyond hgrows ho hlt hbefore, fun hwithin => ?_⟩
  have hcut : cut = whole.map (Outcome.limited n) := halike.all_within hwithin
  rw [hcut]
  refine ⟨?_, ?_⟩
  · rw [List.forall₂_map_right_iff]
    exact List.forall₂_same.2 fun o _ => o.alike_limited n
  · intro p hp
    obtain ⟨o, ho, rfl⟩ := List.mem_map.1 hp
    exact hfull o ho

end

open scoped Text.Tables in
/-- Two lines in a pane over a sink that is full within the move to the second line. -/
theorem lines_end_within_a_move :
    ∃ p, (session (some 83) ⟨4, 2⟩ Config.default []
        [.newPane .fullScreen, .onPane 0 (.writeLines [['a', 'b'], ['c']])])[2]? = some p ∧
      p.WasFull ∧ p.bytes.drop 80 = [0x1B, 0x5B, 0x32] := by
  obtain ⟨-, -, hbeyond, -⟩ := a_limited_sink_takes_the_beginning ⟨4, 2⟩ Config.default []
    [.newPane .fullScreen, .onPane 0 (.writeLines [['a', 'b'], ['c']])] 83
  have htest : (session none ⟨4, 2⟩ Config.default []
      [.newPane .fullScreen, .onPane 0 (.writeLines [['a', 'b'], ['c']])])[2]?.any (fun o =>
        83 < o.bytes.length ∧ (o.bytes.take 83).drop 80 = [0x1B, 0x5B, 0x32]) = true := by
    decide +kernel
  have hfirst : ∀ o ∈ (session none ⟨4, 2⟩ Config.default []
      [.newPane .fullScreen, .onPane 0 (.writeLines [['a', 'b'], ['c']])]).take 2,
      o.bytes.length ≤ 83 := by
    decide +kernel
  obtain ⟨o, ho, htest⟩ := (Option.any_eq_true _ _).1 htest
  obtain ⟨hlt, hmove⟩ := of_decide_eq_true htest
  obtain ⟨p, hp, hfull, hbytes⟩ := hbeyond 2 o ho hlt fun j hj q hq =>
    hfirst q (List.mem_of_getElem? (by rw [List.getElem?_take_of_lt hj, hq]))
  refine ⟨p, hp, hfull, ?_⟩
  rw [hbytes 2 (Nat.le_refl 2) o ho]
  exact hmove

end Workspace

end TerminalPanes
