-- The recorded cursor follows the stream. A screen without a right edge that
-- starts at the top left and moves its cursor as the stream says has it, after
-- every operation, in the cell that is on record.
import TerminalPanes.Proofs.StyleRecord
import TerminalPanes.Text.Tables

namespace TerminalPanes

/-! ## Moves -/

/-- Where a sequence puts the cursor. It stays, unless the sequence names a row
and a column. -/
def Event.jump (p : Point) (parameters : Text) (final : Char) : Point :=
  match final, Style.numbers? parameters with
  | 'H', some [row, column] => ⟨column, row⟩
  | _, _ => p

namespace Event

theorem jump_of_ne {final : Char} (h : final ≠ 'H') (p : Point) (parameters : Text) :
    jump p parameters final = p := by
  unfold jump
  split
  · contradiction
  · rfl

theorem jump_cursorTo (p cell : Point) :
    jump p (Sequence.cursorTo cell).parameters 'H' = cell := by
  have h : Style.numbers? (Sequence.cursorTo cell).parameters = some [cell.y, cell.x] :=
    Style.numbers?_append (Style.numbers?_write cell.x)
  unfold jump
  rw [h]
  rfl

end Event

namespace History

theorem current?_push {h : History} (hv : h.Valid) (p : Point) : (h.push p).current? = some p := by
  have hl := hv.limit_pos
  unfold push current?
  rw [List.getElem?_take_of_lt (by exact hl)]
  rfl

end History

section

variable [Text.Measure]

/-! ## The cursor of the screen -/

/-- Moves the cursor through what is taken from the stream. What was shown since
the last sequence counts as one text and moves the cursor by its width. -/
def Event.follow (p : Point) (shown : Text) : List Event → Point
  | [] => p + ⟨Text.width shown, 0⟩
  | .shown c :: rest => follow p (shown ++ [c]) rest
  | .command parameters final :: rest =>
    follow (jump (p + ⟨Text.width shown, 0⟩) parameters final) [] rest

namespace Emission

/-- Where an emission moves the cursor. Each is read by itself: the widths of two
texts do not always add up to that of both. -/
def moves (p : Point) (e : Emission) : Point := Event.follow p [] (Event.read e.chars)

def movesAll (p : Point) (es : List Emission) : Point := es.foldl moves p

theorem movesAll_append (p : Point) (before after : List Emission) :
    movesAll p (before ++ after) = movesAll (movesAll p before) after := List.foldl_append

/-- The columns that a text takes. -/
def columns : Emission → Nat
  | .text t => Text.width t
  | _ => 0

/-- No text is wider than a position can be. Columns beyond that overflow. -/
def Narrow (es : List Emission) : Prop := ∀ e ∈ es, (e.columns : Int) ≤ Decimal.wordMax

instance (es : List Emission) : Decidable (Narrow es) := inferInstanceAs (Decidable (∀ e ∈ es, _))

end Emission

namespace Event

theorem follow_shown (p : Point) (before t : Text) :
    follow p before (t.map shown) = p + ⟨Text.width (before ++ t), 0⟩ := by
  induction t generalizing before with
  | nil => rw [List.append_nil]; rfl
  | cons c rest ih =>
    have h := ih (before ++ [c])
    rw [List.append_assoc] at h
    exact h

end Event

namespace Emission

theorem add_width_nil (p : Point) : p + ⟨Text.width [], 0⟩ = p := by
  rw [Text.width_nil]
  change Point.mk (p.x + 0) (p.y + 0) = p
  rw [Int.add_zero, Int.add_zero]

/-- A text without sequences moves the cursor by its width. -/
theorem moves_text {t : Text} (h : Event.escape ∉ t) (p : Point) :
    moves p (.text t) = p + ⟨Text.width t, 0⟩ := by
  have hread := Event.read_append_of_not_mem h []
  rw [List.append_nil, Event.read_nil, List.append_nil] at hread
  change Event.follow p [] (Event.read t) = _
  rw [hread, Event.follow_shown]
  rfl

theorem moves_control (p : Point) (q : Sequence) :
    moves p (.control q) = Event.jump p q.parameters q.final := by
  have hread := Event.read_write_append q []
  rw [List.append_nil] at hread
  change Event.follow p [] (Event.read q.write) = _
  rw [hread]
  change Event.jump (p + ⟨Text.width [], 0⟩) q.parameters q.final + ⟨Text.width [], 0⟩ = _
  rw [add_width_nil, add_width_nil]

theorem moves_cursorTo (p cell : Point) : moves p (.control (.cursorTo cell)) = cell :=
  (moves_control p _).trans (Event.jump_cursorTo p cell)

theorem movesAll_controls (p : Point) {qs : List Sequence} (h : ∀ q ∈ qs, q.final ≠ 'H') :
    movesAll p (qs.map .control) = p := by
  induction qs with
  | nil => rfl
  | cons q rest ih =>
    obtain ⟨hq, hrest⟩ := List.forall_mem_cons.1 h
    change movesAll (moves p (.control q)) (rest.map .control) = p
    rw [moves_control, Event.jump_of_ne hq]
    exact ih hrest

end Emission

namespace Terminal

/-! ## Actions that keep up with the screen -/

variable {α β : Type}

/-- The action sends something and leaves on record the cell that this moves
the screen's cursor to. -/
structure Moved (t u : Terminal) (es : List Emission) : Prop where
  sink : u.sink = t.sink.takeAll es
  valid : u.history.Valid
  current : ∀ {p : Point}, t.history.current? = some p → Emission.Narrow es →
    u.history.current? = some (Emission.movesAll p es)

theorem Moved.append {t u v : Terminal} {es es' : List Emission} (h : Moved t u es)
    (h' : Moved u v es') : Moved t v (es ++ es') where
  sink := by rw [h'.sink, h.sink, Sink.takeAll_append]
  valid := h'.valid
  current := by
    intro p hp hnarrow
    have hu := h.current hp fun e he => hnarrow e (List.mem_append_left _ he)
    rw [Emission.movesAll_append]
    exact h'.current hu fun e he => hnarrow e (List.mem_append_right _ he)

/-- However the action ends well, the record has kept up with the screen. -/
def KeepsUp (m : Action α) : Prop :=
  ∀ {t : Terminal} {a : α} {u : Terminal}, t.history.Valid → m t = .ok a u → ∃ es, Moved t u es

namespace KeepsUp

theorem pure (a : α) : KeepsUp (Pure.pure a : Action α) := by
  intro t b u hv h
  cases h
  exact ⟨[], rfl, hv, fun hp _ => hp⟩

theorem bind {m : Action α} {f : α → Action β} (hm : KeepsUp m) (hf : ∀ a, KeepsUp (f a)) :
    KeepsUp (m >>= f) := by
  intro t b v hv h
  obtain ⟨a, u, hok, h⟩ := of_bind_ok h
  obtain ⟨es, hfirst⟩ := hm hv hok
  obtain ⟨es', hthen⟩ := hf a hfirst.valid h
  exact ⟨es ++ es', hfirst.append hthen⟩

theorem get_bind {f : Terminal → Action β} (hf : ∀ s, KeepsUp (f s)) : KeepsUp (get >>= f) := by
  intro t b u hv h
  obtain ⟨s, v, hget, h⟩ := of_bind_ok h
  cases hget
  exact hf t hv h

/-- Sequences that name no cell leave the record as it is. -/
theorem of_still {m : Action α}
    (h : ∀ t, ∃ (a : α) (style : Style) (qs : List Sequence),
      Ends m t a (t.became (qs.map .control) style t.history) ∧ ∀ q ∈ qs, q.final ≠ 'H') :
    KeepsUp m := by
  intro t b u hv hok
  obtain ⟨a, style, qs, hends, hstill⟩ := h t
  obtain ⟨-, rfl⟩ := hends.only hok
  refine ⟨qs.map .control, rfl, hv, fun {p} hp _ => ?_⟩
  rw [Emission.movesAll_controls p hstill]
  exact hp

theorem send {q : Sequence} (h : q.final ≠ 'H') : KeepsUp (send q) :=
  of_still fun t => ⟨(), t.style, [q], Ends.send q t, List.forall_mem_singleton.2 h⟩

theorem perform (x : StyleAct) : KeepsUp (perform x) :=
  of_still fun t => ⟨(), _, _, Ends.perform x t, fun q hq => by
    rw [Style.final_of_mem_tells hq]
    decide⟩

theorem resetColors : KeepsUp resetColors :=
  of_still fun t => ⟨(), _, _, Ends.resetColors t, fun q hq => by
    rw [Style.final_of_mem_tellsAll hq]
    decide⟩

theorem erase (what : Erase) : KeepsUp (erase what) := by
  refine send ?_
  cases what <;> decide

theorem forM {ι : Type} {f : ι → Action Unit} {is : List ι} (hf : ∀ i ∈ is, KeepsUp (f i)) :
    KeepsUp (is.forM f) := by
  induction is with
  | nil => exact pure ()
  | cons i rest ih =>
    obtain ⟨hi, hrest⟩ := List.forall_mem_cons.1 hf
    exact bind hi fun _ => ih hrest

/-! ## Moving -/

theorem moveTo (p : Point) : KeepsUp (moveTo p) := by
  intro t a u hv h
  obtain ⟨-, rfl⟩ := (Ends.moveTo p t).only h
  have hpush : (t.history.push ⟨cellOf p.x, cellOf p.y⟩).Valid :=
    History.stable_valid.push hv (isCell_cellOf p)
  refine ⟨_, rfl, hpush, fun {q} _ _ => ?_⟩
  refine (History.current?_push hv _).trans ?_
  exact congrArg some (Emission.moves_cursorTo q _).symm

/-- The cell that is stepped to is sent again. -/
theorem stepTo {step : History → Option History}
    (hstep : ∀ {h h' : History}, h.Valid → step h = some h' → h'.Valid) :
    KeepsUp (stepTo step) := by
  intro t a u hv h
  cases hto : step t.history with
  | none =>
    obtain ⟨-, rfl⟩ := (Ends.stepTo_none hto).only h
    exact ⟨[], rfl, hv, fun hp _ => hp⟩
  | some history =>
    obtain ⟨cell, hc⟩ := History.current?_of_lt (hstep hv hto).index_lt
    obtain ⟨-, rfl⟩ := (Ends.stepTo_some hto hc).only h
    refine ⟨_, rfl, hstep hv hto, fun {q} _ _ => ?_⟩
    exact hc.trans (congrArg some (Emission.moves_cursorTo q cell).symm)

theorem position : KeepsUp position := by
  intro t a u hv h
  obtain ⟨cell, hc⟩ := History.current?_of_lt hv.index_lt
  obtain ⟨-, rfl⟩ := (Ends.bind (Ends.currentCell hc) (Ends.pure (cell - ⟨1, 1⟩) t)).only h
  exact ⟨[], rfl, hv, fun hp _ => hp⟩

theorem moveBy (delta : Point) : KeepsUp (moveBy delta) := bind position fun _ => moveTo _

theorem clearScreen : KeepsUp clearScreen := bind (erase .screen) fun _ => moveTo _

/-! ## Writing -/

/-- What is written moves both cursors by the width of what was left of it. -/
theorem write {text : Text} (hplain : Event.escape ∉ text) (wrap : Wrap) :
    KeepsUp (write text wrap) := by
  intro t a u hv h
  obtain ⟨cell, hc⟩ := History.current?_of_lt hv.index_lt
  obtain ⟨-, rfl⟩ := (Ends.write hc text wrap).only h
  refine ⟨_, rfl, valid_advanced hv hc _, fun {p} hp hnarrow => ?_⟩
  have hvisible : Event.escape ∉ t.visibleAt cell text wrap :=
    fun hmem => hplain ((visibleAt_isPrefix t cell text wrap).subset hmem)
  have hwidth : min (((t.visibleAt cell text wrap).width : Nat) : Int) Decimal.wordMax =
      (t.visibleAt cell text wrap).width := Int.min_eq_left (hnarrow _ List.mem_cons_self)
  rw [became_history, current?_advanced hp, hwidth]
  exact congrArg some (Emission.moves_text hvisible p).symm

theorem writeSection {s : Section} (hplain : Event.escape ∉ s.content) (wrap : Wrap) :
    KeepsUp (writeSection s wrap) := by
  refine bind (forM fun i _ => ?_) fun _ => ?_
  · rw [apply_eq_perform]
    exact perform _
  · exact bind (write hplain wrap) fun _ => bind (perform .reset) fun _ => resetColors

theorem writeSections {sections : List Section} (hplain : Event.escape ∉ Section.contents sections)
    (wrap : Wrap) : KeepsUp (writeSections sections wrap) := by
  refine forM fun s hs => writeSection (fun hmem => hplain ?_) wrap
  exact List.mem_flatten.2 ⟨s.content, List.mem_map_of_mem hs, hmem⟩

theorem writeMarkup {text : Text} (hplain : (Operation.writeMarkup text).Plain) :
    KeepsUp (writeMarkup text) := by
  intro t a u hv h
  obtain ⟨sections, v, hread, hwrite⟩ := of_bind_ok h
  cases hfound : Markup.read text with
  | ok found =>
    rw [readMarkup, hfound] at hread
    cases hread
    simp only [Operation.Plain, Operation.given, hfound] at hplain
    exact get_bind (fun _ => writeSections hplain _) hv hwrite
  | error e =>
    rw [readMarkup, hfound] at hread
    cases hread

/-! ## Operations and runs -/

theorem silent {action : Action Unit} (h : KeepsUp action) : KeepsUp (Operation.silent action) :=
  bind h fun _ => pure none

theorem telling {action : Action Bool} (h : KeepsUp action) : KeepsUp (Operation.telling action) :=
  bind h fun _ => pure _

theorem restore : KeepsUp restore := bind (perform .reset) fun _ => send (by decide)

theorem resize (size : Size) : KeepsUp (resize size) := by
  intro t a u hv h
  cases h
  exact ⟨[], rfl, hv, fun hp _ => hp⟩

/-- Every operation does so that sends no characters for the terminal alone. -/
theorem run {op : Operation} (hplain : op.Plain) (hraw : ∀ t, op ≠ .writeRaw t) :
    KeepsUp op.run := by
  cases op with
  | write t wrap => exact silent (write hplain wrap)
  | writeRaw t => exact absurd rfl (hraw t)
  | writeMarkup t => exact silent (writeMarkup hplain)
  | writeSections sections wrap => exact silent (get_bind fun _ => writeSections hplain _)
  | apply i =>
    refine silent ?_
    rw [apply_eq_perform]
    exact perform _
  | turnOn set => exact silent (perform (.turnOn set))
  | turnOff set => exact silent (perform (.turnOff set))
  | resetStyle => exact silent (perform .reset)
  | resetColors => exact silent resetColors
  | setForeground c => exact silent (perform (.foreground c))
  | setBackground c => exact silent (perform (.background c))
  | moveTo p => exact silent (moveTo p)
  | stepBack => exact telling (stepTo History.stable_valid.back)
  | stepForward => exact telling (stepTo History.stable_valid.forward)
  | moveBy delta => exact silent (moveBy delta)
  | moveToward d count => exact silent (moveBy _)
  | hideCursor => exact silent (send (by decide))
  | showCursor => exact silent (send (by decide))
  | clearScreen => exact silent clearScreen
  | erase what => exact silent (erase what)
  | restore => exact silent restore
  | resize size => exact silent (resize size)

theorem runAll {ops : List Operation} (hplain : ∀ op ∈ ops, op.Plain)
    (hraw : ∀ op ∈ ops, ∀ t, op ≠ .writeRaw t) : KeepsUp (Operation.runAll ops) := by
  induction ops with
  | nil => exact pure ()
  | cons op rest ih =>
    obtain ⟨hop, hrest⟩ := List.forall_mem_cons.1 hplain
    obtain ⟨hnot, hnots⟩ := List.forall_mem_cons.1 hraw
    exact bind (run hop hnot) fun _ => ih hrest hnots

theorem openAndRun {ops : List Operation} (hplain : ∀ op ∈ ops, op.Plain)
    (hraw : ∀ op ∈ ops, ∀ t, op ≠ .writeRaw t) : KeepsUp (openAndRun ops) :=
  bind (bind (perform .reset) fun _ => resetColors) fun _ => runAll hplain hraw

end KeepsUp

/-- After the opening and any operations that ended well, but for characters
sent for the terminal alone, the cell on record is the one that the stream has
moved the screen's cursor to. The position is counted from zero. That no text is
wider than a word follows where the recorded columns do not overflow. -/
theorem the_recorded_cursor_follows_the_stream {limit : Option Nat} {size : Size}
    {config : Config} {ops : List Operation} {t : Terminal} (hplain : ∀ op ∈ ops, op.Plain)
    (hraw : ∀ op ∈ ops, ∀ text, op ≠ .writeRaw text)
    (hrun : openAndRun ops (blank (Sink.ofLimit limit) size config) = .ok () t)
    (hnarrow : Emission.Narrow t.sink.emissions) :
    t.history.current? = some (Emission.movesAll ⟨1, 1⟩ t.sink.emissions) ∧
      t.position? = some (Emission.movesAll ⟨1, 1⟩ t.sink.emissions - ⟨1, 1⟩) := by
  obtain ⟨es, hmoved⟩ :=
    KeepsUp.openAndRun hplain hraw (History.valid_ofLimit config.historyLimit) hrun
  have hsent : t.sink.emissions = es := by
    rw [hmoved.sink, Sink.emissions_takeAll]
    rfl
  rw [hsent] at hnarrow ⊢
  have hcurrent := @Moved.current _ _ _ _ hmoved ⟨1, 1⟩ rfl hnarrow
  refine ⟨hcurrent, ?_⟩
  unfold position?
  rw [hcurrent]
  rfl

end Terminal

end

namespace Terminal

open scoped Text.Tables in
/-- Text written after a step back extends the older position, which is there
again when one returns to it from the newer one. -/
theorem a_step_back_and_text_and_a_step_on :
    ∃ t, openAndRun [.moveTo ⟨4, 2⟩, .moveTo ⟨9, 9⟩, .stepBack, .write ['a', '中'] .allow,
        .stepForward, .stepBack] (blank Sink.unlimited ⟨80, 24⟩ Config.default) = .ok () t ∧
      t.position? = some (Emission.movesAll ⟨1, 1⟩ t.sink.emissions - ⟨1, 1⟩) ∧
      t.position? = some ⟨7, 2⟩ := by
  obtain ⟨_, t, hrun, htest⟩ := @exists_of_endsIn _
    (openAndRun [.moveTo ⟨4, 2⟩, .moveTo ⟨9, 9⟩, .stepBack, .write ['a', '中'] .allow,
      .stepForward, .stepBack])
    (blank Sink.unlimited ⟨80, 24⟩ Config.default)
    (fun t => decide (Emission.Narrow t.sink.emissions) && t.position? == some ⟨7, 2⟩)
    (by decide +kernel)
  rw [Bool.and_eq_true, decide_eq_true_eq, beq_iff_eq] at htest
  exact ⟨t, hrun, (the_recorded_cursor_follows_the_stream (by decide) (by simp) hrun htest.1).2,
    htest.2⟩

end Terminal

end TerminalPanes
