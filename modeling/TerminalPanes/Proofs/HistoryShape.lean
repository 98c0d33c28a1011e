-- The shape of the history of cursor positions. Whatever is done to a history,
-- the current position is among those held unless none is held. Steps back are
-- undone by as many steps forward, an advance changes one column, and a new
-- position comes in front. A terminal never forgets its positions, so nothing
-- that is done on it lacks one.
import TerminalPanes.Proofs.WorkspaceReach
import TerminalPanes.Text.Tables

namespace TerminalPanes

namespace History

/-! ## What is done to a history -/

/-- What can be done to a history. -/
inductive Operation where
  | push (p : Point)
  | back
  | forward
  | advance (columns : Int)
  | current
  | clear
  deriving DecidableEq, Repr

/-- What an operation leaves behind. A step that leads nowhere leaves the history as it is,
and so does an advance of nothing. -/
def after (h : History) : Operation → History
  | .push p => h.push p
  | .back => h.back?.getD h
  | .forward => h.forward?.getD h
  | .advance columns => (h.advance? columns).getD h
  | .current => h
  | .clear => h.clear

/-- What operations leave behind, one after another. -/
def afterAll (h : History) (ops : List Operation) : History := ops.foldl after h

variable {h h' : History}

/-! ## What every history keeps -/

/-- There is room for one position at least and for all that are held. One of these is
current, unless none is held. -/
structure WellFormed (h : History) : Prop where
  limit_pos : 1 ≤ h.limit
  length_le : h.entries.length ≤ h.limit
  index : h.index < h.entries.length ∨ h.entries = [] ∧ h.index = 0

theorem Valid.wellFormed (hv : h.Valid) : h.WellFormed :=
  ⟨hv.limit_pos, hv.length_le, Or.inl hv.index_lt⟩

theorem WellFormed.back (hw : h.WellFormed) (hb : h.back? = some h') : h'.WellFormed := by
  obtain ⟨hlt, rfl⟩ := back?_eq_some_iff.1 hb
  exact ⟨hw.limit_pos, hw.length_le, Or.inl hlt⟩

theorem WellFormed.forward (hw : h.WellFormed) (hf : h.forward? = some h') : h'.WellFormed := by
  obtain ⟨hne, rfl⟩ := forward?_eq_some_iff.1 hf
  rcases hw.index with hlt | ⟨-, hzero⟩
  · exact ⟨hw.limit_pos, hw.length_le, Or.inl (by simp only; omega)⟩
  · exact absurd hzero hne

theorem WellFormed.advance {columns : Int} (hw : h.WellFormed)
    (ha : h.advance? columns = some h') : h'.WellFormed := by
  obtain ⟨hlt, rfl⟩ := advance?_eq_some_iff.1 ha
  refine ⟨hw.limit_pos, ?_, Or.inl ?_⟩
  · simpa using hw.length_le
  · simpa using hlt

theorem WellFormed.clear (hw : h.WellFormed) : h.clear.WellFormed :=
  ⟨hw.limit_pos, Nat.zero_le _, Or.inr ⟨rfl, rfl⟩⟩

theorem WellFormed.getD {next : Option History} (hw : h.WellFormed)
    (hnext : ∀ h', next = some h' → h'.WellFormed) : (next.getD h).WellFormed := by
  rcases next with _ | h'
  · exact hw
  · exact hnext h' rfl

theorem WellFormed.after (hw : h.WellFormed) (op : Operation) : (h.after op).WellFormed := by
  cases op with
  | push p => exact (valid_push hw.limit_pos p).wellFormed
  | back => exact hw.getD fun _ => hw.back
  | forward => exact hw.getD fun _ => hw.forward
  | advance columns => exact hw.getD fun _ => hw.advance
  | current => exact hw
  | clear => exact hw.clear

theorem WellFormed.afterAll (hw : h.WellFormed) (ops : List Operation) :
    (h.afterAll ops).WellFormed := by
  induction ops generalizing h with
  | nil => exact hw
  | cons op rest ih => exact ih (hw.after op)

theorem WellFormed.current?_eq_none_iff (hw : h.WellFormed) :
    h.current? = none ↔ h.entries = [] := by
  unfold current?
  rw [List.getElem?_eq_none_iff]
  rcases hw.index with hlt | ⟨hnil, hzero⟩
  · constructor
    · intro hle
      omega
    · intro hnil
      simp [hnil]
  · simp [hnil]

/-- An advance fails just where there is no current position. -/
theorem advance?_eq_none_iff {columns : Int} : h.advance? columns = none ↔ h.current? = none := by
  unfold advance? current?
  simp

/-! ## There and back -/

/-- A number of steps, if there are so many: the positions that are current on the way, from
the first to the last, and where they lead. -/
def walk? (step : History → Option History) : Nat → History → Option (List Point × History)
  | 0, h => do
    let p ← h.current?
    pure ([p], h)
  | n + 1, h => do
    let p ← h.current?
    let next ← step h
    let (rest, last) ← walk? step n next
    pure (p :: rest, last)

variable {step : History → Option History} {n : Nat} {ps : List Point}

theorem walk?_zero_eq_some_iff :
    walk? step 0 h = some (ps, h') ↔ ∃ p, h.current? = some p ∧ ps = [p] ∧ h' = h := by
  unfold walk?
  constructor
  · intro hw
    obtain ⟨p, hp, heq⟩ := Option.bind_eq_some_iff.1 hw
    cases heq
    exact ⟨p, hp, rfl, rfl⟩
  · rintro ⟨p, hp, rfl, rfl⟩
    simp [hp]

theorem walk?_succ_eq_some_iff :
    walk? step (n + 1) h = some (ps, h') ↔ ∃ p next rest, h.current? = some p ∧
      step h = some next ∧ walk? step n next = some (rest, h') ∧ ps = p :: rest := by
  rw [walk?]
  constructor
  · intro hw
    obtain ⟨p, hp, hw⟩ := Option.bind_eq_some_iff.1 hw
    obtain ⟨next, hnext, hw⟩ := Option.bind_eq_some_iff.1 hw
    obtain ⟨⟨rest, last⟩, hrest, heq⟩ := Option.bind_eq_some_iff.1 hw
    cases heq
    exact ⟨p, next, rest, hp, hnext, hrest, rfl⟩
  · rintro ⟨p, next, rest, hp, hnext, hrest, rfl⟩
    simp [hp, hnext, hrest]

/-- One more step at the end of a walk. -/
theorem walk?_snoc {last : History} {p : Point} (hw : walk? step n h = some (ps, h'))
    (hs : step h' = some last) (hp : last.current? = some p) :
    walk? step (n + 1) h = some (ps ++ [p], last) := by
  induction n generalizing h ps with
  | zero =>
    obtain ⟨q, hq, rfl, rfl⟩ := walk?_zero_eq_some_iff.1 hw
    have hend : walk? step 0 last = some ([p], last) := walk?_zero_eq_some_iff.2 ⟨p, hp, rfl, rfl⟩
    exact walk?_succ_eq_some_iff.2 ⟨q, last, [p], hq, hs, hend, rfl⟩
  | succ n ih =>
    obtain ⟨q, next, rest, hq, hnext, hrest, rfl⟩ := walk?_succ_eq_some_iff.1 hw
    exact walk?_succ_eq_some_iff.2 ⟨q, next, rest ++ [p], hq, hnext, ih hrest, rfl⟩

/-- A step back is undone by a step forward. -/
theorem forward?_of_back? (hb : h.back? = some h') : h'.forward? = some h := by
  obtain ⟨-, rfl⟩ := back?_eq_some_iff.1 hb
  exact forward?_eq_some_iff.2 ⟨Nat.succ_ne_zero _, rfl⟩

/-- Steps back are undone by as many steps forward, through the same positions. -/
theorem walk?_forward?_of_back? (hw : walk? back? n h = some (ps, h')) :
    walk? forward? n h' = some (ps.reverse, h) := by
  induction n generalizing h ps with
  | zero =>
    obtain ⟨p, hp, rfl, rfl⟩ := walk?_zero_eq_some_iff.1 hw
    exact walk?_zero_eq_some_iff.2 ⟨p, hp, rfl, rfl⟩
  | succ n ih =>
    obtain ⟨p, next, rest, hp, hnext, hrest, rfl⟩ := walk?_succ_eq_some_iff.1 hw
    rw [List.reverse_cons]
    exact walk?_snoc (ih hrest) (forward?_of_back? hnext) hp

/-! ## What one operation changes -/

/-- Of the current position the column has changed, and nothing else has. -/
structure Advanced (columns : Int) (h h' : History) : Prop where
  limit : h'.limit = h.limit
  index : h'.index = h.index
  current : ∀ p, h.current? = some p → h'.current? = some ⟨p.x + columns, p.y⟩
  others : ∀ i, i ≠ h.index → h'.entries[i]? = h.entries[i]?

theorem advanced_of_advance? {columns : Int} (ha : h.advance? columns = some h') :
    Advanced columns h h' := by
  obtain ⟨-, rfl⟩ := advance?_eq_some_iff.1 ha
  refine ⟨rfl, rfl, ?_, ?_⟩
  · intro p hp
    unfold current? at hp ⊢
    rw [List.getElem?_modify_eq, hp]
    exact congrArg (fun y => some (Point.mk (p.x + columns) y)) (Int.add_zero p.y)
  · intro i hi
    exact List.getElem?_modify_ne _ _ (Ne.symm hi)

/-- The position stands in front and is current. The others are as they were, but for the
oldest where there was no room for it. -/
structure Pushed (p : Point) (h h' : History) : Prop where
  limit : h'.limit = h.limit
  index : h'.index = 0
  entries : h'.entries =
    p :: if h.entries.length < h.limit then h.entries else h.entries.dropLast

theorem WellFormed.pushed (hw : h.WellFormed) (p : Point) : Pushed p h (h.push p) := by
  refine ⟨rfl, rfl, ?_⟩
  have hpos := hw.limit_pos
  have hle := hw.length_le
  obtain ⟨room, hroom⟩ : ∃ room, h.limit = room + 1 := ⟨h.limit - 1, by omega⟩
  simp only [push, hroom, List.take_succ_cons]
  split
  · rw [List.take_of_length_le (by omega)]
  · rw [List.dropLast_eq_take, show h.entries.length - 1 = room by omega]

end History

/-! ## Terminals and panes -/

namespace Workspace

theorem result_step_ne_missing [Text.Measure] {w : Workspace} (hw : w.Sound) (op : Operation) :
    (w.step op).result ≠ .error (.terminal .missingHistory) := by
  obtain ⟨-, herror⟩ := upholds_sound op w hw
  rw [step_eq]
  cases h : op.run w with
  | ok answer u => nofun
  | error e u =>
    intro he
    cases he
    exact (herror _ u h).2 rfl

/-- Histories stay well formed, whatever is put in, stepped through, advanced and forgotten.
Only an empty one has no current position, and no advance. As many steps forward as back
lead through the same positions to the same history, an advance changes the column of the
current position alone, and a push puts a position in front and drops no other than the
oldest. So on a terminal, with panes or without, no operation lacks a position, also after
others have failed, and no position is left of or above the screen. -/
theorem histories_stay_well_formed_and_cursors_have_a_place [Text.Measure] (limit : Nat)
    (ops : List History.Operation) {w : Workspace} (hw : w.Reachable) :
    let h := (History.ofLimit limit).afterAll ops
    (h.WellFormed ∧ (h.current? = none ↔ h.entries = []) ∧
      (∀ columns, h.advance? columns = none ↔ h.entries = []) ∧
      (∀ n ps h', History.walk? History.back? n h = some (ps, h') →
        History.walk? History.forward? n h' = some (ps.reverse, h)) ∧
      (∀ columns h', h.advance? columns = some h' → History.Advanced columns h h') ∧
      ∀ p, History.Pushed p h (h.push p)) ∧
    (∀ op, (w.step op).result ≠ .error (.terminal .missingHistory)) ∧
    (∀ p ∈ w.terminal.history.entries, 1 ≤ p.x ∧ 1 ≤ p.y) ∧
    ∃ p, w.terminal.position? = some p ∧ 0 ≤ p.x ∧ 0 ≤ p.y := by
  intro h
  have hform := (History.valid_ofLimit limit).wellFormed.afterAll ops
  have hcells := hw.sound.terminal
  obtain ⟨p, hp, hscreen⟩ := Terminal.exists_position hcells
  refine ⟨⟨hform, hform.current?_eq_none_iff, fun columns => ?_, fun n ps h' => ?_,
    fun columns h' => ?_, hform.pushed⟩, result_step_ne_missing hw.sound, ?_, p, hp,
    hscreen.zero_le_x, hscreen.zero_le_y⟩
  · rw [History.advance?_eq_none_iff, hform.current?_eq_none_iff]
  · exact History.walk?_forward?_of_back?
  · exact History.advanced_of_advance?
  · intro q hq
    exact ⟨(hcells.cells q hq).one_le_x, (hcells.cells q hq).one_le_y⟩

open scoped Text.Tables in
/-- Room for three positions, four of them after all were forgotten, and the way to the oldest
and back. On a terminal whose sink is full a move fails, and the next has a position still. -/
theorem three_positions_there_and_back_and_a_full_sink :
    let h := (History.ofLimit 3).afterAll
      [.clear, .push ⟨9, 9⟩, .push ⟨2, 1⟩, .push ⟨4, 3⟩, .push ⟨6, 5⟩]
    let oldest : History := ⟨3, [⟨6, 5⟩, ⟨4, 3⟩, ⟨2, 1⟩], 2⟩
    History.walk? History.back? 2 h = some ([⟨6, 5⟩, ⟨4, 3⟩, ⟨2, 1⟩], oldest) ∧
      History.walk? History.forward? 2 oldest = some ([⟨2, 1⟩, ⟨4, 3⟩, ⟨6, 5⟩], h) ∧
      ∃ opened : Workspace, opened.Reachable ∧
        (opened.step (.terminal (.moveTo ⟨3, 0⟩))).result = .error (.terminal (.fault .sinkFull)) ∧
        ((opened.step (.terminal (.moveTo ⟨3, 0⟩))).workspace.step (.terminal .stepBack)).result ≠
          .error (.terminal .missingHistory) := by
  intro h oldest
  obtain ⟨opened, hopened, hfull⟩ : ∃ w : Workspace,
      opening (blank (Sink.ofLimit (some 40)) ⟨80, 24⟩ Config.default []) = .ok () w ∧
        (w.step (.terminal (.moveTo ⟨3, 0⟩))).result = .error (.terminal (.fault .sinkFull)) :=
    ⟨_, rfl, rfl⟩
  have hback : History.walk? History.back? 2 h =
      some ([⟨6, 5⟩, ⟨4, 3⟩, ⟨2, 1⟩], oldest) := by decide
  have hw : Reachable (opened.step (.terminal (.moveTo ⟨3, 0⟩))).workspace :=
    .stepped _ (.opened hopened)
  obtain ⟨⟨-, -, -, hforward, -⟩, hhas, -⟩ :=
    histories_stay_well_formed_and_cursors_have_a_place 3
      [.clear, .push ⟨9, 9⟩, .push ⟨2, 1⟩, .push ⟨4, 3⟩, .push ⟨6, 5⟩] hw
  exact ⟨hback, hforward 2 _ _ hback, opened, .opened hopened, hfull, hhas _⟩

end Workspace

end TerminalPanes
