-- The limit of the history does not show. A terminal that remembers fewer
-- positions does the same as one that remembers more, as long as no step back
-- goes beyond the fewer. What it holds is then the beginning of what the other
-- holds, and each operation keeps it so.
import Mathlib.Data.List.Forall2
import TerminalPanes.Proofs.OperationParts
import TerminalPanes.Proofs.TerminalReach
import TerminalPanes.Text.Tables

namespace TerminalPanes

/-! ## The history -/

namespace History

variable {h h' : History} {limit : Nat}

/-- The history as it is with a smaller limit. -/
def shortened (limit : Nat) (h : History) : History := ⟨limit, h.entries.take limit, h.index⟩

/-- The limit is a smaller one, and the current position is within. -/
structure Fits (limit : Nat) (h : History) : Prop where
  limit_le : limit ≤ h.limit
  index_lt : h.index < limit

theorem current?_shortened (hf : h.Fits limit) : (h.shortened limit).current? = h.current? :=
  List.getElem?_take_of_lt hf.index_lt

theorem push_shortened (hf : h.Fits limit) (p : Point) :
    (h.shortened limit).push p = (h.push p).shortened limit := by
  have hle := hf.limit_le
  have hlt := hf.index_lt
  obtain ⟨n, rfl⟩ : ∃ n, limit = n + 1 := ⟨limit - 1, by omega⟩
  have hmin : min n (n + 1) = n := by omega
  simp only [push, shortened, List.take_succ_cons, List.take_take, Nat.min_eq_left hle, hmin]

theorem fits_push (hf : h.Fits limit) (p : Point) : (h.push p).Fits limit :=
  ⟨hf.limit_le, Nat.lt_of_le_of_lt (Nat.zero_le _) hf.index_lt⟩

theorem forward?_shortened : (h.shortened limit).forward? = h.forward?.map (shortened limit) := by
  unfold forward?
  split
  · rename_i hi
    rw [if_pos (show h.index = 0 from hi)]
    rfl
  · rename_i hi
    rw [if_neg (show h.index ≠ 0 from hi)]
    rfl

theorem fits_forward? (hf : h.Fits limit) (h₁ : h.forward? = some h') : h'.Fits limit := by
  have hlt := hf.index_lt
  obtain ⟨-, rfl⟩ := forward?_eq_some_iff.1 h₁
  exact ⟨hf.limit_le, by simp only; omega⟩

/-- A step back is refused by both, unless it goes beyond the smaller limit. -/
theorem back?_shortened (hback : ∀ h', h.back? = some h' → h'.index < limit) :
    (h.shortened limit).back? = h.back?.map (shortened limit) := by
  unfold back? at hback ⊢
  by_cases hi : h.index + 1 < h.entries.length
  · have hlt : h.index + 1 < limit := hback _ (if_pos hi)
    have hshort : (h.shortened limit).index + 1 < (h.shortened limit).entries.length := by
      simp only [shortened, List.length_take]
      omega
    rw [if_pos hi, if_pos hshort]
    rfl
  · have hshort : ¬ (h.shortened limit).index + 1 < (h.shortened limit).entries.length := by
      simp only [shortened, List.length_take]
      omega
    rw [if_neg hi, if_neg hshort]
    rfl

theorem advance?_shortened (hf : h.Fits limit) (columns : Int) :
    (h.shortened limit).advance? columns = (h.advance? columns).map (shortened limit) := by
  have hlt := hf.index_lt
  unfold advance?
  by_cases hi : h.index < h.entries.length
  · have hshort : (h.shortened limit).index < (h.shortened limit).entries.length := by
      simp only [shortened, List.length_take]
      omega
    rw [if_pos hi, if_pos hshort]
    simp [shortened, List.take_modify]
  · have hshort : ¬ (h.shortened limit).index < (h.shortened limit).entries.length := by
      simp only [shortened, List.length_take]
      omega
    rw [if_neg hi, if_neg hshort]
    rfl

theorem fits_advance? (hf : h.Fits limit) {columns : Int} (h₁ : h.advance? columns = some h') :
    h'.Fits limit := by
  obtain ⟨-, rfl⟩ := advance?_eq_some_iff.1 h₁
  exact ⟨hf.limit_le, hf.index_lt⟩

end History

namespace Terminal

variable {α β : Type}

/-! ## Actions with a smaller limit -/

/-- The terminal as it is with a smaller limit. -/
def shortened (limit : Nat) (t : Terminal) : Terminal :=
  t.elsewhere t.sink (t.history.shortened limit) limit

/-- How something ended, and the terminal it left. -/
structure Outcome (α : Type) where
  answer : Except TerminalError α
  terminal : Terminal

def outcomeOf : EStateM.Result TerminalError Terminal α → Outcome α
  | .ok a t => ⟨.ok a, t⟩
  | .error e t => ⟨.error e, t⟩

/-- An end, and the same end with the smaller limit. -/
structure Same (limit : Nat) (r r' : EStateM.Result TerminalError Terminal α) : Prop where
  fits : (outcomeOf r).terminal.history.Fits limit
  same : r' = liftEnd (shortened limit) id r

/-- The action ends the same with the smaller limit. -/
def Blind (limit : Nat) (m : Action α) : Prop :=
  ∀ t : Terminal, t.history.Fits limit → Same limit (m t) (m (t.shortened limit))

variable {limit : Nat}

theorem Same.bind {m : Action α} {f : α → Action β} {t : Terminal}
    (hm : Same limit (m t) (m (t.shortened limit))) (hf : ∀ a, Blind limit (f a)) :
    Same limit ((m >>= f) t) ((m >>= f) (t.shortened limit)) := by
  obtain ⟨hfits, hsame⟩ := hm
  cases h : m t with
  | ok a u =>
    rw [h] at hfits hsame
    rw [bind_of_ok h, bind_of_ok hsame]
    exact hf a u hfits
  | error e u =>
    rw [h] at hfits hsame
    rw [bind_of_error h, bind_of_error hsame]
    exact ⟨hfits, rfl⟩

theorem blind_bind {m : Action α} {f : α → Action β} (hm : Blind limit m)
    (hf : ∀ a, Blind limit (f a)) : Blind limit (m >>= f) := fun t ht => (hm t ht).bind hf

theorem get_bind_apply (f : Terminal → Action α) (t : Terminal) : (get >>= f) t = f t t :=
  bind_of_ok rfl

theorem blind_look {f : Terminal → Action α}
    (hlook : ∀ t sink history limit, f (t.elsewhere sink history limit) = f t)
    (hf : ∀ t, Blind limit (f t)) : Blind limit (get >>= f) := by
  intro t ht
  rw [get_bind_apply, get_bind_apply, shortened, hlook]
  exact hf t t ht

theorem blind_modify {f : Terminal → Terminal}
    (hfits : ∀ t : Terminal, t.history.Fits limit → (f t).history.Fits limit)
    (hf : ∀ t : Terminal, t.history.Fits limit → f (t.shortened limit) = (f t).shortened limit) :
    Blind limit (modify f : Action Unit) :=
  fun t ht => ⟨hfits t ht, congrArg (EStateM.Result.ok ()) (hf t ht)⟩

theorem blind_emit (e : Emission) : Blind limit (emit e) := by
  intro t ht
  have hoffer : (t.shortened limit).sink.offer e = t.sink.offer e := rfl
  unfold emit
  rw [hoffer]
  cases t.sink.offer e with
  | mk taken sink => cases taken <;> exact ⟨ht, rfl⟩

theorem blind_currentCell : Blind limit currentCell := by
  intro t ht
  have hcurrent : (t.shortened limit).history.current? = t.history.current? :=
    History.current?_shortened ht
  unfold currentCell
  rw [get_bind_apply, get_bind_apply, hcurrent]
  cases t.history.current? <;> exact ⟨ht, rfl⟩

theorem blind_moveTo (p : Point) : Blind limit (moveTo p) := by
  have heq : moveTo p = (do
      modify fun t : Terminal => { t with history := t.history.push ⟨cellOf p.x, cellOf p.y⟩ }
      send (.cursorTo ⟨cellOf p.x, cellOf p.y⟩)) := rfl
  rw [heq]
  refine blind_bind (blind_modify (fun t ht => History.fits_push ht _) fun t ht => ?_)
    fun _ => blind_emit _
  simp only [shortened, elsewhere, History.push_shortened ht]

theorem blind_advance (columns : Nat) : Blind limit (advance columns) := by
  intro t ht
  have hadvance : (t.shortened limit).history.advance? (min (columns : Int) Decimal.wordMax) = _ :=
    History.advance?_shortened ht _
  unfold advance
  rw [get_bind_apply, get_bind_apply, hadvance]
  cases h : t.history.advance? (min (columns : Int) Decimal.wordMax) with
  | none => exact ⟨ht, rfl⟩
  | some history => exact ⟨History.fits_advance? ht h, rfl⟩

/-- A step to another entry that both histories have, or that neither has. -/
theorem same_stepTo {step : History → Option History} {t : Terminal} (ht : t.history.Fits limit)
    (hstep : step (t.history.shortened limit) = (step t.history).map (History.shortened limit))
    (hfits : ∀ h, step t.history = some h → h.Fits limit) :
    Same limit (stepTo step t) (stepTo step (t.shortened limit)) := by
  have hshort : step (t.shortened limit).history = _ := hstep
  unfold stepTo
  rw [get_bind_apply, get_bind_apply, hshort]
  cases h : step t.history with
  | none => exact ⟨ht, rfl⟩
  | some history =>
    have hrest : Blind limit (do send (.cursorTo (← currentCell)); pure true : Action Bool) :=
      blind_bind blind_currentCell fun _ => blind_bind (blind_emit _) fun _ _ ht => ⟨ht, rfl⟩
    exact hrest { t with history } (hfits history h)

theorem blind_stepForward : Blind limit stepForward := fun _ ht =>
  same_stepTo ht History.forward?_shortened fun _ => History.fits_forward? ht

theorem ofParts_blind : OfParts (Blind limit) where
  pure _ _ ht := ⟨ht, rfl⟩
  bind := blind_bind
  look := blind_look
  emit := blind_emit
  setStyle _ := blind_modify (fun _ ht => ht) fun _ _ => rfl
  resize _ := blind_modify (fun _ ht => ht) fun _ _ => rfl
  currentCell := blind_currentCell
  moveTo := blind_moveTo
  advance := blind_advance

/-! ## Steps of a run -/

/-- One thing that is done. The sink belongs to the caller, who may change it at any
time. -/
inductive Step where
  | operation (op : Operation)
  | changeSink (sink : Sink)
  deriving DecidableEq, Repr

def Step.run [Text.Measure] : Step → Action (Option Bool)
  | .operation op => op.run
  | .changeSink sink => Operation.silent (modify fun t => { t with sink })

/-- What is done one thing after another, with what each ended in. Nothing is left
out after a failure. -/
def play [Text.Measure] (t : Terminal) : List Step → List (Outcome (Option Bool))
  | [] => []
  | s :: rest =>
    let o := outcomeOf (s.run t)
    o :: play o.terminal rest

/-- An opening, and what is then done. Nothing can be done if the opening fails. -/
def goOn [Text.Measure] (steps : List Step) (opened : Outcome (Option Bool)) :
    List (Outcome (Option Bool)) :=
  match opened.answer with
  | .ok _ => opened :: play opened.terminal steps
  | .error _ => [opened]

/-- A terminal opened with a limit, and what is then done. -/
def session [Text.Measure] (limit : Nat) (sink : Sink) (size : Size) (config : Config)
    (steps : List Step) :
    List (Outcome (Option Bool)) :=
  goOn steps (outcomeOf (Operation.silent opening
    (blank sink size { config with historyLimit := limit })))

/-- The same to be seen, and the beginning of the positions remembered. -/
structure Outcome.Alike (limit : Nat) (o p : Outcome α) : Prop where
  answer : p.answer = o.answer
  sink : p.terminal.sink = o.terminal.sink
  style : p.terminal.style = o.terminal.style
  size : p.terminal.size = o.terminal.size
  position : p.terminal.position? = o.terminal.position?
  index : p.terminal.history.index = o.terminal.history.index
  entries : p.terminal.history.entries = o.terminal.history.entries.take limit

/-- Where the current position is after an action. -/
def Outcome.index (o : Outcome α) : Nat := o.terminal.history.index

theorem Same.alike {r r' : EStateM.Result TerminalError Terminal α} (h : Same limit r r') :
    (outcomeOf r).Alike limit (outcomeOf r') := by
  obtain ⟨hfits, rfl⟩ := h
  have hposition := congrArg (Option.map (· - ⟨1, 1⟩)) (History.current?_shortened hfits)
  cases r <;> exact ⟨rfl, rfl, rfl, rfl, hposition, rfl, rfl⟩

/-! ## Which entry is current -/

/-- Any error will do. -/
def AnyFailure (_ : TerminalError) : Prop := True

theorem outcome_of_upholds {P : Terminal → Prop} {m : Action α} (hm : Upholds P AnyFailure m)
    {t : Terminal} (ht : P t) : P (outcomeOf (m t)).terminal := by
  obtain ⟨hok, herror⟩ := hm t ht
  cases h : m t with
  | ok a u => exact hok a u h
  | error e u => exact (herror e u h).1

theorem upholds_emit {P : History → Prop} (e : Emission) :
    Upholds (fun t : Terminal => P t.history) AnyFailure (emit e) :=
  (Keeps.emit e).weaken fun _ _ => trivial

theorem upholds_currentCell {P : Terminal → Prop} : Upholds P AnyFailure currentCell := by
  refine .get_bind fun s _ => ?_
  split
  · exact .pure _
  · exact .throw trivial

/-- A step that there is is taken, even if it then fails. -/
theorem history_stepTo {step : History → Option History} {t : Terminal} {h : History}
    (hstep : step t.history = some h) : (outcomeOf (stepTo step t)).terminal.history = h := by
  have htaken : stepTo step t = (do
      send (.cursorTo (← currentCell))
      pure true : Action Bool) { t with history := h } := by
    unfold stepTo
    rw [get_bind_apply, hstep]
    rfl
  have hrest : Upholds (fun t : Terminal => t.history = h) AnyFailure
      (do send (.cursorTo (← currentCell)); pure true : Action Bool) :=
    .bind upholds_currentCell fun _ => .bind (upholds_emit (P := (· = h)) _) fun _ => .pure true
  rw [htaken]
  exact outcome_of_upholds hrest rfl

theorem terminal_telling {action : Action Bool} (t : Terminal) :
    (outcomeOf (Operation.telling action t)).terminal = (outcomeOf (action t)).terminal := by
  unfold Operation.telling
  cases h : action t with
  | ok a u => rw [bind_of_ok h]; rfl
  | error e u => rw [bind_of_error h]; rfl

/-- Only a step back leads away from the newest position. -/
theorem ofParts_newest :
    OfParts fun m => Upholds (fun t : Terminal => t.history.index = 0) AnyFailure m where
  pure := .pure
  bind := .bind
  look _ hf := .get_bind fun t _ => hf t
  emit e := upholds_emit (P := fun h => h.index = 0) e
  setStyle _ := .modify fun _ ht => ht
  resize _ := .modify fun _ ht => ht
  currentCell := upholds_currentCell
  moveTo _ := .get_bind fun _ _ => .bind (.modify fun _ _ => rfl) fun _ =>
    upholds_emit (P := fun h => h.index = 0) _
  advance _ := by
    refine .get_bind fun s hs => ?_
    split
    · rename_i history hadvance
      refine .modify fun _ _ => ?_
      obtain ⟨-, rfl⟩ := History.advance?_eq_some_iff.1 hadvance
      exact hs
    · exact .throw trivial

theorem upholds_stepForward :
    Upholds (fun t : Terminal => t.history.index = 0) AnyFailure stepForward := by
  refine .get_bind fun s hs => ?_
  rw [History.forward?, if_pos hs]
  exact .pure false

/-! ## Runs -/

theorem same_step [Text.Measure] {s : Step} {t : Terminal} (ht : t.history.Fits limit)
    (hi : (outcomeOf (s.run t)).index < limit) :
    Same limit (s.run t) (s.run (t.shortened limit)) := by
  cases s with
  | changeSink sink =>
    have hsink : Blind limit (modify fun t => { t with sink }) :=
      blind_modify (fun _ ht => ht) fun _ _ => rfl
    exact ofParts_blind.silent hsink t ht
  | operation op =>
    by_cases hop : op = .stepBack
    · subst hop
      have hback : ∀ h, t.history.back? = some h → h.index < limit := by
        intro h hh
        have hi : (outcomeOf (Operation.telling stepBack t)).terminal.history.index < limit := hi
        rwa [terminal_telling, stepBack, history_stepTo hh] at hi
      have hfits : ∀ h, t.history.back? = some h → h.Fits limit := by
        intro h hh
        refine ⟨?_, hback h hh⟩
        obtain ⟨-, rfl⟩ := History.back?_eq_some_iff.1 hh
        exact ht.limit_le
      exact (same_stepTo ht (History.back?_shortened hback) hfits).bind fun _ =>
        ofParts_blind.pure _
    · have hrefuse : ∀ e, Blind limit (throw (.markup e) : Action (List Section)) :=
        fun _ _ ht => ⟨ht, rfl⟩
      exact ofParts_blind.run hrefuse (fun h => absurd h hop) (fun _ => blind_stepForward) t ht

/-- As long as the current position is among those that the smaller limit keeps. -/
theorem alike_play [Text.Measure] (steps : List Step) {t : Terminal} (ht : t.history.Fits limit)
    (n : Nat)
    (hn : ∀ o ∈ (play t steps).take n, o.index < limit) :
    List.Forall₂ (Outcome.Alike limit) ((play t steps).take n)
      ((play (t.shortened limit) steps).take n) := by
  induction steps generalizing t n with
  | nil => simp [play]
  | cons s rest ih =>
    cases n with
    | zero => exact .nil
    | succ n =>
      simp only [play, List.take_succ_cons, List.forall_mem_cons] at hn ⊢
      have hsame := same_step ht hn.1
      refine .cons hsame.alike ?_
      have hleft : (outcomeOf (s.run (t.shortened limit))).terminal =
          (outcomeOf (s.run t)).terminal.shortened limit := by
        rw [hsame.same]
        cases s.run t <;> rfl
      rw [hleft]
      exact ih hsame.fits n hn.2

theorem index_play [Text.Measure] {steps : List Step} (hsteps : Step.operation .stepBack ∉ steps)
    {t : Terminal}
    (ht : t.history.index = 0) : ∀ o ∈ play t steps, o.index = 0 := by
  induction steps generalizing t with
  | nil => simp [play]
  | cons s rest ih =>
    rw [List.mem_cons, not_or] at hsteps
    have hrun : Upholds (fun t : Terminal => t.history.index = 0) AnyFailure s.run := by
      cases s with
      | changeSink sink => exact ofParts_newest.silent (.modify fun _ ht => ht)
      | operation op =>
        exact ofParts_newest.run (fun _ => .throw trivial)
          (fun h => absurd (congrArg Step.operation h.symm) hsteps.1) fun _ => upholds_stepForward
    have hs := outcome_of_upholds hrun ht
    exact List.forall_mem_cons.2 ⟨hs, ih hsteps.2 hs⟩

theorem alike_goOn [Text.Measure] {r r' : EStateM.Result TerminalError Terminal (Option Bool)}
    (h : Same limit r r') (steps : List Step) (n : Nat)
    (hn : ∀ o ∈ (goOn steps (outcomeOf r)).take n, o.index < limit) :
    List.Forall₂ (Outcome.Alike limit) ((goOn steps (outcomeOf r)).take n)
      ((goOn steps (outcomeOf r')).take n) := by
  have halike := h.alike
  obtain ⟨hfits, rfl⟩ := h
  cases n with
  | zero => exact .nil
  | succ n =>
    cases r with
    | error e t => exact .cons halike (by simp)
    | ok a t =>
      simp only [goOn, outcomeOf, List.take_succ_cons, List.forall_mem_cons] at hn
      exact .cons halike (alike_play steps hfits n hn.2)

section

variable {larger : Nat} {sink : Sink} {size : Size} {config : Config}

/-- A blank terminal with a larger limit, and the same one with a smaller. -/
theorem blank_shortened (hpos : 1 ≤ limit) (hle : limit ≤ larger) :
    (blank sink size { config with historyLimit := larger }).history.Fits limit ∧
      (blank sink size { config with historyLimit := larger }).shortened limit =
        blank sink size { config with historyLimit := limit } := by
  refine ⟨⟨Nat.le_trans hle (Nat.le_max_left _ _), hpos⟩, ?_⟩
  have hmax : max limit 1 = limit := Nat.max_eq_left hpos
  have htake : [(⟨1, 1⟩ : Point)].take limit = [⟨1, 1⟩] := List.take_of_length_le hpos
  simp only [shortened, elsewhere, blank, History.shortened, History.ofLimit, htake, hmax]

theorem alike_session [Text.Measure] (hpos : 1 ≤ limit) (hle : limit ≤ larger) (steps : List Step)
    (n : Nat)
    (hn : ∀ o ∈ (session larger sink size config steps).take n, o.index < limit) :
    List.Forall₂ (Outcome.Alike limit) ((session larger sink size config steps).take n)
      ((session limit sink size config steps).take n) := by
  obtain ⟨hfits, hblank⟩ := @blank_shortened _ _ sink size config hpos hle
  have hsame := ofParts_blind.silent ofParts_blind.opening _ hfits
  rw [hblank] at hsame
  exact alike_goOn hsame steps n hn

theorem index_session [Text.Measure] {steps : List Step} (hsteps : Step.operation .stepBack ∉ steps)
    (limit : Nat) : ∀ o ∈ session limit sink size config steps, o.index = 0 := by
  have hopened := outcome_of_upholds (ofParts_newest.silent ofParts_newest.opening)
    (t := blank sink size { config with historyLimit := limit }) rfl
  rw [session]
  generalize outcomeOf (Operation.silent opening _) = opened at hopened
  obtain ⟨_ | answer, t⟩ := opened
  · exact List.forall_mem_singleton.2 hopened
  · exact List.forall_mem_cons.2 ⟨hopened, index_play hsteps hopened⟩

/-- The limit of a history does not show. Two terminals that are opened alike but for the
limit go through the same steps. As long as the one with the larger limit stays within the
smaller, both give the same answers and send the same, show the same style and cursor, and
the positions that one of them remembers are the first that the other does. Without a step
back they always do. -/
theorem a_history_limit_does_not_show [Text.Measure] (hpos : 1 ≤ limit) (hle : limit ≤ larger)
    (steps : List Step) :
    let long := session larger sink size config steps
    let short := session limit sink size config steps
    (∀ n, (∀ o ∈ long.take n, o.index < limit) →
      List.Forall₂ (Outcome.Alike limit) (long.take n) (short.take n)) ∧
    (Step.operation .stepBack ∉ steps → List.Forall₂ (Outcome.Alike limit) long short) := by
  intro long short
  refine ⟨alike_session hpos hle steps, fun hsteps => ?_⟩
  have hnewest : ∀ n, ∀ o ∈ long.take n, o.index < limit := by
    intro n o ho
    rw [index_session hsteps larger o (List.mem_of_mem_take ho)]
    exact hpos
  have hall := alike_session hpos hle steps (max long.length short.length) (hnewest _)
  rwa [List.take_of_length_le (Nat.le_max_left _ _),
    List.take_of_length_le (Nat.le_max_right _ _)] at hall

end

/-- Two moves, and text at the older of the two positions. -/
def walk : List Step :=
  [.operation (.moveTo ⟨2, 0⟩), .operation (.moveTo ⟨4, 1⟩), .operation .stepBack,
    .operation (.write ['a'] .clip), .operation .stepForward]

open scoped Text.Tables in
/-- Two positions are as good as three for one step back, over a sink that is full on the
way, and without the step back one position is. -/
theorem two_positions_do_as_three :
    List.Forall₂ (Outcome.Alike 2)
      (session 3 (Sink.ofLimit (some 60)) ⟨8, 2⟩ Config.default walk)
      (session 2 (Sink.ofLimit (some 60)) ⟨8, 2⟩ Config.default walk) ∧
    List.Forall₂ (Outcome.Alike 1)
      (session 3 Sink.unlimited ⟨8, 2⟩ Config.default (walk.take 2))
      (session 1 Sink.unlimited ⟨8, 2⟩ Config.default (walk.take 2)) := by
  obtain ⟨hwithin, -⟩ := @a_history_limit_does_not_show 2 3 (Sink.ofLimit (some 60)) ⟨8, 2⟩
    Config.default _ (by decide) (by decide) walk
  obtain ⟨-, hforward⟩ := @a_history_limit_does_not_show 1 3 Sink.unlimited ⟨8, 2⟩
    Config.default _ (by decide) (by decide) (walk.take 2)
  have hall := hwithin 6 (by decide +kernel)
  rw [List.take_of_length_le (by decide +kernel),
    List.take_of_length_le (by decide +kernel)] at hall
  exact ⟨hall, hforward (by decide)⟩

open scoped Text.Tables in
/-- One position is not as good as two when the step back is to the second. -/
example : (session 2 Sink.unlimited ⟨8, 2⟩ Config.default [.operation (.moveTo ⟨2, 0⟩),
      .operation .stepBack]).map (fun o => o.answer.toOption) =
        [some none, some none, some (some true)] ∧
    (session 1 Sink.unlimited ⟨8, 2⟩ Config.default [.operation (.moveTo ⟨2, 0⟩),
      .operation .stepBack]).map (fun o => o.answer.toOption) =
        [some none, some none, some (some false)] := by
  decide +kernel

end Terminal

end TerminalPanes
