-- What no terminal operation breaks. The history of cursor positions holds a
-- current position from the opening on, whatever is done and whether or not
-- it fails, so no terminal ever lacks one.
import TerminalPanes.Terminal.Operation
import TerminalPanes.Proofs.ActionLaws
import TerminalPanes.Proofs.OperationParts

namespace TerminalPanes

/-! ## The history -/

/-- A cell that the cursor can be moved to: both coordinates count from one, and
the line is in the range of a machine word. -/
structure Point.IsCell (p : Point) : Prop where
  one_le_x : 1 ≤ p.x
  one_le_y : 1 ≤ p.y
  y_le : p.y ≤ Decimal.wordMax

theorem Terminal.isCell_cellOf (p : Point) : Point.IsCell ⟨cellOf p.x, cellOf p.y⟩ := by
  constructor <;> unfold cellOf Decimal.wordMax <;> dsimp only <;> omega

namespace History

/-- Between one and `limit` positions, one of which is current. -/
structure Valid (h : History) : Prop where
  limit_pos : 1 ≤ h.limit
  length_le : h.entries.length ≤ h.limit
  index_lt : h.index < h.entries.length

theorem valid_ofLimit (limit : Nat) : (ofLimit limit).Valid := by
  refine ⟨Nat.le_max_right limit 1, ?_, ?_⟩
  · exact Nat.le_max_right limit 1
  · exact Nat.one_pos

theorem current?_of_lt {h : History} (hi : h.index < h.entries.length) :
    ∃ p, h.current? = some p := ⟨h.entries[h.index], List.getElem?_eq_getElem hi⟩

theorem advance?_of_current? {h : History} {p : Point} (hp : h.current? = some p)
    (columns : Int) : ∃ h', h.advance? columns = some h' := by
  have hi : h.index < h.entries.length := (List.getElem?_eq_some_iff.1 hp).1
  exact ⟨_, if_pos hi⟩

/-- What holds of a history and goes on to hold through everything that a
terminal does to it. -/
structure Stable (P : History → Prop) : Prop where
  current : ∀ {h : History}, P h → ∃ p, h.current? = some p
  push : ∀ {h : History} {p : Point}, P h → p.IsCell → P (h.push p)
  back : ∀ {h h' : History}, P h → h.back? = some h' → P h'
  forward : ∀ {h h' : History}, P h → h.forward? = some h' → P h'
  advance : ∀ {h h' : History} {columns : Int}, P h → 0 ≤ columns →
    h.advance? columns = some h' → P h'

/-- A new position is current, also where none was. -/
theorem valid_push {h : History} (hl : 1 ≤ h.limit) (p : Point) : (h.push p).Valid := by
  refine ⟨hl, ?_, ?_⟩
  · simp only [push, List.length_take]
    exact Nat.min_le_left _ _
  · simp only [push, List.length_take, List.length_cons]
    omega

theorem stable_valid : Stable Valid where
  current hv := current?_of_lt hv.index_lt
  push hv _ := valid_push hv.limit_pos _
  back hv hb := by
    obtain ⟨hlt, rfl⟩ := back?_eq_some_iff.1 hb
    exact ⟨hv.limit_pos, hv.length_le, hlt⟩
  forward hv hf := by
    have hi := hv.index_lt
    obtain ⟨-, rfl⟩ := forward?_eq_some_iff.1 hf
    exact ⟨hv.limit_pos, hv.length_le, by simp only; omega⟩
  advance hv _ ha := by
    obtain ⟨hlt, rfl⟩ := advance?_eq_some_iff.1 ha
    refine ⟨hv.limit_pos, ?_, ?_⟩
    · simpa using hv.length_le
    · simpa using hlt

end History

namespace Terminal

variable {α β : Type}

/-! ## What an action keeps -/

/-- Something outside has failed. -/
def IsFault (e : TerminalError) : Prop := ∃ f, e = .fault f

/-- However the action ends, the history keeps what held of it, and if it fails
it is for something outside. -/
abbrev Keeps (P : History → Prop) (m : Action α) : Prop :=
  Upholds (fun t : Terminal => P t.history) IsFault m

/-- The same of an action that may also refuse markup. It never fails for want of
a position. -/
abbrev KeepsReading (P : History → Prop) (m : Action α) : Prop :=
  Upholds (fun t : Terminal => P t.history) (· ≠ .missingHistory) m

theorem Keeps.reading {P : History → Prop} {m : Action α} (h : Keeps P m) : KeepsReading P m := by
  refine Upholds.weaken h ?_
  rintro e ⟨f, rfl⟩
  simp

namespace Keeps

variable {P : History → Prop}

/-! ## Parts of operations -/

theorem emit (e : Emission) : Keeps P (emit e) := by
  intro t ht
  rcases hoffer : t.sink.offer e with ⟨taken, sink⟩
  cases taken with
  | true =>
    have hok : Terminal.emit e t = .ok () { t with sink } := by rw [Terminal.emit, hoffer]
    exact Upholds.at_ok hok ht
  | false =>
    have herror : Terminal.emit e t = .error (.fault .sinkFull) { t with sink } := by
      rw [Terminal.emit, hoffer]
    exact Upholds.at_error herror ht ⟨.sinkFull, rfl⟩

theorem setHistory {h : History} (hh : P h) : Keeps P (setHistory h) := .modify fun _ _ => hh

theorem currentCell (hP : History.Stable P) : Keeps P currentCell := by
  refine .get_bind fun s hs => ?_
  obtain ⟨p, hp⟩ := hP.current hs
  rw [hp]
  exact .pure p

theorem moveTo (hP : History.Stable P) (p : Point) : Keeps P (moveTo p) := by
  refine .get_bind fun s hs => ?_
  have hpush : P (s.history.push ⟨cellOf p.x, cellOf p.y⟩) := hP.push hs (isCell_cellOf p)
  exact .bind (setHistory hpush) fun _ => emit _

theorem advance (hP : History.Stable P) (columns : Nat) : Keeps P (advance columns) := by
  refine .get_bind fun s hs => ?_
  obtain ⟨p, hp⟩ := hP.current hs
  obtain ⟨h, hh⟩ := History.advance?_of_current? hp (min (columns : Int) Decimal.wordMax)
  have hnonneg : 0 ≤ min (columns : Int) Decimal.wordMax := by
    unfold Decimal.wordMax
    omega
  rw [hh]
  exact setHistory (hP.advance hs hnonneg hh)

theorem ofParts (hP : History.Stable P) : OfParts (Keeps P) where
  pure := .pure
  bind := .bind
  look _ hf := .get_bind fun t _ => hf t
  emit := emit
  setStyle _ := .modify fun _ ht => ht
  resize _ := .modify fun _ ht => ht
  currentCell := currentCell hP
  moveTo := moveTo hP
  advance := advance hP

/-- A step through the history keeps what any of the two steps keeps. -/
theorem stepTo (hP : History.Stable P) {step : History → Option History}
    (hstep : ∀ {h h' : History}, P h → step h = some h' → P h') : Keeps P (stepTo step) := by
  refine .get_bind fun s hs => ?_
  split
  · exact .pure false
  · rename_i h hh
    refine .bind (setHistory (hstep hs hh)) fun _ => ?_
    exact .bind (currentCell hP) fun _ => .bind (emit _) fun _ => .pure true

end Keeps

namespace KeepsReading

variable {P : History → Prop}

theorem ofParts (hP : History.Stable P) : OfParts (KeepsReading P) where
  pure := .pure
  bind := .bind
  look _ hf := .get_bind fun t _ => hf t
  emit e := (Keeps.emit e).reading
  setStyle style := ((Keeps.ofParts hP).setStyle style).reading
  resize size := ((Keeps.ofParts hP).resize size).reading
  currentCell := (Keeps.currentCell hP).reading
  moveTo p := (Keeps.moveTo hP p).reading
  advance columns := (Keeps.advance hP columns).reading

/-- Every operation keeps what is stable, and none fails for want of a position. -/
theorem run [Text.Measure] (hP : History.Stable P) (op : Operation) : KeepsReading P op.run :=
  (ofParts hP).run (fun _ => .throw (by simp)) (fun _ => (Keeps.stepTo hP hP.back).reading)
    fun _ => (Keeps.stepTo hP hP.forward).reading

end KeepsReading

/-! ## Every terminal there can be -/

/-- The terminals that come from opening one and doing operations, whether or
not they fail. The sink belongs to the caller, who may change it at any time. -/
inductive Reachable [Text.Measure] : Terminal → Prop where
  | opened {sink : Sink} {size : Size} {config : Config} {t : Terminal} :
    opening (blank sink size config) = .ok () t → Reachable t
  | done {t u : Terminal} {op : Operation} {answer : Option Bool} :
    Reachable t → op.run t = .ok answer u → Reachable u
  | failed {t u : Terminal} {op : Operation} {e : TerminalError} :
    Reachable t → op.run t = .error e u → Reachable u
  | changedSink {t : Terminal} (sink : Sink) : Reachable t → Reachable { t with sink }

/-- Whatever is stable, and holds of the history of one cell at the top left,
holds of the history of every terminal. -/
theorem Reachable.keeps [Text.Measure] {P : History → Prop} (hP : History.Stable P)
    (hstart : ∀ limit, P (History.ofLimit limit)) {t : Terminal} (ht : Reachable t) :
    P t.history := by
  induction ht with
  | @opened sink size config t h =>
    exact ((Keeps.ofParts hP).opening _ (hstart config.historyLimit)).1 () t h
  | @done t u op answer _ h ih => exact (KeepsReading.run hP op t ih).1 answer u h
  | @failed t u op e _ h ih => exact ((KeepsReading.run hP op t ih).2 e u h).1
  | changedSink sink _ ih => exact ih

theorem Reachable.valid [Text.Measure] {t : Terminal} (ht : Reachable t) : t.history.Valid :=
  ht.keeps History.stable_valid History.valid_ofLimit

end Terminal

end TerminalPanes
