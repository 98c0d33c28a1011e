-- What terminal operations are made of. Beside a step through the history each
-- is put together from a few parts, and it looks at no more of the terminal
-- than the style, the size and the settings. So what holds of the parts, and
-- of any two actions that follow one another, holds of every operation.
import TerminalPanes.Terminal.Operation

namespace TerminalPanes

namespace Terminal

/-- The same terminal but for its sink, its history and the limit of it. -/
def elsewhere (t : Terminal) (sink : Sink) (history : History) (limit : Nat) : Terminal :=
  { t with sink, history, config := { t.config with historyLimit := limit } }

/-- A property that the parts of operations have, and two actions one after another
if both have it. -/
structure OfParts (Q : {α : Type} → Action α → Prop) : Prop where
  pure : ∀ {α : Type} (a : α), Q (pure a)
  bind : ∀ {α β : Type} {m : Action α} {f : α → Action β}, Q m → (∀ a, Q (f a)) → Q (m >>= f)
  look : ∀ {α : Type} {f : Terminal → Action α},
    (∀ t sink history limit, f (t.elsewhere sink history limit) = f t) → (∀ t, Q (f t)) →
      Q (get >>= f)
  emit : ∀ e, Q (emit e)
  setStyle : ∀ style, Q (setStyle style)
  resize : ∀ size, Q (resize size)
  currentCell : Q currentCell
  moveTo : ∀ p, Q (moveTo p)
  advance : ∀ columns, Q (advance columns)

namespace OfParts

variable {Q : {α : Type} → Action α → Prop}

theorem forM (h : OfParts Q) {ι : Type} {f : ι → Action Unit} (hf : ∀ i, Q (f i)) (is : List ι) :
    Q (is.forM f) := by
  induction is with
  | nil => exact h.pure ()
  | cons i rest ih => exact h.bind (hf i) fun _ => ih

theorem send (h : OfParts Q) (s : Sequence) : Q (send s) := h.emit _

/-! ## Style -/

theorem turnOn (h : OfParts Q) (set : Attributes) : Q (turnOn set) :=
  h.look (fun _ _ _ _ => rfl) fun _ => h.bind (h.setStyle _) fun _ => h.forM (fun _ => h.send _) _

theorem turnOff (h : OfParts Q) (set : Attributes) : Q (turnOff set) :=
  h.look (fun _ _ _ _ => rfl) fun _ => h.bind (h.setStyle _) fun _ => h.forM (fun _ => h.send _) _

theorem setForeground (h : OfParts Q) (c : Color) : Q (setForeground c) := by
  refine h.look (fun _ _ _ _ => rfl) fun t => ?_
  dsimp only
  split
  · exact h.bind (h.setStyle _) fun _ => h.send _
  · exact h.pure ()

theorem setBackground (h : OfParts Q) (c : Color) : Q (setBackground c) := by
  refine h.look (fun _ _ _ _ => rfl) fun t => ?_
  dsimp only
  split
  · exact h.bind (h.setStyle _) fun _ => h.send _
  · exact h.pure ()

theorem resetStyle (h : OfParts Q) : Q resetStyle := h.bind (h.send _) fun _ => h.setStyle _

theorem resetColors (h : OfParts Q) : Q resetColors :=
  h.look (fun _ _ _ _ => rfl) fun _ => h.bind (h.setBackground _) fun _ =>
    h.look (fun _ _ _ _ => rfl) fun _ => h.setForeground _

theorem apply (h : OfParts Q) (i : Instruction) : Q (apply i) := by
  cases i with
  | turnOn e => exact h.turnOn _
  | foreground c => exact h.setForeground c
  | background c => exact h.setBackground c

theorem opening (h : OfParts Q) : Q opening := h.bind h.resetStyle fun _ => h.resetColors

/-! ## Cursor -/

theorem position (h : OfParts Q) : Q position := h.bind h.currentCell fun _ => h.pure _

theorem moveBy (h : OfParts Q) (delta : Point) : Q (moveBy delta) :=
  h.bind h.position fun _ => h.moveTo _

/-! ## Writing -/

theorem remainingColumns (h : OfParts Q) : Q remainingColumns := by
  refine h.look (fun _ _ _ _ => rfl) fun t => ?_
  dsimp only
  split
  · exact h.pure none
  · exact h.bind h.currentCell fun _ => h.pure _

theorem write [Text.Measure] (h : OfParts Q) (t : Text) (wrap : Wrap) : Q (write t wrap) :=
  h.bind h.remainingColumns fun _ => h.bind (h.emit _) fun _ => h.advance _

theorem writeSection [Text.Measure] (h : OfParts Q) (s : Section) (wrap : Wrap) :
    Q (writeSection s wrap) := by
  refine h.bind (h.forM h.apply _) fun _ => ?_
  exact h.bind (h.write _ _) fun _ => h.bind h.resetStyle fun _ => h.resetColors

theorem writeSections [Text.Measure] (h : OfParts Q) (sections : List Section) (wrap : Wrap) :
    Q (writeSections sections wrap) := h.forM (fun s => h.writeSection s wrap) sections

theorem clearScreen (h : OfParts Q) : Q clearScreen := h.bind (h.send _) fun _ => h.moveTo _

theorem restore (h : OfParts Q) : Q restore := h.bind h.resetStyle fun _ => h.send _

section

variable (hrefuse : ∀ e, Q (throw (.markup e) : Action (List Section)))

include hrefuse

theorem readMarkup (h : OfParts Q) (t : Text) : Q (readMarkup t) := by
  unfold Terminal.readMarkup
  split
  · exact h.pure _
  · exact hrefuse _

theorem writeMarkup [Text.Measure] (h : OfParts Q) (t : Text) : Q (writeMarkup t) :=
  h.bind (h.readMarkup hrefuse t) fun sections =>
    h.look (fun _ _ _ _ => rfl) fun _ => h.writeSections sections _

end

/-! ## Operations -/

theorem silent (h : OfParts Q) {action : Action Unit} (ha : Q action) :
    Q (Operation.silent action) := h.bind ha fun _ => h.pure none

theorem telling (h : OfParts Q) {action : Action Bool} (ha : Q action) :
    Q (Operation.telling action) := h.bind ha fun _ => h.pure _

/-- What holds of the parts, and where markup is refused, holds of every operation, as
long as it holds of those steps through the history that are asked for. -/
theorem run [Text.Measure] (h : OfParts Q)
    (hrefuse : ∀ e, Q (throw (.markup e) : Action (List Section)))
    {op : Operation} (hback : op = .stepBack → Q stepBack)
    (hforward : op = .stepForward → Q stepForward) : Q op.run := by
  cases op with
  | write t wrap => exact h.silent (h.write t wrap)
  | writeRaw t => exact h.silent (h.emit _)
  | writeMarkup t => exact h.silent (h.writeMarkup hrefuse t)
  | writeSections sections wrap =>
    exact h.silent (h.look (fun _ _ _ _ => rfl) fun _ => h.writeSections sections _)
  | apply i => exact h.silent (h.apply i)
  | turnOn set => exact h.silent (h.turnOn set)
  | turnOff set => exact h.silent (h.turnOff set)
  | resetStyle => exact h.silent h.resetStyle
  | resetColors => exact h.silent h.resetColors
  | setForeground c => exact h.silent (h.setForeground c)
  | setBackground c => exact h.silent (h.setBackground c)
  | moveTo p => exact h.silent (h.moveTo p)
  | stepBack => exact h.telling (hback rfl)
  | stepForward => exact h.telling (hforward rfl)
  | moveBy delta => exact h.silent (h.moveBy delta)
  | moveToward d count => exact h.silent (h.moveBy _)
  | hideCursor => exact h.silent (h.send _)
  | showCursor => exact h.silent (h.send _)
  | clearScreen => exact h.silent h.clearScreen
  | erase what => exact h.silent (h.send _)
  | restore => exact h.silent h.restore
  | resize size => exact h.silent (h.resize size)

end OfParts

end Terminal

end TerminalPanes
