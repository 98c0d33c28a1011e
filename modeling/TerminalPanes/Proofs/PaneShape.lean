-- The shape of a pane: its place, its padding and its border. Nothing that is
-- done in a workspace touches it but what sets the padding or the border of that
-- pane. So after any run a pane has the place it was made with and what the run
-- set on it.
import TerminalPanes.Workspace.Operation
import TerminalPanes.Proofs.PaneForest

namespace TerminalPanes

/-! ## The shape of a pane -/

/-- What decides where a pane and the parts of it lie. -/
structure Pane.Shape where
  placement : Placement
  padding : Padding
  borderWidth : Nat

def Pane.shape (p : Pane) : Shape := ⟨p.placement, p.padding, p.borderWidth⟩

namespace Workspace

/-! ## Actions that leave every shape alone -/

variable {α β : Type}

/-- The workspace that an action leaves behind, however it ends. -/
def left (m : Action α) (w : Workspace) : Workspace :=
  match m w with
  | .ok _ w' | .error _ w' => w'

theorem workspace_step [Text.Measure] (w : Workspace) (op : Operation) :
    (w.step op).workspace = left op.run w := by
  unfold step left
  cases op.run w <;> rfl

/-- However the action ends, every pane keeps its shape. -/
def KeepsShapes (m : Action α) : Prop :=
  ∀ w, Forest.Keeps Pane.shape w.panes (left m w).panes

namespace KeepsShapes

theorem of_panes_eq {m : Action α} (h : ∀ w, (left m w).panes = w.panes) : KeepsShapes m := by
  intro w
  rw [h w]
  exact Forest.Keeps.refl _ _

theorem bind {m : Action α} {f : α → Action β} (hm : KeepsShapes m)
    (hf : ∀ a, KeepsShapes (f a)) : KeepsShapes (m >>= f) := by
  intro w
  have hfirst := hm w
  unfold left at hfirst ⊢
  change Forest.Keeps _ _ (match EStateM.bind m f w with | .ok _ w' | .error _ w' => w').panes
  unfold EStateM.bind
  cases h : m w with
  | ok a u =>
    rw [h] at hfirst
    exact hfirst.trans (hf a u)
  | error e u =>
    rw [h] at hfirst
    exact hfirst

theorem pure (a : α) : KeepsShapes (Pure.pure a : Action α) := of_panes_eq fun _ => rfl

theorem silent {action : Action Unit} (h : KeepsShapes action) : KeepsShapes (silent action) :=
  bind h fun _ => pure _

theorem onTerminal (action : Terminal.Action α) : KeepsShapes (onTerminal action) := by
  refine of_panes_eq fun w => ?_
  unfold left Workspace.onTerminal
  cases action w.terminal <;> rfl

theorem changePane {change : Pane → Pane} (h : ∀ p, (change p).shape = p.shape) (id : Nat) :
    KeepsShapes (changePane id change) := fun w => Forest.Keeps.modify h w.panes id

/-- What is done in a pane changes nothing of it but the place of its cursor. -/
theorem onPane (id : Nat) (action : View → Canvas.Action α) : KeepsShapes (onPane id action) := by
  intro w
  unfold left Workspace.onPane
  dsimp only
  cases action (w.view w.terminal.size id) ⟨w.terminal, (w.panes.pane id).lastKnown⟩ <;>
    exact Forest.Keeps.modify (fun _ => by rfl) w.panes id

theorem readKey : KeepsShapes readKey := by
  refine of_panes_eq fun w => ?_
  unfold left Workspace.readKey
  rcases w.keys.next with ⟨_ | _, keys⟩ <;> rfl

theorem confirm [Text.Measure] (id : Nat) (message : Option Text) :
    KeepsShapes (confirm id message) := by
  refine bind (onPane id _) fun _ => of_panes_eq fun w => ?_
  unfold left
  dsimp only
  rcases w.keys.await answer? with ⟨_ | _, keys⟩ <;> rfl

theorem pause [Text.Measure] (id : Nat) (message : Option Text) : KeepsShapes (pause id message) :=
  bind (onPane id _) fun _ => bind readKey fun _ => pure ()

end KeepsShapes

/-! ## What is set on a pane -/

/-- What an operation in a pane sets on it: its padding, its border or nothing. -/
def PaneOperation.sets : PaneOperation → Pane → Pane
  | .setPadding padding, p => p.setPadding padding
  | .setBorderWidth width, p => p.setBorderWidth width
  | _, p => p

/-- What an operation sets on the pane of a number. -/
def Operation.setsOn (id : Nat) : Operation → Pane → Pane
  | .onPane other op, p => if other = id then op.sets p else p
  | _, p => p

/-- A pane after what the operations set on it, in their order. -/
def setOn (ops : List Operation) (id : Nat) (p : Pane) : Pane :=
  ops.foldl (fun p op => op.setsOn id p) p

/-- What is set depends on what was set before and on nothing else of the pane. -/
theorem PaneOperation.shape_sets {p q : Pane} (h : p.shape = q.shape) (op : PaneOperation) :
    (op.sets p).shape = (op.sets q).shape := by
  injection h with hplace hpadding hborder
  cases op <;> simp_all [sets, Pane.shape, Pane.setPadding, Pane.setBorderWidth]

theorem Operation.shape_setsOn {p q : Pane} (h : p.shape = q.shape) (id : Nat) (op : Operation) :
    (op.setsOn id p).shape = (op.setsOn id q).shape := by
  cases op with
  | onPane other op =>
    unfold setsOn
    dsimp only
    by_cases heq : other = id
    · rw [if_pos heq, if_pos heq]
      exact op.shape_sets h
    · rw [if_neg heq, if_neg heq]
      exact h
  | _ => exact h

theorem shape_setOn {p q : Pane} (h : p.shape = q.shape) {id : Nat} (ops : List Operation) :
    (setOn ops id p).shape = (setOn ops id q).shape := by
  induction ops generalizing p q with
  | nil => exact h
  | cons op rest ih => exact ih (op.shape_setsOn h id)

theorem PaneOperation.placement_sets (op : PaneOperation) (p : Pane) :
    (op.sets p).placement = p.placement := by
  cases op <;> rfl

theorem Operation.placement_setsOn (op : Operation) (id : Nat) (p : Pane) :
    (op.setsOn id p).placement = p.placement := by
  unfold setsOn
  split
  · split
    · exact PaneOperation.placement_sets _ p
    · rfl
  · rfl

theorem placement_setOn (ops : List Operation) (id : Nat) (p : Pane) :
    (setOn ops id p).placement = p.placement := by
  induction ops generalizing p with
  | nil => rfl
  | cons op rest ih => exact (ih _).trans (op.placement_setsOn id p)

variable {w : Workspace} {id : Nat} {p : Pane}

theorem shape_changePane {other : Nat} (change : Pane → Pane) (h : w.panes.pane? id = some p) :
    ∃ p', (left (silent (changePane other change)) w).panes.pane? id = some p' ∧
      p'.shape = (if other = id then change p else p).shape := by
  change ∃ p', (w.panes.modify change other).pane? id = some p' ∧ _
  split
  · rename_i heq
    subst heq
    exact ⟨_, Forest.pane?_modify_self h, rfl⟩
  · rename_i hne
    exact ⟨p, by rw [Forest.pane?_modify_of_ne (Ne.symm hne), h], rfl⟩

/-- One operation leaves every pane where it is, with what it sets on it. -/
theorem shape_step [Text.Measure] (w : Workspace) (op : Operation) (h : w.panes.pane? id = some p) :
    ∃ p', (w.step op).workspace.panes.pane? id = some p' ∧ p'.shape = (op.setsOn id p).shape := by
  rw [workspace_step]
  have of_keeps : ∀ {m : Action Answer}, KeepsShapes m →
      ∃ p', (left m w).panes.pane? id = some p' ∧ p'.shape = p.shape := fun hm => (hm w).kept h
  cases op with
  | terminal op => exact of_keeps (.bind (.onTerminal _) fun _ => .pure _)
  | newPane placement =>
    obtain ⟨p', hp'⟩ := (Forest.Keeps.cons Pane.shape (Pane.ofPlacement placement) w.panes).kept h
    exact ⟨p', hp'⟩
  | feed chunks => exact of_keeps (.silent (.of_panes_eq fun _ => rfl))
  | readKey => exact of_keeps (.bind .readKey fun _ => .pure _)
  | onPane other op =>
    -- An operation that sets nothing on its own pane sets nothing on any pane.
    have of_unset : ∀ {m : Action Answer}, KeepsShapes m →
        ∃ p', (left m w).panes.pane? id = some p' ∧
          p'.shape = (if other = id then p else p).shape := by
      intro m hm
      rw [ite_self]
      exact of_keeps hm
    cases op with
    | setPadding padding => exact shape_changePane _ h
    | setBorderWidth width => exact shape_changePane _ h
    | drop => exact of_unset (.silent (.changePane (fun _ => by rfl) other))
    | setTitle title => exact of_unset (.silent (.changePane (fun _ => by rfl) other))
    | setGlyphs glyphs => exact of_unset (.silent (.changePane (fun _ => by rfl) other))
    | split details =>
      exact of_unset (.bind (fun w => Forest.Keeps.split _ w.panes other details) fun _ => .pure _)
    | confirm message => exact of_unset (.bind (.confirm other message) fun _ => .pure _)
    | pause message => exact of_unset (.silent (.pause other message))
    | _ => exact of_unset (.silent (.onPane other _))

/-- A run leaves every pane where it is, with all that was set on it. -/
theorem shape_after [Text.Measure] (ops : List Operation) (w : Workspace)
    (h : w.panes.pane? id = some p) :
    ∃ p', (w.after ops).panes.pane? id = some p' ∧ p'.shape = (setOn ops id p).shape := by
  induction ops generalizing w p with
  | nil => exact ⟨p, h, rfl⟩
  | cons op rest ih =>
    obtain ⟨p', hp', hshape⟩ := shape_step w op h
    obtain ⟨p'', hp'', hshape'⟩ := ih _ hp'
    exact ⟨p'', hp'', hshape'.trans (shape_setOn hshape rest)⟩

theorem keeps_placement [Text.Measure] (ops : List Operation) (w : Workspace) :
    Forest.Keeps Pane.placement w.panes (w.after ops).panes := by
  refine ⟨fun {id p} hp => ?_⟩
  obtain ⟨p', hp', hshape⟩ := shape_after ops w hp
  injection hshape with hplace
  exact ⟨p', hp', hplace.trans (placement_setOn ops id p)⟩

end Workspace

end TerminalPanes
