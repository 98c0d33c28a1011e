-- A workspace: one terminal, the panes over it and the keys that come in. A
-- pane operation looks at the pane as it lies at the terminal's current size
-- and changes no other pane.
import TerminalPanes.Pane.Border

namespace TerminalPanes

structure Workspace where
  terminal : Terminal
  panes : Forest
  keys : KeyInput

namespace Workspace

/-- A workspace operation. A failing one keeps what it has changed until
then. -/
abbrev Action := EStateM PaneError Workspace

/-- A workspace without panes, over a terminal that is not open yet. -/
def blank (sink : Sink) (size : Size) (config : Config) (script : Script) : Workspace :=
  ⟨Terminal.blank sink size config, [], KeyInput.ofScript script⟩

/-! ## Parts -/

def onTerminal {α : Type} (action : Terminal.Action α) : Action α := fun w =>
  match action w.terminal with
  | .ok a t => .ok a { w with terminal := t }
  | .error e t => .error (.terminal e) { w with terminal := t }

/-- Opens the terminal. -/
def opening : Action Unit := onTerminal Terminal.opening

def onPanes {α : Type} (change : Forest → α × Forest) : Action α := fun w =>
  let (a, panes) := change w.panes
  .ok a { w with panes := panes }

/-- A pane as it lies at a terminal size. -/
def view (w : Workspace) (size : Size) (id : Nat) : View :=
  let pane := w.panes.pane id
  ⟨Forest.rectOf? size w.panes id, pane.padding, pane.title, pane.glyphs⟩

/-- The corners of a pane, as they follow from the panes at present. -/
def corners (w : Workspace) (id : Nat) : Corner × Corner :=
  (w.panes.pane id).placement.corners fun size parent => Forest.areaOf? size w.panes parent

/-- Changes what belongs to one pane alone. -/
def changePane (id : Nat) (change : Pane → Pane) : Action Unit :=
  onPanes fun panes => ((), panes.modify change id)

/-- Hands the terminal to a pane. -/
def onPane {α : Type} (id : Nat) (action : View → Canvas.Action α) : Action α := fun w =>
  let leave (c : Canvas) : Workspace :=
    { w with
      terminal := c.terminal
      panes := w.panes.modify (fun p => { p with lastKnown := c.lastKnown }) id }
  match action (w.view w.terminal.size id) ⟨w.terminal, (w.panes.pane id).lastKnown⟩ with
  | .ok a c => .ok a (leave c)
  | .error e c => .error e (leave c)

/-- Waits for the next key. -/
def readKey : Action Key := fun w =>
  match w.keys.next with
  | (.ok key, keys) => .ok key { w with keys := keys }
  | (.error f, keys) => .error (.terminal (.fault f)) { w with keys := keys }

/-- More reads for the keys to come from. -/
def feed (script : Script) : Action Unit :=
  modify fun w => { w with keys := w.keys.feed script }

/-! ## Panes -/

def newPane (placement : Placement) : Action Nat := onPanes fun panes => panes.add placement

/-- Divides a pane. Each detail gives a child. -/
def split (id : Nat) (details : List Detail) : Action (List Nat) :=
  onPanes fun panes => panes.split id details

/-- Forgets a pane. The panes below it keep their places. -/
def dropPane (id : Nat) : Action Unit := changePane id fun p => { p with dropped := true }

end Workspace

end TerminalPanes
