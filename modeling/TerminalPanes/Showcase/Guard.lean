-- The hold on the screen. The screen is taken over once and given back once,
-- whoever asks. Giving it back lets go of it before anything is sent, so what
-- comes after finds nothing to do, even if the sequences were refused.
import TerminalPanes.Workspace.Basic

namespace TerminalPanes.Showcase

/-! ## Sequences -/

/-- Saves the screen and hides the cursor. -/
def entering : List Sequence := [.saveScreen, .hideCursor]

/-- Leaves a plain style, a visible cursor and the saved screen. -/
def leaving : List Sequence := [.reset, .showCursor, .restoreScreen]

/-! ## Stages -/

/-- A workspace, and whether the screen is held for it. -/
structure Stage where
  held : Bool
  workspace : Workspace

namespace Stage

/-- An action with the hold at hand. A failing one keeps what it has changed until then. -/
abbrev Action := EStateM PaneError Stage

/-- A workspace for which the screen is not held yet. -/
def free (w : Workspace) : Stage := ⟨false, w⟩

/-- Does something in the workspace. The hold stays as it is. -/
def work {α : Type} (action : Workspace.Action α) : Action α := fun s =>
  match action s.workspace with
  | .ok a w => .ok a { s with workspace := w }
  | .error e w => .error e { s with workspace := w }

/-- Sends sequences that the terminal's record knows nothing of. -/
def send (sequences : List Sequence) : Action Unit :=
  work (Workspace.onTerminal (sequences.forM Terminal.send))

def setHeld (held : Bool) : Action Unit := modify fun s => { s with held }

/-- Takes the screen over. Where it is held already nothing is done. -/
def enter : Action Unit := do
  if !(← get).held then
    send entering
    setHeld true

/-- Gives the screen back. Where it is not held nothing is done. -/
def leave : Action Unit := do
  if (← get).held then
    setHeld false
    send leaving

/-- What is left when the hold goes out of use: the screen was given back, and nobody is told
if that went wrong. -/
def drop (s : Stage) : Stage :=
  match leave s with
  | .ok _ s | .error _ s => s

end Stage

end TerminalPanes.Showcase
