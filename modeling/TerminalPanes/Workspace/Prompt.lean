-- Questions asked in a pane. The message is markup, and the pane remembers
-- where it ended. A key that says nothing is passed over, and later keys are
-- left for others.
import TerminalPanes.Workspace.Basic

namespace TerminalPanes.Workspace

/-- What is asked when no message is given. -/
def defaultQuestion : Text := "Please Confirm".toList

/-- What is said when no message is given. -/
def defaultPause : Text := "|i>Press any key to continue...|".toList

/-- Stands after every question. -/
def choices : Text := " (|fg[green]>y|/|fg[red]>n|)".toList

/-- What a key says to a question, if it says anything. The letters `y` and `n`
and Escape answer whatever is held with them, `c` only with ctrl. -/
def answer? (key : Key) : Option Bool :=
  match key.code with
  | .char 'c' => if key.modifiers.ctrl then some false else none
  | .char 'y' => some true
  | .char 'n' | .escape => some false
  | _ => none

variable [Text.Measure]

/-- Asks a question and waits for a yes or a no. -/
def confirm (id : Nat) (message : Option Text) : Action Bool := do
  onPane id fun _ => Canvas.write (message.getD defaultQuestion ++ choices)
  fun w =>
    match w.keys.await answer? with
    | (.ok answer, keys) => .ok answer { w with keys := keys }
    | (.error f, keys) => .error (.terminal (.fault f)) { w with keys := keys }

/-- Says something and waits for any key. -/
def pause (id : Nat) (message : Option Text) : Action Unit := do
  onPane id fun _ => Canvas.write (message.getD defaultPause)
  let _ ← readKey

end TerminalPanes.Workspace
