-- The showcase from its arguments to its exit code. It takes over the screen,
-- draws, waits for a key and gives the screen back, also when it fails.
import TerminalPanes.Showcase.Screen
import TerminalPanes.Showcase.Guard

namespace TerminalPanes.Showcase

variable [Text.Measure]

/-! ## The session -/

/-- Settings of the terminal for some options. -/
def Options.config (options : Options) : Config := { Config.default with wrap := options.wrap }

/-- Opens the terminal, draws and says what to do next. What remains is to wait
for a key. -/
def greet (options : Options) : Workspace.Action Unit := do
  Workspace.opening
  let frame ← draw options
  Workspace.onPane frame fun v => Canvas.moveToBottomLeft v .padded
  Workspace.onPane frame fun _ => Canvas.write Workspace.defaultPause

/-- Clears up after the key. -/
def finish : Workspace.Action Unit := do
  Workspace.onTerminal Terminal.clearScreen
  Workspace.onTerminal Terminal.restore

/-- Everything between taking the screen over and giving it back. -/
def perform (options : Options) : Workspace.Action Unit := do
  greet options
  let _ ← Workspace.readKey
  finish

/-- A run that goes well gives the screen back itself. -/
def session (options : Options) : Stage.Action Unit := do
  Stage.enter
  Stage.work (perform options)
  Stage.leave

/-! ## What a run leaves behind -/

structure Report where
  code : Nat
  output : List UInt8
  errors : String
  deriving DecidableEq, Repr

/-- A line of the program about itself. -/
def remark (message : String) : String := "perdita: " ++ message ++ "\n"

def Report.help : Report := ⟨0, Text.bytes usage.toList, ""⟩

def Report.misuse (e : UsageError) : Report := ⟨2, [], remark (e.message ++ "\n\n" ++ usage)⟩

/-- A workspace that takes all output. -/
def workspace (options : Options) (size : Size) (script : Script) : Workspace :=
  Workspace.blank Sink.unlimited size options.config script

/-- All that was written once the hold on the screen is out of use. -/
def Stage.output (s : Stage) : List UInt8 := s.drop.workspace.terminal.sink.bytes

/-- Runs with options on a terminal of a size, with keys from a script. -/
def runWith (options : Options) (size : Size) (script : Script) : Report :=
  match session options (.free (workspace options size script)) with
  | .ok _ s => ⟨0, s.output, ""⟩
  | .error e s => ⟨1, s.output, remark e.message⟩

/-- A log that was asked for and could not be opened. -/
structure LogFailure where
  path : String
  reason : String
  deriving DecidableEq, Repr

/-- The log cannot be where it was asked for. -/
def LogFailure.notFound (path : String) : LogFailure :=
  ⟨path, "No such file or directory (os error 2)"⟩

def LogFailure.notAllowed (path : String) : LogFailure :=
  ⟨path, "Permission denied (os error 13)"⟩

def LogFailure.message (f : LogFailure) : String :=
  "cannot open log file " ++ f.path ++ ": " ++ f.reason

/-- Runs with arguments. The log is opened only once they have been read, and
a failure to open it is told and does no harm. -/
def run (args : List Text) (log : Option LogFailure) (size : Size) (script : Script) : Report :=
  match Request.read args with
  | .error e => Report.misuse e
  | .ok .help => Report.help
  | .ok (.run options) =>
    let report := runWith options size script
    { report with errors := ((log.map fun f => remark f.message).getD "") ++ report.errors }

end TerminalPanes.Showcase
