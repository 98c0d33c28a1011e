-- The showcase on a real terminal. This layer passes bytes in and out and
-- decides nothing.
import TerminalPanes.Showcase.Program
import TerminalPanes.Text.Tables

namespace TerminalPanes.CommandLine

open scoped Text.Tables
open Showcase (Stage)

/-- Sends bytes to the terminal. -/
def emitBytes (bytes : List UInt8) : IO Unit := do
  let out ← IO.getStdout
  out.write ⟨bytes.toArray⟩
  out.flush

/-- A count of cells from the environment, or zero. -/
def cellsFromEnv (name : String) : IO UInt16 := do
  return UInt16.ofNat (((← IO.getEnv name).bind fun s => Decimal.readShort? s.toList).getD 0)

/-- The size of the terminal. It is not known where there is none. -/
def windowSize : IO Size := do
  if (← (← IO.getStdout).isTty) || (← (← IO.getStdin).isTty) then
    let size : Size := ⟨← cellsFromEnv "COLUMNS", ← cellsFromEnv "LINES"⟩
    return size.known
  else
    return Size.unknown

/-- Opens the log if the environment asks for one. -/
def openLog : IO (Option Showcase.LogFailure) := do
  match ← IO.getEnv "PERDITA_LOG" with
  | none => return none
  | some _ =>
    let path := (← IO.getEnv "PERDITA_LOG_FILE").getD "perdita.log"
    try
      IO.FS.writeFile path ""
      return none
    catch
      | .noFileOrDirectory .. => return some (.notFound path)
      | .permissionDenied .. => return some (.notAllowed path)
      | e => return some ⟨path, toString e⟩

/-- The next key from the standard input. -/
partial def nextKey (reader : KeyReader) : IO (Except Fault Key) := do
  if reader.ready.isEmpty then
    let read ← try
        pure (Except.ok (← (← IO.getStdin).read (USize.ofNat Script.readMost)))
      catch e => pure (Except.error (toString e))
    match read with
    | .error reason => return .error (.inputFailed reason.toList)
    | .ok bytes =>
      if bytes.isEmpty then return (KeyInput.takeOrClosed reader.close []).1
      else nextKey (reader.receive bytes.toList)
  else
    return (KeyInput.takeOrClosed reader []).1

/-- Sends what was written since an earlier state. -/
def emitSince (before after : Stage) : IO Unit :=
  emitBytes (before.workspace.terminal.sink.bytesSince after.workspace.terminal.sink)

/-- Does a part of the work and sends what it writes. The error that ended it
early comes with the result. -/
def perform (action : Stage.Action Unit) (s : Stage) :
    IO (Option PaneError × Stage) := do
  let (failure, after) := match action s with
    | .ok _ after => (none, after)
    | .error e after => (some e, after)
  emitSince s after
  return (failure, after)

/-- Takes the screen over, draws, waits for a key, clears up and gives the screen back. The
error that ended it early comes with the result. -/
def present (options : Showcase.Options) (s : Stage) :
    IO (Option PaneError × Stage) := do
  let (failure, s) ← perform (Stage.enter >>= fun _ => Stage.work (Showcase.greet options)) s
  if failure.isSome then return (failure, s)
  match ← nextKey KeyReader.empty with
  | .error f => return (some (.terminal (.fault f)), s)
  | .ok _ => perform (Stage.work Showcase.finish >>= fun _ => Stage.leave) s

/-- Runs on the terminal and gives the exit code. -/
def runOn (options : Showcase.Options) : IO UInt32 := do
  let (failure, s) ← present options (.free (Showcase.workspace options (← windowSize) []))
  emitSince s s.drop
  match failure with
  | none => return 0
  | some e =>
    IO.eprint (Showcase.remark e.message)
    return 1

/-- Prints a report and gives its exit code. -/
def deliver (report : Showcase.Report) : IO UInt32 := do
  emitBytes report.output
  IO.eprint report.errors
  return UInt32.ofNat report.code

end TerminalPanes.CommandLine

open TerminalPanes CommandLine in
def main (args : List String) : IO UInt32 := do
  match Showcase.Request.read (args.map String.toList) with
  | .error e => deliver (Showcase.Report.misuse e)
  | .ok .help => deliver Showcase.Report.help
  | .ok (.run options) =>
    if let some failure ← openLog then
      IO.eprint (Showcase.remark failure.message)
    runOn options
