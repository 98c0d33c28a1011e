-- The command line of the showcase. Arguments are read from the left, and the
-- first fault or request for help decides.
import TerminalPanes.Terminal.Basic
import TerminalPanes.Pane.Glyphs

namespace TerminalPanes.Showcase

structure Options where
  /-- Markup for the top edge of the frame. -/
  title : Text
  borderWidth : Nat
  glyphs : Glyphs
  wrap : Wrap
  deriving DecidableEq, Repr

def Options.default : Options := ⟨"|b>perdita|".toList, 1, Glyphs.light, .allow⟩

/-- What the command line asks for. -/
inductive Request where
  | run (options : Options)
  | help
  deriving DecidableEq, Repr

/-- What is wrong with a command line. -/
inductive UsageError where
  | missingValue (option : Text)
  | invalidBorder (value : Text)
  | unknownArgument (argument : Text)
  deriving DecidableEq, Repr

def UsageError.message : UsageError → String
  | .missingValue option => String.ofList option ++ " needs a value"
  | .invalidBorder value => "invalid border width '" ++ String.ofList value ++ "'"
  | .unknownArgument argument => "unknown argument '" ++ String.ofList argument ++ "'"

namespace Request

/-- Reads the arguments on top of options already chosen. -/
def readOnto (options : Options) : List Text → Except UsageError Request
  | [] => .ok (.run options)
  | arg :: rest =>
    if arg = "-h".toList ∨ arg = "--help".toList then .ok .help
    else if arg = "--no-wrap".toList then readOnto { options with wrap := .clip } rest
    else if arg = "--double".toList then readOnto { options with glyphs := Glyphs.double } rest
    else if arg = "--title".toList then
      match rest with
      | [] => .error (.missingValue arg)
      | title :: rest => readOnto { options with title } rest
    else if arg = "--border".toList then
      match rest with
      | [] => .error (.missingValue arg)
      | value :: rest =>
        match Decimal.readShort? value with
        | some borderWidth => readOnto { options with borderWidth } rest
        | none => .error (.invalidBorder value)
    else .error (.unknownArgument arg)

/-- Reads the arguments. -/
def read (args : List Text) : Except UsageError Request := readOnto Options.default args

end Request

/-- What help shows. -/
def usage : String := String.join
  ["usage: perdita [options]\n",
   "\n",
   "options:\n",
   "  --title <markup>   title drawn on the frame border\n",
   "  --border <n>       frame border width, 0 for none (default 1)\n",
   "  --double           draw the frame with double lines\n",
   "  --no-wrap          clip text at the right edge instead of wrapping\n",
   "  -h, --help         show this help\n"]

end TerminalPanes.Showcase
