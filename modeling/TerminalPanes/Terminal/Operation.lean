-- The operations of a terminal as values, so that runs of them can be spoken
-- of.
import TerminalPanes.Terminal.Basic

namespace TerminalPanes

namespace Terminal

inductive Operation where
  | write (t : Text) (wrap : Wrap)
  | writeRaw (t : Text)
  | writeMarkup (t : Text)
  /-- Sections, with a wrap in place of the configured one. -/
  | writeSections (sections : List Section) (wrap : Option Wrap)
  | apply (instruction : Instruction)
  | turnOn (set : Attributes)
  | turnOff (set : Attributes)
  | resetStyle
  | resetColors
  | setForeground (color : Color)
  | setBackground (color : Color)
  | moveTo (p : Point)
  | stepBack
  | stepForward
  | moveBy (delta : Point)
  | moveToward (d : Direction) (count : Int)
  | hideCursor
  | showCursor
  | clearScreen
  | erase (what : Erase)
  | restore
  | resize (size : Size)
  deriving DecidableEq, Repr

namespace Operation

/-- An operation that has nothing to tell. -/
def silent (action : Action Unit) : Action (Option Bool) := do
  action
  pure none

/-- An operation that tells whether it did something. -/
def telling (action : Action Bool) : Action (Option Bool) := do
  pure (some (← action))

variable [Text.Measure]

/-- Does the operation. -/
def run : Operation → Action (Option Bool)
  | .write t wrap => silent (Terminal.write t wrap)
  | .writeRaw t => silent (Terminal.writeRaw t)
  | .writeMarkup t => silent (Terminal.writeMarkup t)
  | .writeSections sections wrap => silent do
    Terminal.writeSections sections (wrap.getD (← get).config.wrap)
  | .apply i => silent (Terminal.apply i)
  | .turnOn set => silent (Terminal.turnOn set)
  | .turnOff set => silent (Terminal.turnOff set)
  | .resetStyle => silent Terminal.resetStyle
  | .resetColors => silent Terminal.resetColors
  | .setForeground c => silent (Terminal.setForeground c)
  | .setBackground c => silent (Terminal.setBackground c)
  | .moveTo p => silent (Terminal.moveTo p)
  | .stepBack => telling Terminal.stepBack
  | .stepForward => telling Terminal.stepForward
  | .moveBy delta => silent (Terminal.moveBy delta)
  | .moveToward d count => silent (Terminal.moveToward d count)
  | .hideCursor => silent Terminal.hideCursor
  | .showCursor => silent Terminal.showCursor
  | .clearScreen => silent Terminal.clearScreen
  | .erase what => silent (Terminal.erase what)
  | .restore => silent Terminal.restore
  | .resize size => silent (Terminal.resize size)

/-- Does operations one after another. The first that fails ends it. -/
def runAll : List Operation → Action Unit
  | [] => pure ()
  | op :: rest => do
    let _ ← op.run
    runAll rest

end Operation

end Terminal

end TerminalPanes
