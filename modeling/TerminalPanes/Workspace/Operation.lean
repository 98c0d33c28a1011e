-- The operations of a workspace as values, what they answer, and runs of
-- them. A run goes on after an operation that failed.
import TerminalPanes.Terminal.Operation
import TerminalPanes.Workspace.Prompt

namespace TerminalPanes.Workspace

/-- What is done in one pane. -/
inductive PaneOperation where
  | drop
  | split (details : List Detail)
  | setPadding (padding : Padding)
  | setBorderWidth (width : Nat)
  /-- Sets the title, or takes it away. -/
  | setTitle (title : Option Text)
  | setGlyphs (glyphs : Glyphs)
  | moveTo (p : Point)
  | moveToRelative (p : Point)
  | moveToPadded (p : Point)
  | moveToStart (inset : Inset)
  | moveToEnd (inset : Inset)
  | moveToBottomLeft (inset : Inset)
  | moveToTopRight (inset : Inset)
  | write (markup : Text)
  | writeRaw (t : Text)
  | writeOnNewline (markup : Text)
  | writeLines (lines : List Text)
  | focus
  | clear
  | clearLine
  | newline
  | drawBorder
  | confirm (message : Option Text)
  | pause (message : Option Text)

inductive Operation where
  | terminal (op : Terminal.Operation)
  | newPane (placement : Placement)
  | onPane (id : Nat) (op : PaneOperation)
  | feed (chunks : List Read)
  | readKey

/-- What an operation answers. -/
inductive Answer where
  | nothing
  | truth (b : Bool)
  | key (key : Key)
  /-- The number of a new pane. -/
  | pane (id : Nat)
  | panes (ids : List Nat)
  deriving DecidableEq, Repr

/-! ## Doing -/

variable [Text.Measure]

/-- An operation that has nothing to tell. -/
def silent (action : Action Unit) : Action Answer := do
  action
  pure .nothing

namespace PaneOperation

def run (id : Nat) : PaneOperation → Action Answer
  | .drop => silent (dropPane id)
  | .split details => return .panes (← Workspace.split id details)
  | .setPadding padding => silent (changePane id fun p => p.setPadding padding)
  | .setBorderWidth width => silent (changePane id fun p => p.setBorderWidth width)
  | .setTitle title => silent (changePane id fun p => { p with title := title })
  | .setGlyphs glyphs => silent (changePane id fun p => { p with glyphs := glyphs })
  | .moveTo p => silent (Workspace.onPane id fun _ => Canvas.moveTo p)
  | .moveToRelative p => silent (Workspace.onPane id fun v => Canvas.moveToRelative v p)
  | .moveToPadded p => silent (Workspace.onPane id fun v => Canvas.moveToPadded v p)
  | .moveToStart inset => silent (Workspace.onPane id fun v => Canvas.moveToStart v inset)
  | .moveToEnd inset => silent (Workspace.onPane id fun v => Canvas.moveToEnd v inset)
  | .moveToBottomLeft inset =>
    silent (Workspace.onPane id fun v => Canvas.moveToBottomLeft v inset)
  | .moveToTopRight inset => silent (Workspace.onPane id fun v => Canvas.moveToTopRight v inset)
  | .write markup => silent (Workspace.onPane id fun _ => Canvas.write markup)
  | .writeRaw t => silent (Workspace.onPane id fun _ => Canvas.writeRaw t)
  | .writeOnNewline markup => silent (Workspace.onPane id fun v => Canvas.writeOnNewline v markup)
  | .writeLines lines => silent (Workspace.onPane id fun v => Canvas.writeLines v lines)
  | .focus => silent (Workspace.onPane id fun _ => Canvas.focus)
  | .clear => silent (Workspace.onPane id Canvas.clear)
  | .clearLine => silent (Workspace.onPane id Canvas.clearLine)
  | .newline => silent (Workspace.onPane id Canvas.newline)
  | .drawBorder => silent (Workspace.onPane id Canvas.drawBorder)
  | .confirm message => return .truth (← Workspace.confirm id message)
  | .pause message => silent (Workspace.pause id message)

end PaneOperation

namespace Operation

/-- Does the operation. -/
def run : Operation → Action Answer
  | .terminal op => return ((← onTerminal op.run).map Answer.truth).getD .nothing
  | .newPane placement => return .pane (← Workspace.newPane placement)
  | .onPane id op => op.run id
  | .feed chunks => silent (Workspace.feed (Script.ofChunks chunks))
  | .readKey => return .key (← Workspace.readKey)

end Operation

/-! ## Runs -/

/-- How one operation ended and what it left behind. -/
structure Outcome where
  result : Except PaneError Answer
  workspace : Workspace

/-- Does one operation. -/
def step (w : Workspace) (op : Operation) : Outcome :=
  match op.run w with
  | .ok answer w => ⟨.ok answer, w⟩
  | .error e w => ⟨.error e, w⟩

/-- Does the operations one after the other, whether or not they fail. -/
def play (w : Workspace) : List Operation → List Outcome
  | [] => []
  | op :: rest =>
    let outcome := w.step op
    outcome :: outcome.workspace.play rest

/-- The workspace after the operations. -/
def after (w : Workspace) (ops : List Operation) : Workspace :=
  ops.foldl (fun w op => (w.step op).workspace) w

end TerminalPanes.Workspace
