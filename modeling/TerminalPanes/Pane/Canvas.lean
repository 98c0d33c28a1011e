-- Writing in a pane. The pane is seen as it lies at the current terminal size
-- and is not changed, only the position where it last left the cursor is. A
-- move that would leave the padded area fails before anything is sent. What is
-- computed of corners is computed in words, and a number that leaves them ends
-- the operation where it is computed.
import TerminalPanes.Terminal.Basic
import TerminalPanes.Pane.Forest

namespace TerminalPanes

/-- A pane as it lies at one terminal size. -/
structure View where
  /-- There is none where a number leaves the words on the way to it. -/
  rect? : Option Rect
  padding : Padding
  title : Option Text
  glyphs : Glyphs
  deriving DecidableEq, Repr

/-- Which of the two rectangles of a pane is meant. -/
inductive Inset where
  | padded
  | unpadded
  deriving DecidableEq, Repr

namespace View

/-- The rectangle inside the padding. -/
def area? (v : View) : Option Rect := v.rect?.bind fun r => (r.inset v.padding).words?

def inside? (v : View) : Inset → Option Rect
  | .padded => v.area?
  | .unpadded => v.rect?

end View

/-- A terminal in the hands of a pane. -/
structure Canvas where
  terminal : Terminal
  /-- Where the pane last left the cursor. -/
  lastKnown : Option Point
  deriving DecidableEq, Repr

namespace Canvas

variable [Text.Measure]

/-- A pane operation. A failing one keeps what it has changed until then. -/
abbrev Action := EStateM PaneError Canvas

/-- Goes on with what was computed. Where there is nothing, a number has left the words. -/
def reckon {α : Type} : Option α → Action α
  | some a => pure a
  | none => throw .overflow

/-- A terminal operation on behalf of a pane. -/
def onTerminal {α : Type} (action : Terminal.Action α) : Action α := fun c =>
  match action c.terminal with
  | .ok a t => .ok a { c with terminal := t }
  | .error e t => .error (.terminal e) { c with terminal := t }

/-- Remembers where the cursor is. -/
def remember : Action Unit := do
  let p ← onTerminal Terminal.position
  modify fun c => { c with lastKnown := some p }

/-! ## Moving -/

/-- Moves to a logical position and remembers where that led. -/
def moveTo (p : Point) : Action Unit := do
  onTerminal (Terminal.moveTo p)
  remember

/-- Moves to a place that is computed from a rectangle. -/
def moveToPlace (r? : Option Rect) (place : Rect → Point) : Action Unit := do
  let r ← reckon r?
  moveTo (← reckon (place r).words?)

/-- Moves to a position counted from the start of the pane, wherever it is. -/
def moveToRelative (v : View) (p : Point) : Action Unit :=
  moveToPlace v.rect? fun r => r.start + p

/-- Moves to a position counted from the start of the padded area, which it
must not leave. -/
def moveToPadded (v : View) (p : Point) : Action Unit := do
  let area ← reckon v.area?
  let target ← reckon (area.start + p).words?
  if area.contains target then moveTo target else throw (.outOfBounds target area)

def moveToStart (v : View) (inset : Inset) : Action Unit := do
  let r ← reckon (v.inside? inset)
  moveTo r.start

/-- Moves to the last cell of the last row. -/
def moveToEnd (v : View) (inset : Inset) : Action Unit :=
  moveToPlace (v.inside? inset) fun r => r.stop - ⟨1, 1⟩

def moveToBottomLeft (v : View) (inset : Inset) : Action Unit :=
  moveToPlace (v.inside? inset) fun r => ⟨r.start.x, r.stop.y - 1⟩

def moveToTopRight (v : View) (inset : Inset) : Action Unit :=
  moveToPlace (v.inside? inset) fun r => ⟨r.stop.x - 1, r.start.y⟩

/-- Puts the cursor back where the pane last left it. -/
def focus : Action Unit := do
  match (← get).lastKnown with
  | some p => onTerminal (Terminal.moveTo p)
  | none => pure ()

/-! ## Writing -/

/-- Writes markup at the cursor. -/
def write (markup : Text) : Action Unit := do
  onTerminal (Terminal.writeMarkup markup)
  remember

/-- Sends characters for the terminal alone. -/
def writeRaw (t : Text) : Action Unit := do
  onTerminal (Terminal.writeRaw t)
  remember

/-- Writes text in the current style, cut off at the right edge. -/
def writeClipped (t : Text) : Action Unit := onTerminal (Terminal.write t .clip)

/-- Moves to the left margin of the next row, which must be in the padded
area. -/
def newline (v : View) : Action Unit := do
  let area ← reckon v.area?
  let row := (← onTerminal Terminal.position).y + 1
  if area.stop.y ≤ row then throw (.belowBottom row area.stop.y)
  moveTo ⟨area.start.x, row⟩

def writeOnNewline (v : View) (markup : Text) : Action Unit := do
  newline v
  write markup

/-- Writes lines of markup from the start of the padded area downwards. Lines
that find no row are dropped. -/
def writeLines (v : View) (lines : List Text) : Action Unit := do
  moveToStart v .padded
  match lines with
  | [] => pure ()
  | first :: rest =>
    write first
    writeRest rest
where
  /-- The lines after the first. -/
  writeRest : List Text → Action Unit
    | [] => pure ()
    | line :: rest => fun c =>
      match writeOnNewline v line c with
      | .ok _ c => writeRest rest c
      | .error e c => if e.isOutOfBounds then .ok () c else .error e c

/-! ## Clearing -/

/-- Blanks that cover a number of columns. -/
def blank (columns : Int) : Text := List.replicate columns.toNat ' '

/-- Blanks out the padded area and moves to its start. -/
def clear (v : View) : Action Unit := do
  let area ← reckon v.area?
  let columns ← reckon (Decimal.word? area.width)
  area.rows.forM fun y => do
    moveTo ⟨area.start.x, y⟩
    writeClipped (blank columns)
  moveTo area.start

/-- Blanks out the cursor's row across the padded area and moves to its left
margin. The columns are counted once the cursor has moved. -/
def clearLine (v : View) : Action Unit := do
  let r ← reckon v.rect?
  let start ← reckon (r.inset v.padding).start.words?
  let left : Point := ⟨start.x, (← onTerminal Terminal.position).y⟩
  moveTo left
  let area ← reckon v.area?
  let columns ← reckon (Decimal.word? area.width)
  writeClipped (blank columns)
  moveTo left

end Canvas

end TerminalPanes
