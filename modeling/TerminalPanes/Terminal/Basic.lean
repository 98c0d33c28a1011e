-- A terminal: the sink it writes to, the style and the cursor positions it
-- has recorded, its size and its settings. The record follows what was sent,
-- so a style that is already in force is not sent again. An operation that
-- fails keeps what it has changed until then.
import TerminalPanes.Sink
import TerminalPanes.Failure
import TerminalPanes.Cursor
import TerminalPanes.Style.Basic
import TerminalPanes.Markup.Reader
import TerminalPanes.Text.Clip

namespace TerminalPanes

/-- What happens to text beyond the right edge. -/
inductive Wrap where
  /-- It is left to the terminal, which wraps it. -/
  | allow
  /-- It is cut off. -/
  | clip
  deriving DecidableEq, Repr

/-- Settings chosen when a terminal is opened. -/
structure Config where
  historyLimit : Nat
  /-- The colours put back after every section of markup. -/
  foreground : Color
  background : Color
  /-- How markup is written unless told otherwise. -/
  wrap : Wrap
  deriving DecidableEq, Repr

def Config.default : Config := ⟨History.defaultLimit, Color.white, Color.black, .allow⟩

structure Terminal where
  sink : Sink
  style : Style
  history : History
  size : Size
  config : Config
  deriving DecidableEq, Repr

namespace Terminal

/-- A terminal operation: it ends with a result or an error, and with a new
state in both cases. -/
abbrev Action := EStateM TerminalError Terminal

/-! ## Sending -/

/-- Sends one emission and flushes. -/
def emit (e : Emission) : Action Unit := fun t =>
  match t.sink.offer e with
  | (true, sink) => .ok () { t with sink }
  | (false, sink) => .error (.fault .sinkFull) { t with sink }

def send (s : Sequence) : Action Unit := emit (.control s)

/-- Sends one rendition code for each attribute. -/
def sendRenditions (codes : List Nat) : Action Unit := codes.forM fun code => send (.rendition code)

/-- Sends characters for the terminal alone. The recorded cursor stays. -/
def writeRaw (t : Text) : Action Unit := emit (.raw t)

/-! ## Style -/

def setStyle (style : Style) : Action Unit := modify fun t => { t with style }

/-- Turns attributes on. Those already on are not sent. -/
def turnOn (set : Attributes) : Action Unit := do
  let style := (← get).style
  setStyle (style.enable set)
  sendRenditions ((style.turnedOn set).toList.map Attribute.onCode)

/-- Turns attributes off. Those already off are not sent. -/
def turnOff (set : Attributes) : Action Unit := do
  let style := (← get).style
  setStyle (style.disable set)
  sendRenditions ((style.turnedOff set).toList.map Attribute.offCode)

/-- Sets the foreground unless it is in force. -/
def setForeground (c : Color) : Action Unit := do
  let style := (← get).style
  if !style.hasForeground c then
    setStyle (style.withForeground c)
    send (.foreground c)

/-- Sets the background unless it is in force. -/
def setBackground (c : Color) : Action Unit := do
  let style := (← get).style
  if !style.hasBackground c then
    setStyle (style.withBackground c)
    send (.background c)

/-- Resets the style whatever it is, and forgets it. -/
def resetStyle : Action Unit := do
  send .reset
  setStyle Style.plain

/-- Puts the chosen colours back. -/
def resetColors : Action Unit := do
  setBackground (← get).config.background
  setForeground (← get).config.foreground

def apply : Instruction → Action Unit
  | .turnOn e => turnOn (Attributes.single e.attribute)
  | .foreground c => setForeground c
  | .background c => setBackground c

/-! ## Opening -/

/-- A terminal of which nothing is known to be in force yet. -/
def blank (sink : Sink) (size : Size) (config : Config) : Terminal where
  sink := sink
  style := Style.plain
  history := History.ofLimit config.historyLimit
  size := size
  config := config

/-- Resets the style and sends the chosen colours, so that the record is true
from the first byte on. -/
def opening : Action Unit := do
  resetStyle
  resetColors

/-! ## Cursor -/

def setHistory (history : History) : Action Unit := modify fun t => { t with history }

/-- The current cursor position, counted from one. -/
def currentCell : Action Point := do
  match (← get).history.current? with
  | some p => pure p
  | none => throw .missingHistory

/-- The logical cursor position, counted from zero. -/
def position? (t : Terminal) : Option Point := t.history.current?.map (· - ⟨1, 1⟩)

def position : Action Point := do
  let p ← currentCell
  pure (p - ⟨1, 1⟩)

/-- The terminal's own count of a logical coordinate. Negative coordinates stop
at the edge, and the count stays in the range of a word. -/
def cellOf (v : Int) : Int := min (max v 0 + 1) Decimal.wordMax

/-- Moves the cursor to a logical position and records it. -/
def moveTo (p : Point) : Action Unit := do
  let cell : Point := ⟨cellOf p.x, cellOf p.y⟩
  setHistory ((← get).history.push cell)
  send (.cursorTo cell)

/-- Steps to another entry of the history, if there is one. -/
def stepTo (step : History → Option History) : Action Bool := do
  match step (← get).history with
  | none => pure false
  | some history =>
    setHistory history
    send (.cursorTo (← currentCell))
    pure true

/-- Goes back to the position before. At the oldest there is none. -/
def stepBack : Action Bool := stepTo History.back?

/-- Takes back a step back. At the newest position there is none. -/
def stepForward : Action Bool := stepTo History.forward?

/-- Moves the cursor by a number of columns and rows. -/
def moveBy (delta : Point) : Action Unit := do
  moveTo ((← position) + delta)

/-- The direction decides the axis, and the count may be negative. -/
def moveToward (d : Direction) (count : Int) : Action Unit :=
  moveBy (match d with
    | .north => ⟨0, -count⟩
    | .south => ⟨0, count⟩
    | .west => ⟨-count, 0⟩
    | .east => ⟨count, 0⟩)

/-! ## Writing -/

/-- The columns from the cursor to the right edge, the cursor's own included.
There is no edge when the width is not known. -/
def remainingColumns : Action (Option Nat) := do
  let cols := (← get).size.cols
  if cols = 0 then pure none
  else
    let p ← currentCell
    pure (some (cols - p.x + 1).toNat)

/-- Moves the recorded cursor to the right. -/
def advance (columns : Nat) : Action Unit := do
  match (← get).history.advance? (min (columns : Int) Decimal.wordMax) with
  | some history => setHistory history
  | none => throw .missingHistory

variable [Text.Measure]

/-- Writes text at the cursor and moves the record by its width. -/
def write (t : Text) (wrap : Wrap) : Action Unit := do
  let visible := match wrap, ← remainingColumns with
    | .clip, some room => t.clip room
    | _, _ => t
  emit (.text visible)
  advance visible.width

/-- Writes one section in its own style, and leaves the plain style behind. -/
def writeSection (s : Section) (wrap : Wrap) : Action Unit := do
  s.instructions.forM apply
  write s.content wrap
  resetStyle
  resetColors

def writeSections (sections : List Section) (wrap : Wrap) : Action Unit :=
  sections.forM fun s => writeSection s wrap

/-- The result of reading markup, as a terminal operation. -/
def readMarkup (t : Text) : Action (List Section) :=
  match Markup.read t with
  | .ok sections => pure sections
  | .error e => throw (.markup e)

/-- Writes markup. Nothing is written unless all of it can be read. -/
def writeMarkup (t : Text) : Action Unit := do
  let sections ← readMarkup t
  writeSections sections (← get).config.wrap

/-! ## Screen -/

def hideCursor : Action Unit := send .hideCursor

def showCursor : Action Unit := send .showCursor

/-- Erases a part of the screen. The cursor stays. -/
def erase (what : Erase) : Action Unit := send (.erase what)

/-- Erases the screen and moves the cursor to its top left. -/
def clearScreen : Action Unit := do
  erase .screen
  moveTo Point.origin

/-- Leaves a plain style and a visible cursor. -/
def restore : Action Unit := do
  resetStyle
  showCursor

/-- Records a new size. -/
def resize (size : Size) : Action Unit := modify fun t => { t with size }

end Terminal

end TerminalPanes
