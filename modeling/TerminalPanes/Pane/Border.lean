-- Borders. The frame runs along the edge of a pane, and a title stands in the
-- middle of the top edge between two brackets. A pane of less than two rows
-- or columns has no border.
import TerminalPanes.Pane.Canvas
import TerminalPanes.Markup.Cut

namespace TerminalPanes.Canvas

variable [Text.Measure]

/-- Draws the edges, top to bottom. -/
def drawFrame (g : Glyphs) (r : Rect) : Action Unit := do
  moveTo r.start
  writeClipped (g.edge g.topLeft g.topRight r.width.toNat)
  (Rect.rowsBetween (r.start.y + 1) (r.stop.y - 1)).forM fun y => do
    moveTo ⟨r.start.x, y⟩
    writeClipped [g.vertical]
    moveTo ⟨r.stop.x - 1, y⟩
    writeClipped [g.vertical]
  moveTo ⟨r.start.x, r.stop.y - 1⟩
  writeClipped (g.edge g.bottomLeft g.bottomRight r.width.toNat)

/-- The columns between the corners, without the two for the brackets. -/
def titleRoom (r : Rect) : Nat := (r.width - 4).toNat

/-- The columns of a title that was cut to fit, with its brackets. -/
def titleColumns (sections : List Section) : Int :=
  min (Text.totalWidth (sections.map Section.content) : Int) (Decimal.wordMax - 2) + 2

/-- The column of the opening bracket: in the middle, and never on the corner. A title that
fits its room keeps all of this within the rectangle. -/
def titleStart (r : Rect) (sections : List Section) : Int :=
  max (r.start.x + r.width / 2 - (titleColumns sections + 1) / 2) (r.start.x + 1)

/-- Draws a title on the top edge, cut to fit. It is left out where not even one
of its columns has room. -/
def drawTitle (g : Glyphs) (r : Rect) (title : Text) : Action Unit := do
  let sections ← onTerminal (Terminal.readMarkup title)
  if titleRoom r ≠ 0 then
    let kept := Markup.truncate (titleRoom r) sections
    moveTo ⟨titleStart r kept, r.start.y⟩
    writeClipped [g.titleOpen]
    onTerminal (Terminal.writeSections kept .clip)
    writeClipped [g.titleClose]
    remember

/-- Whether there is room for a border. The rows are counted only where there are enough
columns. -/
def hasRoom? (r : Rect) : Option Bool := do
  if (← Decimal.word? r.width) < 2 then pure false else pure (2 ≤ (← Decimal.word? r.height))

/-- Draws the frame and then the title. A title that cannot be read is
reported once the frame is drawn. -/
def drawBorder (v : View) : Action Unit := do
  let r ← reckon v.rect?
  if ← reckon (hasRoom? r) then
    drawFrame v.glyphs r
    match v.title with
    | some title => drawTitle v.glyphs r title
    | none => pure ()

end TerminalPanes.Canvas
