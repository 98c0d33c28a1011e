-- What the showcase draws: a frame over the whole terminal and two halves
-- inside it, one with samples of styles and one that tells its own geometry.
import TerminalPanes.Showcase.Options
import TerminalPanes.Workspace.Prompt

namespace TerminalPanes.Showcase

/-- The lines of the left half. -/
def styleLines : List Text :=
  ["|b;fg[cyan]>Styles|",
   "",
   "|b>bold| |dim>dim| |i>italic| |u>underline|",
   "|s>strikethrough| |inverse> inverse |",
   "|fg[#ff8800]>orange| |bg[blue];fg[white]> white on blue |",
   "|fg[120,200,80]>r,g,b colors| pass through as given",
   "an escaped ~> stays literal"].map String.toList

/-- Says how large a half is and where it begins. -/
def geometryLine (r : Rect) : Text :=
  "|fg[gray]>this pane: ".toList ++ Decimal.write r.width ++ 'x' :: Decimal.write r.height
    ++ " at ".toList ++ Decimal.write r.start.x ++ ',' :: Decimal.write r.start.y ++ ['|']

/-- Says what becomes of long lines. -/
def wrapLine (wrap : Wrap) : Text :=
  "|fg[gray]>long lines are ".toList
    ++ (match wrap with
      | .allow => "wrapped".toList
      | .clip => "clipped".toList)
    ++ ['|']

/-- The lines of the right half, which lies in `r`. -/
def layoutLines (r : Rect) (wrap : Wrap) : List Text :=
  ["|b;fg[magenta]>Layout|",
   "",
   "Each half is computed from the frame's",
   "padded area on every access, so the",
   "split follows the terminal as it resizes."].map String.toList
    ++ [geometryLine r, wrapLine wrap]

/-- The padding of either half. -/
def halfPadding : Padding := ⟨0, 1, 1, 1⟩

variable [Text.Measure]

/-- Draws everything and gives the number of the frame. -/
def draw (options : Options) : Workspace.Action Nat := do
  Workspace.onTerminal Terminal.clearScreen
  let frame ← Workspace.newPane .fullScreen
  Workspace.changePane frame fun p =>
    { (p.setBorderWidth options.borderWidth) with
      glyphs := options.glyphs
      title := some options.title }
  if 0 < options.borderWidth then
    Workspace.onPane frame Canvas.drawBorder
  let left ← Workspace.newPane (.within frame .leftHalf)
  let right ← Workspace.newPane (.within frame .rightHalf)
  Workspace.changePane left fun p => p.setPadding halfPadding
  Workspace.changePane right fun p => p.setPadding halfPadding
  let half ← Workspace.onPane right fun v => Canvas.reckon (v.rect?.bind Rect.measured?)
  Workspace.onPane left fun v => Canvas.writeLines v styleLines
  Workspace.onPane right fun v => Canvas.writeLines v (layoutLines half options.wrap)
  pure frame

end TerminalPanes.Showcase
