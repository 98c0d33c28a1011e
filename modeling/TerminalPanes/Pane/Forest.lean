-- Panes and where they lie. A pane lies between two corners or takes a
-- fraction of an older pane, its parent. Nothing is remembered of a
-- position: it follows from the terminal size and from the padding that the
-- panes above have at the time of asking. A pane that was dropped keeps its
-- place for the panes below it.
import TerminalPanes.Fraction
import TerminalPanes.Grid.Rect
import TerminalPanes.Pane.Glyphs

namespace TerminalPanes

/-! ## Placement -/

/-- A corner of a pane. -/
inductive Corner where
  | fixed (point : Point)
  /-- A corner that follows the terminal size. There is none where a number leaves the words
  on the way to it. -/
  | computed (ofSize : Size → Option Point)

namespace Corner

def resolve (size : Size) : Corner → Option Point
  | .fixed p => p.words?
  | .computed ofSize => (ofSize size).bind Point.words?

/-- How a corner is named. What it is computed from cannot be shown. -/
def label : Corner → String
  | .fixed p => "Fixed(" ++ p.label ++ ")"
  | .computed _ => "Computed(..)"

end Corner

/-- The part of a parent's padded area that a child takes: where it begins and
how far it extends, as fractions of the parent's columns and rows. -/
structure Detail where
  offsetX : Fraction
  offsetY : Fraction
  width : Fraction
  height : Fraction
  deriving DecidableEq, Repr

namespace Detail

def all : Detail := ⟨.zero, .zero, .whole, .whole⟩

def leftHalf : Detail := ⟨.zero, .zero, .half, .whole⟩

def rightHalf : Detail := ⟨.half, .zero, .half, .whole⟩

/-- The cell at a fraction of the columns and a fraction of the rows. -/
def cornerIn (area : Rect) (x y : Fraction) : Point :=
  ⟨Fraction.cellOf area.width area.start.x x, Fraction.cellOf area.height area.start.y y⟩

/-- The part of `area` that the detail names. Offset and extent are added as
fractions before they are applied. -/
def rectIn (d : Detail) (area : Rect) : Rect :=
  ⟨cornerIn area d.offsetX d.offsetY,
   cornerIn area (d.offsetX + d.width) (d.offsetY + d.height)⟩

/-- The part of an area whose columns and rows can be counted. -/
def rectIn? (d : Detail) (area : Rect) : Option Rect := area.measured?.map d.rectIn

end Detail

/-- Where a pane lies. -/
inductive Placement where
  | between (start stop : Corner)
  | within (parent : Nat) (detail : Detail)

namespace Placement

/-- The whole terminal. -/
def fullScreen : Placement :=
  .between (.fixed Point.origin) (.computed fun size => some size.corner)

/-- The rectangle of a placement, given the padded areas of older panes. -/
def rect? (size : Size) (areaOf? : Nat → Option Rect) : Placement → Option Rect
  | .between start stop => do
    let start ← start.resolve size
    let stop ← stop.resolve size
    pure ⟨start, stop⟩
  | .within parent detail => (areaOf? parent).bind detail.rectIn?

/-- The start and the stop of a placement. A part of a parent has corners that
are computed from it, given the padded areas of older panes. -/
def corners (areaOf? : Size → Nat → Option Rect) : Placement → Corner × Corner
  | .between start stop => (start, stop)
  | .within parent detail =>
    (.computed fun size => ((areaOf? size parent).bind detail.rectIn?).map Rect.start,
     .computed fun size => ((areaOf? size parent).bind detail.rectIn?).map Rect.stop)

end Placement

/-! ## Panes -/

structure Pane where
  placement : Placement
  /-- The cells left free at each edge, the border included. -/
  padding : Padding
  borderWidth : Nat
  /-- Markup shown on the top edge. -/
  title : Option Text
  glyphs : Glyphs
  /-- Where the pane last left the cursor. -/
  lastKnown : Option Point
  dropped : Bool

namespace Pane

def ofPlacement (placement : Placement) : Pane :=
  ⟨placement, Padding.none, 0, none, Glyphs.light, none, false⟩

/-- The pane that stands for a number that no pane has. It holds no cell. -/
def nowhere : Pane := ofPlacement (.between (.fixed Point.origin) (.fixed Point.origin))

/-- Sets the padding inside the border. -/
def setPadding (p : Pane) (padding : Padding) : Pane :=
  { p with padding := padding.grow p.borderWidth }

/-- Takes the old border off the padding and puts the new one on. -/
def setBorderWidth (p : Pane) (width : Nat) : Pane :=
  { p with borderWidth := width, padding := (p.padding.shrink p.borderWidth).grow width }

end Pane

/-! ## The forest -/

/-- All panes, the newest first. The number of a pane is how many panes are
older than it, and a parent is always older than its children. -/
abbrev Forest := List Pane

namespace Forest

/-- The pane of a number. -/
def pane? : Forest → Nat → Option Pane
  | [], _ => none
  | p :: older, id => if id = older.length then some p else pane? older id

/-- The pane of a number, or the one that stands for it. -/
def pane (f : Forest) (id : Nat) : Pane := (f.pane? id).getD Pane.nowhere

/-- Changes the pane of a number. -/
def modify (change : Pane → Pane) : Forest → Nat → Forest
  | [], _ => []
  | p :: older, id =>
    if id = older.length then change p :: older else p :: modify change older id

/-- The padded area of a pane at a terminal size. There is none where a number leaves the
words on the way to it. -/
def areaOf? (size : Size) : Forest → Nat → Option Rect
  | [], _ => some default
  | p :: older, id =>
    if id = older.length then
      (p.placement.rect? size (areaOf? size older)).bind fun r => (r.inset p.padding).words?
    else areaOf? size older id

/-- The rectangle of a pane at a terminal size, padding included. -/
def rectOf? (size : Size) : Forest → Nat → Option Rect
  | [], _ => some default
  | p :: older, id =>
    if id = older.length then p.placement.rect? size (areaOf? size older)
    else rectOf? size older id

/-- Adds a pane and gives its number. -/
def add (f : Forest) (placement : Placement) : Nat × Forest :=
  (f.length, Pane.ofPlacement placement :: f)

/-- Adds one child for each detail and gives their numbers. -/
def split (f : Forest) (parent : Nat) : List Detail → List Nat × Forest
  | [] => ([], f)
  | d :: rest =>
    let (id, grown) := f.add (.within parent d)
    let (ids, full) := split grown parent rest
    (id :: ids, full)

/-- The padded area of a pane is its rectangle inside its padding. -/
theorem areaOf?_eq_inset {size : Size} {f : Forest} {id : Nat} {p : Pane}
    (h : f.pane? id = some p) :
    areaOf? size f id = (rectOf? size f id).bind fun r => (r.inset p.padding).words? := by
  induction f with
  | nil => simp [pane?] at h
  | cons q older ih =>
    unfold pane? at h
    unfold areaOf? rectOf?
    split
    · next hid =>
      rw [if_pos hid] at h
      cases h
      rfl
    · next hid =>
      rw [if_neg hid] at h
      exact ih h

end Forest

end TerminalPanes
