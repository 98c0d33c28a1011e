-- What is seen of a stream. Each text that is sent is a stroke: it begins where
-- the cursor is and takes as many columns as it is wide. On a screen of cells
-- every character is put into the cell of the cursor, and the strokes of narrow
-- texts are what such a screen shows.
import TerminalPanes.Proofs.CursorReplay

namespace TerminalPanes

/-! ## Strokes -/

/-- A text on the screen and the logical position where it begins. -/
structure Stroke where
  start : Point
  text : Text
  deriving DecidableEq, Repr

namespace Stroke

/-- The character at a position, where each takes one cell. -/
def glyph? (k : Stroke) (p : Point) : Option Char :=
  if p.y = k.start.y ∧ k.start.x ≤ p.x then k.text[(p.x - k.start.x).toNat]? else none

/-- Puts the characters of a stroke over others. -/
def overlay (glyphs : Point → Char) (k : Stroke) : Point → Char :=
  fun p => (k.glyph? p).getD (glyphs p)

end Stroke

/-! ## Pictures -/

/-- The strokes make up a picture: none shows anything else, and each glyph of the picture
is shown by one. -/
structure Stroke.MakeUp (ks : List Stroke) (picture : Point → Option Char) : Prop where
  sound : ∀ k ∈ ks, ∀ p c, k.glyph? p = some c → picture p = some c
  complete : ∀ p c, picture p = some c → ∃ k ∈ ks, k.glyph? p = some c

/-- A screen of cells without edges, and its cursor. The glyphs stand at logical positions,
and the cursor counts from one. -/
structure Screen where
  cursor : Point
  glyphs : Point → Char

namespace Screen

/-- A character goes into the cell of the cursor, and the cursor one cell further. A
sequence that names a cell moves the cursor there, and others leave all as it is. -/
def take (s : Screen) : Event → Screen
  | .shown c =>
    { cursor := s.cursor + ⟨1, 0⟩
      glyphs := fun p => if p = s.cursor - ⟨1, 1⟩ then c else s.glyphs p }
  | .command parameters final => { s with cursor := Event.jump s.cursor parameters final }

/-- Takes in the characters of a stream. -/
def takeAll (s : Screen) (stream : Text) : Screen := (Event.read stream).foldl take s

/-- Puts a text into the cells from the cursor on. -/
def put (s : Screen) (t : Text) : Screen where
  cursor := s.cursor + ⟨t.length, 0⟩
  glyphs := Stroke.overlay s.glyphs ⟨s.cursor - ⟨1, 1⟩, t⟩

end Screen

/-! ## The strokes of a stream -/

variable [Text.Measure]

namespace Stroke

/-- The position is in the row of the stroke and in one of the columns of its text. -/
def Covers (k : Stroke) (p : Point) : Prop :=
  p.y = k.start.y ∧ k.start.x ≤ p.x ∧ p.x < k.start.x + k.text.width

instance (k : Stroke) (p : Point) : Decidable (k.Covers p) :=
  inferInstanceAs (Decidable (_ ∧ _ ∧ _))

end Stroke

namespace Emission

/-- Where an emission leaves the cursor. Sequences move it as a terminal reads them, and a
text moves it by its width. -/
def shift (cell : Point) : Emission → Point
  | .text t => cell + ⟨t.width, 0⟩
  | e => e.moves cell

def shiftAll (cell : Point) (es : List Emission) : Point := es.foldl shift cell

/-- The strokes of emissions that begin with the cursor in a cell. What raw characters show is
up to the terminal, so they are taken to be seen as they are. -/
def strokes (cell : Point) : List Emission → List Stroke
  | [] => []
  | .control q :: rest => strokes (shift cell (.control q)) rest
  | .text t :: rest => ⟨cell - ⟨1, 1⟩, t⟩ :: strokes (shift cell (.text t)) rest
  | .raw t :: rest => ⟨cell - ⟨1, 1⟩, t⟩ :: strokes (shift cell (.raw t)) rest

theorem strokes_append (cell : Point) (before after : List Emission) :
    strokes cell (before ++ after) =
      strokes cell before ++ strokes (shiftAll cell before) after := by
  induction before generalizing cell with
  | nil => rfl
  | cons e rest ih =>
    cases e with
    | text t => exact congrArg (List.cons _) (ih _)
    | control q => exact ih _
    | raw t => exact congrArg (List.cons _) (ih _)

theorem strokes_cursorTo (cell next : Point) (rest : List Emission) :
    strokes cell (.control (.cursorTo next) :: rest) = strokes next rest :=
  congrArg (strokes · rest) (moves_cursorTo cell next)

theorem shiftAll_append (cell : Point) (before after : List Emission) :
    shiftAll cell (before ++ after) = shiftAll (shiftAll cell before) after := List.foldl_append

/-- Sequences that name no cell leave no trace and leave the cursor where it is. -/
theorem strokes_controls (cell : Point) {qs : List Sequence} (h : ∀ q ∈ qs, q.final ≠ 'H') :
    strokes cell (qs.map .control) = [] ∧ shiftAll cell (qs.map .control) = cell := by
  induction qs with
  | nil => exact ⟨rfl, rfl⟩
  | cons q qs ih =>
    obtain ⟨hq, hqs⟩ := List.forall_mem_cons.1 h
    have hstay : shift cell (.control q) = cell :=
      (moves_control cell q).trans (Event.jump_of_ne hq cell q.parameters)
    change strokes (shift cell (.control q)) (qs.map .control) = [] ∧
      shiftAll (shift cell (.control q)) (qs.map .control) = cell
    rw [hstay]
    exact ih hqs

end Emission

namespace Screen

end Screen

end TerminalPanes
