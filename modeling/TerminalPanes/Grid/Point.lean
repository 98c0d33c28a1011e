-- Points of the character grid, the four directions, and the written form
-- of a point. `directionsTo` names the way from one point to another, the
-- shorter leg first. Coordinates are signed 32-bit words: sums are taken
-- exactly, and `words?` keeps of them what words can hold.
import TerminalPanes.Text.Decimal

namespace TerminalPanes

inductive Direction where
  | north
  | east
  | south
  | west
  deriving DecidableEq, Repr

def Direction.opposite : Direction → Direction
  | .north => .south
  | .east => .west
  | .south => .north
  | .west => .east

/-- A cell of the grid. Columns `x` grow to the right and rows `y` grow
downwards. Logical points count from zero, the terminal's own from one. -/
structure Point where
  x : Int
  y : Int
  deriving DecidableEq, Repr, Inhabited

namespace Point

def origin : Point := ⟨0, 0⟩

instance : Add Point := ⟨fun p q => ⟨p.x + q.x, p.y + q.y⟩⟩

instance : Sub Point := ⟨fun p q => ⟨p.x - q.x, p.y - q.y⟩⟩

@[simp] theorem add_x (p q : Point) : (p + q).x = p.x + q.x := rfl
@[simp] theorem add_y (p q : Point) : (p + q).y = p.y + q.y := rfl
@[simp] theorem sub_x (p q : Point) : (p - q).x = p.x - q.x := rfl
@[simp] theorem sub_y (p q : Point) : (p - q).y = p.y - q.y := rfl

/-! ## Points of words -/

/-- Both coordinates are signed words. -/
structure Words (p : Point) : Prop where
  x : Decimal.IsWord p.x
  y : Decimal.IsWord p.y

instance (p : Point) : Decidable p.Words :=
  decidable_of_iff (Decimal.IsWord p.x ∧ Decimal.IsWord p.y)
    ⟨fun h => ⟨h.1, h.2⟩, fun h => ⟨h.x, h.y⟩⟩

/-- The point, and nothing in place of one with a coordinate that is no word. -/
def words? (p : Point) : Option Point := if p.Words then some p else none

theorem words?_eq_some_iff {p q : Point} : p.words? = some q ↔ p.Words ∧ p = q :=
  Option.ite_none_right_eq_some.trans (and_congr_right fun _ => Option.some_inj)

/-! ## Steps -/

/-- The neighbour in one direction. -/
def step (p : Point) : Direction → Point
  | .north => p + ⟨0, -1⟩
  | .east => p + ⟨1, 0⟩
  | .south => p + ⟨0, 1⟩
  | .west => p + ⟨-1, 0⟩

/-- The four neighbours: east, west, south, north. -/
def neighbours (p : Point) : List Point :=
  [p.step .east, p.step .west, p.step .south, p.step .north]

/-! ## The way to another point -/

/-- How far apart two points are along the row and along the column. -/
def columnsTo (a b : Point) : Nat := (b.x - a.x).natAbs

def rowsTo (a b : Point) : Nat := (b.y - a.y).natAbs

def horizontalLeg (a b : Point) : List Direction :=
  if a.x < b.x then [.east] else if b.x < a.x then [.west] else []

def verticalLeg (a b : Point) : List Direction :=
  if a.y < b.y then [.south] else if b.y < a.y then [.north] else []

/-- The directions from `a` to `b`, at most one for each axis. The shorter leg
comes first, and the horizontal one if both are equally long. -/
def directionsTo (a b : Point) : List Direction :=
  if a.rowsTo b < a.columnsTo b then verticalLeg a b ++ horizontalLeg a b
  else horizontalLeg a b ++ verticalLeg a b

/-! ## Written forms -/

/-- The compact form `x|y`, as points are stored. -/
def write (p : Point) : Text := Decimal.write p.x ++ '|' :: Decimal.write p.y

/-- The form `Pt(x, y)` that messages use. -/
def label (p : Point) : String :=
  "Pt(" ++ String.ofList (Decimal.write p.x) ++ ", " ++ String.ofList (Decimal.write p.y) ++ ")"

/-- Reads the compact form. White space around either number is allowed. -/
def read? (t : Text) : Option Point := do
  let (before, after) ← t.cut? '|'
  let x ← Decimal.readWord? before.trim
  let y ← Decimal.readWord? after.trim
  pure ⟨x, y⟩

/-- What is said of a text that is no point. -/
def refusal (t : Text) : String :=
  "invalid point '" ++ String.ofList t ++ "', expected x|y"

end Point

end TerminalPanes
