-- The history of cursor positions. New positions go in front, older ones
-- fall off beyond the limit, and one may step back through them and forward
-- again. A new position always ends the stepping.
import TerminalPanes.Grid.Point

namespace TerminalPanes

/-- Positions from the newest to the oldest, and which of them is current.
They count from one, as the terminal does. -/
structure History where
  limit : Nat
  entries : List Point
  index : Nat
  deriving DecidableEq, Repr

namespace History

/-- How many positions are kept unless told otherwise. -/
def defaultLimit : Nat := 25

/-- A history that holds the top left cell alone. It keeps at least one
position. -/
def ofLimit (limit : Nat) : History := ⟨max limit 1, [⟨1, 1⟩], 0⟩

/-- The current position. There is none once the history was cleared. -/
def current? (h : History) : Option Point := h.entries[h.index]?

/-- Puts a new position in front and makes it current. -/
def push (h : History) (p : Point) : History :=
  { h with entries := (p :: h.entries).take h.limit, index := 0 }

/-- The history one step further back, unless it is at the oldest position. -/
def back? (h : History) : Option History :=
  if h.index + 1 < h.entries.length then some { h with index := h.index + 1 } else none

/-- The history one step further on, unless it is at the newest position. -/
def forward? (h : History) : Option History :=
  if h.index = 0 then none else some { h with index := h.index - 1 }

/-- Moves the current position to the right in place. -/
def advance? (h : History) (columns : Int) : Option History :=
  if h.index < h.entries.length then
    some { h with entries := h.entries.modify h.index fun p => p + ⟨columns, 0⟩ }
  else none

/-- Forgets every position. -/
def clear (h : History) : History := { h with entries := [], index := 0 }

/-! ## What a step takes -/

variable {h h' : History}

/-- There is a step back just if an older position is held. -/
theorem back?_eq_some_iff : h.back? = some h' ↔
    h.index + 1 < h.entries.length ∧ h' = { h with index := h.index + 1 } := by
  unfold back?
  split
  · rename_i hlt
    rw [Option.some_inj, eq_comm, and_iff_right hlt]
  · rename_i hnot
    exact ⟨nofun, fun h => absurd h.1 hnot⟩

/-- There is a step forward just if a newer position is held. -/
theorem forward?_eq_some_iff : h.forward? = some h' ↔
    h.index ≠ 0 ∧ h' = { h with index := h.index - 1 } := by
  unfold forward?
  split
  · rename_i hzero
    exact ⟨nofun, fun h => absurd hzero h.1⟩
  · rename_i hne
    rw [Option.some_inj, eq_comm, and_iff_right hne]

/-- There is an advance just if a position is current. -/
theorem advance?_eq_some_iff {columns : Int} : h.advance? columns = some h' ↔
    h.index < h.entries.length ∧
      h' = { h with entries := h.entries.modify h.index fun p => p + ⟨columns, 0⟩ } := by
  unfold advance?
  split
  · rename_i hlt
    rw [Option.some_inj, eq_comm, and_iff_right hlt]
  · rename_i hnot
    exact ⟨nofun, fun h => absurd h.1 hnot⟩

end History

end TerminalPanes
