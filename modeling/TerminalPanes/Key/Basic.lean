-- Keys and the modifiers held with them.
import TerminalPanes.Text.Basic

namespace TerminalPanes

structure Modifiers where
  shift : Bool
  alt : Bool
  ctrl : Bool
  deriving DecidableEq, Repr

namespace Modifiers

def none : Modifiers := ⟨false, false, false⟩

/-- The modifiers of a mask: one for shift, two for alt, four for ctrl. Higher
bits mean nothing. -/
def ofMask (mask : Nat) : Modifiers :=
  ⟨mask % 2 = 1, mask / 2 % 2 = 1, mask / 4 % 2 = 1⟩

def mask (m : Modifiers) : Nat :=
  (if m.shift then 1 else 0) + (if m.alt then 2 else 0) + (if m.ctrl then 4 else 0)

end Modifiers

inductive KeyCode where
  | char (c : Char)
  | enter
  | tab
  | backspace
  | escape
  | delete
  | insert
  | up
  | down
  | left
  | right
  | home
  | endKey
  | pageUp
  | pageDown
  /-- A function key by its number. -/
  | function (n : Nat)
  deriving DecidableEq, Repr

structure Key where
  code : KeyCode
  modifiers : Modifiers
  deriving DecidableEq, Repr

/-- A key without modifiers. -/
def Key.plain (code : KeyCode) : Key := ⟨code, Modifiers.none⟩

def Key.withAlt (code : KeyCode) : Key := ⟨code, { Modifiers.none with alt := true }⟩

def Key.withCtrl (code : KeyCode) : Key := ⟨code, { Modifiers.none with ctrl := true }⟩

def Key.withShift (code : KeyCode) : Key := ⟨code, { Modifiers.none with shift := true }⟩

end TerminalPanes
