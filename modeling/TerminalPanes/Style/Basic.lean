-- The style that a terminal was last told: a set of attributes and two
-- colours. Each change reports what is new, so that only that has to be sent.
import TerminalPanes.Style.Attribute
import TerminalPanes.Color

namespace TerminalPanes

/-- Attributes and colours in force. A colour is absent until it is first
set, and again after a reset. -/
@[ext] structure Style where
  attributes : Attributes
  foreground : Option Color
  background : Option Color
  deriving DecidableEq, Repr

namespace Style

/-- Nothing on and no colour told. -/
def plain : Style := ⟨Attributes.empty, none, none⟩

/-- The attributes of `set` that were off until now. -/
def turnedOn (s : Style) (set : Attributes) : Attributes := set \ s.attributes

/-- The attributes of `set` that are on until now. -/
def turnedOff (s : Style) (set : Attributes) : Attributes := set ∩ s.attributes

def enable (s : Style) (set : Attributes) : Style :=
  { s with attributes := s.attributes ∪ set }

def disable (s : Style) (set : Attributes) : Style :=
  { s with attributes := s.attributes \ set }

def isOn (s : Style) (set : Attributes) : Bool := s.attributes.includes set

/-- Whether a foreground is in force already. -/
def hasForeground (s : Style) (c : Color) : Bool := s.foreground = some c

/-- Whether a background is in force already. -/
def hasBackground (s : Style) (c : Color) : Bool := s.background = some c

def withForeground (s : Style) (c : Color) : Style := { s with foreground := some c }

def withBackground (s : Style) (c : Color) : Style := { s with background := some c }

end Style

end TerminalPanes
