-- Markup as values: sections of text, each with the instructions that style
-- it, and the causes for which markup is refused.
import TerminalPanes.Color
import TerminalPanes.Style.Attribute

namespace TerminalPanes

/-- The attributes that markup can turn on. -/
inductive Emphasis where
  | bold
  | dim
  | italic
  | underline
  | strikethrough
  | inverse
  deriving DecidableEq, Repr

def Emphasis.attribute : Emphasis → Attribute
  | .bold => .bold
  | .dim => .dim
  | .italic => .italic
  | .underline => .underline
  | .strikethrough => .strikethrough
  | .inverse => .inverse

/-- One change of style. -/
inductive Instruction where
  /-- Turn one attribute on. -/
  | turnOn (which : Emphasis)
  | foreground (color : Color)
  | background (color : Color)
  deriving DecidableEq, Repr

/-- A piece of text and the style it is shown in. -/
structure Section where
  content : Text
  instructions : List Instruction
  deriving DecidableEq, Repr

/-- The text of all sections without their style. -/
def Section.contents (sections : List Section) : Text :=
  (sections.map Section.content).flatten

/-- Why markup cannot be read. -/
inductive MarkupError where
  | unknownKeyword (keyword : Text)
  | invalidColor (value : Text)
  | missingColor (keyword : Text)
  | unterminatedConfig (expression : Text)
  deriving DecidableEq, Repr

def MarkupError.message : MarkupError → String
  | .unknownKeyword keyword => "'" ++ String.ofList keyword ++ "' is not a valid expression"
  | .invalidColor value => "cannot parse color '" ++ String.ofList value ++ "'"
  | .missingColor keyword =>
    "'" ++ String.ofList keyword ++ "' needs a color, e.g. " ++ String.ofList keyword ++ "[red]"
  | .unterminatedConfig expression =>
    "'" ++ String.ofList expression ++ "' is missing a closing ']'"

namespace Markup

/-! ## The marks of the format -/

/-- Stands between sections. -/
def sectionMark : Char := '|'

/-- Ends the instructions of a section. -/
def instructionMark : Char := '>'

/-- Stands between instructions. -/
def expressionMark : Char := ';'

def configOpen : Char := '['

def configClose : Char := ']'

/-- Right before the first `>` of a section it makes the `>` part of the text. -/
def escapeMark : Char := '~'

/-! ## Keywords -/

/-- What a keyword asks for. -/
inductive Keyword where
  | turnsOn (which : Emphasis)
  | foreground
  | background
  deriving DecidableEq, Repr

/-- The keywords, long and short. Case matters. -/
def keywords : List (Text × Keyword) :=
  [("b".toList, .turnsOn .bold),
   ("bold".toList, .turnsOn .bold),
   ("dim".toList, .turnsOn .dim),
   ("i".toList, .turnsOn .italic),
   ("italic".toList, .turnsOn .italic),
   ("u".toList, .turnsOn .underline),
   ("underline".toList, .turnsOn .underline),
   ("s".toList, .turnsOn .strikethrough),
   ("strikethrough".toList, .turnsOn .strikethrough),
   ("inverse".toList, .turnsOn .inverse),
   ("fg".toList, .foreground),
   ("foreground".toList, .foreground),
   ("bg".toList, .background),
   ("background".toList, .background)]

def keyword? (word : Text) : Option Keyword := keywords.lookup word

end Markup

end TerminalPanes
