-- Writing markup. A section is written as its instructions, a `>` and its
-- content, so a content may hold any mark but the one between sections. A
-- content without instructions also has an escaped form.
import TerminalPanes.Markup.Reader

namespace TerminalPanes

/-- The shortest keyword of an attribute. -/
def Emphasis.word : Emphasis → Text
  | .bold => ['b']
  | .dim => "dim".toList
  | .italic => ['i']
  | .underline => ['u']
  | .strikethrough => ['s']
  | .inverse => "inverse".toList

namespace Markup

/-- A keyword with a colour in brackets. -/
def writeColored (word : Text) (c : Color) : Text :=
  word ++ configOpen :: c.write ++ [configClose]

def writeInstruction : Instruction → Text
  | .turnOn e => e.word
  | .foreground c => writeColored ['f', 'g'] c
  | .background c => writeColored ['b', 'g'] c

def writeSection (s : Section) : Text :=
  [expressionMark].intercalate (s.instructions.map writeInstruction) ++ instructionMark :: s.content

def write (sections : List Section) : Text := [sectionMark].intercalate (sections.map writeSection)

/-- The text that shows `t` as it is: a `~` goes before the first `>`. -/
def escape (t : Text) : Text :=
  match t.cut? instructionMark with
  | none => t
  | some (before, after) => before ++ escapeMark :: instructionMark :: after

end Markup

end TerminalPanes
