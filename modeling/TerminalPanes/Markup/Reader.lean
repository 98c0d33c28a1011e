-- Reading markup. Sections stand between `|`, a section's instructions stand
-- before its first `>` with `;` between them, and a colour stands in brackets
-- after its keyword. The first fault in the text is the one reported.
import TerminalPanes.Markup.Basic

namespace TerminalPanes.Markup

/-! ## Expressions -/

/-- The text without a closing bracket at its end, if there is one. -/
def closed? (t : Text) : Option Text :=
  if t.getLast? = some configClose then some t.dropLast else none

/-- The keyword of an expression and what its brackets hold, if it has any. -/
def splitConfig (expression : Text) : Except MarkupError (Text × Option Text) :=
  match expression.cut? configOpen with
  | none => .ok (expression, none)
  | some (keyword, rest) =>
    match closed? rest with
    | some config => .ok (keyword, some config)
    | none => .error (.unterminatedConfig expression)

/-- The colour that a keyword needs. -/
def readColor (keyword : Text) : Option Text → Except MarkupError Color
  | none => .error (.missingColor keyword)
  | some value =>
    match Color.read? value with
    | some color => .ok color
    | none => .error (.invalidColor value)

/-- Reads one expression. A bracket that is not closed is reported before an
unknown keyword, and that before a missing or bad colour. What stands in the
brackets of an attribute is not looked at. -/
def readInstruction (expression : Text) : Except MarkupError Instruction := do
  let (word, config) ← splitConfig expression
  match keyword? word with
  | none => throw (.unknownKeyword word)
  | some (.turnsOn e) => pure (.turnOn e)
  | some .foreground => return .foreground (← readColor word config)
  | some .background => return .background (← readColor word config)

/-! ## Sections -/

/-- Splits a section into its instruction list and its content. Without a `>`
all is content. A `~` right before the first `>` is dropped and leaves all the
rest as content. -/
def splitSection (chunk : Text) : Text × Text :=
  match chunk.cut? instructionMark with
  | none => ([], chunk)
  | some (head, tail) =>
    if head.getLast? = some escapeMark then ([], head.dropLast ++ instructionMark :: tail)
    else (head, tail)

/-- The expressions of an instruction list. Empty ones are skipped. -/
def expressions (head : Text) : List Text :=
  (head.splitOn expressionMark).filter fun e => !e.isEmpty

/-- Reads one section. The text is not split at `|`. -/
def readSection (chunk : Text) : Except MarkupError Section := do
  let (head, content) := splitSection chunk
  let instructions ← (expressions head).mapM readInstruction
  pure ⟨content, instructions⟩

/-- The chunks of a markup text. Empty ones are skipped. -/
def chunks (t : Text) : List Text :=
  (t.splitOn sectionMark).filter fun c => !c.isEmpty

/-- Reads markup. -/
def read (t : Text) : Except MarkupError (List Section) := (chunks t).mapM readSection

/-- The text that markup shows, without its style. -/
def plainText (t : Text) : Except MarkupError Text := do
  let sections ← read t
  pure (Section.contents sections)

end TerminalPanes.Markup
