-- The columns of a text by the tables. Their number is the sum over
-- the characters, except that line ends, flags and emoji sequences count as a
-- whole. What a character adds depends on what follows it, so a text is
-- measured from its end.
import TerminalPanes.Text.Property

namespace TerminalPanes.Text

/-- What the text already measured begins with, as far as it changes the count
of the character before it. -/
inductive Following where
  | plain
  | lineFeed
  | skinTone
  /-- One flag letter. -/
  | flagLetter
  /-- Two flag letters or more. -/
  | flags
  /-- A picture, perhaps with more pictures joined to it. -/
  | picture
  | textSelector
  | pictureSelector
  /-- A joiner before a picture or a flag. -/
  | joiner
  /-- A key cap joined to a picture. -/
  | joinedKeycap
  /-- A picture selector joined to a picture. -/
  | joinedSelector
  /-- One flag letter joined to a picture. -/
  | joinedLetter
  /-- An even number of flag letters joined to a picture. -/
  | joinedFlags
  /-- Three flag letters or a larger odd number joined to a picture. -/
  | joinedFlagsAndLetter
  deriving DecidableEq, Repr

namespace Following

/-- A character that no neighbour changes. -/
def alone (c : Char) : Int × Following :=
  let after :=
    if c = '\n' then lineFeed
    else if c = Text.textSelector then textSelector
    else if c = Text.pictureSelector then pictureSelector
    else if isFlagLetter c then flagLetter
    else if isSkinTone c then skinTone
    else if isPicture c then picture
    else plain
  (columns c, after)

/-- What a character adds before one that is no selector. Two flag letters
before a joiner make one joined flag, so the second takes back what the first
has added, and a third begins anew. A single letter joins nothing before it,
and flags do, even with a letter too many. -/
def unselected (c : Char) (f : Following) : Int × Following :=
  if c = Text.pictureSelector then
    (0, if f = joiner || f = joinedKeycap then joinedSelector else pictureSelector)
  else if c = Text.textSelector then (0, textSelector)
  else match f with
    | .lineFeed => if c = '\r' then (0, .plain) else alone c
    | .skinTone =>
      if takesSkinTone c then (0, .picture)
      else if c = Text.joiner then (0, .joiner)
      else alone c
    | .flagLetter => if isFlagLetter c then (1, .flags) else alone c
    | .flags =>
      if isFlagLetter c then (1, .flags) else if c = Text.joiner then (0, .joiner) else alone c
    | .picture => if c = Text.joiner then (0, .joiner) else alone c
    | .joiner =>
      if c = keycap then (0, .joinedKeycap)
      else if isFlagLetter c then (1, .joinedLetter)
      else if isSkinTone c then (0, .skinTone)
      else if isPicture c then (0, .picture)
      else alone c
    | .joinedLetter => if isFlagLetter c then (-1, .joinedFlags) else alone c
    | .joinedFlags =>
      if isFlagLetter c then (3, .joinedFlagsAndLetter)
      else if c = Text.joiner then (0, .joiner)
      else alone c
    | .joinedFlagsAndLetter =>
      if isFlagLetter c then (-1, .joinedFlags)
      else if c = Text.joiner then (0, .joiner)
      else alone c
    | _ => alone c

/-- What a character adds to the count, and what the text begins with then. -/
def before (c : Char) (f : Following) : Int × Following :=
  match f with
  | .pictureSelector => if hasTwoForms c then (2, .picture) else unselected c .plain
  | .joinedSelector => if hasTwoForms c then (0, .picture) else unselected c .plain
  | .textSelector => if isNarrowAsText c then (1, .plain) else unselected c .plain
  | f => unselected c f

end Following

/-- The columns of a text together with what it begins with. -/
def measure : Text → Int × Following
  | [] => (0, .plain)
  | c :: rest =>
    let (count, f) := measure rest
    let (added, f') := f.before c
    (count + added, f')

/-- The number of columns that a text takes, by the tables. -/
def Tables.width (t : Text) : Nat := (measure t).1.toNat

end TerminalPanes.Text
