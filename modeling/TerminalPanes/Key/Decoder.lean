-- Keys from the bytes that a terminal sends. A verdict on the front of the
-- bytes names a key, skips what means nothing, or waits for more. Every
-- verdict but the last uses up at least one byte.
import TerminalPanes.Key.Basic
import TerminalPanes.Text.Utf8

namespace TerminalPanes.Key

/-- A verdict on a first byte and those after it. It counts the bytes that it
uses beyond the first. -/
inductive Verdict where
  | key (key : Key) (extra : Nat)
  | skip (extra : Nat)
  /-- The bytes so far may be the beginning of a key. -/
  | unfinished
  deriving DecidableEq, Repr

/-! ## Single bytes -/

def esc : UInt8 := 0x1B

def isPrintable (b : UInt8) : Bool := 0x20 ≤ b && b ≤ 0x7E

/-- The control bytes that go with a letter. -/
def isControl (b : UInt8) : Bool := 0x01 ≤ b && b ≤ 0x1A

def printable (b : UInt8) : KeyCode := .char (Char.ofNat b.toNat)

/-- The letter that gives a control byte together with ctrl. -/
def controlLetter (b : UInt8) : KeyCode := .char (Char.ofNat (b.toNat + 0x60))

/-- The key of a byte by itself. -/
def ofByte? (b : UInt8) : Option Key :=
  if b = esc then some (plain .escape)
  else if b = 0x08 || b = 0x7F then some (plain .backspace)
  else if b = 0x09 then some (plain .tab)
  else if b = 0x0A || b = 0x0D then some (plain .enter)
  else if b = 0x00 then some (withCtrl (.char '@'))
  else if isControl b then some (withCtrl (controlLetter b))
  else if isPrintable b then some (plain (printable b))
  else none

/-! ## Sequences -/

def isParameter (b : UInt8) : Bool := 0x20 ≤ b && b ≤ 0x3F

def isFinal (b : UInt8) : Bool := 0x40 ≤ b && b ≤ 0x7E

/-- The key of a final byte. -/
def ofFinal? (b : UInt8) : Option KeyCode :=
  if b = 0x41 then some .up
  else if b = 0x42 then some .down
  else if b = 0x43 then some .right
  else if b = 0x44 then some .left
  else if b = 0x48 then some .home
  else if b = 0x46 then some .endKey
  else if b = 0x50 then some (.function 1)
  else if b = 0x51 then some (.function 2)
  else if b = 0x52 then some (.function 3)
  else if b = 0x53 then some (.function 4)
  else none

/-- The key of the number before a tilde. -/
def ofNumber? : Nat → Option KeyCode
  | 1 | 7 => some .home
  | 2 => some .insert
  | 3 => some .delete
  | 4 | 8 => some .endKey
  | 5 => some .pageUp
  | 6 => some .pageDown
  | 15 => some (.function 5)
  | 17 => some (.function 6)
  | 18 => some (.function 7)
  | 19 => some (.function 8)
  | 20 => some (.function 9)
  | 21 => some (.function 10)
  | 23 => some (.function 11)
  | 24 => some (.function 12)
  | _ => none

/-- The greatest value of a parameter. Larger ones stop there. -/
def parameterMax : Nat := 65535

/-- The value of the digits at the front of a parameter. -/
def parameter (bs : List UInt8) : Nat :=
  (bs.takeWhile fun b => 0x30 ≤ b && b ≤ 0x39).foldl
    (fun n b => min (10 * n + (b.toNat - 0x30)) parameterMax) 0

/-- The parameters between semicolons. -/
def parameters (bs : List UInt8) : List Nat := (bs.splitOn 0x3B).map parameter

/-- The modifiers of a parameter, which is one more than their mask. -/
def ofParameter (n : Nat) : Modifiers := Modifiers.ofMask ((n - 1) % 256)

/-- The key of a control sequence. Shift and tab have a final byte together,
whatever the parameters. -/
def ofSequence? (ps : List Nat) (final : UInt8) : Option Key :=
  let modifiers := (ps[1]?.map ofParameter).getD Modifiers.none
  if final = 0x7E then (ofNumber? (ps.headD 0)).map (⟨·, modifiers⟩)
  else if final = 0x5A then some (withShift .tab)
  else (ofFinal? final).map (⟨·, modifiers⟩)

/-- A control sequence, after its two opening bytes. It is skipped together
with the byte that ends it if that is out of place or says nothing. -/
def controlSequence (body : List UInt8) : Verdict :=
  let held := body.takeWhile isParameter
  match body.dropWhile isParameter with
  | [] => .unfinished
  | b :: _ =>
    if isFinal b then
      match ofSequence? (parameters held) b with
      | some key => .key key (held.length + 2)
      | none => .skip (held.length + 2)
    else .skip (held.length + 2)

/-- A single-shift sequence, after its two opening bytes. -/
def singleShift : List UInt8 → Verdict
  | [] => .unfinished
  | b :: _ =>
    match ofFinal? b with
    | some code => .key (plain code) 2
    | none => .skip 2

/-- What follows an escape byte. -/
def afterEscape : List UInt8 → Verdict
  | [] => .unfinished
  | b :: body =>
    if b = 0x5B then controlSequence body
    else if b = 0x4F then singleShift body
    else if b = esc then .key (withAlt .escape) 1
    else if isPrintable b then .key (withAlt (printable b)) 1
    else if isControl b then
      .key ⟨controlLetter b, { Modifiers.none with alt := true, ctrl := true }⟩ 1
    else .key (plain .escape) 0

/-- A byte beyond ASCII and those after it. -/
def wideCharacter (b : UInt8) (rest : List UInt8) : Verdict :=
  match Text.Utf8.formLength? b with
  | none => .skip 0
  | some n =>
    if rest.length < n - 1 then .unfinished
    else match Text.Utf8.decode? b (rest.take (n - 1)) with
      | some c => .key (plain (.char c)) (n - 1)
      | none => .skip 0

/-- The verdict on a first byte and those after it. -/
def verdict (b : UInt8) (rest : List UInt8) : Verdict :=
  if b = esc then afterEscape rest
  else if 0x80 ≤ b then wideCharacter b rest
  else match ofByte? b with
    | some key => .key key 0
    | none => .skip 0

/-! ## Streams -/

/-- The keys at the front of the bytes, and the bytes that wait for more. -/
def decode : List UInt8 → List Key × List UInt8
  | [] => ([], [])
  | b :: rest =>
    match verdict b rest with
    | .unfinished => ([], b :: rest)
    | .skip extra => decode (rest.drop extra)
    | .key key extra =>
      let (keys, waiting) := decode (rest.drop extra)
      (key :: keys, waiting)
termination_by bs => bs.length
decreasing_by all_goals simp only [List.length_drop, List.length_cons]; omega

/-- The keys that more bytes finish, and the bytes that wait after them. -/
def advance (waiting more : List UInt8) : List Key × List UInt8 := decode (waiting ++ more)

/-- The keys of pieces that come one by one, and the bytes that wait after the last. -/
def advanceAll (waiting : List UInt8) : List (List UInt8) → List Key × List UInt8
  | [] => ([], waiting)
  | piece :: later =>
    let (keys, left) := advance waiting piece
    let (more, left) := advanceAll left later
    (keys ++ more, left)

/-- The keys of waiting bytes when nothing more comes: each byte by itself. -/
def decodeEach (bs : List UInt8) : List Key := bs.filterMap ofByte?

end TerminalPanes.Key
