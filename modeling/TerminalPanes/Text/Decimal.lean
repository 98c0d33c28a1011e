-- Whole numbers in decimal. Reading takes one sign at most and at least one
-- digit, refuses what does not fit a signed 32-bit word, and gives back every
-- word that was written.
import TerminalPanes.Text.Basic

namespace TerminalPanes.Decimal

/-! ## Writing -/

def writeNat (n : Nat) : Text := Nat.toDigits 10 n

/-- The digits of a number, after a minus sign if it is negative. -/
def write : Int → Text
  | .ofNat n => writeNat n
  | .negSucc n => '-' :: writeNat (n + 1)

/-! ## Reading -/

/-- The value of a text made of ASCII digits alone, at least one of them. -/
def readNat? (t : Text) : Option Nat :=
  if !t.isEmpty && t.all Char.isDigit then some (Nat.ofDigitChars 10 t 0) else none

/-- The value of digits after at most one sign, however large. -/
def readInt? : Text → Option Int
  | '+' :: rest => (readNat? rest).map Int.ofNat
  | '-' :: rest => (readNat? rest).map fun n => -Int.ofNat n
  | t => (readNat? t).map Int.ofNat

/-- The least signed 32-bit word. -/
def wordMin : Int := -2147483648

/-- The greatest signed 32-bit word. -/
def wordMax : Int := 2147483647

/-- A number that fits a signed 32-bit word. -/
def IsWord (n : Int) : Prop := wordMin ≤ n ∧ n ≤ wordMax

instance (n : Int) : Decidable (IsWord n) :=
  inferInstanceAs (Decidable (wordMin ≤ n ∧ n ≤ wordMax))

/-- A number that fits a word, and nothing in place of one that does not. -/
def word? (n : Int) : Option Int := if IsWord n then some n else none

theorem word?_of_isWord {n : Int} (h : IsWord n) : word? n = some n := if_pos h

theorem word?_of_not_isWord {n : Int} (h : ¬ IsWord n) : word? n = none := if_neg h

/-- A signed 32-bit word: a number out of its range is refused. -/
def readWord? (t : Text) : Option Int :=
  (readInt? t).filter fun n => wordMin ≤ n && n ≤ wordMax

/-- The greatest unsigned 16-bit number. -/
def shortMax : Nat := 65535

/-- An unsigned 16-bit number. A plus sign may stand before the digits, a minus
sign may not, not even before a zero. -/
def readShort? (t : Text) : Option Nat :=
  let digits := match t with
    | '+' :: rest => rest
    | t => t
  (readNat? digits).filter (· ≤ shortMax)

/-! ## Reading what was written -/

theorem isDigit_of_mem_writeNat {n : Nat} {c : Char} (h : c ∈ writeNat n) : c.isDigit = true :=
  Nat.isDigit_of_mem_toDigits (by omega) (by omega) h

theorem mem_write {n : Int} {c : Char} (h : c ∈ write n) : c.isDigit = true ∨ c = '-' := by
  cases n with
  | ofNat n => exact Or.inl (isDigit_of_mem_writeNat h)
  | negSucc n =>
    rcases List.mem_cons.1 h with rfl | h
    · exact Or.inr rfl
    · exact Or.inl (isDigit_of_mem_writeNat h)

/-- No number holds a character that is neither a digit nor a minus sign. -/
theorem not_mem_write {mark : Char} (hd : mark.isDigit = false) (hm : mark ≠ '-') (n : Int) :
    mark ∉ write n := by
  intro h
  rcases mem_write h with h | h
  · simp [hd] at h
  · exact hm h

theorem writeNat_ne_nil (n : Nat) : writeNat n ≠ [] := by
  simp [writeNat]

@[simp] theorem readNat?_writeNat (n : Nat) : readNat? (writeNat n) = some n := by
  unfold readNat?
  have hne : (writeNat n).isEmpty = false := by
    simpa using writeNat_ne_nil n
  have hall : (writeNat n).all Char.isDigit = true :=
    List.all_eq_true.2 fun c hc => isDigit_of_mem_writeNat hc
  rw [if_pos (by simp [hne, hall])]
  exact congrArg some Nat.ofDigitChars_ten_toDigits

/-- A digit is no sign, so digits alone are read as they are. -/
theorem readInt?_of_head {t : Text} (h : ∀ c ∈ t, c.isDigit = true) :
    readInt? t = (readNat? t).map Int.ofNat := by
  cases t with
  | nil => rfl
  | cons c rest =>
    have hc := h c List.mem_cons_self
    unfold readInt?
    split
    · next heq => cases heq; simp at hc
    · next heq => cases heq; simp at hc
    · rfl

@[simp] theorem readInt?_write (n : Int) : readInt? (write n) = some n := by
  cases n with
  | ofNat n =>
    rw [write, readInt?_of_head fun c hc => isDigit_of_mem_writeNat hc, readNat?_writeNat]
    rfl
  | negSucc n =>
    simp only [write, readInt?, readNat?_writeNat, Option.map_some]
    rfl

/-- Every signed word is given back. -/
theorem readWord?_write {n : Int} (h : wordMin ≤ n ∧ n ≤ wordMax) :
    readWord? (write n) = some n := by
  rw [readWord?, readInt?_write]
  simp [Option.filter, h.1, h.2]

end TerminalPanes.Decimal
