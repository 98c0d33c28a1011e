-- The texts that are read as signed words: digits after one sign at most, of a
-- value in range. White space around them is trimmed away and nothing else is,
-- so a trimmed text is a word just where a word stands in it between blanks.
import Mathlib.Data.List.TakeWhile
import TerminalPanes.Proofs.ColorText

namespace TerminalPanes

/-! ## Text between blanks -/

namespace Text

variable {s t before after : Text}

/-- All of the text is white space. -/
def Blank (t : Text) : Prop := ∀ c ∈ t, isBlank c = true

instance (t : Text) : Decidable (Blank t) := List.decidableBAll (isBlank · = true) t

/-- The second text is the first with white space around it, or with none. -/
def Spaced (s t : Text) : Prop :=
  ∃ before after, Blank before ∧ Blank after ∧ t = before ++ s ++ after

theorem Spaced.refl (t : Text) : Spaced t t :=
  ⟨[], [], by simp [Blank], by simp [Blank], by simp⟩

theorem Blank.dropWhile_append (h : Blank before) (t : Text) :
    (before ++ t).dropWhile isBlank = t.dropWhile isBlank :=
  List.dropWhile_append_of_pos h

theorem Blank.reverse (h : Blank t) : Blank t.reverse := fun c hc => h c (List.mem_reverse.1 hc)

theorem trim_append_left (h : Blank before) (t : Text) : trim (before ++ t) = trim t := by
  unfold trim
  rw [h.dropWhile_append]

theorem trim_append_right (h : Blank after) (t : Text) : trim (t ++ after) = trim t := by
  unfold trim
  rw [List.dropWhile_append]
  split
  · next hempty =>
    -- Where all before it is blank, the white space is dropped from the front.
    have hafter : after.dropWhile isBlank = [] := List.dropWhile_eq_nil_iff.2 h
    rw [hafter, List.isEmpty_iff.1 hempty]
  · rw [List.reverse_append, h.reverse.dropWhile_append]

theorem trim_of_spaced (h : Spaced s t) (hs : ∀ c ∈ s, isBlank c = false) : trim t = s := by
  obtain ⟨before, after, hbefore, hafter, rfl⟩ := h
  rw [trim_append_right hafter, trim_append_left hbefore, trim_of_not_blank hs]

theorem blank_takeWhile (t : Text) : Blank (t.takeWhile isBlank) :=
  fun _ hc => List.mem_takeWhile_imp hc

/-- What is trimmed away is white space. -/
theorem spaced_trim (t : Text) : Spaced (trim t) t := by
  have hback : trim t ++ ((t.dropWhile isBlank).reverse.takeWhile isBlank).reverse =
      t.dropWhile isBlank := by
    rw [trim, ← List.reverse_append, List.takeWhile_append_dropWhile, List.reverse_reverse]
  refine ⟨_, _, blank_takeWhile t, (blank_takeWhile (t.dropWhile isBlank).reverse).reverse, ?_⟩
  rw [List.append_assoc, hback, List.takeWhile_append_dropWhile]

end Text

namespace Decimal

variable {t : Text} {n : Int}

/-! ## Literals -/

/-- Only digits, and one of them at least. -/
def Digits (t : Text) : Prop := t ≠ [] ∧ ∀ c ∈ t, c.isDigit = true

/-- The value of digits. -/
def value (digits : Text) : Nat := Nat.ofDigitChars 10 digits 0

/-- A number in decimal with a sign in front or none, however many zeros it begins with. -/
inductive Literal : Text → Int → Prop
  | bare {digits : Text} (h : Digits digits) : Literal digits (value digits)
  | plus {digits : Text} (h : Digits digits) : Literal ('+' :: digits) (value digits)
  | minus {digits : Text} (h : Digits digits) : Literal ('-' :: digits) (-(value digits))

theorem readNat?_eq_some_iff {m : Nat} : readNat? t = some m ↔ Digits t ∧ value t = m := by
  have hdigits : (!t.isEmpty && t.all Char.isDigit) = true ↔ Digits t := by
    rw [Bool.and_eq_true, Bool.not_eq_true', List.isEmpty_eq_false_iff, List.all_eq_true, Digits]
  unfold readNat? value
  by_cases h : Digits t
  · rw [if_pos (hdigits.2 h), Option.some_inj]
    exact (and_iff_right h).symm
  · rw [if_neg fun hd => h (hdigits.1 hd)]
    constructor
    · intro hnone
      cases hnone
    · intro hd
      exact absurd hd.1 h

theorem map_readNat?_eq_some_iff {f : Nat → Int} :
    (readNat? t).map f = some n ↔ Digits t ∧ f (value t) = n := by
  rw [Option.map_eq_some_iff]
  constructor
  · rintro ⟨m, hm, rfl⟩
    obtain ⟨hdigits, rfl⟩ := readNat?_eq_some_iff.1 hm
    exact ⟨hdigits, rfl⟩
  · rintro ⟨hdigits, rfl⟩
    exact ⟨value t, readNat?_eq_some_iff.2 ⟨hdigits, rfl⟩, rfl⟩

/-- Whole numbers are read from literals and from nothing else. -/
theorem readInt?_eq_some_iff : readInt? t = some n ↔ Literal t n := by
  constructor
  · intro h
    unfold readInt? at h
    split at h
    · obtain ⟨hdigits, rfl⟩ := map_readNat?_eq_some_iff.1 h
      exact .plus hdigits
    · obtain ⟨hdigits, rfl⟩ := map_readNat?_eq_some_iff.1 h
      exact .minus hdigits
    · obtain ⟨hdigits, rfl⟩ := map_readNat?_eq_some_iff.1 h
      exact .bare hdigits
  · intro h
    cases h with
    | bare h =>
      rw [readInt?_of_head h.2]
      exact map_readNat?_eq_some_iff.2 ⟨h, rfl⟩
    | plus h => exact map_readNat?_eq_some_iff.2 ⟨h, rfl⟩
    | minus h => exact map_readNat?_eq_some_iff.2 ⟨h, rfl⟩

theorem readWord?_eq_some_iff : readWord? t = some n ↔ Literal t n ∧ IsWord n := by
  unfold readWord? IsWord
  rw [Option.filter_eq_some_iff, readInt?_eq_some_iff, Bool.and_eq_true, decide_eq_true_eq,
    decide_eq_true_eq]

theorem literal_write (n : Int) : Literal (write n) n := readInt?_eq_some_iff.1 (readInt?_write n)

theorem Literal.mem {c : Char} (h : Literal t n) (hc : c ∈ t) :
    c.isDigit = true ∨ c = '+' ∨ c = '-' := by
  rcases h with h | h | h
  · exact Or.inl (h.2 c hc)
  · rcases List.mem_cons.1 hc with rfl | hc
    · exact Or.inr (Or.inl rfl)
    · exact Or.inl (h.2 c hc)
  · rcases List.mem_cons.1 hc with rfl | hc
    · exact Or.inr (Or.inr rfl)
    · exact Or.inl (h.2 c hc)

theorem Literal.not_blank (h : Literal t n) : ∀ c ∈ t, Text.isBlank c = false := by
  intro c hc
  rcases h.mem hc with hdigit | rfl | rfl
  · exact Text.isBlank_of_isDigit hdigit
  · decide
  · decide

/-! ## Words between blanks -/

/-- The literal of a signed word, with white space around it or without. -/
def SpacedWord (t : Text) (n : Int) : Prop := ∃ s, Text.Spaced s t ∧ Literal s n ∧ IsWord n

theorem readWord?_trim_eq_some_iff : readWord? (Text.trim t) = some n ↔ SpacedWord t n := by
  rw [readWord?_eq_some_iff]
  constructor
  · intro h
    exact ⟨Text.trim t, Text.spaced_trim t, h⟩
  · rintro ⟨s, hspaced, hliteral, hword⟩
    rw [Text.trim_of_spaced hspaced hliteral.not_blank]
    exact ⟨hliteral, hword⟩

/-- A mark that no number has and that is not blank does not stand in a word. -/
theorem SpacedWord.not_mem {mark : Char} (h : SpacedWord t n) (hblank : Text.isBlank mark = false)
    (hdigit : mark.isDigit = false) (hsign : mark ≠ '+' ∧ mark ≠ '-') : mark ∉ t := by
  obtain ⟨s, ⟨before, after, hbefore, hafter, rfl⟩, hliteral, -⟩ := h
  rw [List.mem_append, List.mem_append]
  rintro ((hmem | hmem) | hmem)
  · exact absurd (hbefore mark hmem) (by simp [hblank])
  · rcases hliteral.mem hmem with hmark | hmark | hmark
    · exact absurd hmark (by simp [hdigit])
    · exact hsign.1 hmark
    · exact hsign.2 hmark
  · exact absurd (hafter mark hmem) (by simp [hblank])

theorem spacedWord_of_spaced_write (h : Text.Spaced (write n) t) (hword : IsWord n) :
    SpacedWord t n := ⟨write n, h, literal_write n, hword⟩

end Decimal

end TerminalPanes
