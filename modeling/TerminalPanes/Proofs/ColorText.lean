-- The laws of written colours. A colour whose channels are signed words is
-- given back by the text it is written as, and no text is read as a colour
-- with a channel that is not a signed word.
import TerminalPanes.Color

namespace TerminalPanes

/-! ## White space -/

namespace Text

/-- Text without white space is not trimmed. -/
theorem trim_of_not_blank {t : Text} (h : ∀ c ∈ t, isBlank c = false) : trim t = t := by
  have hdrop : ∀ s : Text, (∀ c ∈ s, isBlank c = false) → s.dropWhile isBlank = s := by
    intro s hs
    cases s with
    | nil => rfl
    | cons c rest =>
      have hc := hs c List.mem_cons_self
      rw [List.dropWhile_cons_of_neg (by simp [hc])]
  have hrev : ∀ c ∈ t.reverse, isBlank c = false := fun c hc => h c (List.mem_reverse.1 hc)
  rw [trim, hdrop t h, hdrop t.reverse hrev, List.reverse_reverse]

theorem isBlank_of_isDigit {c : Char} (h : c.isDigit = true) : isBlank c = false := by
  have hc := Char.isDigit_iff_toNat.1 h
  have h0 : '0'.toNat = 48 := rfl
  have h9 : '9'.toNat = 57 := rfl
  simp only [isBlank, inRanges, blanks, List.any_cons, List.any_nil, Bool.or_false,
    Bool.or_eq_false_iff, Bool.and_eq_false_iff, decide_eq_false_iff_not]
  omega

end Text

namespace Decimal

theorem trim_write (n : Int) : Text.trim (write n) = write n := by
  apply Text.trim_of_not_blank
  intro c hc
  rcases mem_write hc with h | rfl
  · exact Text.isBlank_of_isDigit h
  · rfl

theorem isWord_of_readWord? {t : Text} {n : Int} (h : readWord? t = some n) : IsWord n := by
  unfold readWord? at h
  have hp := (Option.filter_eq_some_iff.1 h).2
  simpa [IsWord] using hp

end Decimal

namespace Color

/-- Every channel is a signed word. -/
structure Words (c : Color) : Prop where
  red : Decimal.IsWord c.red
  green : Decimal.IsWord c.green
  blue : Decimal.IsWord c.blue

instance (c : Color) : Decidable c.Words :=
  decidable_of_iff (Decimal.IsWord c.red ∧ Decimal.IsWord c.green ∧ Decimal.IsWord c.blue)
    ⟨fun h => ⟨h.1, h.2.1, h.2.2⟩, fun h => ⟨h.red, h.green, h.blue⟩⟩

/-! ## Reading what was written -/

theorem splitOn_write (c : Color) :
    c.write.splitOn ',' = [Decimal.write c.red, Decimal.write c.green, Decimal.write c.blue] := by
  have hno : ∀ n : Int, ',' ∉ Decimal.write n := Decimal.not_mem_write rfl (by decide)
  rw [write, List.append_assoc, List.cons_append,
    List.splitOn_append_cons_self_of_not_mem (hno c.red),
    List.splitOn_append_cons_self_of_not_mem (hno c.green),
    List.splitOn_eq_singleton (hno c.blue)]

/-- A colour is given back by its text. -/
theorem read?_write {c : Color} (h : c.Words) : read? c.write = some c := by
  have hcomma : ',' ∈ c.write := by simp [write]
  unfold read?
  rw [if_pos hcomma]
  simp only [readTriple?, splitOn_write, Decimal.trim_write, Decimal.readWord?_write h.red,
    Decimal.readWord?_write h.green, Decimal.readWord?_write h.blue]
  rfl

/-! ## What is read fits a word -/

theorem words_of_names : ∀ entry ∈ names, entry.2.Words := by
  have hall : ∀ entry ∈ names, (0 ≤ entry.2.red ∧ entry.2.red ≤ 255) ∧
      (0 ≤ entry.2.green ∧ entry.2.green ≤ 255) ∧ 0 ≤ entry.2.blue ∧ entry.2.blue ≤ 255 := by
    decide
  intro entry he
  have h := hall entry he
  constructor <;> simp only [Decimal.IsWord, Decimal.wordMin, Decimal.wordMax] <;> omega

theorem words_of_named? {name : Text} {c : Color} (h : named? name = some c) : c.Words := by
  obtain ⟨before, after, hsplit, -⟩ := List.lookup_eq_some_iff.1 h
  exact words_of_names (name, c) (by simp [hsplit])

theorem hexDigit?_le {c : Char} {n : Nat} (h : hexDigit? c = some n) : n ≤ 15 := by
  have h0 : '0'.toNat = 48 := rfl
  have h9 : '9'.toNat = 57 := rfl
  have ha : 'a'.toNat = 97 := rfl
  have hf : 'f'.toNat = 102 := rfl
  have hA : 'A'.toNat = 65 := rfl
  have hF : 'F'.toNat = 70 := rfl
  have hle : ∀ x y : Char, x ≤ y → x.toNat ≤ y.toNat := fun x y hxy =>
    UInt32.le_iff_toNat_le.1 (Char.le_def.1 hxy)
  unfold hexDigit? at h
  split at h
  · rename_i hd
    have hc := Char.isDigit_iff_toNat.1 hd
    cases h
    omega
  · split at h
    · rename_i hl
      simp only [Bool.and_eq_true, decide_eq_true_eq] at hl
      have hc := hle c 'f' hl.2
      cases h
      omega
    · split at h
      · rename_i hu
        simp only [Bool.and_eq_true, decide_eq_true_eq] at hu
        have hc := hle c 'F' hu.2
        cases h
        omega
      · cases h

theorem isWord_of_hexChannel? {high low : Char} {n : Int} (h : hexChannel? high low = some n) :
    Decimal.IsWord n := by
  simp only [hexChannel?, Option.bind_eq_bind, Option.bind_eq_some_iff] at h
  obtain ⟨x, hx, y, hy, he⟩ := h
  cases he
  have hx := hexDigit?_le hx
  have hy := hexDigit?_le hy
  simp only [Decimal.IsWord, Decimal.wordMin, Decimal.wordMax]
  omega

theorem words_of_readHex? {t : Text} {c : Color} (h : readHex? t = some c) : c.Words := by
  unfold readHex? at h
  split at h
  · simp only [Option.bind_eq_bind, Option.bind_eq_some_iff] at h
    obtain ⟨r, hr, g, hg, b, hb, he⟩ := h
    cases he
    exact ⟨isWord_of_hexChannel? hr, isWord_of_hexChannel? hg, isWord_of_hexChannel? hb⟩
  · simp only [Option.bind_eq_bind, Option.bind_eq_some_iff] at h
    obtain ⟨r, hr, g, hg, b, hb, he⟩ := h
    cases he
    exact ⟨isWord_of_hexChannel? hr, isWord_of_hexChannel? hg, isWord_of_hexChannel? hb⟩
  · contradiction

theorem words_of_readTriple? {t : Text} {c : Color} (h : readTriple? t = some c) : c.Words := by
  unfold readTriple? at h
  split at h
  · simp only [Option.bind_eq_bind, Option.bind_eq_some_iff] at h
    obtain ⟨r, hr, g, hg, b, hb, he⟩ := h
    cases he
    exact ⟨Decimal.isWord_of_readWord? hr, Decimal.isWord_of_readWord? hg,
      Decimal.isWord_of_readWord? hb⟩
  · contradiction

/-- Whatever is read as a colour has signed words for channels. -/
theorem words_of_read? {t : Text} {c : Color} (h : read? t = some c) : c.Words := by
  unfold read? at h
  split at h
  · exact words_of_readTriple? h
  · split at h
    · exact words_of_readHex? h
    · exact words_of_named? h

end Color

end TerminalPanes
