-- The texts that are read as colours. They are three words between commas,
-- three or six hexadecimal digits behind a `#`, and the names. A text of one
-- form is none of another, and a text of no form is read as no colour.
import TerminalPanes.Proofs.MarkupText
import TerminalPanes.Proofs.WordLiteral

namespace TerminalPanes.Color

open Decimal (SpacedWord)

variable {t digits r g b : Text} {c : Color}

/-! ## The forms -/

/-- Three words between commas, each with white space around it or without. -/
def IsTriple (t : Text) (c : Color) : Prop :=
  ∃ r g b, t = r ++ ',' :: g ++ ',' :: b ∧
    SpacedWord r c.red ∧ SpacedWord g c.green ∧ SpacedWord b c.blue

/-- A hexadecimal digit of either case and its value. -/
def HexDigit (c : Char) (n : Nat) : Prop :=
  "0123456789abcdef".toList[n]? = some c ∨ "0123456789ABCDEF".toList[n]? = some c

/-- Two hexadecimal digits and their value. -/
def HexPair (high low : Char) (n : Int) : Prop :=
  ∃ h l : Nat, HexDigit high h ∧ HexDigit low l ∧ n = 16 * h + l

/-- The digits of a hexadecimal colour: two for each channel, or one that stands for itself
twice. -/
inductive Hex : Text → Color → Prop
  | short {r g b : Char} {c : Color} (red : HexPair r r c.red) (green : HexPair g g c.green)
      (blue : HexPair b b c.blue) : Hex [r, g, b] c
  | long {r r' g g' b b' : Char} {c : Color} (red : HexPair r r' c.red)
      (green : HexPair g g' c.green) (blue : HexPair b b' c.blue) : Hex [r, r', g, g', b, b'] c

/-- The texts that stand for a colour. -/
inductive Denotes : Text → Color → Prop
  | triple {t : Text} {c : Color} (h : IsTriple t c) : Denotes t c
  | hex {digits : Text} {c : Color} (h : Hex digits c) : Denotes ('#' :: digits) c
  | name {t : Text} {c : Color} (h : (t, c) ∈ names) : Denotes t c

/-! ## Hexadecimal digits -/

theorem hexDigit?_of_hexDigit {c : Char} {n : Nat} (h : HexDigit c n) : hexDigit? c = some n := by
  have hlower : ∀ k < 16, "0123456789abcdef".toList[k]?.bind hexDigit? = some k := by decide
  have hupper : ∀ k < 16, "0123456789ABCDEF".toList[k]?.bind hexDigit? = some k := by decide
  rcases h with h | h
  · have hvalue := hlower n (List.getElem?_eq_some_iff.1 h).1
    rwa [h] at hvalue
  · have hvalue := hupper n (List.getElem?_eq_some_iff.1 h).1
    rwa [h] at hvalue

theorem toNat_le_of_hexDigit? {c : Char} {n : Nat} (h : hexDigit? c = some n) :
    c.toNat ≤ 'f'.toNat := by
  unfold hexDigit? at h
  split at h
  · next hdigit =>
    have hnine : '9'.toNat ≤ 'f'.toNat := by decide
    exact Nat.le_trans (Char.isDigit_iff_toNat.1 hdigit).2 hnine
  · split at h
    · next hlower =>
      rw [Bool.and_eq_true, decide_eq_true_eq, decide_eq_true_eq] at hlower
      exact hlower.2
    · split at h
      · next hupper =>
        rw [Bool.and_eq_true, decide_eq_true_eq, decide_eq_true_eq] at hupper
        have hcapital : 'F'.toNat ≤ 'f'.toNat := by decide
        exact Nat.le_trans hupper.2 hcapital
      · cases h

theorem hexDigit?_eq_some_iff {c : Char} {n : Nat} : hexDigit? c = some n ↔ HexDigit c n := by
  constructor
  · intro h
    have hall : ∀ k ≤ 'f'.toNat, ∀ n ≤ 15, hexDigit? (Char.ofNat k) = some n →
        HexDigit (Char.ofNat k) n := by
      unfold HexDigit
      decide +kernel
    have hc := hall c.toNat (toNat_le_of_hexDigit? h) n (hexDigit?_le h)
    rw [Char.ofNat_toNat] at hc
    exact hc h
  · exact hexDigit?_of_hexDigit

theorem hexChannel?_eq_some_iff {high low : Char} {n : Int} :
    hexChannel? high low = some n ↔ HexPair high low n := by
  simp only [hexChannel?, Option.bind_eq_bind, Option.bind_eq_some_iff, hexDigit?_eq_some_iff]
  constructor
  · rintro ⟨h, hh, l, hl, he⟩
    cases he
    exact ⟨h, l, hh, hl, rfl⟩
  · rintro ⟨h, l, hh, hl, rfl⟩
    exact ⟨h, hh, l, hl, rfl⟩

/-- A colour is read channel by channel. -/
theorem channels_eq_some_iff {red green blue : Option Int} :
    (red >>= fun r => green >>= fun g => blue >>= fun b => pure (Color.mk r g b)) = some c ↔
      red = some c.red ∧ green = some c.green ∧ blue = some c.blue := by
  simp only [Option.bind_eq_bind, Option.bind_eq_some_iff]
  constructor
  · rintro ⟨r, hr, g, hg, b, hb, he⟩
    cases he
    exact ⟨hr, hg, hb⟩
  · rintro ⟨hr, hg, hb⟩
    exact ⟨_, hr, _, hg, _, hb, rfl⟩

theorem readHex?_eq_some_iff : readHex? t = some c ↔ Hex t c := by
  constructor
  · intro h
    unfold readHex? at h
    split at h
    · obtain ⟨hred, hgreen, hblue⟩ := channels_eq_some_iff.1 h
      rw [hexChannel?_eq_some_iff] at hred hgreen hblue
      exact .short hred hgreen hblue
    · obtain ⟨hred, hgreen, hblue⟩ := channels_eq_some_iff.1 h
      rw [hexChannel?_eq_some_iff] at hred hgreen hblue
      exact .long hred hgreen hblue
    · cases h
  · intro h
    cases h with
    | short red green blue =>
      rw [← hexChannel?_eq_some_iff] at red green blue
      exact channels_eq_some_iff.2 ⟨red, green, blue⟩
    | long red green blue =>
      rw [← hexChannel?_eq_some_iff] at red green blue
      exact channels_eq_some_iff.2 ⟨red, green, blue⟩

theorem HexPair.comma_ne {high low : Char} {n : Int} (h : HexPair high low n) :
    ',' ≠ high ∧ ',' ≠ low := by
  obtain ⟨x, y, hx, hy, -⟩ := h
  have hcomma : hexDigit? ',' = none := by decide
  constructor
  · rintro rfl
    simp [hexDigit?_of_hexDigit hx] at hcomma
  · rintro rfl
    simp [hexDigit?_of_hexDigit hy] at hcomma

theorem Hex.comma_not_mem (h : Hex t c) : ',' ∉ t := by
  cases h with
  | short red green blue => simp [red.comma_ne, green.comma_ne, blue.comma_ne]
  | long red green blue => simp [red.comma_ne, green.comma_ne, blue.comma_ne]

/-! ## Triples -/

theorem comma_not_mem_of_spacedWord {n : Int} (h : SpacedWord t n) : ',' ∉ t :=
  h.not_mem (by decide) (by decide) (by decide)

/-- Three texts without a comma are the parts of what is written with commas between them. -/
theorem splitOn_eq_triple_iff :
    t.splitOn ',' = [r, g, b] ↔
      t = r ++ ',' :: g ++ ',' :: b ∧ ',' ∉ r ∧ ',' ∉ g ∧ ',' ∉ b := by
  constructor
  · intro h
    have hback : [','].intercalate (t.splitOn ',') = t := List.intercalate_splitOn ','
    have hpart : ∀ part ∈ t.splitOn ',', ',' ∉ part := fun _ => Text.not_mem_of_mem_splitOn
    rw [h] at hback hpart
    refine ⟨?_, hpart r (by simp), hpart g (by simp), hpart b (by simp)⟩
    rw [← hback]
    simp [List.intercalate]
  · rintro ⟨rfl, hr, hg, hb⟩
    rw [List.append_assoc, List.cons_append, List.splitOn_append_cons_self_of_not_mem hr,
      List.splitOn_append_cons_self_of_not_mem hg, List.splitOn_eq_singleton hb]

theorem readTriple?_eq_some_iff : readTriple? t = some c ↔ IsTriple t c := by
  constructor
  · intro h
    unfold readTriple? at h
    split at h
    · next r g b hsplit =>
      obtain ⟨hred, hgreen, hblue⟩ := channels_eq_some_iff.1 h
      rw [Decimal.readWord?_trim_eq_some_iff] at hred hgreen hblue
      exact ⟨r, g, b, (splitOn_eq_triple_iff.1 hsplit).1, hred, hgreen, hblue⟩
    · cases h
  · rintro ⟨r, g, b, ht, hred, hgreen, hblue⟩
    have hsplit := splitOn_eq_triple_iff.2 ⟨ht, comma_not_mem_of_spacedWord hred,
      comma_not_mem_of_spacedWord hgreen, comma_not_mem_of_spacedWord hblue⟩
    rw [← Decimal.readWord?_trim_eq_some_iff] at hred hgreen hblue
    unfold readTriple?
    rw [hsplit]
    exact channels_eq_some_iff.2 ⟨hred, hgreen, hblue⟩

theorem IsTriple.comma_mem (h : IsTriple t c) : ',' ∈ t := by
  obtain ⟨r, g, b, rfl, -⟩ := h
  simp

/-- A `#` in front belongs to no word, and no comma comes before it. -/
theorem not_isTriple_hash : ¬ IsTriple ('#' :: digits) c := by
  rintro ⟨r, g, b, ht, hred, -⟩
  rcases r with _ | ⟨first, r⟩
  · cases ht
  · injection ht with hfirst _
    subst hfirst
    have hno : '#' ∉ '#' :: r := hred.not_mem (by decide) (by decide) (by decide)
    exact hno List.mem_cons_self

/-! ## All forms -/

theorem named?_eq_some_iff : named? t = some c ↔ (t, c) ∈ names := by
  constructor
  · intro h
    obtain ⟨before, after, hsplit, -⟩ := List.lookup_eq_some_iff.1 h
    simp [hsplit]
  · intro h
    have hall : ∀ entry ∈ names, named? entry.1 = some entry.2 := by decide
    exact hall (t, c) h

/-- Behind a `#` stand digits, also where there is a comma among them. -/
theorem read?_hash (digits : Text) : read? ('#' :: digits) = readHex? digits := by
  unfold read?
  by_cases hcomma : ',' ∈ '#' :: digits
  · have hno : ',' ∈ digits := by simpa using hcomma
    rw [if_pos hcomma]
    have htriple : readTriple? ('#' :: digits) = none :=
      Option.eq_none_iff_forall_ne_some.2 fun c h => not_isTriple_hash (readTriple?_eq_some_iff.1 h)
    have hhex : readHex? digits = none :=
      Option.eq_none_iff_forall_ne_some.2 fun c h => (readHex?_eq_some_iff.1 h).comma_not_mem hno
    rw [htriple, hhex]
  · rw [if_neg hcomma]
    rfl

theorem read?_of_isTriple (h : IsTriple t c) : read? t = some c := by
  unfold read?
  rw [if_pos h.comma_mem, readTriple?_eq_some_iff.2 h]

theorem denotes_of_read? (h : read? t = some c) : Denotes t c := by
  unfold read? at h
  split at h
  · exact .triple (readTriple?_eq_some_iff.1 h)
  · split at h
    · exact .hex (readHex?_eq_some_iff.1 h)
    · exact .name (named?_eq_some_iff.1 h)

theorem Denotes.read? (h : Denotes t c) : read? t = some c := by
  cases h with
  | triple h => exact read?_of_isTriple h
  | hex h => rw [read?_hash, readHex?_eq_some_iff.2 h]
  | name h =>
    have hall : ∀ entry ∈ names, Color.read? entry.1 = some entry.2 := by decide
    exact hall (t, c) h

/-- A colour is read back from its text, with white space around each of its numbers or
without. Six hexadecimal digits are the values of three bytes, and three characters are read
as if each stood there twice. A text is read as a colour just where it is one of these, three
words between commas or a name. -/
theorem colors_are_read_from_their_forms_and_from_nothing_else :
    (∀ c : Color, c.Words → read? c.write = some c ∧
        ∀ r g b, Text.Spaced (Decimal.write c.red) r → Text.Spaced (Decimal.write c.green) g →
          Text.Spaced (Decimal.write c.blue) b →
          read? (r ++ ',' :: g ++ ',' :: b) = some c) ∧
      (∀ (r r' g g' b b' : Char) (red green blue : Int), HexPair r r' red → HexPair g g' green →
        HexPair b b' blue → read? ['#', r, r', g, g', b, b'] = some ⟨red, green, blue⟩) ∧
      (∀ r g b : Char, read? ['#', r, g, b] = read? ['#', r, r, g, g, b, b]) ∧
      ∀ t c, read? t = some c ↔ Denotes t c := by
  refine ⟨?_, ?_, ?_, fun t c => ⟨denotes_of_read?, Denotes.read?⟩⟩
  · intro c hc
    refine ⟨read?_write hc, fun r g b hr hg hb => ?_⟩
    apply read?_of_isTriple
    exact ⟨r, g, b, rfl, Decimal.spacedWord_of_spaced_write hr hc.red,
      Decimal.spacedWord_of_spaced_write hg hc.green,
      Decimal.spacedWord_of_spaced_write hb hc.blue⟩
  · intro r r' g g' b b' red green blue hred hgreen hblue
    exact Denotes.read? (.hex (.long hred hgreen hblue))
  · intro r g b
    rw [read?_hash, read?_hash, readHex?, readHex?]

/-- The least word between a tab and a blank, digits of both cases, a comma among three
characters and a text with two numbers only. -/
theorem a_spaced_triple_and_digits_of_both_cases :
    let red := '\t' :: Decimal.write (-2147483648) ++ [' ']
    read? (red ++ ',' :: Decimal.write 0 ++ ',' :: Decimal.write 255) =
        some ⟨-2147483648, 0, 255⟩ ∧
      read? "#aF09eD".toList = some ⟨175, 9, 237⟩ ∧
      read? "#,12".toList = read? "#,,1122".toList ∧ ∀ c, ¬ Denotes "1,2".toList c := by
  intro red
  obtain ⟨hwritten, hlong, hshort, hforms⟩ := colors_are_read_from_their_forms_and_from_nothing_else
  have hred : Text.Spaced (Decimal.write (-2147483648)) red :=
    ⟨['\t'], [' '], by decide, by decide, rfl⟩
  refine ⟨?_, ?_, hshort ',' '1' '2', ?_⟩
  · exact (hwritten ⟨-2147483648, 0, 255⟩ (by decide)).2 _ _ _ hred (.refl _) (.refl _)
  · exact hlong 'a' 'F' '0' '9' 'e' 'D' 175 9 237 ⟨10, 15, .inl rfl, .inr rfl, rfl⟩
      ⟨0, 9, .inl rfl, .inl rfl, rfl⟩ ⟨14, 13, .inl rfl, .inr rfl, rfl⟩
  · intro c hc
    have hnone : read? "1,2".toList = none := by decide
    rw [(hforms _ c).2 hc] at hnone
    cases hnone

end TerminalPanes.Color
