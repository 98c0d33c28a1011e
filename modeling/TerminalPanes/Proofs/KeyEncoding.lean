-- The bytes that a terminal sends for a key, and the law that the decoder
-- gives the keys back. Where an encoding ends is told by its own bytes, so
-- encodings one after the other can be read in one way only.
import Mathlib.Data.List.TakeWhile
import TerminalPanes.Proofs.KeyStream
import TerminalPanes.Text.Decimal

namespace TerminalPanes

/-! ## Characters beyond ASCII -/

namespace Text.Utf8

theorem toNat_ofNat {n : Nat} (h : n < 256) : (UInt8.ofNat n).toNat = n :=
  UInt8.toNat_ofNat_of_lt' h

/-- A byte that continues a character gives its six bits back. -/
theorem continuation?_ofNat {n : Nat} (h : n < 64) :
    continuation? (UInt8.ofNat (n + 128)) = some n := by
  unfold continuation?
  simp only [UInt8.le_iff_toNat_le, toNat_ofNat (by omega : n + 128 < 256)]
  rw [if_pos (by simp; omega)]
  simp

/-- Each byte that continues a character puts six bits behind those before. -/
theorem assemble?_cons {bits n : Nat} (h : n < 64) (after : List UInt8) :
    assemble? bits (UInt8.ofNat (n + 128) :: after) = assemble? (64 * bits + n) after := by
  unfold assemble?
  rw [List.foldlM_cons, continuation?_ofNat h]
  rfl

/-- The bits of a whole character make the character. -/
theorem scalar?_assemble? {least bits : Nat} {c : Char} (hbits : bits = c.toNat)
    (hleast : least ≤ c.toNat) : (assemble? bits []).bind (scalar? least) = some c := by
  subst hbits
  change scalar? least c.toNat = some c
  unfold scalar?
  rw [if_pos ⟨hleast, c.valid⟩, Char.ofNat_toNat]

/-- A lead byte and those after it are the form of a character beyond ASCII. -/
structure IsForm (c : Char) (lead : UInt8) (after : List UInt8) : Prop where
  encode : String.utf8EncodeChar c = lead :: after
  high : 0x80 ≤ lead
  length : formLength? lead = some (after.length + 1)
  decode : decode? lead after = some c

theorem isForm_two {c : Char} (hl : 0x80 ≤ c.toNat) (hu : c.toNat ≤ 0x7FF) :
    IsForm c (UInt8.ofNat (c.toNat / 64 % 32 + 192)) [UInt8.ofNat (c.toNat % 64 + 128)] := by
  have hlead := toNat_ofNat (by omega : c.toNat / 64 % 32 + 192 < 256)
  have hlast := Nat.mod_lt c.toNat (by decide : 0 < 64)
  refine ⟨?_, ?_, ?_, ?_⟩
  · unfold String.utf8EncodeChar
    simp only [Char.toNat_val]
    rw [if_neg (by omega), if_pos hu]
  · rw [UInt8.le_iff_toNat_le, hlead]
    simp
  · unfold formLength?
    simp only [UInt8.le_iff_toNat_le, hlead]
    rw [if_pos (by simp; omega)]
    rfl
  · simp only [decode?, List.length_singleton, hlead, assemble?_cons hlast]
    exact scalar?_assemble? (by simp; omega) hl

theorem isForm_three {c : Char} (hl : 0x800 ≤ c.toNat) (hu : c.toNat ≤ 0xFFFF) :
    IsForm c (UInt8.ofNat (c.toNat / 4096 % 16 + 224))
      [UInt8.ofNat (c.toNat / 64 % 64 + 128), UInt8.ofNat (c.toNat % 64 + 128)] := by
  have hlead := toNat_ofNat (by omega : c.toNat / 4096 % 16 + 224 < 256)
  have hmiddle := Nat.mod_lt (c.toNat / 64) (by decide : 0 < 64)
  have hlast := Nat.mod_lt c.toNat (by decide : 0 < 64)
  refine ⟨?_, ?_, ?_, ?_⟩
  · unfold String.utf8EncodeChar
    simp only [Char.toNat_val]
    rw [if_neg (by omega), if_neg (by omega), if_pos hu]
  · rw [UInt8.le_iff_toNat_le, hlead]
    simp
  · unfold formLength?
    simp only [UInt8.le_iff_toNat_le, hlead]
    rw [if_neg (by simp), if_pos (by simp; omega)]
    rfl
  · simp only [decode?, List.length_cons, List.length_nil, hlead, assemble?_cons hmiddle,
      assemble?_cons hlast]
    exact scalar?_assemble? (by simp; omega) hl

theorem isForm_four {c : Char} (hl : 0x10000 ≤ c.toNat) :
    IsForm c (UInt8.ofNat (c.toNat / 262144 % 8 + 240))
      [UInt8.ofNat (c.toNat / 4096 % 64 + 128), UInt8.ofNat (c.toNat / 64 % 64 + 128),
        UInt8.ofNat (c.toNat % 64 + 128)] := by
  have hlead := toNat_ofNat (by omega : c.toNat / 262144 % 8 + 240 < 256)
  have hsecond := Nat.mod_lt (c.toNat / 4096) (by decide : 0 < 64)
  have hthird := Nat.mod_lt (c.toNat / 64) (by decide : 0 < 64)
  have hlast := Nat.mod_lt c.toNat (by decide : 0 < 64)
  have hvalid : c.toNat < 0x110000 := by
    rcases c.valid with h | ⟨-, h⟩
    · exact Nat.lt_trans h (by decide)
    · exact h
  refine ⟨?_, ?_, ?_, ?_⟩
  · unfold String.utf8EncodeChar
    simp only [Char.toNat_val]
    rw [if_neg (by omega), if_neg (by omega), if_neg (by omega)]
  · rw [UInt8.le_iff_toNat_le, hlead]
    simp
  · unfold formLength?
    simp only [UInt8.le_iff_toNat_le, hlead]
    rw [if_neg (by simp), if_neg (by simp), if_pos (by simp; omega)]
    rfl
  · simp only [decode?, List.length_cons, List.length_nil, hlead, assemble?_cons hsecond,
      assemble?_cons hthird, assemble?_cons hlast]
    exact scalar?_assemble? (by simp; omega) hl

/-- Every character beyond ASCII has a form that is decoded to it. -/
theorem exists_isForm {c : Char} (h : 0x80 ≤ c.toNat) :
    ∃ lead after, IsForm c lead after := by
  by_cases htwo : c.toNat ≤ 0x7FF
  · exact ⟨_, _, isForm_two h htwo⟩
  · by_cases hthree : c.toNat ≤ 0xFFFF
    · exact ⟨_, _, isForm_three (by omega) hthree⟩
    · exact ⟨_, _, isForm_four (by omega)⟩

end Text.Utf8

namespace Key

/-! ## Encodings -/

/-- The byte of a character of ASCII. -/
def byte (c : Char) : UInt8 := UInt8.ofNat c.toNat

/-- The byte of a letter that is held with ctrl. -/
def controlByte (c : Char) : UInt8 := UInt8.ofNat (c.toNat - 0x60)

/-- The keys with a control byte that is not taken for a letter. -/
def singles : List (Key × UInt8) :=
  [(plain .backspace, 0x08), (plain .backspace, 0x7F), (plain .tab, 0x09), (plain .enter, 0x0A),
    (plain .enter, 0x0D), (withCtrl (.char '@'), 0x00)]

/-- The letters with a control byte that is taken for another key. -/
def taken : List Char := ['h', 'i', 'j', 'm']

/-- The keys with a final character. -/
def finals : List (KeyCode × Char) :=
  [(.up, 'A'), (.down, 'B'), (.right, 'C'), (.left, 'D'), (.home, 'H'), (.endKey, 'F'),
    (.function 1, 'P'), (.function 2, 'Q'), (.function 3, 'R'), (.function 4, 'S')]

/-- The keys with a number. -/
def numbers : List (KeyCode × Nat) :=
  [(.home, 1), (.insert, 2), (.delete, 3), (.endKey, 4), (.pageUp, 5), (.pageDown, 6), (.home, 7),
    (.endKey, 8), (.function 5, 15), (.function 6, 17), (.function 7, 18), (.function 8, 19),
    (.function 9, 20), (.function 10, 21), (.function 11, 23), (.function 12, 24)]

def digits (n : Nat) : List UInt8 := (Decimal.writeNat n).map byte

/-- Numbers with semicolons between them. -/
def writeParameters (ps : List Nat) : List UInt8 := [0x3B].intercalate (ps.map digits)

/-- A control sequence with its two opening bytes. -/
def sequence (ps : List Nat) (final : Char) : List UInt8 :=
  esc :: 0x5B :: (writeParameters ps ++ [byte final])

/-- The bytes that a terminal may send for a key. Some keys have several
encodings. -/
inductive Encodes : Key → List UInt8 → Prop where
  | printable {c : Char} (hl : ' ' ≤ c) (hu : c ≤ '~') : Encodes (plain (.char c)) [byte c]
  | single {key : Key} {b : UInt8} (h : (key, b) ∈ singles) : Encodes key [b]
  | letter {c : Char} (hl : 'a' ≤ c) (hu : c ≤ 'z') (h : c ∉ taken) :
    Encodes (withCtrl (.char c)) [controlByte c]
  | wide {c : Char} (h : 0x80 ≤ c.toNat) : Encodes (plain (.char c)) (String.utf8EncodeChar c)
  /-- The characters that open sequences cannot be sent in this way. -/
  | altPrintable {c : Char} (hl : ' ' ≤ c) (hu : c ≤ '~') (hcsi : c ≠ '[') (hss3 : c ≠ 'O') :
    Encodes (withAlt (.char c)) [esc, byte c]
  | altLetter {c : Char} (hl : 'a' ≤ c) (hu : c ≤ 'z') :
    Encodes ⟨.char c, { Modifiers.none with alt := true, ctrl := true }⟩ [esc, controlByte c]
  | altEscape : Encodes (withAlt .escape) [esc, esc]
  | shifted {code : KeyCode} {c : Char} (h : (code, c) ∈ finals) :
    Encodes (plain code) [esc, 0x4F, byte c]
  | final {code : KeyCode} {c : Char} (h : (code, c) ∈ finals) :
    Encodes (plain code) (sequence [] c)
  /-- The modifiers follow a one that stands for nothing. -/
  | finalWith {code : KeyCode} {c : Char} (h : (code, c) ∈ finals) (m : Modifiers) :
    Encodes ⟨code, m⟩ (sequence [1, 1 + m.mask] c)
  | number {code : KeyCode} {n : Nat} (h : (code, n) ∈ numbers) :
    Encodes (plain code) (sequence [n] '~')
  | numberWith {code : KeyCode} {n : Nat} (h : (code, n) ∈ numbers) (m : Modifiers) :
    Encodes ⟨code, m⟩ (sequence [n, 1 + m.mask] '~')
  | backTab : Encodes (withShift .tab) (sequence [] 'Z')

/-! ## Single bytes -/

theorem toNat_byte {c : Char} (h : c ≤ '~') : (byte c).toNat = c.toNat := by
  have hc : c.toNat ≤ 126 := h
  exact Text.Utf8.toNat_ofNat (by omega)

theorem toNat_controlByte {c : Char} (h : c ≤ 'z') : (controlByte c).toNat = c.toNat - 0x60 := by
  have hc : c.toNat ≤ 122 := h
  exact Text.Utf8.toNat_ofNat (by omega)

section

variable {c : Char}

theorem byte_ne (hu : c ≤ '~') {b : UInt8} (h : c.toNat ≠ b.toNat) : byte c ≠ b := by
  rintro rfl
  exact h (toNat_byte hu).symm

theorem controlByte_ne (hl : 'a' ≤ c) (hu : c ≤ 'z') {b : UInt8} (h : c.toNat ≠ b.toNat + 0x60) :
    controlByte c ≠ b := by
  have hlow : 97 ≤ c.toNat := hl
  rintro rfl
  rw [toNat_controlByte hu] at h
  omega

theorem isPrintable_byte (hl : ' ' ≤ c) (hu : c ≤ '~') : isPrintable (byte c) = true := by
  have hlow : 32 ≤ c.toNat := hl
  have hhigh : c.toNat ≤ 126 := hu
  simp [isPrintable, UInt8.le_iff_toNat_le, toNat_byte hu, hlow, hhigh]

theorem isControl_controlByte (hl : 'a' ≤ c) (hu : c ≤ 'z') :
    isControl (controlByte c) = true ∧ isPrintable (controlByte c) = false := by
  have hlow : 97 ≤ c.toNat := hl
  have hhigh : c.toNat ≤ 122 := hu
  simp [isControl, isPrintable, UInt8.le_iff_toNat_le, toNat_controlByte hu]
  omega

theorem printable_byte (hu : c ≤ '~') : printable (byte c) = .char c := by
  rw [printable, toNat_byte hu, Char.ofNat_toNat]

theorem controlLetter_controlByte (hl : 'a' ≤ c) (hu : c ≤ 'z') :
    controlLetter (controlByte c) = .char c := by
  have hlow : 97 ≤ c.toNat := hl
  rw [controlLetter, toNat_controlByte hu, Nat.sub_add_cancel (by omega), Char.ofNat_toNat]

theorem ofByte?_byte (hl : ' ' ≤ c) (hu : c ≤ '~') : ofByte? (byte c) = some (plain (.char c)) := by
  have hlow : 32 ≤ c.toNat := hl
  have hhigh : c.toNat ≤ 126 := hu
  have hne : ∀ b : UInt8, b.toNat < 32 ∨ b.toNat = 127 → byte c ≠ b :=
    fun b hb => byte_ne hu (by omega)
  have hcontrol : isControl (byte c) = false := by
    simp [isControl, UInt8.le_iff_toNat_le, toNat_byte hu]
    omega
  unfold ofByte?
  simp [hne esc (by decide), hne 0x08 (by decide), hne 0x7F (by decide), hne 0x09 (by decide),
    hne 0x0A (by decide), hne 0x0D (by decide), hne 0x00 (by decide), hcontrol,
    isPrintable_byte hl hu, printable_byte hu]

theorem ofByte?_controlByte (hl : 'a' ≤ c) (hu : c ≤ 'z') (h : c ∉ taken) :
    ofByte? (controlByte c) = some (withCtrl (.char c)) := by
  have hlow : 97 ≤ c.toNat := hl
  have hhigh : c.toNat ≤ 122 := hu
  have hout : ∀ b : UInt8, b.toNat = 0 ∨ 26 < b.toNat → controlByte c ≠ b :=
    fun b hb => controlByte_ne hl hu (by omega)
  have hfree : ∀ d ∈ taken, c.toNat ≠ d.toNat := by
    intro d hd he
    rw [← Char.toNat_inj.1 he] at hd
    exact h hd
  unfold ofByte?
  simp [hout esc (by decide), hout 0x7F (by decide), hout 0x00 (by decide),
    controlByte_ne (b := 0x08) hl hu (hfree 'h' (by decide)),
    controlByte_ne (b := 0x09) hl hu (hfree 'i' (by decide)),
    controlByte_ne (b := 0x0A) hl hu (hfree 'j' (by decide)),
    controlByte_ne (b := 0x0D) hl hu (hfree 'm' (by decide)),
    (isControl_controlByte hl hu).1, controlLetter_controlByte hl hu]

end

theorem ofByte?_single {key : Key} {b : UInt8} (h : (key, b) ∈ singles) :
    b ≠ esc ∧ b < 0x80 ∧ ofByte? b = some key := by
  have hall : ∀ s ∈ singles, s.2 ≠ esc ∧ s.2 < 0x80 ∧ ofByte? s.2 = some s.1 := by decide
  exact hall _ h

theorem verdict_of_ofByte? {b : UInt8} {key : Key} (hesc : b ≠ esc) (hlow : b < 0x80)
    (h : ofByte? b = some key) (rest : List UInt8) : verdict b rest = .key key 0 := by
  unfold verdict
  rw [if_neg hesc, if_neg (UInt8.not_le.2 hlow), h]

theorem verdict_wide {c : Char} {lead : UInt8} {after : List UInt8}
    (h : Text.Utf8.IsForm c lead after) :
    verdict lead after = .key (plain (.char c)) after.length := by
  have hesc : lead ≠ esc := by
    rintro rfl
    exact absurd h.high (by decide)
  unfold verdict wideCharacter
  simp [hesc, h.high, h.length, h.decode]

/-! ## Numbers -/

/-- Digits are read as they are written, as long as they do not exceed the
greatest parameter. -/
theorem foldl_digits {t : Text} (ht : ∀ c ∈ t, c.isDigit = true) {n : Nat}
    (h : Nat.ofDigitChars 10 t n ≤ parameterMax) :
    (t.map byte).foldl (fun n b => min (10 * n + (b.toNat - 0x30)) parameterMax) n =
      Nat.ofDigitChars 10 t n := by
  induction t generalizing n with
  | nil => rfl
  | cons c rest ih =>
    obtain ⟨hc, hrest⟩ := List.forall_mem_cons.1 ht
    have hbyte : (byte c).toNat = c.toNat := by
      obtain ⟨-, hnine⟩ := Char.isDigit_iff_toNat.1 hc
      have hnine : c.toNat ≤ 57 := hnine
      exact toNat_byte (by change c.toNat ≤ 126; omega)
    have hstep : 10 * n + (c.toNat - 0x30) ≤ parameterMax := by
      rw [Nat.ofDigitChars_cons, Nat.ofDigitChars_eq_ofDigitChars_zero] at h
      have hpow : 0 < 10 ^ rest.length := Nat.pow_pos (by decide)
      have hgrow := Nat.le_mul_of_pos_left (10 * n + (c.toNat - 0x30)) hpow
      exact Nat.le_trans hgrow (Nat.le_trans (Nat.le_add_right _ _) h)
    rw [Nat.ofDigitChars_cons] at h ⊢
    rw [List.map_cons, List.foldl_cons, hbyte, Nat.min_eq_left hstep]
    exact ih hrest h

theorem isDigit_byte {c : Char} (h : c.isDigit = true) : 0x30 ≤ byte c ∧ byte c ≤ 0x39 := by
  obtain ⟨hzero, hnine⟩ := Char.isDigit_iff_toNat.1 h
  have hzero : 48 ≤ c.toNat := hzero
  have hnine : c.toNat ≤ 57 := hnine
  have hbyte := toNat_byte (by change c.toNat ≤ 126; omega)
  simp [UInt8.le_iff_toNat_le, hbyte, hzero, hnine]

theorem parameter_digits {n : Nat} (h : n ≤ parameterMax) : parameter (digits n) = n := by
  have hdigits : ∀ c ∈ Decimal.writeNat n, c.isDigit = true :=
    fun c hc => Decimal.isDigit_of_mem_writeNat hc
  have hall : ∀ b ∈ digits n, (decide (0x30 ≤ b) && decide (b ≤ 0x39)) = true := by
    intro b hb
    obtain ⟨c, hc, rfl⟩ := List.mem_map.1 hb
    simp [isDigit_byte (hdigits c hc)]
  have hvalue : Nat.ofDigitChars 10 (Decimal.writeNat n) 0 = n := Nat.ofDigitChars_ten_toDigits
  unfold parameter
  rw [List.takeWhile_eq_self_iff.2 hall, digits, foldl_digits hdigits (by rw [hvalue]; exact h),
    hvalue]

/-! ## Sequences -/

theorem isParameter_of_mem {ps : List Nat} {b : UInt8} (h : b ∈ writeParameters ps) :
    isParameter b = true := by
  have hdigit : ∀ n, ∀ b ∈ digits n, isParameter b = true := by
    intro n b hb
    obtain ⟨c, hc, rfl⟩ := List.mem_map.1 hb
    obtain ⟨hzero, hnine⟩ := isDigit_byte (Decimal.isDigit_of_mem_writeNat hc)
    have hlow : (0x20 : UInt8) ≤ byte c := UInt8.le_trans (by decide) hzero
    have hhigh : byte c ≤ 0x3F := UInt8.le_trans hnine (by decide)
    simp [isParameter, hlow, hhigh]
  unfold writeParameters at h
  induction ps with
  | nil => simp at h
  | cons p rest ih =>
    cases rest with
    | nil => exact hdigit p b (by simpa using h)
    | cons q rest =>
      rw [List.map_cons, List.map_cons, List.intercalate_cons_cons] at h
      simp only [List.mem_append, List.mem_singleton] at h
      rcases h with (h | rfl) | h
      · exact hdigit p b h
      · decide
      · exact ih h

/-- The parameters of a sequence without any are a single zero. -/
def given : List Nat → List Nat
  | [] => [0]
  | ps => ps

theorem parameters_writeParameters {ps : List Nat} (h : ∀ p ∈ ps, p ≤ parameterMax) :
    parameters (writeParameters ps) = given ps := by
  cases ps with
  | nil => rfl
  | cons p rest =>
    have hmark : ∀ bs ∈ (p :: rest).map digits, 0x3B ∉ bs := by
      intro bs hbs hmem
      obtain ⟨n, -, rfl⟩ := List.mem_map.1 hbs
      obtain ⟨c, hc, hbyte⟩ := List.mem_map.1 hmem
      have hnine := (isDigit_byte (Decimal.isDigit_of_mem_writeNat hc)).2
      rw [hbyte] at hnine
      exact absurd hnine (by decide)
    unfold parameters writeParameters
    rw [List.splitOn_intercalate _ hmark (by simp), List.map_map]
    have hread : ∀ q ∈ p :: rest, (parameter ∘ digits) q = id q :=
      fun q hq => parameter_digits (h q hq)
    rw [List.map_congr_left hread, List.map_id]
    rfl

/-- A control sequence is read as its parameters and its final character say. -/
theorem verdict_sequence {ps : List Nat} {final : Char} {key : Key}
    (hps : ∀ p ∈ ps, p ≤ parameterMax) (hfinal : isFinal (byte final) = true)
    (hkey : ofSequence? (given ps) (byte final) = some key) :
    verdict esc (0x5B :: (writeParameters ps ++ [byte final])) =
      .key key (0x5B :: (writeParameters ps ++ [byte final])).length := by
  have hout : isParameter (byte final) = false := by
    simp only [isFinal, Bool.and_eq_true, decide_eq_true_eq] at hfinal
    have hhigh : ¬ byte final ≤ 0x3F := by
      intro hle
      exact absurd (UInt8.le_trans hfinal.1 hle) (by decide)
    simp [isParameter, hhigh]
  have hheld : (writeParameters ps ++ [byte final]).takeWhile isParameter = writeParameters ps := by
    rw [List.takeWhile_append_of_pos fun b hb => isParameter_of_mem hb]
    simp [hout]
  have hrest : (writeParameters ps ++ [byte final]).dropWhile isParameter = [byte final] := by
    rw [List.dropWhile_append_of_pos fun b hb => isParameter_of_mem hb]
    simp [hout]
  have hbody : controlSequence (writeParameters ps ++ [byte final]) =
      .key key ((writeParameters ps).length + 2) := by
    simp only [controlSequence, hheld, hrest, hfinal, if_true, parameters_writeParameters hps, hkey]
  simp [verdict, afterEscape, hbody]

theorem ofFinal?_byte {code : KeyCode} {c : Char} (h : (code, c) ∈ finals) :
    isFinal (byte c) = true ∧ byte c ≠ 0x7E ∧ byte c ≠ 0x5A ∧ ofFinal? (byte c) = some code := by
  have hall : ∀ f ∈ finals, isFinal (byte f.2) = true ∧ byte f.2 ≠ 0x7E ∧ byte f.2 ≠ 0x5A ∧
      ofFinal? (byte f.2) = some f.1 := by decide
  exact hall _ h

/-- The numbers are those that the decoder knows. -/
theorem mem_numbers_iff {code : KeyCode} {n : Nat} :
    (code, n) ∈ numbers ↔ ofNumber? n = some code := by
  constructor
  · have hall : ∀ f ∈ numbers, ofNumber? f.2 = some f.1 := by decide
    exact hall (code, n)
  · intro h
    unfold ofNumber? at h
    split at h
    all_goals cases h
    all_goals decide

theorem le_of_mem_numbers {code : KeyCode} {n : Nat} (h : (code, n) ∈ numbers) : n ≤ 24 := by
  have hall : ∀ f ∈ numbers, f.2 ≤ 24 := by decide
  exact hall _ h

theorem ofParameter_mask (m : Modifiers) : ofParameter (1 + m.mask) = m := by
  obtain ⟨s, a, c⟩ := m
  cases s <;> cases a <;> cases c <;> rfl

theorem mask_le (m : Modifiers) : m.mask ≤ 7 := by
  obtain ⟨s, a, c⟩ := m
  cases s <;> cases a <;> cases c <;> decide

theorem ofSequence?_final {code : KeyCode} {c : Char} (h : (code, c) ∈ finals) (ps : List Nat) :
    ofSequence? ps (byte c) =
      some ⟨code, (ps[1]?.map ofParameter).getD Modifiers.none⟩ := by
  obtain ⟨-, htilde, htab, hcode⟩ := ofFinal?_byte h
  simp [ofSequence?, htilde, htab, hcode]

theorem ofSequence?_number {code : KeyCode} {n : Nat} (h : (code, n) ∈ numbers) (ps : List Nat) :
    ofSequence? (n :: ps) (byte '~') =
      some ⟨code, (ps[0]?.map ofParameter).getD Modifiers.none⟩ := by
  have htilde : byte '~' = 0x7E := by decide
  simp [ofSequence?, htilde, mem_numbers_iff.1 h]

theorem verdict_byte {c : Char} (hl : ' ' ≤ c) (hu : c ≤ '~') :
    verdict (byte c) [] = .key (plain (.char c)) 0 := by
  have hlow : 32 ≤ c.toNat := hl
  have hhigh : c.toNat ≤ 126 := hu
  have hascii : byte c < 0x80 := by
    rw [UInt8.lt_iff_toNat_lt, toNat_byte hu]
    exact Nat.lt_of_le_of_lt hhigh (by decide)
  have hne := byte_ne hu (b := 0x1B) (by change c.toNat ≠ 27; omega)
  exact verdict_of_ofByte? hne hascii (ofByte?_byte hl hu) []

theorem verdict_controlByte {c : Char} (hl : 'a' ≤ c) (hu : c ≤ 'z') (h : c ∉ taken) :
    verdict (controlByte c) [] = .key (withCtrl (.char c)) 0 := by
  have hhigh : c.toNat ≤ 122 := hu
  have hascii : controlByte c < 0x80 := by
    rw [UInt8.lt_iff_toNat_lt, toNat_controlByte hu]
    exact Nat.lt_of_le_of_lt (Nat.sub_le_sub_right hhigh _) (by decide)
  exact verdict_of_ofByte? (controlByte_ne hl hu (by change c.toNat ≠ 123; omega)) hascii
    (ofByte?_controlByte hl hu h) []

theorem verdict_alt_byte {c : Char} (hl : ' ' ≤ c) (hu : c ≤ '~') (hcsi : c ≠ '[')
    (hss3 : c ≠ 'O') :
    verdict esc [byte c] = .key (withAlt (.char c)) 1 := by
  have hlow : 32 ≤ c.toNat := hl
  have hbracket : byte c ≠ 0x5B := byte_ne hu fun h => hcsi (Char.toNat_inj.1 h)
  have hletter : byte c ≠ 0x4F := byte_ne hu fun h => hss3 (Char.toNat_inj.1 h)
  have hesc : byte c ≠ esc := byte_ne hu (by change c.toNat ≠ 27; omega)
  simp [verdict, afterEscape, hbracket, hletter, hesc, isPrintable_byte hl hu, printable_byte hu]

theorem verdict_alt_controlByte {c : Char} (hl : 'a' ≤ c) (hu : c ≤ 'z') :
    verdict esc [controlByte c] =
      .key ⟨.char c, { Modifiers.none with alt := true, ctrl := true }⟩ 1 := by
  have hhigh : c.toNat ≤ 122 := hu
  have hout : ∀ b : UInt8, 26 < b.toNat → controlByte c ≠ b :=
    fun b hb => controlByte_ne hl hu (by omega)
  obtain ⟨hcontrol, hprintable⟩ := isControl_controlByte hl hu
  simp [verdict, afterEscape, hout 0x5B (by decide), hout 0x4F (by decide), hout esc (by decide),
    hcontrol, hprintable, controlLetter_controlByte hl hu]

/-- Every encoding is taken for its key, all of it and nothing more. -/
theorem Encodes.verdict {key : Key} {bs : List UInt8} (h : Encodes key bs) :
    ∃ b rest, bs = b :: rest ∧ verdict b rest = .key key rest.length := by
  cases h with
  | printable hl hu => exact ⟨_, [], rfl, verdict_byte hl hu⟩
  | single h =>
    obtain ⟨hesc, hlow, hkey⟩ := ofByte?_single h
    exact ⟨_, [], rfl, verdict_of_ofByte? hesc hlow hkey []⟩
  | letter hl hu h => exact ⟨_, [], rfl, verdict_controlByte hl hu h⟩
  | wide h =>
    obtain ⟨lead, after, hform⟩ := Text.Utf8.exists_isForm h
    exact ⟨lead, after, hform.encode, verdict_wide hform⟩
  | altPrintable hl hu hcsi hss3 => exact ⟨esc, _, rfl, verdict_alt_byte hl hu hcsi hss3⟩
  | altLetter hl hu => exact ⟨esc, _, rfl, verdict_alt_controlByte hl hu⟩
  | altEscape => exact ⟨esc, [esc], rfl, rfl⟩
  | shifted h =>
    have hcode := (ofFinal?_byte h).2.2.2
    exact ⟨esc, _, rfl, by simp [Key.verdict, afterEscape, singleShift, hcode]⟩
  | final h =>
    exact ⟨esc, _, rfl, verdict_sequence (by simp) (ofFinal?_byte h).1 (ofSequence?_final h _)⟩
  | finalWith h m =>
    have hm := mask_le m
    refine ⟨esc, _, rfl, verdict_sequence ?_ (ofFinal?_byte h).1 ?_⟩
    · simp [parameterMax]
      omega
    · rw [ofSequence?_final h]
      simp [given, ofParameter_mask]
  | number h =>
    have hn := le_of_mem_numbers h
    refine ⟨esc, _, rfl, verdict_sequence ?_ (by decide) (ofSequence?_number h _)⟩
    simp [parameterMax]
    omega
  | numberWith h m =>
    have hm := mask_le m
    have hn := le_of_mem_numbers h
    refine ⟨esc, _, rfl, verdict_sequence ?_ (by decide) ?_⟩
    · simp [parameterMax]
      omega
    · rw [given, ofSequence?_number h]
      · simp [ofParameter_mask]
      · simp
  | backTab => exact ⟨esc, _, rfl, verdict_sequence (by simp) (by decide) rfl⟩

/-! ## Streams -/

theorem decode_encoding_append {key : Key} {bs : List UInt8} (h : Encodes key bs)
    (more : List UInt8) : decode (bs ++ more) = (key :: (decode more).1, (decode more).2) := by
  obtain ⟨b, rest, rfl, hv⟩ := h.verdict
  have hstand : verdict b (rest ++ more) = .key key rest.length := by
    rw [verdict_append more (by rw [hv]; simp), hv]
  rw [List.cons_append, decode_of_finished (by rw [hstand]; simp), hstand]
  simp [Verdict.keys, Verdict.extra]

/-- Less than a whole encoding waits for more. -/
theorem decode_of_isPrefix {key : Key} {bs part : List UInt8} (h : Encodes key bs)
    (hpart : part <+: bs) (hne : part ≠ bs) : decode part = ([], part) := by
  obtain ⟨b, rest, rfl, hv⟩ := h.verdict
  obtain ⟨left, hleft⟩ := hpart
  cases part with
  | nil => simp [decode]
  | cons c part =>
    rw [List.cons_append] at hleft
    obtain ⟨rfl, rfl⟩ := List.cons_eq_cons.1 hleft
    refine decode_of_unfinished ?_
    -- A verdict on the part would stand for the whole, and use more than the part has.
    by_contra hfinished
    have hsame := verdict_append left hfinished
    have hle := extra_verdict_le c part
    rw [← hsame, hv] at hle
    simp only [Verdict.extra, List.length_append] at hle
    have hnil : left = [] := List.eq_nil_of_length_eq_zero (by omega)
    exact hne (by rw [hnil, List.append_nil])

/-- The front of a stream of encodings gives the keys of whole encodings. What
waits then is the beginning of the next one. -/
theorem decode_front {sent : List (Key × List UInt8)} (hsent : ∀ s ∈ sent, Encodes s.1 s.2)
    {front after : List UInt8} (h : front ++ after = sent.flatMap Prod.snd) :
    ∃ given later waiting, sent = given ++ later ∧ decode front = (given.map Prod.fst, waiting) ∧
      waiting ++ after = later.flatMap Prod.snd ∧
      ∀ s ∈ later.head?, waiting.length < s.2.length := by
  induction sent generalizing front with
  | nil =>
    obtain ⟨rfl, rfl⟩ := List.append_eq_nil_iff.1 h
    exact ⟨[], [], [], rfl, by simp [decode], rfl, by simp⟩
  | cons s rest ih =>
    obtain ⟨hs, hrest⟩ := List.forall_mem_cons.1 hsent
    rw [List.flatMap_cons] at h
    rcases List.append_eq_append_iff.1 h with ⟨left, hpart, hleft⟩ | ⟨more, hfront, hmore⟩
    · -- The first encoding is not there in full, unless nothing is left of it.
      by_cases hwhole : left = []
      · subst hwhole
        rw [List.append_nil] at hpart
        rw [List.nil_append] at hleft
        refine ⟨[s], rest, [], rfl, ?_, hleft, ?_⟩
        · have hone := decode_encoding_append hs []
          rw [List.append_nil] at hone
          rw [← hpart, hone]
          simp [decode]
        · intro next hnext
          obtain ⟨b, tail, hb, -⟩ := (hrest next (List.mem_of_mem_head? hnext)).verdict
          simp [hb]
      · have hne : front ≠ s.2 := by
          intro he
          rw [he] at hpart
          exact hwhole (List.append_right_eq_self.1 hpart.symm)
        refine ⟨[], s :: rest, front, rfl, ?_, ?_, ?_⟩
        · exact decode_of_isPrefix hs ⟨left, hpart.symm⟩ hne
        · rw [List.flatMap_cons, hpart, hleft, List.append_assoc]
        · intro next hnext
          cases hnext
          have hpos := List.length_pos_iff.2 hwhole
          rw [hpart, List.length_append]
          omega
    · obtain ⟨given, later, waiting, hsplit, hdecode, hwaiting, hshort⟩ := ih hrest hmore.symm
      refine ⟨s :: given, later, waiting, by rw [hsplit]; rfl, ?_, hwaiting, hshort⟩
      rw [hfront, decode_encoding_append hs, hdecode]
      rfl

/-- Bytes that are whole encodings and less than the first of them are none. -/
theorem eq_nil_of_short {later : List (Key × List UInt8)} {waiting : List UInt8}
    (h : waiting = later.flatMap Prod.snd)
    (hshort : ∀ s ∈ later.head?, waiting.length < s.2.length) : later = [] := by
  cases later with
  | nil => rfl
  | cons s rest =>
    have hlen := hshort s rfl
    rw [h, List.flatMap_cons, List.length_append] at hlen
    omega

/-- A stream of encoded keys can be read in one way only: a decoder on which
nothing waits gives back all keys with their modifiers, in order, and then
nothing waits again. -/
theorem encoded_keys_are_given_back {sent : List (Key × List UInt8)}
    (h : ∀ s ∈ sent, Encodes s.1 s.2) :
    advance [] (sent.flatMap Prod.snd) = (sent.map Prod.fst, []) := by
  obtain ⟨given, later, waiting, rfl, hdecode, hwaiting, hshort⟩ :=
    decode_front h (List.append_nil _)
  rw [List.append_nil] at hwaiting
  obtain rfl := eq_nil_of_short hwaiting hshort
  rw [List.append_nil] at hdecode ⊢
  rw [advance, List.nil_append, hdecode, hwaiting]
  rfl

/-- Encodings of several kinds that begin alike. -/
theorem an_arrow_with_ctrl_and_an_alt_bracket_and_more :
    advance [] ([0x1B, 0x5B, 0x31, 0x3B, 0x35, 0x43] ++ [0x1B, 0x5D] ++ [0x1B, 0x1B] ++
        [0xE4, 0xB8, 0xAD] ++ [0x1B, 0x5B, 0x32, 0x34, 0x3B, 0x38, 0x7E] ++ [0x09]) =
      ([withCtrl .right, withAlt (.char ']'), withAlt .escape, plain (.char '中'),
        ⟨.function 12, ⟨true, true, true⟩⟩, plain .tab], []) := by
  have harrow : Encodes (withCtrl .right) [0x1B, 0x5B, 0x31, 0x3B, 0x35, 0x43] :=
    .finalWith (c := 'C') (by decide) ⟨false, false, true⟩
  have hbracket : Encodes (withAlt (.char ']')) [0x1B, 0x5D] :=
    .altPrintable (c := ']') (by decide) (by decide) (by decide) (by decide)
  have hwide : Encodes (plain (.char '中')) [0xE4, 0xB8, 0xAD] := .wide (c := '中') (by decide)
  have hfunction : Encodes ⟨.function 12, ⟨true, true, true⟩⟩
      [0x1B, 0x5B, 0x32, 0x34, 0x3B, 0x38, 0x7E] :=
    .numberWith (n := 24) (by decide) ⟨true, true, true⟩
  have htab : Encodes (plain .tab) [0x09] := .single (by decide)
  refine @encoded_keys_are_given_back [(_, [0x1B, 0x5B, 0x31, 0x3B, 0x35, 0x43]), (_, [0x1B, 0x5D]),
    (_, [0x1B, 0x1B]), (_, [0xE4, 0xB8, 0xAD]), (_, [0x1B, 0x5B, 0x32, 0x34, 0x3B, 0x38, 0x7E]),
    (_, [0x09])] ?_
  simp only [List.forall_mem_cons]
  exact ⟨harrow, hbracket, .altEscape, hwide, hfunction, htab, by simp⟩

end Key

end TerminalPanes
