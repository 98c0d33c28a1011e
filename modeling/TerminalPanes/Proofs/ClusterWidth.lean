-- The columns of clusters. A text is measured from its end and cut into
-- clusters from its front, and both carry a state along. Put side by side
-- they show that a text never takes more columns than its clusters, each
-- counted by itself. Only a run of flag letters may be ahead for a while, and
-- the run knows by how much.
import TerminalPanes.Text.Tables

namespace TerminalPanes.Text

open scoped Tables

/-! ## Tables apart -/

/-- Whether two tables share no character. -/
def apart (a b : List (Nat × Nat)) : Bool :=
  a.all fun r => b.all fun s => r.2 < s.1 || s.2 < r.1

theorem not_inRanges_of_apart {a b : List (Nat × Nat)} {c : Char} (h : apart a b = true)
    (hc : inRanges a c = true) : inRanges b c = false := by
  obtain ⟨r, hr, hin⟩ := List.any_eq_true.1 hc
  rw [inRanges, List.any_eq_false]
  intro s hs hout
  have hrs := List.all_eq_true.1 (List.all_eq_true.1 h r hr) s hs
  simp only [Bool.and_eq_true, Bool.or_eq_true, decide_eq_true_eq] at hin hout hrs
  omega

theorem ne_of_inRanges {a : List (Nat × Nat)} {c d : Char} (hc : inRanges a c = true)
    (hd : inRanges a d = false) : c ≠ d := by
  rintro rfl
  rw [hc] at hd
  contradiction

/-- Whether a table has none of the characters. -/
def lacks (a : List (Nat × Nat)) (cs : List Char) : Bool := cs.all fun d => !inRanges a d

theorem not_mem_of_lacks {a : List (Nat × Nat)} {cs : List Char} {c : Char}
    (h : lacks a cs = true) (hc : inRanges a c = true) : c ∉ cs := by
  intro hmem
  have hnone := List.all_eq_true.1 h c hmem
  rw [hc] at hnone
  contradiction

/-! ## What the break classes tell -/

namespace BreakClass

/-- Whether a cluster ends right after the character. -/
def isHard : BreakClass → Bool
  | carriageReturn | lineFeed | control => true
  | _ => false

end BreakClass

theorem breakClass_of_isFlagLetter {c : Char} (h : isFlagLetter c = true) :
    breakClass c = .flag := by
  have hapart := fun {b : List (Nat × Nat)} (hb : apart [(0x1F1E6, 0x1F1FF)] b = true) =>
    not_inRanges_of_apart hb h
  have hne := fun {d : Char} (hd : inRanges [(0x1F1E6, 0x1F1FF)] d = false) =>
    ne_of_inRanges h hd
  unfold breakClass
  rw [if_neg (hne (by decide)), if_neg (hne (by decide)), if_neg (hne (by decide))]
  rw [hapart (b := [(0x00, 0x1F), (0x7F, 0x9F), (0x2028, 0x2029)]) (by decide)]
  rw [hapart (b := formatControls) (by decide), hapart (b := combiningMarks) (by decide)]
  rw [hapart (b := wideMarks) (by decide), isSkinTone, hapart (by decide)]
  rw [hapart (b := spacingMarks) (by decide), hapart (b := numberSigns) (by decide), h]
  rfl

theorem syllableClass?_getD (c : Char) :
    (syllableClass? c).getD .other ≠ .flag ∧ ((syllableClass? c).getD .other).isHard = false := by
  unfold syllableClass?
  split
  · rw [Option.getD_some]
    split <;> exact ⟨nofun, rfl⟩
  · exact ⟨nofun, rfl⟩

theorem breakClass_ne_flag {c : Char} (h : isFlagLetter c = false) : breakClass c ≠ .flag := by
  unfold breakClass
  rw [h]
  simp [apply_ite (· = BreakClass.flag), (syllableClass?_getD c).1]

/-- The characters that end their cluster at once. -/
def hardBreaks : List (Nat × Nat) :=
  [(0x00, 0x1F), (0x7F, 0x9F), (0x2028, 0x2029)] ++ formatControls

theorem inRanges_append (a b : List (Nat × Nat)) (c : Char) :
    inRanges (a ++ b) c = (inRanges a c || inRanges b c) := List.any_append

theorem inRanges_hardBreaks {c : Char} (h : (breakClass c).isHard = true) :
    inRanges hardBreaks c = true := by
  cases hc : inRanges hardBreaks c with
  | true => rfl
  | false =>
    have hr : c ≠ '\r' := fun hr => by rw [hr] at hc; exact absurd hc (by decide)
    have hn : c ≠ '\n' := fun hn => by rw [hn] at hc; exact absurd hc (by decide)
    rw [hardBreaks, inRanges_append] at hc
    unfold breakClass at h
    rw [if_neg hr, if_neg hn, hc] at h
    simp only [apply_ite BreakClass.isHard, (syllableClass?_getD c).2] at h
    simp [BreakClass.isHard] at h

/-- The characters that have two forms. -/
def twoFormed : List (Nat × Nat) :=
  [(0x23, 0x23), (0x2A, 0x2A), (0x30, 0x39)] ++ symbols ++ twoFacedPictures

theorem inRanges_twoFormed {c : Char} (h : hasTwoForms c = true) : inRanges twoFormed c = true := by
  unfold hasTwoForms isKeycapBase at h
  simp only [Bool.or_eq_true, beq_iff_eq] at h
  rw [twoFormed, inRanges_append, inRanges_append, Bool.or_eq_true, Bool.or_eq_true]
  rcases h with (((h | rfl) | rfl) | h) | h
  · have hdigit := Char.isDigit_iff_toNat.1 h
    have h0 : '0'.toNat = 48 := rfl
    have h9 : '9'.toNat = 57 := rfl
    refine .inl (.inl ?_)
    simp [inRanges]
    omega
  · exact .inl (.inl rfl)
  · exact .inl (.inl rfl)
  · exact .inl (.inr h)
  · exact .inr h

theorem hasTwoForms_of_isHard {c : Char} (h : (breakClass c).isHard = true) :
    hasTwoForms c = false := by
  cases hc : hasTwoForms c with
  | false => rfl
  | true =>
    have hapart : apart hardBreaks twoFormed = true := by decide +kernel
    have hfalse := not_inRanges_of_apart hapart (inRanges_hardBreaks h)
    rw [inRanges_twoFormed hc] at hfalse
    contradiction

/-! ## Flag letters -/

/-- A flag letter is in none of the other tables. -/
structure LetterAlone (c : Char) : Prop where
  twoForms : hasTwoForms c = false
  skinTone : takesSkinTone c = false
  columns : columns c = 1
  ne : c ∉ ['\r', '\n', joiner, keycap, pictureSelector, textSelector]

theorem letterAlone_of_isFlagLetter {c : Char} (h : isFlagLetter c = true) : LetterAlone c := by
  have hout := fun {b : List (Nat × Nat)} (hb : apart [(0x1F1E6, 0x1F1FF)] b = true) =>
    not_inRanges_of_apart hb h
  refine ⟨?_, hout (by decide +kernel), ?_, ?_⟩
  · cases hc : hasTwoForms c with
    | false => rfl
    | true =>
      have hfalse := hout (b := twoFormed) (by decide +kernel)
      rw [inRanges_twoFormed hc] at hfalse
      contradiction
  · have hjoiner : c ≠ joiner := ne_of_inRanges h (by decide)
    have hpicture : isPicture c = false := hout (by decide +kernel)
    have htone : isSkinTone c = false := hout (by decide)
    unfold columns
    rw [hout (b := combiningMarks) (by decide), hout (b := formatControls) (by decide)]
    rw [hout (b := jamoVowels) (by decide), hout (b := jamoTails) (by decide)]
    rw [hpicture, htone, hout (b := wideLetters) (by decide)]
    simp [hjoiner]
  · exact not_mem_of_lacks (by decide) h

namespace Following

/-- What a flag letter adds, and what the text begins with then. -/
def letter : Following → Int × Following
  | .joiner => (1, .joinedLetter)
  | .flagLetter | .flags => (1, .flags)
  | .joinedLetter | .joinedFlagsAndLetter => (-1, .joinedFlags)
  | .joinedFlags => (3, .joinedFlagsAndLetter)
  | _ => (1, .flagLetter)

theorem before_letter {c : Char} (h : isFlagLetter c = true) (f : Following) :
    f.before c = f.letter := by
  obtain ⟨hforms, htone, hcolumns, hne⟩ := letterAlone_of_isFlagLetter h
  have hnarrow : isNarrowAsText c = false := by rw [isNarrowAsText, hforms, Bool.false_and]
  simp only [List.mem_cons, List.not_mem_nil, or_false, not_or] at hne
  obtain ⟨hr, hn, hjoiner, hkeycap, hpicture, htext⟩ := hne
  cases f <;> simp [before, unselected, alone, letter, *]

/-! ## Two measures side by side -/

/-- Begins with a flag letter. -/
def isLetters : Following → Bool
  | .flagLetter | .flags | .joinedLetter | .joinedFlags | .joinedFlagsAndLetter => true
  | _ => false

/-- Begins with flag letters that a joiner joins to what is before. -/
def isSeveral : Following → Bool
  | .flags | .joinedFlags | .joinedFlagsAndLetter => true
  | _ => false

/-- Begins with a selector, which is for the character before it. -/
def isSelector : Following → Bool
  | .textSelector | .pictureSelector | .joinedSelector => true
  | _ => false

/-- What a whole text begins with, and what it begins with once it was cut into
clusters, right of a character of the class `left`. The whole takes no more of that
character than the parts do. -/
inductive Lags (left : BreakClass) : Following → Following → Prop where
  | same (f : Following) : Lags left f f
  | selector : Lags left .joinedSelector .pictureSelector
  | letters {f g : Following} : f.isLetters = true → g.isLetters = true →
    (g.isSeveral = true → f.isSeveral = true) → Lags left f g
  /-- The cluster was cut off. A selector is only cut off from what it is not for. -/
  | cut {f : Following} : (f.isSelector = true → left.isHard = true) → Lags left f .plain

/-- How much the whole is behind, or ahead, in the middle of a run of flag letters, when an
odd number of them is still to come. -/
def owed (odd : Bool) (f : Following) : Int :=
  if odd then
    match f with
    | .joinedFlags => 2
    | .joinedLetter | .joinedFlagsAndLetter => -2
    | _ => 0
  else 0

theorem owed_of_not_isLetters (odd : Bool) {f : Following} (h : f.isLetters = false) :
    owed odd f = 0 := by
  cases odd <;> cases f <;> simp_all [owed, isLetters]

/-- One more flag letter on both sides. -/
theorem lags_letter {left : BreakClass} {f g : Following} (h : Lags left f g) (odd : Bool)
    (left' : BreakClass) :
    f.letter.1 + owed odd f.letter.2 - owed (!odd) f ≤
        g.letter.1 + owed odd g.letter.2 - owed (!odd) g ∧
      Lags left' f.letter.2 g.letter.2 := by
  cases h with
  | same => exact ⟨Int.le_refl _, .same _⟩
  | selector => exact ⟨Int.le_refl _, .same _⟩
  | letters hf hg h =>
    refine ⟨?_, .letters ?_ ?_ ?_⟩
    · cases odd <;> cases f <;> cases g <;> simp_all [letter, owed, isLetters]
    all_goals cases f <;> cases g <;> simp_all [letter, isLetters, isSeveral]
  | cut h =>
    refine ⟨?_, .letters ?_ ?_ ?_⟩
    · cases odd <;> cases f <;> simp [letter, owed]
    all_goals cases f <;> simp [letter, isLetters, isSeveral]

theorem alone_nonneg (c : Char) : 0 ≤ (alone c).1 := Int.natCast_nonneg _

/-- Only a joiner takes notice of flag letters, and only of several. -/
theorem before_of_isLetters {c : Char} (hc : isFlagLetter c = false) {f : Following}
    (hf : f.isLetters = true) :
    f.before c =
      if f.isSeveral = true ∧ c = Text.joiner then (0, .joiner) else before c .plain := by
  have hjoiner : Text.joiner ≠ Text.pictureSelector ∧ Text.joiner ≠ Text.textSelector := by decide
  cases f <;> simp_all [before, unselected, isLetters, isSeveral]
  all_goals grind

/-- A character that is asked for none of its forms. -/
theorem before_of_isSelector {c : Char} (hc : hasTwoForms c = false) {f : Following}
    (hf : f.isSelector = true) : f.before c = before c .plain := by
  have hnarrow : isNarrowAsText c = false := by rw [isNarrowAsText, hc, Bool.false_and]
  cases f <;> simp_all [before, isSelector]

theorem alone_of_isSkinTone {c : Char} (h : isSkinTone c = true) : (alone c).2 = .skinTone := by
  have hletter : isFlagLetter c = false := not_inRanges_of_apart (by decide) h
  have hne : c ∉ ['\n', Text.textSelector, Text.pictureSelector] := not_mem_of_lacks (by decide) h
  simp only [List.mem_cons, List.not_mem_nil, or_false, not_or] at hne
  simp [alone, hne, hletter, h]

/-- The characters that a picture or a base of a skin tone is none of. -/
theorem alone_of_apart {c : Char} {a : List (Nat × Nat)} (h : inRanges a c = true)
    (hletter : apart a [(0x1F1E6, 0x1F1FF)] = true) (htone : apart a [(0x1F3FB, 0x1F3FF)] = true)
    (hlacks : lacks a ['\n', Text.textSelector, Text.pictureSelector] = true) :
    (alone c).2 = if isPicture c then .picture else .plain := by
  have hletter : isFlagLetter c = false := not_inRanges_of_apart hletter h
  have htone : isSkinTone c = false := not_inRanges_of_apart htone h
  have hne := not_mem_of_lacks hlacks h
  simp only [List.mem_cons, List.not_mem_nil, or_false, not_or] at hne
  simp [alone, hne, hletter, htone]

/-- What a character adds is what it adds alone, or it joins what is after it and takes
nothing. Alone it would then begin something plain, or the same. -/
inductive Joins (c : Char) (p : Int × Following) : Prop where
  | alone : p = Following.alone c → Joins c p
  | joined {f : Following} : p = (0, f) → f.isSelector = false →
      (Following.alone c).2 = .plain ∨ (Following.alone c).2 = f → Joins c p

theorem Joins.lags {c : Char} {p : Int × Following} (h : Joins c p) (left : BreakClass) :
    p.1 ≤ (Following.alone c).1 ∧ Lags left p.2 (Following.alone c).2 := by
  cases h with
  | alone hp =>
    rw [hp]
    exact ⟨Int.le_refl _, .same _⟩
  | @joined f hp hf hor =>
    rw [hp]
    refine ⟨alone_nonneg c, ?_⟩
    rcases hor with h | h
    · rw [h]
      exact .cut fun h => by rw [hf] at h; contradiction
    · rw [h]
      exact .same f

theorem joins_joiner : Joins Text.joiner (0, .joiner) := .joined rfl rfl (.inl (by decide))

/-- A character that a joiner is after. -/
theorem joins_before_joiner {c : Char} (hc : isFlagLetter c = false)
    (hp : c ≠ Text.pictureSelector) (ht : c ≠ Text.textSelector) : Joins c (before c .joiner) := by
  by_cases hk : c = keycap
  · subst hk
    exact .joined (f := .joinedKeycap) rfl rfl (.inl (by decide))
  cases htone : isSkinTone c with
  | true =>
    exact .joined (f := .skinTone) (by simp [before, unselected, hp, ht, hk, hc, htone]) rfl
      (.inr (alone_of_isSkinTone htone))
  | false =>
    cases hpicture : isPicture c with
    | true =>
      have halone : (alone c).2 = .picture := by
        rw [alone_of_apart hpicture (by decide +kernel) (by decide +kernel) (by decide +kernel),
          hpicture]
        rfl
      exact .joined (by simp [before, unselected, hp, ht, hk, hc, htone, hpicture]) rfl
        (.inr halone)
    | false => exact .alone (by simp [before, unselected, hp, ht, hk, hc, htone, hpicture])

/-- A character that a skin tone is after. -/
theorem joins_before_skinTone {c : Char} (hp : c ≠ Text.pictureSelector)
    (ht : c ≠ Text.textSelector) : Joins c (before c .skinTone) := by
  cases htone : takesSkinTone c with
  | true =>
    refine .joined (f := .picture) (by simp [before, unselected, hp, ht, htone]) rfl ?_
    rw [alone_of_apart htone (by decide +kernel) (by decide +kernel) (by decide +kernel)]
    cases isPicture c <;> simp
  | false =>
    by_cases hj : c = Text.joiner
    · subst hj
      exact joins_joiner
    · exact .alone (by simp [before, unselected, hp, ht, htone, hj])

/-- The character before a cut, if it is none of the selectors. -/
theorem joins_before {c : Char} (hc : isFlagLetter c = false) (hp : c ≠ Text.pictureSelector)
    (ht : c ≠ Text.textSelector) {f : Following} (hf : f.isSelector = false) :
    Joins c (f.before c) := by
  cases f with
  | plain | joinedKeycap => exact .alone (by simp [before, unselected, hp, ht])
  | lineFeed =>
    by_cases hr : c = '\r'
    · subst hr
      exact .joined (f := .plain) rfl rfl (.inl (by decide))
    · exact .alone (by simp [before, unselected, hp, ht, hr])
  | skinTone => exact joins_before_skinTone hp ht
  | picture =>
    by_cases hj : c = Text.joiner
    · subst hj
      exact joins_joiner
    · exact .alone (by simp [before, unselected, hp, ht, hj])
  | joiner => exact joins_before_joiner hc hp ht
  | flagLetter | flags | joinedLetter | joinedFlags | joinedFlagsAndLetter =>
    rw [before_of_isLetters hc rfl]
    split
    · rename_i h
      rw [h.2]
      exact joins_joiner
    · exact .alone (by simp [before, unselected, hp, ht])
  | textSelector | pictureSelector | joinedSelector => contradiction

/-- The character before a cut. -/
theorem lags_cut {c : Char} (hc : isFlagLetter c = false) {f : Following}
    (hf : f.isSelector = false) (left : BreakClass) :
    (f.before c).1 ≤ (before c .plain).1 ∧ Lags left (f.before c).2 (before c .plain).2 := by
  have hsame : ∀ {p q : Int × Following}, p = q → p.1 ≤ q.1 ∧ Lags left p.2 q.2 := by
    rintro p _ rfl
    exact ⟨Int.le_refl _, .same _⟩
  by_cases hp : c = Text.pictureSelector
  · subst hp
    cases f with
    | joiner => exact ⟨Int.le_refl _, .selector⟩
    | joinedKeycap => exact ⟨Int.le_refl _, .selector⟩
    | textSelector => contradiction
    | pictureSelector => contradiction
    | joinedSelector => contradiction
    | _ => exact hsame rfl
  by_cases ht : c = Text.textSelector
  · subst ht
    cases f <;> first | contradiction | exact hsame rfl
  have hplain : before c .plain = alone c := by simp [before, unselected, hp, ht]
  rw [hplain]
  exact (joins_before hc hp ht hf).lags left

/-- One more character that is no flag letter. -/
theorem lags_other {c : Char} {f g : Following} (h : Lags (breakClass c) f g)
    (hc : isFlagLetter c = false) (left : BreakClass) :
    (f.before c).1 ≤ (g.before c).1 ∧ Lags left (f.before c).2 (g.before c).2 := by
  have hsame : ∀ {p q : Int × Following}, p = q → p.1 ≤ q.1 ∧ Lags left p.2 q.2 := by
    rintro p _ rfl
    exact ⟨Int.le_refl _, .same _⟩
  cases h with
  | same => exact hsame rfl
  | selector =>
    cases hforms : hasTwoForms c with
    | true => simp [before, hforms, Lags.same]
    | false =>
      exact hsame ((before_of_isSelector hforms rfl).trans (before_of_isSelector hforms rfl).symm)
  | letters hf hg hmore =>
    rw [before_of_isLetters hc hg]
    split
    · rename_i h
      exact hsame (by rw [before_of_isLetters hc hf, if_pos ⟨hmore h.1, h.2⟩])
    · exact lags_cut hc (by cases f <;> simp_all [isSelector, isLetters]) left
  | cut hsel =>
    cases hf : f.isSelector with
    | true => exact hsame (before_of_isSelector (hasTwoForms_of_isHard (hsel hf)) hf)
    | false => exact lags_cut hc hf left

/-- All that a text can begin with, after the character it begins with. -/
theorem after_before {P : Following → Prop} {c : Char} (hplain : P .plain) (hpicture : P .picture)
    (hjoiner : P .joiner) (hkeycap : P .joinedKeycap) (htone : P .skinTone) (halone : P (alone c).2)
    (hselector : c = Text.pictureSelector → P .pictureSelector ∧ P .joinedSelector)
    (htext : c = Text.textSelector → P .textSelector)
    (hletter : isFlagLetter c = true → ∀ f, f.isLetters = true → P f) (f : Following) :
    P (f.before c).2 := by
  have hunselected : ∀ f, P (unselected c f).2 := by
    intro f
    unfold unselected
    repeat' split
    all_goals first
      | assumption
      | exact htext ‹_›
      | exact hletter ‹_› _ rfl
      | skip
    all_goals simp_all
  unfold before
  repeat' split
  all_goals first | assumption | exact hunselected _

theorem isLetters_before {c : Char} (hc : isFlagLetter c = false) (f : Following) :
    (f.before c).2.isLetters = false := by
  refine after_before (P := (·.isLetters = false)) rfl rfl rfl rfl rfl ?_ (fun _ => ⟨rfl, rfl⟩)
    (fun _ => rfl) (fun h => by rw [hc] at h; contradiction) f
  simp only [alone, hc]
  repeat' split
  all_goals first | rfl | contradiction

/-- Only a selector makes a text begin with one. -/
theorem eq_of_isSelector_before {c : Char} {f : Following} :
    (f.before c).2.isSelector = true → c = Text.pictureSelector ∨ c = Text.textSelector := by
  refine after_before (P := fun f => f.isSelector = true → _) nofun nofun nofun nofun nofun ?_
    (fun h => ⟨fun _ => .inl h, fun _ => .inl h⟩) (fun h _ => .inr h)
    (fun _ f h => by cases f <;> simp_all [isLetters, isSelector]) f
  simp only [alone]
  repeat' split
  all_goals simp_all [isSelector]

/-- One more character on both sides, in a run of flag letters or not. -/
theorem lags_before {c : Char} {f g : Following} (h : Lags (breakClass c) f g) (odd : Bool)
    (left : BreakClass) :
    (f.before c).1 + owed odd (f.before c).2 - owed (isFlagLetter c && !odd) f ≤
        (g.before c).1 + owed odd (g.before c).2 - owed (isFlagLetter c && !odd) g ∧
      Lags left (f.before c).2 (g.before c).2 := by
  cases hc : isFlagLetter c with
  | true =>
    rw [before_letter hc, before_letter hc]
    exact lags_letter h odd left
  | false =>
    rw [owed_of_not_isLetters odd (isLetters_before hc f),
      owed_of_not_isLetters odd (isLetters_before hc g)]
    simpa [owed] using lags_other h hc left

end Following

/-! ## A text and its clusters -/

theorem breakClass_eq_flag (c : Char) : decide (breakClass c = .flag) = isFlagLetter c := by
  cases h : isFlagLetter c with
  | true => simp [breakClass_of_isFlagLetter h]
  | false => simp [breakClass_ne_flag h]

namespace ClusterEnd

/-- Flag letters are only counted while they are at the end. -/
def Counted (s : ClusterEnd) : Prop := s.oddFlags = true → s.last = .flag

theorem counted_start (c : Char) : (start c).Counted := by simp [Counted, start]

theorem counted_next (s : ClusterEnd) (c : Char) : (s.next c).Counted := by
  simp +contextual [Counted, next]

theorem oddFlags_next (s : ClusterEnd) (c : Char) :
    (s.next c).oddFlags = (isFlagLetter c && !s.oddFlags) := by
  rw [← breakClass_eq_flag]
  rfl

/-- A break leaves no single flag letter behind. -/
theorem oddFlags_of_breaksBefore {s : ClusterEnd} {c : Char} (hs : s.Counted)
    (h : s.breaksBefore c = true) (hc : isFlagLetter c = true) : s.oddFlags = false := by
  cases hodd : s.oddFlags with
  | false => rfl
  | true =>
    rw [breaksBefore, hs hodd, breakClass_of_isFlagLetter hc, hodd] at h
    contradiction

theorem oddFlags_start {s : ClusterEnd} {c : Char} (hs : s.Counted) (h : s.breaksBefore c = true) :
    (start c).oddFlags = (isFlagLetter c && !s.oddFlags) := by
  have hstart : (start c).oddFlags = isFlagLetter c := breakClass_eq_flag c
  rw [hstart]
  cases hc : isFlagLetter c with
  | true => rw [oddFlags_of_breaksBefore hs h hc]; rfl
  | false => rfl

/-- Only what ends a cluster at once breaks before a mark. -/
theorem isHard_of_breaksBefore {s : ClusterEnd} {c : Char} (h : s.breaksBefore c = true)
    (hc : breakClass c = .extend) : s.last.isHard = true := by
  rw [breaksBefore, hc] at h
  cases hlast : s.last <;> simp_all [BreakClass.isHard]

end ClusterEnd

theorem measure_cons (c : Char) (t : Text) :
    measure (c :: t) =
      ((measure t).1 + ((measure t).2.before c).1, ((measure t).2.before c).2) := rfl

open Following in
/-- The text from a place in a cluster on, against the rest of the cluster and the clusters
after it. -/
theorem measure_clustersFrom_le (t : Text) {s : ClusterEnd} (hs : s.Counted) :
    (measure t).1 + owed s.oddFlags (measure t).2 ≤
        (measure (clustersFrom s t).1).1 + owed s.oddFlags (measure (clustersFrom s t).1).2 +
          totalWidth (clustersFrom s t).2 ∧
      Lags s.last (measure t).2 (measure (clustersFrom s t).1).2 := by
  induction t generalizing s with
  | nil => exact ⟨by simp [clustersFrom, totalWidth], .same _⟩
  | cons c rest ih =>
    cases hbreak : s.breaksBefore c with
    | false =>
      obtain ⟨hle, hlags⟩ := ih (s.counted_next c)
      obtain ⟨hstep, hlags⟩ := lags_before hlags s.oddFlags s.last
      rw [s.oddFlags_next] at hle
      rw [clustersFrom_of_not_breaksBefore hbreak]
      simp only [measure_cons]
      exact ⟨by omega, hlags⟩
    | true =>
      obtain ⟨hle, hlags⟩ := ih (ClusterEnd.counted_start c)
      obtain ⟨hstep, -⟩ := lags_before hlags s.oddFlags s.last
      rw [ClusterEnd.oddFlags_start hs hbreak] at hle
      rw [clustersFrom_of_breaksBefore hbreak]
      refine ⟨?_, .cut fun h => ?_⟩
      · -- The cluster that begins here owes nothing: it has no single letter before it.
        have howed :
            owed s.oddFlags ((measure (clustersFrom (.start c) rest).1).2.before c).2 = 0 := by
          cases hc : isFlagLetter c with
          | true => rw [ClusterEnd.oddFlags_of_breaksBefore hs hbreak hc]; rfl
          | false => exact owed_of_not_isLetters _ (isLetters_before hc _)
        have hnil : (measure []).1 + owed s.oddFlags (measure []).2 = 0 := by simp [measure, owed]
        have hwidth := Int.self_le_toNat
          (measure (c :: (clustersFrom (.start c) rest).1)).1
        simp only [totalWidth, Tables.width_eq, measure_cons] at hwidth ⊢
        omega
      · refine ClusterEnd.isHard_of_breaksBefore hbreak ?_
        rcases eq_of_isSelector_before h with rfl | rfl
        · decide +kernel
        · decide +kernel

/-- By the tables no text is wider than its clusters. -/
theorem Tables.withinClusters : WithinClusters := by
  intro t
  have h := (measure_clustersFrom_le t (ClusterEnd.counted_start '\n')).1
  have hodd : (ClusterEnd.start '\n').oddFlags = false := by decide
  rw [clustersFrom_start_newline, hodd] at h
  simp only [Following.owed, Text.measure, width_eq, clusters_eq] at h ⊢
  simp at h
  omega

end TerminalPanes.Text
