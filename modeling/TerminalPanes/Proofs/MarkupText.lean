-- The laws of markup as text. Sections are given back by the text they are
-- written as, whatever their contents hold beside the mark between sections,
-- and what was read from any text can be written and read again.
import Mathlib.Data.List.Forall2
import TerminalPanes.Markup.Writer
import TerminalPanes.Proofs.ColorText

namespace TerminalPanes

/-! ## Pieces -/

namespace Text

theorem cut?_append {mark : Char} {before : Text} (h : mark ∉ before) (after : Text) :
    cut? mark (before ++ mark :: after) = some (before, after) := by
  induction before with
  | nil => simp [cut?]
  | cons c rest ih =>
    rw [List.mem_cons, not_or] at h
    rw [List.cons_append, cut?, if_neg (Ne.symm h.1), ih h.2]
    rfl

/-- A text is cut at the first of its marks, and nowhere else. -/
theorem cut?_eq_some_iff {mark : Char} {t before after : Text} :
    cut? mark t = some (before, after) ↔ t = before ++ mark :: after ∧ mark ∉ before := by
  constructor
  · intro h
    exact ⟨eq_of_cut? h, not_mem_of_cut? h⟩
  · rintro ⟨rfl, hfirst⟩
    exact cut?_append hfirst after

theorem not_mem_of_mem_splitOn {mark : Char} {t piece : Text} (h : piece ∈ t.splitOn mark) :
    mark ∉ piece := by
  induction t generalizing piece with
  | nil =>
    rw [List.splitOn_nil, List.mem_singleton] at h
    simp [h]
  | cons c rest ih =>
    rw [List.splitOn_cons_eq_if_modifyHead] at h
    split at h
    · rcases List.mem_cons.1 h with rfl | h
      · exact List.not_mem_nil
      · exact ih h
    · rename_i hc
      -- The first piece of the rest grows by `c`, and the others stay.
      obtain ⟨first, others, hrest⟩ := List.exists_cons_of_ne_nil (List.splitOn_ne_nil mark rest)
      rw [hrest, List.modifyHead_cons] at h
      rcases List.mem_cons.1 h with rfl | h
      · have hfirst : mark ∉ first := ih (by simp [hrest])
        simp only [beq_iff_eq] at hc
        simp [hfirst, Ne.symm hc]
      · exact ih (by simp [hrest, h])

theorem not_mem_intercalate {mark other : Char} (hne : mark ≠ other) {pieces : List Text}
    (h : ∀ p ∈ pieces, mark ∉ p) : mark ∉ [other].intercalate pieces := by
  induction pieces with
  | nil => simp
  | cons p rest ih =>
    have hp := h p List.mem_cons_self
    have hrest := ih fun q hq => h q (List.mem_cons_of_mem p hq)
    cases rest with
    | nil => simpa using hp
    | cons q rest =>
      rw [List.intercalate_cons_cons]
      simp only [List.mem_append, List.mem_singleton, not_or]
      exact ⟨⟨hp, hne⟩, hrest⟩

/-- Pieces that are not empty and do not hold the mark are found again between
the marks. -/
theorem pieces_intercalate {mark : Char} {pieces : List Text}
    (h : ∀ p ∈ pieces, mark ∉ p ∧ p ≠ []) :
    (([mark].intercalate pieces).splitOn mark).filter (fun p => !p.isEmpty) = pieces := by
  by_cases hnil : pieces = []
  · subst hnil
    rfl
  · rw [List.splitOn_intercalate mark (fun p hp => (h p hp).1) hnil, List.filter_eq_self]
    intro p hp
    simp [(h p hp).2]

end Text

/-! ## Results one by one -/

theorem Except.bind_eq_ok {ε α β : Type} {x : Except ε α} {f : α → Except ε β} {b : β}
    (h : (x >>= f) = .ok b) : ∃ a, x = .ok a ∧ f a = .ok b := by
  cases x with
  | error e => cases h
  | ok a => exact ⟨a, rfl, h⟩

/-- Results are collected exactly when there is one for each element. -/
theorem mapM_eq_ok_iff {ε α β : Type} {f : α → Except ε β} {as : List α} {bs : List β} :
    as.mapM f = .ok bs ↔ List.Forall₂ (fun a b => f a = .ok b) as bs := by
  induction as generalizing bs with
  | nil =>
    rw [List.mapM_nil, List.forall₂_nil_left_iff]
    constructor
    · intro h
      cases h
      rfl
    · rintro rfl
      rfl
  | cons a rest ih =>
    rw [List.mapM_cons]
    constructor
    · intro h
      obtain ⟨b, hb, h⟩ := Except.bind_eq_ok h
      obtain ⟨more, hmore, h⟩ := Except.bind_eq_ok h
      cases h
      exact .cons hb (ih.1 hmore)
    · intro h
      cases h with
      | cons hb hmore => rw [hb, ih.2 hmore]; rfl

theorem exists_of_mem_of_mapM {ε α β : Type} {f : α → Except ε β} {as : List α} {bs : List β}
    (h : as.mapM f = .ok bs) {b : β} (hb : b ∈ bs) : ∃ a ∈ as, f a = .ok b := by
  rw [mapM_eq_ok_iff] at h
  induction h with
  | nil => cases hb
  | cons hfirst _ ih =>
    rcases List.mem_cons.1 hb with rfl | hb
    · exact ⟨_, List.mem_cons_self, hfirst⟩
    · obtain ⟨a, ha, hfa⟩ := ih hb
      exact ⟨a, List.mem_cons_of_mem _ ha, hfa⟩

/-! ## Expressions -/

/-- The colour of the instruction, if it has one, is made of signed words. -/
def Instruction.Words : Instruction → Prop
  | .turnOn _ => True
  | .foreground c => c.Words
  | .background c => c.Words

instance : (i : Instruction) → Decidable i.Words
  | .turnOn _ => inferInstanceAs (Decidable True)
  | .foreground c => inferInstanceAs (Decidable c.Words)
  | .background c => inferInstanceAs (Decidable c.Words)

namespace Markup

theorem splitConfig_writeColored {word : Text} (h : configOpen ∉ word) (c : Color) :
    splitConfig (writeColored word c) = .ok (word, some c.write) := by
  have hcut : (writeColored word c).cut? configOpen = some (word, c.write ++ [configClose]) := by
    rw [writeColored, List.append_assoc, List.cons_append]
    exact Text.cut?_append h _
  have hclosed : closed? (c.write ++ [configClose]) = some c.write := by
    simp [closed?]
  simp only [splitConfig, hcut, hclosed]

theorem readColor_write {c : Color} (h : c.Words) (word : Text) :
    readColor word (some c.write) = .ok c := by
  simp only [readColor, Color.read?_write h]

/-- An instruction is given back by its expression. -/
theorem readInstruction_write {i : Instruction} (h : i.Words) :
    readInstruction (writeInstruction i) = .ok i := by
  cases i with
  | turnOn e => cases e <;> rfl
  | foreground c =>
    rw [readInstruction, writeInstruction, splitConfig_writeColored (by decide)]
    change (readColor _ (some c.write) >>= fun c => Except.ok (Instruction.foreground c)) = _
    rw [readColor_write h]
    rfl
  | background c =>
    rw [readInstruction, writeInstruction, splitConfig_writeColored (by decide)]
    change (readColor _ (some c.write) >>= fun c => Except.ok (Instruction.background c)) = _
    rw [readColor_write h]
    rfl

/-- Whatever is read as an instruction has a colour of signed words, if any. -/
theorem words_of_readInstruction {expression : Text} {i : Instruction}
    (h : readInstruction expression = .ok i) : i.Words := by
  obtain ⟨⟨word, config⟩, -, h⟩ := Except.bind_eq_ok h
  have hcolor : ∀ c, readColor word config = .ok c → c.Words := by
    intro c hc
    unfold readColor at hc
    split at hc
    · cases hc
    · split at hc
      · rename_i hread
        cases hc
        exact Color.words_of_read? hread
      · cases hc
  simp only at h
  split at h
  · cases h
  · cases h
    trivial
  · obtain ⟨c, hc, h⟩ := Except.bind_eq_ok h
    cases h
    exact hcolor c hc
  · obtain ⟨c, hc, h⟩ := Except.bind_eq_ok h
    cases h
    exact hcolor c hc

/-! ## What an expression never holds -/

/-- The marks that stand between sections, around instructions and between
them. -/
def outerMarks : List Char := [sectionMark, instructionMark, expressionMark, escapeMark]

/-- Keywords are made of letters, and no mark is one. -/
theorem not_mem_of_all_isAlpha {mark : Char} (h : mark ∈ outerMarks) {word : Text}
    (hword : word.all Char.isAlpha = true) : mark ∉ word := by
  have hmarks : outerMarks.all (fun m => !m.isAlpha) = true := rfl
  intro hmem
  have hmark := List.all_eq_true.1 hmarks mark h
  rw [List.all_eq_true.1 hword mark hmem] at hmark
  exact Bool.noConfusion hmark

theorem not_mem_writeInstruction {mark : Char} (h : mark ∈ outerMarks) (i : Instruction) :
    mark ∉ writeInstruction i := by
  have hplain : ∀ m ∈ outerMarks, m.isDigit = false ∧ m ≠ '-' ∧ m ≠ ',' ∧ m ≠ configOpen ∧
      m ≠ configClose := by
    simp [outerMarks, sectionMark, instructionMark, expressionMark, escapeMark, configOpen,
      configClose, Char.isDigit]
  obtain ⟨hdigit, hminus, hcomma, hopen, hclose⟩ := hplain mark h
  have hnumber := Decimal.not_mem_write hdigit hminus
  have hcolor : ∀ c : Color, mark ∉ c.write := by
    intro c
    simp [Color.write, hnumber, hcomma]
  have hcolored : ∀ word : Text, mark ∉ word → ∀ c, mark ∉ writeColored word c := by
    intro word hw c
    simp [writeColored, hw, hopen, hclose, hcolor]
  cases i with
  | turnOn e => exact not_mem_of_all_isAlpha h (by cases e <;> rfl)
  | foreground c => exact hcolored _ (not_mem_of_all_isAlpha h rfl) c
  | background c => exact hcolored _ (not_mem_of_all_isAlpha h rfl) c

theorem writeInstruction_ne_nil (i : Instruction) : writeInstruction i ≠ [] := by
  cases i with
  | turnOn e => cases e <;> decide
  | foreground c => simp [writeInstruction, writeColored]
  | background c => simp [writeInstruction, writeColored]

/-- The instruction list of a section. -/
def writeHead (instructions : List Instruction) : Text :=
  [expressionMark].intercalate (instructions.map writeInstruction)

theorem not_mem_writeHead {mark : Char} (h : mark ∈ [sectionMark, instructionMark, escapeMark])
    (instructions : List Instruction) : mark ∉ writeHead instructions := by
  have hmarks : ∀ m ∈ [sectionMark, instructionMark, escapeMark],
      m ∈ outerMarks ∧ m ≠ expressionMark := by
    simp [outerMarks, sectionMark, instructionMark, expressionMark, escapeMark]
  obtain ⟨hm, hne⟩ := hmarks mark h
  apply Text.not_mem_intercalate hne
  intro p hp
  obtain ⟨i, -, rfl⟩ := List.mem_map.1 hp
  exact not_mem_writeInstruction hm i

theorem expressions_writeHead (instructions : List Instruction) :
    expressions (writeHead instructions) = instructions.map writeInstruction := by
  apply Text.pieces_intercalate
  intro p hp
  obtain ⟨i, -, rfl⟩ := List.mem_map.1 hp
  exact ⟨not_mem_writeInstruction (by decide) i, writeInstruction_ne_nil i⟩

/-! ## Sections -/

theorem splitSection_writeSection (s : Section) :
    splitSection (writeSection s) = (writeHead s.instructions, s.content) := by
  have hcut : (writeSection s).cut? instructionMark = some (writeHead s.instructions, s.content) :=
    Text.cut?_append (not_mem_writeHead (by decide) s.instructions) s.content
  have hlast : (writeHead s.instructions).getLast? ≠ some escapeMark := by
    intro h
    exact not_mem_writeHead (by decide) s.instructions (List.mem_of_getLast? h)
  simp only [splitSection, hcut, if_neg hlast]

/-- An escaped text is all content. -/
theorem splitSection_escape (t : Text) : splitSection (escape t) = ([], t) := by
  cases ht : t.cut? instructionMark with
  | none => simp only [escape, ht, splitSection]
  | some parts =>
    obtain ⟨before, after⟩ := parts
    have hbefore : instructionMark ∉ before ++ [escapeMark] := by
      have := Text.not_mem_of_cut? ht
      simp only [List.mem_append, List.mem_singleton, not_or]
      exact ⟨this, by decide⟩
    have hcut : (escape t).cut? instructionMark = some (before ++ [escapeMark], after) := by
      have h := Text.cut?_append hbefore after
      rw [List.append_assoc, List.singleton_append] at h
      simp only [escape, ht, h]
    have hlast : (before ++ [escapeMark]).getLast? = some escapeMark := by simp
    simp only [splitSection, hcut, if_pos hlast, List.dropLast_concat]
    rw [Text.eq_of_cut? ht]

theorem readSection_of_split {chunk head content : Text} {instructions : List Instruction}
    (hsplit : splitSection chunk = (head, content))
    (hread : (expressions head).mapM readInstruction = .ok instructions) :
    readSection chunk = .ok ⟨content, instructions⟩ := by
  simp only [readSection, hsplit, hread]
  rfl

theorem mem_of_mem_splitSection {chunk head content : Text}
    (h : splitSection chunk = (head, content)) {c : Char} (hc : c ∈ content) : c ∈ chunk := by
  unfold splitSection at h
  split at h
  · cases h
    exact hc
  · rename_i before after hcut
    have hchunk := Text.eq_of_cut? hcut
    split at h
    · cases h
      rcases List.mem_append.1 hc with hc | hc
      · rw [hchunk]
        exact List.mem_append_left _ (List.dropLast_subset _ hc)
      · rw [hchunk]
        exact List.mem_append_right _ hc
    · cases h
      rw [hchunk]
      exact List.mem_append_right _ (List.mem_cons_of_mem _ hc)

/-- A section that has a written form: its colours are made of signed words,
and its content does not hold the mark between sections. -/
structure Writable (s : Section) : Prop where
  words : ∀ i ∈ s.instructions, i.Words
  content : sectionMark ∉ s.content

instance (s : Section) : Decidable (Writable s) :=
  decidable_of_iff ((∀ i ∈ s.instructions, i.Words) ∧ sectionMark ∉ s.content)
    ⟨fun h => ⟨h.1, h.2⟩, fun h => ⟨h.words, h.content⟩⟩

/-- The written forms of a section. One without instructions has an escaped
form too, unless it is empty. -/
inductive Form : Section → Text → Prop where
  | full (s : Section) : Form s (writeSection s)
  | escaped {t : Text} : t ≠ [] → Form ⟨t, []⟩ (escape t)

theorem readSection_of_form {s : Section} {chunk : Text} (h : Form s chunk) (hs : Writable s) :
    readSection chunk = .ok s := by
  cases h with
  | full =>
    apply readSection_of_split (splitSection_writeSection s)
    rw [expressions_writeHead, mapM_eq_ok_iff, List.forall₂_map_left_iff, List.forall₂_same]
    exact fun i hi => readInstruction_write (hs.words i hi)
  | escaped => exact readSection_of_split (splitSection_escape _) rfl

theorem form_ne_nil {s : Section} {chunk : Text} (h : Form s chunk) : chunk ≠ [] := by
  cases h with
  | full => simp [writeSection]
  | @escaped t ht =>
    unfold escape
    split
    · exact ht
    · simp

theorem not_mem_form {s : Section} {chunk : Text} (h : Form s chunk) (hs : Writable s) :
    sectionMark ∉ chunk := by
  have hcontent := hs.content
  have hmark : sectionMark ≠ instructionMark ∧ sectionMark ≠ escapeMark := by decide
  cases h with
  | full =>
    rw [writeSection, List.mem_append, List.mem_cons, not_or, not_or]
    exact ⟨not_mem_writeHead (by decide) s.instructions, hmark.1, hcontent⟩
  | @escaped t ht =>
    unfold escape
    split
    · exact hcontent
    · rename_i before after hcut
      rw [Text.eq_of_cut? hcut] at hcontent
      simp only [List.mem_append, List.mem_cons, not_or] at hcontent ⊢
      exact ⟨hcontent.1, hmark.2, hcontent.2⟩

/-- What was read from a chunk can be written. -/
theorem writable_of_readSection {chunk : Text} {s : Section} (h : readSection chunk = .ok s)
    (hc : sectionMark ∉ chunk) : Writable s := by
  obtain ⟨⟨head, content⟩, hsplit⟩ : ∃ p, splitSection chunk = p := ⟨_, rfl⟩
  simp only [readSection, hsplit] at h
  obtain ⟨instructions, hread, h⟩ := Except.bind_eq_ok h
  cases h
  refine ⟨?_, fun hm => hc (mem_of_mem_splitSection hsplit hm)⟩
  intro i hi
  obtain ⟨e, -, he⟩ := exists_of_mem_of_mapM hread hi
  exact words_of_readInstruction he

/-! ## All sections -/

theorem chunks_forms {sections : List Section} {forms : List Text}
    (hforms : List.Forall₂ Form sections forms) (hs : ∀ s ∈ sections, Writable s) :
    chunks ([sectionMark].intercalate forms) = forms := by
  apply Text.pieces_intercalate
  intro p hp
  induction hforms with
  | nil => cases hp
  | @cons s form rest more hform _ ih =>
    rcases List.mem_cons.1 hp with rfl | hp
    · exact ⟨not_mem_form hform (hs s List.mem_cons_self), form_ne_nil hform⟩
    · exact ih (fun t ht => hs t (List.mem_cons_of_mem s ht)) hp

/-- Sections are given back by any of their written forms. -/
theorem read_forms {sections : List Section} {forms : List Text}
    (hforms : List.Forall₂ Form sections forms) (hs : ∀ s ∈ sections, Writable s) :
    read ([sectionMark].intercalate forms) = .ok sections := by
  rw [read, chunks_forms hforms hs, mapM_eq_ok_iff]
  induction hforms with
  | nil => exact .nil
  | @cons s form rest more hform _ ih =>
    refine .cons (readSection_of_form hform (hs s List.mem_cons_self)) ?_
    exact ih fun t ht => hs t (List.mem_cons_of_mem s ht)

theorem read_write {sections : List Section} (hs : ∀ s ∈ sections, Writable s) :
    read (write sections) = .ok sections := by
  apply read_forms _ hs
  rw [List.forall₂_map_right_iff, List.forall₂_same]
  exact fun s _ => Form.full s

/-- What was read can be written. -/
theorem writable_of_read {t : Text} {sections : List Section} (h : read t = .ok sections) :
    ∀ s ∈ sections, Writable s := by
  intro s hs
  obtain ⟨chunk, hchunk, hread⟩ := exists_of_mem_of_mapM h hs
  exact writable_of_readSection hread (Text.not_mem_of_mem_splitOn (List.mem_filter.1 hchunk).1)

/-- Reading undoes writing. Sections are given back by the text they are
written as, and by any text that writes some of them in the escaped form. And
what was read from any text holds no mark between sections in its contents, so
writing it and reading again gives it back. -/
theorem reading_undoes_writing :
    (∀ sections : List Section, (∀ s ∈ sections, Writable s) →
      read (write sections) = .ok sections) ∧
    (∀ (sections : List Section) (forms : List Text), (∀ s ∈ sections, Writable s) →
      List.Forall₂ Form sections forms → read ([sectionMark].intercalate forms) = .ok sections) ∧
    ∀ (t : Text) (sections : List Section), read t = .ok sections →
      (∀ s ∈ sections, sectionMark ∉ s.content) ∧ read (write sections) = .ok sections := by
  refine ⟨fun sections => read_write, fun sections forms hs hf => read_forms hf hs, ?_⟩
  intro t sections h
  have hs := writable_of_read h
  exact ⟨fun s hmem => (hs s hmem).content, read_write hs⟩

/-- A section of marks, and one that is empty but for a colour at the ends of
the words. -/
def hardSections : List Section :=
  [⟨"a~>b;[~".toList, []⟩,
   ⟨[], [.turnOn .inverse, .background ⟨-2147483648, 0, 2147483647⟩, .turnOn .inverse]⟩]

theorem reading_undoes_writing_of_marks :
    ((∀ s ∈ hardSections, Writable s) ∧ read (write hardSections) = .ok hardSections) ∧
    (List.Forall₂ Form hardSections
        ["a~~>b;[~".toList, "inverse;bg[-2147483648,0,2147483647];inverse>".toList] ∧
      read "a~~>b;[~|inverse;bg[-2147483648,0,2147483647];inverse>".toList = .ok hardSections) ∧
    (read "|a~~>b;[~|inverse;bg[ -2147483648, +0,2147483647];inverse[x]>||".toList =
        .ok hardSections ∧
      (∀ s ∈ hardSections, sectionMark ∉ s.content) ∧
        read (write hardSections) = .ok hardSections) := by
  have hs : ∀ s ∈ hardSections, Writable s := by decide
  have hforms : List.Forall₂ Form hardSections
      ["a~~>b;[~".toList, "inverse;bg[-2147483648,0,2147483647];inverse>".toList] :=
    .cons (.escaped (by decide)) (.cons (.full _) .nil)
  have hread : read "|a~~>b;[~|inverse;bg[ -2147483648, +0,2147483647];inverse[x]>||".toList =
      .ok hardSections := by rfl
  exact ⟨⟨hs, reading_undoes_writing.1 hardSections hs⟩,
    ⟨hforms, reading_undoes_writing.2.1 hardSections _ hs hforms⟩,
    ⟨hread, reading_undoes_writing.2.2 _ hardSections hread⟩⟩

end Markup

end TerminalPanes
