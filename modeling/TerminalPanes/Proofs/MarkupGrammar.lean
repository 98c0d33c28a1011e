-- The grammar of markup. What a text means is told by its form alone: how it
-- falls into chunks, a chunk into expressions and content, and an expression
-- into a keyword and a config. Reading gives just the sections the grammar
-- gives, and where there are none it names the first expression that offends.
import TerminalPanes.Proofs.MarkupText

namespace TerminalPanes

/-! ## Pieces -/

namespace Text

/-- The pieces of a text between the marks. Only those that are not empty count. -/
inductive Pieces (mark : Char) : Text → List Text → Prop where
  | none : Pieces mark [] []
  | one {p : Text} : p ≠ [] → mark ∉ p → Pieces mark p [p]
  | skip {t : Text} {ps : List Text} : Pieces mark t ps → Pieces mark (mark :: t) ps
  | more {p t : Text} {ps : List Text} :
      p ≠ [] → mark ∉ p → Pieces mark t ps → Pieces mark (p ++ mark :: t) (p :: ps)

/-- A text split at the marks, without the empty pieces. -/
def pieces (mark : Char) (t : Text) : List Text := (t.splitOn mark).filter fun p => !p.isEmpty

variable {mark : Char} {t p : Text} {ps : List Text}

theorem pieces_append_mark (mark : Char) (a b : Text) :
    pieces mark (a ++ mark :: b) = pieces mark a ++ pieces mark b := by
  rw [pieces, List.splitOn_append_cons_self, List.filter_append]
  rfl

theorem pieces_of_not_mem (hne : p ≠ []) (h : mark ∉ p) : pieces mark p = [p] := by
  rw [pieces, List.splitOn_eq_singleton h]
  simp [hne]

theorem Pieces.pieces_eq (h : Pieces mark t ps) : pieces mark t = ps := by
  induction h with
  | none => rfl
  | one hne hmark => exact pieces_of_not_mem hne hmark
  | @skip t ps _ ih => exact (pieces_append_mark mark [] t).trans ih
  | more hne hmark _ ih => rw [pieces_append_mark, pieces_of_not_mem hne hmark, ih]; rfl

theorem pieces_pieces (mark : Char) (t : Text) : Pieces mark t (pieces mark t) := by
  cases hcut : cut? mark t with
  | none =>
    have hmark := cut?_eq_none_iff.1 hcut
    by_cases hne : t = []
    · subst hne
      exact .none
    · rw [pieces_of_not_mem hne hmark]
      exact .one hne hmark
  | some parts =>
    obtain ⟨before, after⟩ := parts
    have hmark := not_mem_of_cut? hcut
    have hafter : after.length < t.length := by rw [eq_of_cut? hcut]; simp; omega
    rw [eq_of_cut? hcut, pieces_append_mark]
    by_cases hne : before = []
    · subst hne
      exact .skip (pieces_pieces mark after)
    · rw [pieces_of_not_mem hne hmark]
      exact .more hne hmark (pieces_pieces mark after)
termination_by t.length

theorem pieces_iff : Pieces mark t ps ↔ pieces mark t = ps :=
  ⟨Pieces.pieces_eq, fun h => h ▸ pieces_pieces mark t⟩

end Text

/-! ## Results one by one -/

theorem exists_mapM_eq_ok_iff {ε α β : Type} {f : α → Except ε β} {as : List α} :
    (∃ bs, as.mapM f = .ok bs) ↔ ∀ a ∈ as, ∃ b, f a = .ok b := by
  simp only [mapM_eq_ok_iff]
  induction as with
  | nil => simp
  | cons a rest ih =>
    rw [List.forall_mem_cons, ← ih]
    constructor
    · rintro ⟨_, h⟩
      cases h with
      | cons hb hmore => exact ⟨⟨_, hb⟩, _, hmore⟩
    · rintro ⟨⟨b, hb⟩, bs, hmore⟩
      exact ⟨b :: bs, .cons hb hmore⟩

/-- Results are refused for the first element that has none. -/
theorem mapM_eq_error_iff {ε α β : Type} {f : α → Except ε β} {as : List α} {e : ε} :
    as.mapM f = .error e ↔ ∃ good a later, as = good ++ a :: later ∧
      (∀ g ∈ good, ∃ b, f g = .ok b) ∧ f a = .error e := by
  induction as with
  | nil =>
    rw [List.mapM_nil]
    simp [pure, Except.pure]
  | cons a rest ih =>
    rw [List.mapM_cons]
    cases ha : f a with
    | error e' =>
      constructor
      · intro h
        cases h
        exact ⟨[], a, rest, rfl, nofun, ha⟩
      · rintro ⟨good, a', later, heq, hgood, he⟩
        cases good with
        | nil =>
          cases heq
          rw [ha] at he
          cases he
          rfl
        | cons g good =>
          cases heq
          obtain ⟨b, hb⟩ := hgood a List.mem_cons_self
          rw [ha] at hb
          cases hb
    | ok b =>
      have hrest : (do let bs ← rest.mapM f; pure (b :: bs)) = Except.error e ↔
          rest.mapM f = .error e := by
        cases rest.mapM f <;> simp [bind, Except.bind, pure, Except.pure]
      refine hrest.trans (ih.trans ⟨?_, ?_⟩)
      · rintro ⟨good, a', later, rfl, hgood, he⟩
        exact ⟨a :: good, a', later, rfl, List.forall_mem_cons.2 ⟨⟨b, ha⟩, hgood⟩, he⟩
      · rintro ⟨good, a', later, heq, hgood, he⟩
        cases good with
        | nil =>
          cases heq
          rw [ha] at he
          cases he
        | cons g good =>
          cases heq
          exact ⟨good, a', later, rfl, fun g hg => hgood g (List.mem_cons_of_mem a hg), he⟩

namespace Markup

variable {x word : Text} {config : Option Text}

/-! ## Expressions -/

/-- The keyword of an expression, and what its brackets hold if it has any. -/
inductive Expression : Text → Text → Option Text → Prop where
  | plain {word : Text} : configOpen ∉ word → Expression word word none
  | configured {word config : Text} : configOpen ∉ word →
      Expression (word ++ configOpen :: (config ++ [configClose])) word (some config)

def Colored (word : Text) : Prop := (word, .foreground) ∈ keywords ∨ (word, .background) ∈ keywords

/-- What an expression asks for. -/
inductive Means : Text → Instruction → Prop where
  | turnOn {x word : Text} {config : Option Text} {e : Emphasis} :
      Expression x word config → (word, .turnsOn e) ∈ keywords → Means x (.turnOn e)
  | foreground {x word value : Text} {c : Color} : Expression x word (some value) →
      (word, .foreground) ∈ keywords → Color.read? value = some c → Means x (.foreground c)
  | background {x word value : Text} {c : Color} : Expression x word (some value) →
      (word, .background) ∈ keywords → Color.read? value = some c → Means x (.background c)

/-- What is wrong with an expression. -/
inductive Offends : Text → MarkupError → Prop where
  | unclosed {x : Text} :
      configOpen ∈ x → x.getLast? ≠ some configClose → Offends x (.unterminatedConfig x)
  | unknown {x word : Text} {config : Option Text} :
      Expression x word config → (∀ k, (word, k) ∉ keywords) → Offends x (.unknownKeyword word)
  | missing {x word : Text} : Expression x word none → Colored word → Offends x (.missingColor word)
  | bad {x word value : Text} : Expression x word (some value) → Colored word →
      Color.read? value = none → Offends x (.invalidColor value)

theorem keyword?_eq_some_iff {k : Keyword} : keyword? word = some k ↔ (word, k) ∈ keywords := by
  constructor
  · intro h
    obtain ⟨l₁, l₂, hl, -⟩ := List.lookup_eq_some_iff.1 h
    rw [hl]
    simp
  · have hall : ∀ p ∈ keywords, keyword? p.1 = some p.2 := by decide
    exact hall (word, k)

theorem keyword?_eq_none_iff : keyword? word = none ↔ ∀ k, (word, k) ∉ keywords := by
  rw [Option.eq_none_iff_forall_ne_some]
  exact forall_congr' fun k => not_congr keyword?_eq_some_iff

theorem closed?_eq_some_iff {rest config : Text} :
    closed? rest = some config ↔ rest = config ++ [configClose] := by
  constructor
  · intro h
    unfold closed? at h
    split at h
    · rename_i hlast
      obtain ⟨config, rfl⟩ := List.getLast?_eq_some_iff.1 hlast
      cases h
      rw [List.dropLast_concat]
    · contradiction
  · rintro rfl
    simp [closed?]

theorem closed?_eq_none_iff {rest : Text} :
    closed? rest = none ↔ rest.getLast? ≠ some configClose := by
  simp [closed?]

theorem splitConfig_eq_ok_iff : splitConfig x = .ok (word, config) ↔ Expression x word config := by
  constructor
  · intro h
    unfold splitConfig at h
    split at h
    · rename_i hcut
      cases h
      exact .plain (Text.cut?_eq_none_iff.1 hcut)
    · rename_i keyword rest hcut
      split at h
      · rename_i value hclosed
        cases h
        rw [Text.eq_of_cut? hcut, closed?_eq_some_iff.1 hclosed]
        exact .configured (Text.not_mem_of_cut? hcut)
      · contradiction
  · intro h
    cases h with
    | plain hopen => simp only [splitConfig, Text.cut?_eq_none_iff.2 hopen]
    | configured hopen =>
      simp only [splitConfig, Text.cut?_append hopen, closed?_eq_some_iff.2 rfl]

theorem splitConfig_eq_error_iff {e : MarkupError} : splitConfig x = .error e ↔
    e = .unterminatedConfig x ∧ configOpen ∈ x ∧ x.getLast? ≠ some configClose := by
  unfold splitConfig
  split
  · rename_i hcut
    simp [Text.cut?_eq_none_iff.1 hcut]
  · rename_i keyword rest hcut
    have hx := Text.eq_of_cut? hcut
    have hmem : configOpen ∈ x := by simp [hx]
    have hlast : x.getLast? ≠ some configClose ↔ closed? rest = none := by
      have hne : configOpen ≠ configClose := by decide
      rw [closed?_eq_none_iff, hx]
      cases rest <;> simp [hne]
    rw [hlast]
    cases hclosed : closed? rest with
    | none => simp [hmem, eq_comm]
    | some config => simp

theorem readInstruction_of_expression (hx : Expression x word config) : readInstruction x =
    match keyword? word with
    | none => .error (.unknownKeyword word)
    | some (.turnsOn e) => .ok (.turnOn e)
    | some .foreground => (readColor word config).map .foreground
    | some .background => (readColor word config).map .background := by
  simp only [readInstruction, splitConfig_eq_ok_iff.2 hx, bind, Except.bind]
  cases keyword? word with
  | none => rfl
  | some k => cases k <;> rfl

theorem Means.readInstruction {i : Instruction} (h : Means x i) : readInstruction x = .ok i := by
  cases h with
  | turnOn hx hword => rw [readInstruction_of_expression hx, keyword?_eq_some_iff.2 hword]
  | foreground hx hword hcolor =>
    rw [readInstruction_of_expression hx, keyword?_eq_some_iff.2 hword]
    simp only [readColor, hcolor]
    rfl
  | background hx hword hcolor =>
    rw [readInstruction_of_expression hx, keyword?_eq_some_iff.2 hword]
    simp only [readColor, hcolor]
    rfl

theorem readInstruction_of_colored (hx : Expression x word config) (hword : Colored word)
    {e : MarkupError} (h : readColor word config = .error e) : readInstruction x = .error e := by
  rw [readInstruction_of_expression hx]
  rcases hword with hword | hword
  · rw [keyword?_eq_some_iff.2 hword, h]
    rfl
  · rw [keyword?_eq_some_iff.2 hword, h]
    rfl

theorem Offends.readInstruction {e : MarkupError} (h : Offends x e) :
    readInstruction x = .error e := by
  cases h with
  | unclosed hopen hlast =>
    rw [Markup.readInstruction, splitConfig_eq_error_iff.2 ⟨rfl, hopen, hlast⟩]
    rfl
  | unknown hx hword => rw [readInstruction_of_expression hx, keyword?_eq_none_iff.2 hword]
  | missing hx hword => exact readInstruction_of_colored hx hword rfl
  | bad hx hword hcolor =>
    exact readInstruction_of_colored hx hword (by simp only [readColor, hcolor])

/-- What stands after a keyword of a colour either is one or offends. -/
theorem color_or_offends (hx : Expression x word config) (hword : Colored word) :
    (∃ value c, config = some value ∧ Color.read? value = some c) ∨ ∃ e, Offends x e := by
  cases config with
  | none => exact .inr ⟨_, .missing hx hword⟩
  | some value =>
    cases hcolor : Color.read? value with
    | none => exact .inr ⟨_, .bad hx hword hcolor⟩
    | some c => exact .inl ⟨value, c, rfl, hcolor⟩

theorem means_or_offends (x : Text) : (∃ i, Means x i) ∨ ∃ e, Offends x e := by
  cases hsplit : splitConfig x with
  | error e =>
    obtain ⟨-, hopen, hlast⟩ := splitConfig_eq_error_iff.1 hsplit
    exact .inr ⟨_, .unclosed hopen hlast⟩
  | ok parts =>
    obtain ⟨word, config⟩ := parts
    have hx := splitConfig_eq_ok_iff.1 hsplit
    cases hk : keyword? word with
    | none => exact .inr ⟨_, .unknown hx (keyword?_eq_none_iff.1 hk)⟩
    | some k =>
      have hword := keyword?_eq_some_iff.1 hk
      cases k with
      | turnsOn e => exact .inl ⟨_, .turnOn hx hword⟩
      | foreground =>
        refine (color_or_offends hx (.inl hword)).imp_left ?_
        rintro ⟨value, c, rfl, hcolor⟩
        exact ⟨_, .foreground hx hword hcolor⟩
      | background =>
        refine (color_or_offends hx (.inr hword)).imp_left ?_
        rintro ⟨value, c, rfl, hcolor⟩
        exact ⟨_, .background hx hword hcolor⟩

theorem readInstruction_eq_ok_iff {i : Instruction} : readInstruction x = .ok i ↔ Means x i := by
  refine ⟨fun h => ?_, Means.readInstruction⟩
  rcases means_or_offends x with ⟨j, hj⟩ | ⟨e, he⟩
  · rw [hj.readInstruction] at h
    cases h
    exact hj
  · rw [he.readInstruction] at h
    cases h

theorem readInstruction_eq_error_iff {e : MarkupError} :
    readInstruction x = .error e ↔ Offends x e := by
  refine ⟨fun h => ?_, Offends.readInstruction⟩
  rcases means_or_offends x with ⟨j, hj⟩ | ⟨e', he⟩
  · rw [hj.readInstruction] at h
    cases h
  · rw [he.readInstruction] at h
    cases h
    exact he

/-! ## Sections -/

/-- A chunk, the instructions in it as text, and its content. -/
inductive Division : Text → Text → Text → Prop where
  | plain {content : Text} : instructionMark ∉ content → Division content [] content
  | escaped {before after : Text} : instructionMark ∉ before →
      Division (before ++ escapeMark :: instructionMark :: after) []
        (before ++ instructionMark :: after)
  | styled {head content : Text} : instructionMark ∉ head → head.getLast? ≠ some escapeMark →
      Division (head ++ instructionMark :: content) head content

theorem splitSection_eq_iff {chunk head content : Text} :
    splitSection chunk = (head, content) ↔ Division chunk head content := by
  constructor
  · intro h
    unfold splitSection at h
    split at h
    · rename_i hcut
      cases h
      exact .plain (Text.cut?_eq_none_iff.1 hcut)
    · rename_i before after hcut
      have hmark := Text.not_mem_of_cut? hcut
      rw [Text.eq_of_cut? hcut]
      split at h
      · rename_i hlast
        cases h
        obtain ⟨before, rfl⟩ := List.getLast?_eq_some_iff.1 hlast
        rw [List.dropLast_concat, List.append_assoc]
        exact .escaped fun hm => hmark (List.mem_append_left _ hm)
      · rename_i hlast
        cases h
        exact .styled hmark hlast
  · intro h
    cases h with
    | plain hmark => rw [splitSection, Text.cut?_eq_none_iff.2 hmark]
    | @escaped before after hmark =>
      have hne : instructionMark ≠ escapeMark := by decide
      have hbefore : instructionMark ∉ before ++ [escapeMark] := by simp [hmark, hne]
      have hcut := Text.cut?_append hbefore after
      rw [List.append_assoc, List.singleton_append] at hcut
      rw [splitSection, hcut]
      simp
    | styled hmark hlast => simp [splitSection, Text.cut?_append hmark, hlast]

/-- A chunk read one character at a time. -/
structure Scan where
  head : Text
  content : Text
  inInstructions : Bool
  previous : Option Char

namespace Scan

def start : Scan := ⟨[], [], true, none⟩

def step (s : Scan) (c : Char) : Scan :=
  if c = instructionMark ∧ s.inInstructions = true then
    if s.previous = some escapeMark then ⟨[], s.head.dropLast ++ [c], false, some c⟩
    else ⟨s.head, s.content, false, some c⟩
  else if s.inInstructions = true then ⟨s.head ++ [c], s.content, true, some c⟩
  else ⟨s.head, s.content ++ [c], false, some c⟩

/-- The instructions as text and the content. -/
def parts (s : Scan) : Text × Text := if s.inInstructions then ([], s.head) else (s.head, s.content)

theorem foldl_step_of_not_mem {t : Text} (h : instructionMark ∉ t) (head : Text) :
    t.foldl step ⟨head, [], true, head.getLast?⟩ =
      ⟨head ++ t, [], true, (head ++ t).getLast?⟩ := by
  induction t generalizing head with
  | nil => simp
  | cons c rest ih =>
    rw [List.mem_cons, not_or] at h
    have hstep : step ⟨head, [], true, head.getLast?⟩ c =
        ⟨head ++ [c], [], true, (head ++ [c]).getLast?⟩ := by
      simp [step, Ne.symm h.1]
    rw [List.foldl_cons, hstep, ih h.2]
    simp

theorem parts_foldl_step (t head content : Text) (previous : Option Char) :
    (t.foldl step ⟨head, content, false, previous⟩).parts = (head, content ++ t) := by
  induction t generalizing content previous with
  | nil => simp [parts]
  | cons c rest ih =>
    have hstep : step ⟨head, content, false, previous⟩ c =
        ⟨head, content ++ [c], false, some c⟩ := by
      simp [step]
    rw [List.foldl_cons, hstep, ih]
    simp

/-- One character at a time, a chunk divides at the same place. -/
theorem parts_eq_splitSection (chunk : Text) :
    (chunk.foldl step start).parts = splitSection chunk := by
  rw [splitSection]
  split
  · rename_i hcut
    rw [start, ← List.getLast?_nil, foldl_step_of_not_mem (Text.cut?_eq_none_iff.1 hcut)]
    simp [parts]
  · rename_i before after hcut
    rw [Text.eq_of_cut? hcut, List.foldl_append, start, ← List.getLast?_nil,
      foldl_step_of_not_mem (Text.not_mem_of_cut? hcut), List.nil_append, List.foldl_cons]
    split
    · rename_i hlast
      have hstep : step ⟨before, [], true, before.getLast?⟩ instructionMark =
          ⟨[], before.dropLast ++ [instructionMark], false, some instructionMark⟩ := by
        simp [step, hlast]
      rw [hstep, parts_foldl_step]
      simp
    · rename_i hlast
      have hstep : step ⟨before, [], true, before.getLast?⟩ instructionMark =
          ⟨before, [], false, some instructionMark⟩ := by
        simp [step, hlast]
      rw [hstep, parts_foldl_step]
      simp

end Scan

/-- The section of a chunk. -/
def SectionOf (chunk : Text) (s : Section) : Prop :=
  ∃ head xs, Division chunk head s.content ∧ Text.Pieces expressionMark head xs ∧
    List.Forall₂ Means xs s.instructions

theorem readSection_eq_ok_iff {chunk : Text} {s : Section} :
    readSection chunk = .ok s ↔ SectionOf chunk s := by
  constructor
  · intro h
    obtain ⟨instructions, hread, h⟩ := Except.bind_eq_ok h
    cases h
    have hxs := (mapM_eq_ok_iff.1 hread).imp fun x i h => readInstruction_eq_ok_iff.1 h
    exact ⟨_, _, splitSection_eq_iff.1 rfl, Text.pieces_iff.2 rfl, hxs⟩
  · rintro ⟨head, xs, hsplit, hpieces, hxs⟩
    refine readSection_of_split (splitSection_eq_iff.2 hsplit) (mapM_eq_ok_iff.2 ?_)
    have hexpressions : expressions head = xs := Text.pieces_iff.1 hpieces
    rw [hexpressions]
    exact hxs.imp fun x i h => readInstruction_eq_ok_iff.2 h

/-! ## All of a text -/

/-- The sections of a text. -/
def Grammar (m : Text) (sections : List Section) : Prop :=
  ∃ chunks, Text.Pieces sectionMark m chunks ∧ List.Forall₂ SectionOf chunks sections

theorem read_eq_ok_iff {m : Text} {sections : List Section} :
    read m = .ok sections ↔ Grammar m sections := by
  constructor
  · intro h
    have hsections := (mapM_eq_ok_iff.1 h).imp fun chunk s h => readSection_eq_ok_iff.1 h
    exact ⟨_, Text.pieces_iff.2 rfl, hsections⟩
  · rintro ⟨cs, hpieces, hsections⟩
    have hchunks : chunks m = cs := Text.pieces_iff.1 hpieces
    rw [read, hchunks, mapM_eq_ok_iff]
    exact hsections.imp fun chunk s h => readSection_eq_ok_iff.2 h

/-- Text read after a mark is read after what is before it. -/
theorem read_append_mark (a b : Text) :
    read (a ++ sectionMark :: b) = (do return (← read a) ++ (← read b)) := by
  have hchunks : chunks (a ++ sectionMark :: b) = chunks a ++ chunks b :=
    Text.pieces_append_mark sectionMark a b
  rw [read, hchunks, List.mapM_append]
  rfl

/-- The expressions of a chunk. -/
def ExpressionsOf (chunk : Text) (xs : List Text) : Prop :=
  ∃ head content, Division chunk head content ∧ Text.Pieces expressionMark head xs

/-- All expressions of a text, in their order. -/
def Expressions (m : Text) (xs : List Text) : Prop :=
  ∃ chunks xss, Text.Pieces sectionMark m chunks ∧ List.Forall₂ ExpressionsOf chunks xss ∧
    xs = xss.flatten

/-- The expressions that reading looks at in a chunk. -/
def chunkExpressions (chunk : Text) : List Text := expressions (splitSection chunk).1

theorem expressionsOf_iff {chunk : Text} {xs : List Text} :
    ExpressionsOf chunk xs ↔ chunkExpressions chunk = xs := by
  constructor
  · rintro ⟨head, content, hsplit, hpieces⟩
    rw [chunkExpressions, splitSection_eq_iff.2 hsplit]
    exact Text.pieces_iff.1 hpieces
  · intro h
    exact ⟨_, _, splitSection_eq_iff.1 rfl, Text.pieces_iff.2 h⟩

theorem expressions_iff {m : Text} {xs : List Text} :
    Expressions m xs ↔ (chunks m).flatMap chunkExpressions = xs := by
  have hall : ∀ {cs xss}, List.Forall₂ ExpressionsOf cs xss ↔ cs.map chunkExpressions = xss := by
    intro cs xss
    rw [← List.forall₂_eq_eq_eq, List.forall₂_map_left_iff]
    exact ⟨fun h => h.imp fun _ _ => expressionsOf_iff.1,
      fun h => h.imp fun _ _ => expressionsOf_iff.2⟩
  constructor
  · rintro ⟨cs, xss, hpieces, hxss, rfl⟩
    have hchunks : chunks m = cs := Text.pieces_iff.1 hpieces
    rw [hchunks, ← hall.1 hxss, List.flatMap_def]
  · intro h
    exact ⟨_, _, Text.pieces_iff.2 rfl, hall.2 rfl, by rw [← h, List.flatMap_def]; rfl⟩

theorem readSection_eq_map (chunk : Text) : readSection chunk =
    ((chunkExpressions chunk).mapM readInstruction).map (Section.mk (splitSection chunk).2) := by
  rw [chunkExpressions]
  change (do pure (⟨_, ← (expressions (splitSection chunk).1).mapM readInstruction⟩ : Section)) = _
  cases (expressions (splitSection chunk).1).mapM readInstruction <;> rfl

/-- What is read of the expressions alone: the same instructions, or the same error. -/
theorem mapM_readInstruction (cs : List Text) :
    (cs.flatMap chunkExpressions).mapM readInstruction =
      (cs.mapM readSection).map fun sections => sections.flatMap Section.instructions := by
  induction cs with
  | nil => rfl
  | cons c rest ih =>
    rw [List.flatMap_cons, List.mapM_append, List.mapM_cons, ih, readSection_eq_map]
    cases (chunkExpressions c).mapM readInstruction with
    | error e => rfl
    | ok instructions => cases rest.mapM readSection <;> rfl

theorem exists_read_iff {m : Text} : (∃ sections, read m = .ok sections) ↔
    ∃ xs, Expressions m xs ∧ ∀ x ∈ xs, ∃ i, Means x i := by
  have hread := mapM_readInstruction (chunks m)
  have hmeans : (∃ sections, read m = .ok sections) ↔
      ∀ x ∈ (chunks m).flatMap chunkExpressions, ∃ i, readInstruction x = .ok i := by
    rw [← exists_mapM_eq_ok_iff, hread, ← read]
    cases read m <;> simp [Except.map]
  simp only [hmeans, expressions_iff, exists_eq_left', readInstruction_eq_ok_iff]

theorem read_eq_error_iff {m : Text} {e : MarkupError} : read m = .error e ↔
    ∃ good x later, Expressions m (good ++ x :: later) ∧ (∀ g ∈ good, ∃ i, Means g i) ∧
      Offends x e := by
  have hread := mapM_readInstruction (chunks m)
  have herror : read m = .error e ↔
      ((chunks m).flatMap chunkExpressions).mapM readInstruction = .error e := by
    rw [hread, ← read]
    cases read m <;> simp [Except.map]
  simp only [herror, mapM_eq_error_iff, expressions_iff, readInstruction_eq_ok_iff,
    readInstruction_eq_error_iff]

/-- Markup is read as its grammar has it. The sections are those of the grammar. There are
any just when every expression means something, and else the error is that of the first
expression that offends. Text after a mark between sections is read by itself, after the
text before it. One pass over the characters of a chunk divides it at the same place. -/
theorem markup_is_read_as_its_grammar :
    (∀ m sections, read m = .ok sections ↔ Grammar m sections) ∧
    (∀ m, (∃ sections, read m = .ok sections) ↔
      ∃ xs, Expressions m xs ∧ ∀ x ∈ xs, ∃ i, Means x i) ∧
    (∀ m e, read m = .error e ↔ ∃ good x later, Expressions m (good ++ x :: later) ∧
      (∀ g ∈ good, ∃ i, Means g i) ∧ Offends x e) ∧
    (∀ a b, read (a ++ sectionMark :: b) = (do return (← read a) ++ (← read b))) ∧
    ∀ chunk head content, Division chunk head content ↔
      (chunk.foldl Scan.step Scan.start).parts = (head, content) :=
  ⟨fun _ _ => read_eq_ok_iff, fun _ => exists_read_iff, fun _ _ => read_eq_error_iff,
    read_append_mark, fun chunk head content => by
      rw [Scan.parts_eq_splitSection]
      exact splitSection_eq_iff.symm⟩

end Markup

end TerminalPanes
