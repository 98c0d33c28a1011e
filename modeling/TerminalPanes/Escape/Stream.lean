-- How a terminal takes in its stream. A character by itself is shown, and the
-- characters of a control sequence make one command: its parameters and the
-- character that ends it. The escape character always begins anew, so a
-- sequence that was written is read back as one command, whatever stands
-- before it and after it.
import TerminalPanes.Escape.Basic

namespace TerminalPanes

/-- What a terminal takes from its stream at once. -/
inductive Event where
  | shown (c : Char)
  | command (parameters : Text) (final : Char)
  deriving DecidableEq, Repr

namespace Event

def escape : Char := '\x1b'

/-- Whether the character ends a control sequence. -/
def isFinal (c : Char) : Bool := 0x40 ≤ c.toNat && c.toNat ≤ 0x7E

/-- How far a terminal has come with a sequence. -/
inductive Progress where
  /-- Not in a sequence. -/
  | outside
  /-- The escape character was read. -/
  | escaped
  /-- The parameters so far were read. -/
  | inside (parameters : Text)
  deriving DecidableEq, Repr

/-- What is taken from the rest of a stream. The escape character gives up a
sequence that was not ended. One that opens no control sequence is lost
together with the character after it, and so is a sequence that never ends. -/
def readFrom : Progress → Text → List Event
  | _, [] => []
  | .outside, c :: rest =>
    if c = escape then readFrom .escaped rest else shown c :: readFrom .outside rest
  | .escaped, c :: rest =>
    if c = escape then readFrom .escaped rest
    else if c = '[' then readFrom (.inside []) rest
    else readFrom .outside rest
  | .inside parameters, c :: rest =>
    if c = escape then readFrom .escaped rest
    else if isFinal c then command parameters c :: readFrom .outside rest
    else readFrom (.inside (parameters ++ [c])) rest

def read (t : Text) : List Event := readFrom .outside t

@[simp] theorem read_nil : read [] = [] := rfl

/-- Text without the escape character is shown as it is. -/
theorem read_append_of_not_mem {t : Text} (h : escape ∉ t) (rest : Text) :
    read (t ++ rest) = t.map shown ++ read rest := by
  induction t with
  | nil => rfl
  | cons c t ih =>
    rw [List.mem_cons, not_or] at h
    have hc : c ≠ escape := fun hc => h.1 hc.symm
    rw [read, List.cons_append, readFrom, if_neg hc]
    rw [List.map_cons, List.cons_append, ← ih h.2]
    rfl

/-- Whether the character may stand inside a control sequence. -/
def continues (c : Char) : Bool := c != escape && !isFinal c

theorem readFrom_inside {parameters more : Text} {final : Char}
    (h : ∀ c ∈ more, continues c = true) (hf : isFinal final = true) (rest : Text) :
    readFrom (.inside parameters) (more ++ final :: rest) =
      command (parameters ++ more) final :: read rest := by
  induction more generalizing parameters with
  | nil =>
    have hesc : final ≠ escape := by
      rintro rfl
      exact absurd hf (by decide)
    simp [readFrom, hesc, hf, read]
  | cons c more ih =>
    have hc := h c List.mem_cons_self
    simp only [continues, Bool.and_eq_true, bne_iff_ne, Bool.not_eq_true'] at hc
    rw [List.cons_append, readFrom, if_neg hc.1, if_neg (by simp [hc.2])]
    rw [ih fun d hd => h d (List.mem_cons_of_mem c hd)]
    simp

/-- The escape character begins anew, whatever was read before it. -/
theorem readFrom_append_escape (p : Progress) (t rest : Text) :
    readFrom p (t ++ escape :: rest) = readFrom p t ++ readFrom .escaped rest := by
  induction t generalizing p with
  | nil => cases p <;> simp [readFrom]
  | cons c t ih =>
    cases p with
    | outside => by_cases hc : c = escape <;> simp [readFrom, hc, ih]
    | escaped =>
      by_cases hc : c = escape
      · simp [readFrom, hc, ih]
      · by_cases ho : c = '['
        · subst ho
          simp [readFrom, hc, ih]
        · simp [readFrom, hc, ho, ih]
    | inside parameters =>
      by_cases hc : c = escape
      · simp [readFrom, hc, ih]
      · by_cases hf : isFinal c = true <;> simp [readFrom, hc, hf, ih]

/-! ## Sequences -/

/-- The command that a sequence is to the terminal. -/
def ofSequence (s : Sequence) : Event := command s.parameters s.final

theorem continues_of_isDigit {c : Char} (h : c.isDigit = true) : continues c = true := by
  have hc := Char.isDigit_iff_toNat.1 h
  have h0 : '0'.toNat = 48 := rfl
  have h9 : '9'.toNat = 57 := rfl
  have hesc : c ≠ escape := by
    rintro rfl
    exact absurd h (by decide)
  have hfinal : isFinal c = false := by
    simp only [isFinal, Bool.and_eq_false_iff, decide_eq_false_iff_not]
    omega
  simp [continues, hesc, hfinal]

theorem continues_of_mem_write {n : Int} {c : Char} (h : c ∈ Decimal.write n) :
    continues c = true := by
  rcases Decimal.mem_write h with h | rfl
  · exact continues_of_isDigit h
  · rfl

theorem continues_of_mem_channels {color : Color} {c : Char} (h : c ∈ Sequence.channels color) :
    continues c = true := by
  simp only [Sequence.channels, List.mem_append, List.mem_cons] at h
  rcases h with h | rfl | h | rfl | h
  · exact continues_of_mem_write h
  · rfl
  · exact continues_of_mem_write h
  · rfl
  · exact continues_of_mem_write h

/-- No parameter ends its own sequence. -/
theorem continues_of_mem_parameters {s : Sequence} {c : Char} (h : c ∈ s.parameters) :
    continues c = true := by
  have hall : ∀ t : Text, t.all continues = true → c ∈ t → continues c = true :=
    fun t ht hc => List.all_eq_true.1 ht c hc
  cases s with
  | cursorTo p =>
    simp only [Sequence.parameters, List.mem_append, List.mem_cons] at h
    rcases h with h | rfl | h
    · exact continues_of_mem_write h
    · rfl
    · exact continues_of_mem_write h
  | hideCursor => exact hall _ rfl h
  | showCursor => exact hall _ rfl h
  | erase what => cases what <;> exact hall _ rfl h
  | saveScreen => exact hall _ rfl h
  | restoreScreen => exact hall _ rfl h
  | reset => exact hall _ rfl h
  | rendition code => exact continues_of_isDigit (Decimal.isDigit_of_mem_writeNat h)
  | foreground color =>
    rcases List.mem_append.1 h with h | h
    · exact hall _ rfl h
    · exact continues_of_mem_channels h
  | background color =>
    rcases List.mem_append.1 h with h | h
    · exact hall _ rfl h
    · exact continues_of_mem_channels h

theorem isFinal_final (s : Sequence) : isFinal s.final = true := by
  cases s with
  | erase what => cases what <;> rfl
  | _ => rfl

theorem readFrom_escaped_sequence (s : Sequence) (rest : Text) :
    readFrom .escaped ('[' :: s.parameters ++ s.final :: rest) = ofSequence s :: read rest := by
  have hp : ∀ c ∈ s.parameters, continues c = true := fun c hc => continues_of_mem_parameters hc
  have h := @readFrom_inside [] s.parameters s.final hp (isFinal_final s) rest
  simpa [readFrom, escape, ofSequence] using h

/-- A sequence is one command, whatever stands before it and after it. -/
theorem read_append_write (t : Text) (s : Sequence) (rest : Text) :
    read (t ++ (s.write ++ rest)) = read t ++ ofSequence s :: read rest := by
  have hw : s.write ++ rest = escape :: ('[' :: s.parameters ++ s.final :: rest) := by
    simp [Sequence.write, Sequence.opening, escape]
  rw [hw, read, readFrom_append_escape, readFrom_escaped_sequence]
  rfl

theorem read_write_append (s : Sequence) (rest : Text) :
    read (s.write ++ rest) = ofSequence s :: read rest := read_append_write [] s rest

end Event

end TerminalPanes
