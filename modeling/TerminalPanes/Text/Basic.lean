-- Text as a list of characters, white space, and cuts at a character. A cut
-- puts the character back together with both parts, and there is no cut
-- exactly when the character is missing.

namespace TerminalPanes

/-- Text is a list of characters. Strings appear only where the library meets
the outside: in messages and in what a driver hands over. -/
abbrev Text := List Char

namespace Text

/-! ## White space -/

/-- The characters of the Unicode property White_Space, as closed ranges. -/
def blanks : List (Nat × Nat) :=
  [(0x09, 0x0D), (0x20, 0x20), (0x85, 0x85), (0xA0, 0xA0), (0x1680, 0x1680),
   (0x2000, 0x200A), (0x2028, 0x2029), (0x202F, 0x202F), (0x205F, 0x205F),
   (0x3000, 0x3000)]

/-- Whether one of the closed ranges holds the character. -/
def inRanges (ranges : List (Nat × Nat)) (c : Char) : Bool :=
  ranges.any fun r => r.1 ≤ c.toNat && c.toNat ≤ r.2

def isBlank (c : Char) : Bool := inRanges blanks c

/-- The text without the white space at its two ends. -/
def trim (t : Text) : Text :=
  ((t.dropWhile isBlank).reverse.dropWhile isBlank).reverse

/-! ## The first cut -/

/-- The parts before and after the first `mark`, if there is one. -/
def cut? (mark : Char) : Text → Option (Text × Text)
  | [] => none
  | c :: rest =>
    if c = mark then some ([], rest)
    else (cut? mark rest).map fun (before, after) => (c :: before, after)

theorem eq_of_cut? {mark : Char} {t before after : Text}
    (h : cut? mark t = some (before, after)) : t = before ++ mark :: after := by
  induction t generalizing before with
  | nil => simp [cut?] at h
  | cons c rest ih =>
    unfold cut? at h
    split at h
    · next hc => simp_all
    · obtain ⟨⟨b, a⟩, hr, heq⟩ := Option.map_eq_some_iff.1 h
      cases heq
      simp [ih hr]

theorem cut?_eq_none_iff {mark : Char} {t : Text} : cut? mark t = none ↔ mark ∉ t := by
  induction t with
  | nil => simp [cut?]
  | cons c rest ih =>
    unfold cut?
    split
    · next hc => simp [hc]
    · next hc => simp [ih, Ne.symm hc]

theorem not_mem_of_cut? {mark : Char} {t before after : Text}
    (h : cut? mark t = some (before, after)) : mark ∉ before := by
  induction t generalizing before with
  | nil => simp [cut?] at h
  | cons c rest ih =>
    unfold cut? at h
    split at h
    · simp_all
    · next hc =>
      obtain ⟨⟨b, a⟩, hr, heq⟩ := Option.map_eq_some_iff.1 h
      cases heq
      simp [Ne.symm hc, ih hr]

end Text

end TerminalPanes
