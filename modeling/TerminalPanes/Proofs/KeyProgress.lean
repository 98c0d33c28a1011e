-- Keys by places in a buffer. With every access checked, the places that are
-- looked at all lie in the buffer, and each turn of the loop uses up one byte
-- at least. So the loop ends, every byte is taken once or waits, and what waits
-- is the beginning of a sequence.
import TerminalPanes.Proofs.KeyStream

namespace TerminalPanes

/-- A byte that begins a form of several bytes is between two bounds, and the form has four
bytes at most. -/
theorem Text.Utf8.of_formLength? {lead : UInt8} {n : Nat} (h : formLength? lead = some n) :
    2 ≤ n ∧ n ≤ 4 ∧ 0xC0 ≤ lead ∧ lead ≤ 0xF7 := by
  grind [formLength?]

namespace Key

variable {bs rest body : List UInt8} {b : UInt8}

/-! ## Places in a buffer -/

/-- The bytes from one place up to another one. There are none where the places are out of
order or beyond the bytes. -/
def slice? (bs : List UInt8) (first last : Nat) : Option (List UInt8) :=
  if first ≤ last ∧ last ≤ bs.length then some ((bs.take last).drop first) else none

theorem slice?_of_le {first last : Nat} (hfirst : first ≤ last) (hlast : last ≤ bs.length) :
    slice? bs first last = some ((bs.take last).drop first) := if_pos ⟨hfirst, hlast⟩

/-- What stands at the front of a buffer: bytes that make a key or none, and how many they
are, or too few bytes to tell. -/
inductive Front where
  | piece (key? : Option Key) (taken : Nat)
  | unfinished
  deriving DecidableEq, Repr

/-- The first place, from one on, where no parameter stands. -/
def endPlace? (bs : List UInt8) (place : Nat) : Option Nat :=
  match h : bs[place]? with
  | none => none
  | some b => if isParameter b then endPlace? bs (place + 1) else some place
termination_by bs.length - place
decreasing_by
  have := (List.getElem?_eq_some_iff.1 h).1
  omega

/-- The front of a buffer whose first two bytes open a control sequence. -/
def controlFront? (bs : List UInt8) : Option Front :=
  match endPlace? bs 2 with
  | none => some .unfinished
  | some place => do
    let final ← bs[place]?
    if isFinal final then
      let held ← slice? bs 2 place
      pure (.piece (ofSequence? (parameters held) final) (place + 1))
    else pure (.piece none (place + 1))

/-- The front of a buffer whose first two bytes open a single shift. -/
def shiftFront (bs : List UInt8) : Front :=
  match bs[2]? with
  | none => .unfinished
  | some b => .piece ((ofFinal? b).map plain) 3

/-- The front of a buffer that begins with an escape byte. -/
def escapeFront? (bs : List UInt8) : Option Front :=
  match bs[1]? with
  | none => some .unfinished
  | some b =>
    if b = 0x5B then controlFront? bs
    else if b = 0x4F then some (shiftFront bs)
    else if b = esc then some (.piece (some (withAlt .escape)) 2)
    else if isPrintable b then some (.piece (some (withAlt (printable b))) 2)
    else if isControl b then
      some (.piece (some ⟨controlLetter b, { Modifiers.none with alt := true, ctrl := true }⟩) 2)
    else some (.piece (some (plain .escape)) 1)

/-- The front of a buffer that begins with a byte beyond ASCII. -/
def wideFront? (bs : List UInt8) : Option Front := do
  let lead ← bs[0]?
  match Text.Utf8.formLength? lead with
  | none => pure (.piece none 1)
  | some n =>
    if bs.length < n then pure .unfinished
    else
      let after ← slice? bs 1 n
      match Text.Utf8.decode? lead after with
      | some c => pure (.piece (some (plain (.char c))) n)
      | none => pure (.piece none 1)

/-- The front of a buffer, every place in it looked at only where there is a byte. -/
def front? (bs : List UInt8) : Option Front := do
  let b ← bs[0]?
  if b = esc then escapeFront? bs
  else if 0x80 ≤ b then wideFront? bs
  else pure (.piece (ofByte? b) 1)

/-! ## Verdicts by places -/

/-- A verdict together with the first byte. -/
def Verdict.front : Verdict → Front
  | .key k n => .piece (some k) (n + 1)
  | .skip n => .piece none (n + 1)
  | .unfinished => .unfinished

theorem endPlace?_eq (bs : List UInt8) (place : Nat) :
    endPlace? bs place =
      if (bs.drop place).dropWhile isParameter = [] then none
      else some (place + ((bs.drop place).takeWhile isParameter).length) := by
  fun_induction endPlace? bs place with
  | case1 place hnone =>
    rw [List.drop_of_length_le (List.getElem?_eq_none_iff.1 hnone)]
    rfl
  | case2 place b hb hparameter ih =>
    obtain ⟨hlt, rfl⟩ := List.getElem?_eq_some_iff.1 hb
    rw [ih, List.drop_eq_getElem_cons hlt, List.dropWhile_cons_of_pos hparameter,
      List.takeWhile_cons_of_pos hparameter, List.length_cons, Nat.add_assoc, Nat.add_comm 1]
  | case3 place b hb hparameter =>
    obtain ⟨hlt, rfl⟩ := List.getElem?_eq_some_iff.1 hb
    rw [List.drop_eq_getElem_cons hlt, List.dropWhile_cons_of_neg hparameter,
      List.takeWhile_cons_of_neg hparameter, if_neg (List.cons_ne_nil _ _)]
    rfl

theorem controlFront?_cons (x y : UInt8) (body : List UInt8) :
    controlFront? (x :: y :: body) = some (controlSequence body).front := by
  have hplace := endPlace?_eq (x :: y :: body) 2
  rw [List.drop_succ_cons, List.drop_succ_cons, List.drop_zero] at hplace
  have hsplit := List.takeWhile_append_dropWhile (p := isParameter) (l := body)
  cases hend : body.dropWhile isParameter with
  | nil =>
    rw [if_pos hend] at hplace
    simp only [controlFront?, hplace, controlSequence, hend]
    rfl
  | cons b after =>
    rw [hend, if_neg (List.cons_ne_nil b after)] at hplace
    rw [hend] at hsplit
    generalize hheld : body.takeWhile isParameter = held at *
    have hfinal : (x :: y :: body)[2 + held.length]? = some b := by
      rw [← hsplit]
      simp [Nat.add_comm 2]
    have hslice : slice? (x :: y :: body) 2 (2 + held.length) = some held := by
      rw [slice?_of_le (Nat.le_add_right 2 held.length), ← hsplit]
      · simp [Nat.add_comm 2]
      · rw [← hsplit]
        simp only [List.length_cons, List.length_append]
        omega
    have hplaces : 2 + held.length + 1 = held.length + 2 + 1 := by omega
    simp only [controlFront?, hplace, hfinal, hslice, hplaces, controlSequence, hend, hheld,
      Option.bind_eq_bind, Option.bind_some]
    split
    · cases ofSequence? (parameters held) b <;> rfl
    · rfl

theorem shiftFront_cons (x y : UInt8) (body : List UInt8) :
    shiftFront (x :: y :: body) = (singleShift body).front := by
  cases body with
  | nil => rfl
  | cons b after =>
    simp only [shiftFront, singleShift, List.getElem?_cons_succ, List.getElem?_cons_zero]
    cases ofFinal? b <;> rfl

theorem escapeFront?_cons (x : UInt8) (rest : List UInt8) :
    escapeFront? (x :: rest) = some (afterEscape rest).front := by
  cases rest with
  | nil => rfl
  | cons b body =>
    simp only [escapeFront?, afterEscape, List.getElem?_cons_succ, List.getElem?_cons_zero,
      controlFront?_cons, shiftFront_cons]
    repeat' split
    all_goals rfl

theorem wideFront?_cons (b : UInt8) (rest : List UInt8) :
    wideFront? (b :: rest) = some (wideCharacter b rest).front := by
  simp only [wideFront?, wideCharacter, List.getElem?_cons_zero, Option.bind_eq_bind,
    Option.bind_some]
  cases hform : Text.Utf8.formLength? b with
  | none => rfl
  | some n =>
    obtain ⟨m, rfl⟩ : ∃ m, n = m + 1 := ⟨n - 1, by have := Text.Utf8.of_formLength? hform; omega⟩
    by_cases hshort : rest.length < m
    · simp only [List.length_cons, Nat.add_sub_cancel, Nat.add_lt_add_iff_right, if_pos hshort]
      rfl
    · have hslice : slice? (b :: rest) 1 (m + 1) = some (rest.take m) := by
        rw [slice?_of_le (by omega) (Nat.succ_le_succ (Nat.not_lt.1 hshort))]
        rfl
      simp only [List.length_cons, Nat.add_sub_cancel, Nat.add_lt_add_iff_right, if_neg hshort,
        hslice, Option.bind_some]
      cases Text.Utf8.decode? b (rest.take m) <;> rfl

/-- No place beyond the bytes is looked at, and what is found is the verdict. -/
theorem front?_cons (b : UInt8) (rest : List UInt8) :
    front? (b :: rest) = some (verdict b rest).front := by
  simp only [front?, verdict, List.getElem?_cons_zero, Option.bind_eq_bind, Option.bind_some,
    escapeFront?_cons, wideFront?_cons]
  split
  · rfl
  · split
    · rfl
    · cases ofByte? b <;> rfl

/-! ## What is taken and what waits -/

/-- A verdict that is reached is a piece, with its key if there is one. -/
theorem exists_front_eq {v : Verdict} (h : v ≠ .unfinished) :
    ∃ key? : Option Key, v.front = .piece key? (v.extra + 1) ∧ key?.toList = v.keys := by
  cases v with
  | key k n => exact ⟨some k, rfl, rfl⟩
  | skip n => exact ⟨none, rfl, rfl⟩
  | unfinished => exact absurd rfl h

theorem taken_bounds {key? : Option Key} {taken : Nat}
    (h : front? (b :: rest) = some (.piece key? taken)) :
    1 ≤ taken ∧ taken ≤ (b :: rest).length := by
  have hle := extra_verdict_le b rest
  rw [front?_cons, Option.some_inj] at h
  by_cases hv : verdict b rest = .unfinished
  · rw [hv] at h
    cases h
  · obtain ⟨key, hfront, -⟩ := exists_front_eq hv
    rw [hfront] at h
    cases h
    exact ⟨Nat.le_add_left 1 _, Nat.succ_le_succ hle⟩

-- Parameters that a byte beyond ASCII ends are skipped together with it.
example : front? [0x1B, 0x5B, 0x31, 0x3B, 0xC3, 0x61] = some (.piece none 5) := by cbv

/-- Nothing waits, or the beginning of a sequence does. It begins with an escape byte, or with
the first byte of a character of several bytes and is three bytes long at most. -/
def Waits (bs : List UInt8) : Prop :=
  bs = [] ∨ front? bs = some .unfinished ∧ ∃ b rest, bs = b :: rest ∧
    (b = esc ∨ 0xC0 ≤ b ∧ b ≤ 0xF7 ∧ bs.length ≤ 3)

theorem waits_of_unfinished (h : verdict b rest = .unfinished) : Waits (b :: rest) := by
  refine Or.inr ⟨by rw [front?_cons, h]; rfl, b, rest, rfl, ?_⟩
  unfold verdict at h
  split at h
  · rename_i hesc
    exact Or.inl hesc
  · split at h
    · unfold wideCharacter at h
      split at h
      · cases h
      · rename_i n hform
        obtain ⟨-, hfour, hlow, hhigh⟩ := Text.Utf8.of_formLength? hform
        split at h
        · exact Or.inr ⟨hlow, hhigh, by rw [List.length_cons]; omega⟩
        · split at h <;> cases h
    · split at h <;> cases h

/-! ## The loop over a buffer -/

/-- How much of a buffer has been used up: the place behind it, the pieces one by one, and
their keys. -/
structure Progress where
  place : Nat
  pieces : List (List UInt8)
  keys : List Key
  deriving DecidableEq, Repr

def Progress.start : Progress := ⟨0, [], []⟩

inductive Turn where
  /-- At the end of the buffer, or at bytes that wait for more. -/
  | over
  | on (next : Progress)
  deriving DecidableEq, Repr

/-- One turn of the loop: the piece at the front of what is left. -/
def turn? (buffer : List UInt8) (s : Progress) : Option Turn :=
  if s.place < buffer.length then do
    let left ← slice? buffer s.place buffer.length
    match ← front? left with
    | .unfinished => pure .over
    | .piece key? taken =>
      let piece ← slice? buffer s.place (s.place + taken)
      pure (.on ⟨s.place + taken, s.pieces ++ [piece], s.keys ++ key?.toList⟩)
  else pure .over

/-- Turns the loop until it is over, at most so many times. -/
def loop? (buffer : List UInt8) : Nat → Progress → Option Progress
  | 0, _ => none
  | n + 1, s => do
    match ← turn? buffer s with
    | .over => pure s
    | .on next => loop? buffer n next

/-- The pieces are the bytes before the place, and the keys behind it are still to come. -/
structure Progress.Sound (buffer : List UInt8) (s : Progress) : Prop where
  place_le : s.place ≤ buffer.length
  pieces : s.pieces.flatten = buffer.take s.place
  ne_nil : ∀ piece ∈ s.pieces, piece ≠ []
  keys : decode buffer =
    (s.keys ++ (decode (buffer.drop s.place)).1, (decode (buffer.drop s.place)).2)

/-- What is left gives no key and waits. -/
structure Progress.Over (buffer : List UInt8) (s : Progress) : Prop where
  keys : decode (buffer.drop s.place) = ([], buffer.drop s.place)
  waits : Waits (buffer.drop s.place)

variable {buffer : List UInt8} {s : Progress}

theorem Progress.sound_start (buffer : List UInt8) : Progress.start.Sound buffer :=
  ⟨Nat.zero_le _, rfl, nofun, rfl⟩

theorem slice?_to_end (h : s.place ≤ buffer.length) :
    slice? buffer s.place buffer.length = some (buffer.drop s.place) := by
  rw [slice?_of_le h (Nat.le_refl _), List.take_length]

/-- A verdict that is reached moves the place on, behind the bytes that it uses. -/
theorem Progress.Sound.turn_on (h : s.Sound buffer) (hleft : buffer.drop s.place = b :: rest)
    (hv : verdict b rest ≠ .unfinished) :
    ∃ next : Progress, turn? buffer s = some (.on next) ∧ s.place < next.place ∧
      next.Sound buffer := by
  obtain ⟨key?, hfront, hkeys⟩ := exists_front_eq hv
  have hextra := extra_verdict_le b rest
  have hlength := congrArg List.length hleft
  rw [List.length_drop, List.length_cons] at hlength
  -- The place behind the piece, which is still in the buffer.
  obtain ⟨last, hlast⟩ : ∃ last, last = s.place + ((verdict b rest).extra + 1) := ⟨_, rfl⟩
  have hle : last ≤ buffer.length := by omega
  have hpiece : slice? buffer s.place last = some ((buffer.take last).drop s.place) :=
    slice?_of_le (by omega) hle
  have hdrop : buffer.drop last = rest.drop (verdict b rest).extra := by
    rw [hlast, ← List.drop_drop, hleft, List.drop_succ_cons]
  refine ⟨⟨last, s.pieces ++ [(buffer.take last).drop s.place], s.keys ++ (verdict b rest).keys⟩,
    ?_, by simp only; omega, hle, ?_, ?_, ?_⟩
  · rw [turn?, if_pos (by omega), slice?_to_end h.place_le, hleft, Option.bind_eq_bind,
      Option.bind_some, front?_cons, hfront, Option.bind_eq_bind, Option.bind_some]
    simp only [← hlast, hpiece, hkeys]
    rfl
  · have htake : buffer.take s.place = (buffer.take last).take s.place := by
      rw [List.take_take, Nat.min_eq_left (by omega)]
    rw [List.flatten_append, h.pieces, List.flatten_singleton, htake, List.take_append_drop]
  · intro piece hmem
    rcases List.mem_append.1 hmem with hmem | hmem
    · exact h.ne_nil piece hmem
    · rw [List.mem_singleton.1 hmem, ← List.length_pos_iff, List.length_drop, List.length_take]
      omega
  · rw [h.keys, hleft, decode_of_finished hv, hdrop, List.append_assoc]

/-- A turn ends the loop or moves the place on. -/
theorem Progress.Sound.turn (h : s.Sound buffer) :
    turn? buffer s = some .over ∧ s.Over buffer ∨
      ∃ next : Progress, turn? buffer s = some (.on next) ∧ s.place < next.place ∧
        next.Sound buffer := by
  cases hleft : buffer.drop s.place with
  | nil =>
    have hend : ¬ s.place < buffer.length := Nat.not_lt.2 (List.drop_eq_nil_iff.1 hleft)
    refine Or.inl ⟨by rw [turn?, if_neg hend]; rfl, ?_, ?_⟩
    · rw [hleft, decode]
    · rw [hleft]
      exact Or.inl rfl
  | cons b rest =>
    by_cases hv : verdict b rest = .unfinished
    · have hlt : s.place < buffer.length := by
        have hlength := congrArg List.length hleft
        rw [List.length_drop, List.length_cons] at hlength
        omega
      refine Or.inl ⟨?_, ?_, ?_⟩
      · rw [turn?, if_pos hlt, slice?_to_end h.place_le, hleft, Option.bind_eq_bind,
          Option.bind_some, front?_cons, hv]
        rfl
      · rw [hleft, decode_of_unfinished hv]
      · rw [hleft]
        exact waits_of_unfinished hv
    · exact Or.inr (h.turn_on hleft hv)

/-- The loop is over after no more turns than there are bytes left, and one. -/
theorem Progress.Sound.loop {n : Nat} (h : s.Sound buffer) (hn : buffer.length - s.place < n) :
    ∃ last : Progress, loop? buffer n s = some last ∧ last.Sound buffer ∧ last.Over buffer := by
  induction n generalizing s with
  | zero => exact absurd hn (Nat.not_lt_zero _)
  | succ n ih =>
    rcases h.turn with ⟨hturn, hover⟩ | ⟨next, hturn, hlt, hnext⟩
    · exact ⟨s, by rw [loop?, hturn]; rfl, h, hover⟩
    · obtain ⟨last, hlast, hsound, hover⟩ := ih hnext (by have := hnext.place_le; omega)
      exact ⟨last, by rw [loop?, hturn]; exact hlast, hsound, hover⟩

/-- No access goes beyond the bytes, and every piece takes one byte at least and no more than
there are. The loop over the bytes that waited and those that came ends after no more turns than
there are bytes, and one. It gives the keys. The pieces one after the other and the bytes that
wait are the bytes that there were. And those that wait are none, or the beginning of a
sequence. -/
theorem every_byte_is_taken_once_or_waits :
    (∀ b rest, front? (b :: rest) = some (verdict b rest).front ∧
        ∀ key? taken, front? (b :: rest) = some (.piece key? taken) →
          1 ≤ taken ∧ taken ≤ (b :: rest).length) ∧
      ∀ waiting more, ∃ last : Progress,
        loop? (waiting ++ more) ((waiting ++ more).length + 1) .start = some last ∧
          last.keys = (advance waiting more).1 ∧
          slice? (waiting ++ more) last.place (waiting ++ more).length =
            some (advance waiting more).2 ∧
          last.pieces.flatten ++ (advance waiting more).2 = waiting ++ more ∧
          (∀ piece ∈ last.pieces, piece ≠ []) ∧ Waits (advance waiting more).2 := by
  refine ⟨fun b rest => ⟨front?_cons b rest, fun key? taken => taken_bounds⟩, ?_⟩
  intro waiting more
  obtain ⟨last, hloop, hsound, hover⟩ :=
    (Progress.sound_start (waiting ++ more)).loop (Nat.lt_succ_of_le (Nat.sub_le _ _))
  have hadvance : advance waiting more = (last.keys, (waiting ++ more).drop last.place) := by
    rw [advance, hsound.keys, hover.keys, List.append_nil]
  refine ⟨last, hloop, ?_, ?_, ?_, hsound.ne_nil, ?_⟩
  · rw [hadvance]
  · rw [hadvance, slice?_to_end hsound.place_le]
  · rw [hadvance, hsound.pieces, List.take_append_drop]
  · rw [hadvance]
    exact hover.waits

/-- The beginning of a control sequence has waited. A byte that is out of place ends it after
four bytes, a letter is a key, and the first byte of two waits. -/
theorem a_broken_sequence_and_a_letter_and_a_lead_byte :
    let bytes : List UInt8 := [0x1B, 0x5B, 0x31, 0x80, 0x61, 0xC3]
    (front? bytes = some (.piece none 4) ∧ 1 ≤ 4 ∧ 4 ≤ bytes.length) ∧
      loop? bytes 7 .start =
        some ⟨5, [[0x1B, 0x5B, 0x31, 0x80], [0x61]], [plain (.char 'a')]⟩ ∧
      advance [0x1B, 0x5B] [0x31, 0x80, 0x61, 0xC3] = ([plain (.char 'a')], [0xC3]) ∧
      Waits [0xC3] := by
  intro bytes
  obtain ⟨hfront, hrun⟩ := every_byte_is_taken_once_or_waits
  obtain ⟨last, hloop, hkeys, hleft, -, -, hwaits⟩ := hrun [0x1B, 0x5B] [0x31, 0x80, 0x61, 0xC3]
  have hpiece : front? bytes = some (.piece none 4) := by decide +kernel
  have hlast : loop? bytes 7 .start =
      some ⟨5, [[0x1B, 0x5B, 0x31, 0x80], [0x61]], [plain (.char 'a')]⟩ := by decide +kernel
  obtain rfl := Option.some_inj.1 (hloop.symm.trans hlast)
  have hwaiting : (advance [0x1B, 0x5B] [0x31, 0x80, 0x61, 0xC3]).2 = [0xC3] :=
    Option.some_inj.1 hleft.symm
  rw [hwaiting] at hwaits
  exact ⟨⟨hpiece, (hfront _ _).2 none 4 hpiece⟩, hlast, Prod.ext hkeys.symm hwaiting, hwaits⟩

end Key

end TerminalPanes
