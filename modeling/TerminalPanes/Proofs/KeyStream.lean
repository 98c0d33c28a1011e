-- The laws of the key stream. A verdict, once reached, stands whatever comes
-- after it, so the bytes of a terminal may be cut anywhere: the keys are the
-- same, and so are the bytes that wait.
import TerminalPanes.Key.Decoder

namespace TerminalPanes.Key

/-! ## What a verdict uses -/

namespace Verdict

/-- The bytes that a verdict uses beyond the first. -/
def extra : Verdict → Nat
  | .key _ n => n
  | .skip n => n
  | .unfinished => 0

/-- The keys that a verdict names: one, or none. -/
def keys : Verdict → List Key
  | .key k _ => [k]
  | .skip _ => []
  | .unfinished => []

end Verdict

theorem extra_controlSequence_le (body : List UInt8) :
    (controlSequence body).extra ≤ body.length + 1 := by
  have hlen : (body.takeWhile isParameter).length + (body.dropWhile isParameter).length =
      body.length := by
    rw [← List.length_append, List.takeWhile_append_dropWhile]
  simp only [controlSequence]
  split
  · exact Nat.zero_le _
  · rename_i b after hb
    rw [hb, List.length_cons] at hlen
    split
    · split <;> simp only [Verdict.extra] <;> omega
    · simp only [Verdict.extra]
      omega

theorem extra_singleShift_le (body : List UInt8) : (singleShift body).extra ≤ body.length + 1 := by
  cases body with
  | nil => exact Nat.zero_le _
  | cons b after =>
    simp only [singleShift, List.length_cons]
    split <;> simp only [Verdict.extra] <;> omega

theorem extra_afterEscape_le (rest : List UInt8) : (afterEscape rest).extra ≤ rest.length := by
  cases rest with
  | nil => exact Nat.zero_le _
  | cons b body =>
    have hc := extra_controlSequence_le body
    have hs := extra_singleShift_le body
    simp only [afterEscape, List.length_cons]
    split
    · exact hc
    · split
      · exact hs
      · repeat' split
        all_goals simp only [Verdict.extra]
        all_goals omega

theorem extra_wideCharacter_le (b : UInt8) (rest : List UInt8) :
    (wideCharacter b rest).extra ≤ rest.length := by
  unfold wideCharacter
  split
  · exact Nat.zero_le _
  · split
    · exact Nat.zero_le _
    · split <;> simp only [Verdict.extra] <;> omega

/-- A verdict uses no more bytes than there are. -/
theorem extra_verdict_le (b : UInt8) (rest : List UInt8) :
    (verdict b rest).extra ≤ rest.length := by
  unfold verdict
  split
  · exact extra_afterEscape_le rest
  · split
    · exact extra_wideCharacter_le b rest
    · split <;> exact Nat.zero_le _

/-! ## A verdict stands -/

theorem controlSequence_append {body : List UInt8} (more : List UInt8)
    (h : controlSequence body ≠ .unfinished) :
    controlSequence (body ++ more) = controlSequence body := by
  have hd : body.dropWhile isParameter ≠ [] := by
    intro hd
    exact h (by simp only [controlSequence, hd])
  obtain ⟨b, after, hb⟩ := List.exists_cons_of_ne_nil hd
  have htake : (body ++ more).takeWhile isParameter = body.takeWhile isParameter := by
    have hsplit := List.takeWhile_append_dropWhile (p := isParameter) (l := body)
    rw [List.takeWhile_append, if_neg]
    intro hlen
    have := congrArg List.length hsplit
    rw [List.length_append, hb, List.length_cons] at this
    omega
  have hdrop : (body ++ more).dropWhile isParameter = b :: (after ++ more) := by
    rw [List.dropWhile_append, hb]
    rfl
  simp only [controlSequence, htake, hdrop, hb]

theorem singleShift_append {body : List UInt8} (more : List UInt8)
    (h : singleShift body ≠ .unfinished) : singleShift (body ++ more) = singleShift body := by
  cases body with
  | nil => exact absurd rfl h
  | cons b after => rfl

theorem afterEscape_append {rest : List UInt8} (more : List UInt8)
    (h : afterEscape rest ≠ .unfinished) : afterEscape (rest ++ more) = afterEscape rest := by
  cases rest with
  | nil => exact absurd rfl h
  | cons b body =>
    simp only [afterEscape, List.cons_append] at h ⊢
    split
    · rename_i hb
      rw [if_pos hb] at h
      exact controlSequence_append more h
    · rename_i hb
      rw [if_neg hb] at h
      split
      · rename_i hs
        rw [if_pos hs] at h
        exact singleShift_append more h
      · rfl

theorem wideCharacter_append {b : UInt8} {rest : List UInt8} (more : List UInt8)
    (h : wideCharacter b rest ≠ .unfinished) :
    wideCharacter b (rest ++ more) = wideCharacter b rest := by
  unfold wideCharacter at h ⊢
  split
  · rfl
  · rename_i n hn
    simp only [hn] at h
    by_cases hlen : rest.length < n - 1
    · rw [if_pos hlen] at h
      exact absurd rfl h
    · have hle : n - 1 ≤ rest.length := by omega
      rw [if_neg hlen, if_neg (by rw [List.length_append]; omega),
        List.take_append_of_le_length hle]

/-- Bytes that come later do not change a verdict. -/
theorem verdict_append {b : UInt8} {rest : List UInt8} (more : List UInt8)
    (h : verdict b rest ≠ .unfinished) : verdict b (rest ++ more) = verdict b rest := by
  unfold verdict at h ⊢
  split
  · rename_i hb
    rw [if_pos hb] at h
    exact afterEscape_append more h
  · rename_i hb
    rw [if_neg hb] at h
    split
    · rename_i hw
      rw [if_pos hw] at h
      exact wideCharacter_append more h
    · rfl

/-! ## One step of the decoder -/

theorem decode_of_unfinished {b : UInt8} {rest : List UInt8} (h : verdict b rest = .unfinished) :
    decode (b :: rest) = ([], b :: rest) := by
  rw [decode, h]

theorem decode_of_finished {b : UInt8} {rest : List UInt8} (h : verdict b rest ≠ .unfinished) :
    decode (b :: rest) =
      ((verdict b rest).keys ++ (decode (rest.drop (verdict b rest).extra)).1,
        (decode (rest.drop (verdict b rest).extra)).2) := by
  rw [decode]
  split
  · contradiction
  · rename_i n hv
    simp only [hv, Verdict.keys, Verdict.extra, List.nil_append]
  · rename_i k n hv
    simp only [hv, Verdict.keys, Verdict.extra, List.singleton_append]

/-- Decoding may stop anywhere and go on with the bytes that wait. -/
theorem decode_append (x y : List UInt8) :
    decode (x ++ y) =
      ((decode x).1 ++ (decode ((decode x).2 ++ y)).1, (decode ((decode x).2 ++ y)).2) := by
  -- Induction on the number of bytes: a finished verdict leaves fewer of them.
  induction hn : x.length using Nat.strongRecOn generalizing x with
  | ind n ih =>
    cases x with
    | nil => simp [decode]
    | cons b rest =>
      by_cases hv : verdict b rest = .unfinished
      · simp [decode_of_unfinished hv]
      · have hstand := verdict_append y hv
        have hle := extra_verdict_le b rest
        have hv' : verdict b (rest ++ y) ≠ .unfinished := by rw [hstand]; exact hv
        have hdrop : (rest ++ y).drop (verdict b rest).extra =
            rest.drop (verdict b rest).extra ++ y := List.drop_append_of_le_length hle
        have hshort : (rest.drop (verdict b rest).extra).length < n := by
          rw [List.length_drop, ← hn, List.length_cons]
          omega
        rw [List.cons_append, decode_of_finished hv', decode_of_finished hv, hstand, hdrop,
          ih _ hshort _ rfl, List.append_assoc]

/-- Nothing is left to decode in the bytes that wait. -/
theorem decode_waiting (x : List UInt8) : decode (decode x).2 = ([], (decode x).2) := by
  have h := decode_append x []
  rw [List.append_nil, List.append_nil] at h
  have hkeys := congrArg (List.length ∘ Prod.fst) h
  simp only [Function.comp, List.length_append] at hkeys
  have hnil : (decode (decode x).2).1 = [] := List.eq_nil_of_length_eq_zero (by omega)
  exact Prod.ext hnil (congrArg Prod.snd h).symm

/-! ## Cuts -/

theorem advance_append (waiting x y : List UInt8) :
    advance waiting (x ++ y) =
      ((advance waiting x).1 ++ (advance (advance waiting x).2 y).1,
        (advance (advance waiting x).2 y).2) := by
  unfold advance
  rw [← List.append_assoc]
  exact decode_append (waiting ++ x) y

theorem advanceAll_cons (waiting piece : List UInt8) (later : List (List UInt8)) :
    advanceAll waiting (piece :: later) =
      ((advance waiting piece).1 ++ (advanceAll (advance waiting piece).2 later).1,
        (advanceAll (advance waiting piece).2 later).2) := rfl

/-- Pieces are as good as their concatenation, once nothing can be decoded in
the bytes that wait. -/
theorem advanceAll_flatten {waiting : List UInt8} (h : decode waiting = ([], waiting))
    (pieces : List (List UInt8)) :
    advanceAll waiting pieces = advance waiting pieces.flatten := by
  induction pieces generalizing waiting with
  | nil => rw [advanceAll, List.flatten_nil, advance, List.append_nil, h]
  | cons piece later ih =>
    have hleft : decode (advance waiting piece).2 = ([], (advance waiting piece).2) :=
      decode_waiting (waiting ++ piece)
    rw [List.flatten_cons, advance_append, advanceAll_cons, ih hleft]

/-- Bytes may be cut anywhere. Pieces that come one by one, empty ones too,
give the keys of all bytes at once and leave the same bytes waiting. And from
any bytes that wait, two reads are as good as one. -/
theorem cuts_do_not_change_the_keys :
    (∀ pieces : List (List UInt8), advanceAll [] pieces = advance [] pieces.flatten) ∧
    ∀ waiting x y : List UInt8,
      advance waiting (x ++ y) =
        ((advance waiting x).1 ++ (advance (advance waiting x).2 y).1,
          (advance (advance waiting x).2 y).2) := by
  have hempty : decode [] = ([], []) := by simp [decode]
  exact ⟨advanceAll_flatten hempty, advance_append⟩

end TerminalPanes.Key
