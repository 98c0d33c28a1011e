-- The laws of reading keys one at a time. The answers to requests are what the
-- reads bring, in their order, whenever the requests come. So encoded keys
-- come out as they went in, however long they are, a failing read costs one
-- request and no key, and every request is answered.
import TerminalPanes.Proofs.KeyEncoding
import TerminalPanes.Key.Reader

namespace TerminalPanes

/-! ## The loop of a request -/

namespace KeyInput

/-- The reader takes the end of the input. It answers if nothing was waiting
that is a key by itself. -/
def closed (waiting : List UInt8) (later : Script) : Option (Except Fault Key) × KeyInput :=
  match Key.decodeEach waiting with
  | [] => (some (.error .inputClosed), ⟨KeyReader.empty, later⟩)
  | keys => (none, ⟨⟨[], keys⟩, later⟩)

/-- One turn of the loop: a key that is ready is the answer, and otherwise one
read is made, after the last of which the input has ended. -/
def turn : KeyInput → Option (Except Fault Key) × KeyInput
  | ⟨⟨waiting, key :: keys⟩, script⟩ => (some (.ok key), ⟨⟨waiting, keys⟩, script⟩)
  | ⟨⟨waiting, []⟩, []⟩ => closed waiting []
  | ⟨⟨waiting, []⟩, .failure reason :: later⟩ =>
    (some (.error (.inputFailed reason)), ⟨⟨waiting, []⟩, later⟩)
  | ⟨⟨waiting, []⟩, .bytes [] :: later⟩ => closed waiting later
  | ⟨⟨waiting, []⟩, .bytes (b :: bs) :: later⟩ =>
    (none, ⟨KeyReader.receive ⟨waiting, []⟩ (b :: bs), later⟩)

/-- Turns the loop until there is an answer, at most so many times. -/
def loop : Nat → KeyInput → Option (Except Fault Key × KeyInput)
  | 0, _ => none
  | n + 1, i =>
    match i.turn with
    | (some answer, left) => some (answer, left)
    | (none, left) => loop n left

theorem loop_of_ready (n : Nat) (waiting : List UInt8) (key : Key) (keys : List Key)
    (script : Script) :
    loop (n + 1) ⟨⟨waiting, key :: keys⟩, script⟩ = some (.ok key, ⟨⟨waiting, keys⟩, script⟩) := rfl

/-- The end of the input is answered at once or in the turn after. -/
theorem loop_closed (n : Nat) (waiting : List UInt8) (later : Script) :
    (match closed waiting later with
      | (some answer, left) => some (answer, left)
      | (none, left) => loop (n + 1) left) =
      some (takeOrClosed (KeyReader.close ⟨waiting, []⟩) later) := by
  unfold closed takeOrClosed KeyReader.close
  cases Key.decodeEach waiting with
  | nil => rfl
  | cons key keys => rfl

/-- The loop ends, after no more turns than there are reads and two. -/
theorem loop_eq_next (i : KeyInput) : i.loop (i.script.length + 2) = some i.next := by
  obtain ⟨⟨waiting, ready⟩, script⟩ := i
  induction script generalizing waiting ready with
  | nil =>
    cases ready with
    | nil => exact loop_closed 0 waiting []
    | cons key keys => exact loop_of_ready _ waiting key keys []
  | cons read later ih =>
    cases ready with
    | cons key keys => exact loop_of_ready _ waiting key keys _
    | nil =>
      cases read with
      | failure reason => rfl
      | bytes bs =>
        cases bs with
        | nil => exact loop_closed (later.length + 1) waiting later
        | cons b bs => exact ih _ _

/-! ## What reads bring -/

/-- The answers to so many requests, one after the other. -/
def requests : Nat → KeyInput → List (Except Fault Key)
  | 0, _ => []
  | n + 1, i => i.next.1 :: requests n i.next.2

end KeyInput

namespace Script

/-- What the end of the input brings while bytes wait. -/
def bringEnd (waiting : List UInt8) : List (Except Fault Key) :=
  match Key.decodeEach waiting with
  | [] => [.error .inputClosed]
  | keys => keys.map .ok

/-- What one read brings to a reader with nothing ready: the answers to the
requests that come, and the bytes that wait then. -/
def bring (waiting : List UInt8) : Read → List (Except Fault Key) × List UInt8
  | .failure reason => ([.error (.inputFailed reason)], waiting)
  | .bytes [] => (bringEnd waiting, [])
  | .bytes (b :: bs) =>
    let r := KeyReader.receive ⟨waiting, []⟩ (b :: bs)
    (r.ready.map .ok, r.waiting)

/-- What reads bring one after the other. -/
def bringAll (waiting : List UInt8) : Script → List (Except Fault Key) × List UInt8
  | [] => ([], waiting)
  | read :: later =>
    let (answers, left) := bring waiting read
    let (more, left) := bringAll left later
    (answers ++ more, left)

theorem bringAll_append (waiting : List UInt8) (s t : Script) :
    bringAll waiting (s ++ t) =
      ((bringAll waiting s).1 ++ (bringAll (bringAll waiting s).2 t).1,
        (bringAll (bringAll waiting s).2 t).2) := by
  induction s generalizing waiting with
  | nil => rfl
  | cons read later ih => simp [bringAll, ih]

/-- Reads of no bytes, which bring the end of the input again and again. -/
def ending (n : Nat) : Script := List.replicate n (.bytes [])

theorem bringAll_ending (n : Nat) :
    bringAll [] (ending n) = (List.replicate n (.error .inputClosed), []) := by
  induction n with
  | zero => rfl
  | succ n ih =>
    change bringAll [] (.bytes [] :: ending n) = _
    simp [bringAll, bring, bringEnd, Key.decodeEach, ih, List.replicate_succ]

end Script

namespace KeyInput

open Script

/-- The answers to requests are what the reads bring, whenever the requests
come. The input ends again and again, at least once for each request. -/
theorem requests_eq_take {n m : Nat} (h : n ≤ m) (i : KeyInput) :
    i.requests n = (i.reader.ready.map Except.ok ++
      (bringAll i.reader.waiting (i.script ++ ending m)).1).take n := by
  induction n generalizing m i with
  | zero => rfl
  | succ n ih =>
    -- The end of the input is taken, be it one of the reads or after the last of them.
    have hclose : ∀ (waiting : List UInt8) (later : Script) {m : Nat}, n ≤ m →
        (takeOrClosed (KeyReader.close ⟨waiting, []⟩) later).1 ::
            requests n (takeOrClosed (KeyReader.close ⟨waiting, []⟩) later).2 =
          (bringEnd waiting ++ (bringAll [] (later ++ ending m)).1).take (n + 1) := by
      intro waiting later m hm
      unfold takeOrClosed KeyReader.close bringEnd
      cases Key.decodeEach waiting with
      | nil => exact congrArg (List.cons _) (ih hm ⟨⟨[], []⟩, later⟩)
      | cons key keys => exact congrArg (List.cons _) (ih hm ⟨⟨[], keys⟩, later⟩)
    obtain ⟨⟨waiting, ready⟩, script⟩ := i
    induction script generalizing waiting ready with
    | nil =>
      cases ready with
      | cons key keys =>
        exact congrArg (List.cons _) (ih (Nat.le_of_succ_le h) ⟨⟨waiting, keys⟩, []⟩)
      | nil =>
        cases m with
        | zero => exact absurd h (Nat.not_succ_le_zero n)
        | succ m => exact hclose waiting [] (Nat.le_of_succ_le_succ h)
    | cons read later ihscript =>
      cases ready with
      | cons key keys =>
        exact congrArg (List.cons _) (ih (Nat.le_of_succ_le h) ⟨⟨waiting, keys⟩, read :: later⟩)
      | nil =>
        cases read with
        | failure reason =>
          exact congrArg (List.cons _) (ih (Nat.le_of_succ_le h) ⟨⟨waiting, []⟩, later⟩)
        | bytes bs =>
          cases bs with
          | nil => exact hclose waiting later (Nat.le_of_succ_le h)
          | cons b bs => exact ihscript _ _

end KeyInput

/-! ## Encodings in reads -/

namespace Key

theorem length_digits_le {n : Nat} (h : n ≤ 24) : (digits n).length ≤ 2 := by
  have hall : ∀ n < 25, (digits n).length ≤ 2 := by decide
  exact hall n (Nat.lt_succ_of_le h)

/-- The longest encoding fits a read many times. -/
theorem Encodes.length_le {key : Key} {bs : List UInt8} (h : Encodes key bs) :
    bs.length ≤ Script.readMost := by
  have hsequence : ∀ (ps : List Nat) (final : Char), (writeParameters ps).length ≤ 5 →
      (sequence ps final).length ≤ Script.readMost := by
    intro ps final hps
    simp only [sequence, List.length_cons, List.length_append, List.length_nil, Script.readMost]
    omega
  have htwo : ∀ {n : Nat} (m : Modifiers), n ≤ 24 →
      (writeParameters [n, 1 + m.mask]).length ≤ 5 := by
    intro n m hn
    have hfirst := length_digits_le hn
    have hsecond := length_digits_le (n := 1 + m.mask) (by have := mask_le m; omega)
    simp [writeParameters]
    omega
  cases h with
  | @wide c h =>
    rw [String.length_utf8EncodeChar]
    exact Nat.le_trans c.utf8Size_le_four (by decide)
  | final h => exact hsequence [] _ (by decide)
  | finalWith h m => exact hsequence _ _ (htwo m (by decide))
  | number h =>
    refine hsequence _ _ ?_
    have hdigits := length_digits_le (le_of_mem_numbers h)
    simp [writeParameters]
    omega
  | numberWith h m => exact hsequence _ _ (htwo m (le_of_mem_numbers h))
  | backTab => exact hsequence [] _ (by decide)
  | _ => simp [Script.readMost]

end Key

namespace Script

open Key

/-- What a terminal sends at once: the escape byte by itself, or encodings of
some keys. -/
inductive Chunk : List Key → List UInt8 → Prop where
  | escape : Chunk [plain .escape] [esc]
  | encoded {sent : List (Key × List UInt8)} (hne : sent ≠ []) (h : ∀ s ∈ sent, Encodes s.1 s.2) :
    Chunk (sent.map Prod.fst) (sent.flatMap Prod.snd)

/-- A read that finishes a key brings the finished keys and leaves the others waiting. -/
theorem bring_bytes {waiting bs left : List UInt8} {key : Key} {keys : List Key} (hne : bs ≠ [])
    (h : advance waiting bs = (key :: keys, left)) :
    bring waiting (.bytes bs) = ((key :: keys).map .ok, left) := by
  obtain ⟨b, rest, rfl⟩ := List.exists_cons_of_ne_nil hne
  simp [bring, KeyReader.receive, h]

/-- A piece of encodings that is as long as a read, or the last one, finishes a
key. What waits after it begins the encodings that are left. -/
theorem advance_piece {sent : List (Key × List UInt8)} (hsent : ∀ s ∈ sent, Encodes s.1 s.2)
    {waiting piece after : List UInt8} (hne : piece ≠ [])
    (hlong : readMost ≤ piece.length ∨ after = [])
    (h : waiting ++ piece ++ after = sent.flatMap Prod.snd) :
    ∃ s given later left, sent = s :: given ++ later ∧
      advance waiting piece = ((s :: given).map Prod.fst, left) ∧
      left ++ after = later.flatMap Prod.snd ∧ (after = [] → later = []) := by
  obtain ⟨given, later, left, rfl, hdecode, hleft, hshort⟩ := decode_front hsent h
  have hlast : after = [] → later = [] := by
    rintro rfl
    rw [List.append_nil] at hleft
    exact eq_nil_of_short hleft hshort
  cases given with
  | cons s given => exact ⟨s, given, later, left, rfl, hdecode, hleft, hlast⟩
  | nil =>
    -- Without a finished key all that came is less than one encoding.
    exfalso
    rw [List.nil_append] at h
    obtain rfl : left = waiting ++ piece := List.append_cancel_right (hleft.trans h.symm)
    cases later with
    | nil =>
      have hnil := congrArg List.length h
      have hpos := List.length_pos_iff.2 hne
      simp only [List.length_append, List.flatMap_nil, List.length_nil] at hnil
      omega
    | cons s rest =>
      have hone := hshort s rfl
      have hmost := (hsent s List.mem_cons_self).length_le
      rw [List.length_append] at hone
      rcases hlong with hlong | hlong
      · omega
      · exact absurd (hlast hlong) (by simp)

/-- The rest of a chunk brings the rest of its keys, though a read may end
within an encoding. -/
theorem bringAll_rest {sent : List (Key × List UInt8)} (hsent : ∀ s ∈ sent, Encodes s.1 s.2)
    {waiting rest : List UInt8} (hne : rest ≠ []) (h : waiting ++ rest = sent.flatMap Prod.snd) :
    bringAll waiting (ofBytes rest) = (sent.map fun s => .ok s.1, []) := by
  -- Induction along the reads that the rest is cut into.
  fun_induction ofBytes rest generalizing sent waiting with
  | case1 rest hshort =>
    obtain ⟨s, given, later, left, rfl, hadvance, hleft, hlast⟩ :=
      advance_piece hsent hne (Or.inr rfl) (by rw [List.append_nil]; exact h)
    obtain rfl := hlast rfl
    rw [List.append_nil] at hleft
    subst hleft
    simp [bringAll, bring_bytes hne hadvance]
  | case2 rest hlong ih =>
    have htake : rest.take readMost ≠ [] := by
      simp [hne, readMost]
    have hdrop : rest.drop readMost ≠ [] := by
      simpa using hlong
    obtain ⟨s, given, later, left, rfl, hadvance, hleft, -⟩ :=
      @advance_piece _ hsent waiting _ (rest.drop readMost) htake
        (Or.inl (by rw [List.length_take]; omega))
        (by rw [List.append_assoc, List.take_append_drop]; exact h)
    have hlater : ∀ s ∈ later, Encodes s.1 s.2 := fun s hs => hsent s (List.mem_append_right _ hs)
    simp [bringAll, bring_bytes htake hadvance, ih hlater hdrop hleft]

/-- A chunk brings its keys to a reader on which nothing waits, and then nothing
waits again. -/
theorem bringAll_chunk {keys : List Key} {bs : List UInt8} (h : Chunk keys bs) :
    bringAll [] (ofBytes bs) = (keys.map .ok, []) := by
  cases h with
  | escape =>
    have hwait : advance [] [esc] = ([], [esc]) := decode_of_unfinished rfl
    have hflush : decodeEach [esc] = [plain .escape] := by decide
    simp [ofBytes, readMost, bringAll, bring, KeyReader.receive, hwait, hflush]
  | @encoded sent hne hsent =>
    have hbytes : sent.flatMap Prod.snd ≠ [] := by
      obtain ⟨s, rest, rfl⟩ := List.exists_cons_of_ne_nil hne
      obtain ⟨b, tail, hb, -⟩ := (hsent s List.mem_cons_self).verdict
      simp [hb]
    rw [bringAll_rest hsent hbytes rfl, List.map_map]
    rfl

theorem bringAll_chunks {chunks : List (List Key × List UInt8)}
    (h : ∀ c ∈ chunks, Chunk c.1 c.2) :
    bringAll [] (ofChunks (chunks.map fun c => .bytes c.2)) =
      ((chunks.flatMap Prod.fst).map .ok, []) := by
  induction chunks with
  | nil => rfl
  | cons c rest ih =>
    obtain ⟨hc, hrest⟩ := List.forall_mem_cons.1 h
    change bringAll [] (ofBytes c.2 ++ ofChunks (rest.map fun c => .bytes c.2)) = _
    rw [bringAll_append, bringAll_chunk hc, ih hrest, List.flatMap_cons, List.map_append]

/-! ## Failing reads -/

/-- A list with elements put in here and there, in order. -/
inductive Inserted {α β : Type} (f : α → β) : List α → List β → List β → Prop where
  | nil : Inserted f [] [] []
  | keep {extra : List α} {old new : List β} (b : β) :
    Inserted f extra old new → Inserted f extra (b :: old) (b :: new)
  | insert {extra : List α} {old new : List β} (a : α) :
    Inserted f extra old new → Inserted f (a :: extra) old (f a :: new)

namespace Inserted

variable {α β γ : Type} {f : α → β} {extra : List α} {old new : List β}

theorem refl (l : List β) : Inserted f [] l l := by
  induction l with
  | nil => exact .nil
  | cons b rest ih => exact .keep b ih

/-- The same elements may go on in front and behind. -/
theorem append_left (l : List β) (h : Inserted f extra old new) :
    Inserted f extra (l ++ old) (l ++ new) := by
  induction l with
  | nil => exact h
  | cons b rest ih => exact .keep b ih

theorem append_right (l : List β) (h : Inserted f extra old new) :
    Inserted f extra (old ++ l) (new ++ l) := by
  induction h with
  | nil => exact refl l
  | keep b _ ih => exact .keep b ih
  | insert a _ ih => exact .insert a ih

/-- A beginning of the old list is found in a beginning of the new one. -/
theorem take (h : Inserted f extra old new) (n : Nat) :
    ∃ m ≤ extra.length, Inserted f (extra.take m) (old.take n) (new.take (n + m)) := by
  induction h generalizing n with
  | nil => exact ⟨0, by simp, by simpa using .nil⟩
  | keep b _ ih =>
    cases n with
    | zero => exact ⟨0, by simp, by simpa using .nil⟩
    | succ n =>
      obtain ⟨m, hm, hn⟩ := ih n
      refine ⟨m, hm, ?_⟩
      rw [Nat.add_right_comm]
      exact .keep b hn
  | insert a _ ih =>
    obtain ⟨m, hm, hn⟩ := ih n
    exact ⟨m + 1, Nat.succ_le_succ hm, .insert a hn⟩

theorem filterMap_eq {g : β → Option γ} (hg : ∀ a, g (f a) = none) (h : Inserted f extra old new) :
    new.filterMap g = old.filterMap g := by
  induction h with
  | nil => rfl
  | keep b _ ih => simp [List.filterMap_cons, ih]
  | insert a _ ih => simp [hg a, ih]

end Inserted

/-- What a failing read brings. -/
def failed (reason : Text) : Except Fault Key := .error (.inputFailed reason)

theorem ofChunks_append (a b : List Read) : ofChunks (a ++ b) = ofChunks a ++ ofChunks b :=
  List.flatMap_append

/-- A failing read brings its error and leaves everything else as it is. -/
theorem bringAll_failure (waiting : List UInt8) (reason : Text) (later : List Read) :
    bringAll waiting (ofChunks (.failure reason :: later)) =
      (failed reason :: (bringAll waiting (ofChunks later)).1,
        (bringAll waiting (ofChunks later)).2) := rfl

/-- Failing reads put in bring their errors where they stand, and the other reads
bring what they brought. -/
theorem bringAll_inserted {reasons : List Text} {old new : List Read}
    (h : Inserted Read.failure reasons old new) (waiting : List UInt8) :
    Inserted failed reasons (bringAll waiting (ofChunks old)).1
        (bringAll waiting (ofChunks new)).1 ∧
      (bringAll waiting (ofChunks new)).2 = (bringAll waiting (ofChunks old)).2 := by
  induction h generalizing waiting with
  | nil => exact ⟨.nil, rfl⟩
  | @keep _ old new chunk _ ih =>
    obtain ⟨hanswers, hleft⟩ := ih (bringAll waiting (ofChunk chunk)).2
    change Inserted failed _ (bringAll waiting (ofChunk chunk ++ ofChunks old)).1
        (bringAll waiting (ofChunk chunk ++ ofChunks new)).1 ∧ _
    have hkeep := hanswers.append_left (bringAll waiting (ofChunk chunk)).1
    refine ⟨?_, ?_⟩
    · rw [bringAll_append, bringAll_append]
      exact hkeep
    · change (bringAll waiting (ofChunk chunk ++ ofChunks new)).2 =
        (bringAll waiting (ofChunk chunk ++ ofChunks old)).2
      rw [bringAll_append, bringAll_append]
      exact hleft
  | insert reason _ ih =>
    obtain ⟨hanswers, hleft⟩ := ih waiting
    rw [bringAll_failure]
    exact ⟨.insert reason hanswers, hleft⟩

theorem take_insertIdx_take {α : Type} (l : List α) (n k : Nat) (a : α) :
    ((l.take n).insertIdx k a).take n = (l.insertIdx k a).take n := by
  induction l generalizing n k with
  | nil => simp
  | cons b rest ih =>
    cases n with
    | zero => simp
    | succ n =>
      cases k with
      | zero =>
        cases n with
        | zero => rfl
        | succ n => simp [List.take_take]
      | succ k => simp [ih]

theorem insertIdx_length_append {α : Type} (before later : List α) (a : α) :
    (before ++ later).insertIdx before.length a = before ++ a :: later := by
  induction before with
  | nil => rfl
  | cons b rest ih => simp [ih]

end Script

namespace KeyInput

open Script

/-- A reader at the beginning, and what is sent and fails to come. -/
def opened (chunks : List Read) : KeyInput := ofScript (ofChunks chunks)

theorem requests_opened {n m : Nat} (h : n ≤ m) (chunks : List Read) :
    (opened chunks).requests n = (bringAll [] (ofChunks chunks ++ ending m)).1.take n :=
  requests_eq_take h (opened chunks)

/-- Requests give the keys that were sent, in order, and then the end of the
input again and again. A failing read between any chunks puts its error after what the
reads before it bring, so any number of them leave the keys and their order as they are. And
the loop of every request ends. -/
theorem keys_are_read_as_they_were_sent :
    (∀ chunks : List (List Key × List UInt8), (∀ c ∈ chunks, Chunk c.1 c.2) → ∀ n,
      (opened (chunks.map fun c => .bytes c.2)).requests n =
        ((chunks.flatMap Prod.fst).map Except.ok ++
          List.replicate n (Except.error Fault.inputClosed)).take n) ∧
    (∀ (before later : List Read) (reason : Text) (n : Nat),
      (opened (before ++ .failure reason :: later)).requests n =
        (((opened (before ++ later)).requests n).insertIdx
          (bringAll [] (ofChunks before)).1.length (failed reason)).take n) ∧
    (∀ (reasons : List Text) (old new : List Read), Inserted .failure reasons old new →
      ∀ n, ∃ m ≤ reasons.length,
        Inserted failed (reasons.take m) ((opened old).requests n) ((opened new).requests (n + m)) ∧
        ((opened new).requests (n + m)).filterMap Except.toOption =
          ((opened old).requests n).filterMap Except.toOption) ∧
    ∀ i : KeyInput, i.loop (i.script.length + 2) = some i.next := by
  refine ⟨?_, ?_, ?_, loop_eq_next⟩
  · intro chunks hchunks n
    rw [requests_opened (Nat.le_refl n), bringAll_append, bringAll_chunks hchunks, bringAll_ending]
  · intro before later reason n
    rw [requests_opened (Nat.le_refl n), requests_opened (Nat.le_refl n), take_insertIdx_take]
    rw [ofChunks_append, ofChunks_append, List.append_assoc, List.append_assoc]
    rw [bringAll_append [] (ofChunks before), bringAll_append [] (ofChunks before)]
    rw [insertIdx_length_append]
    rfl
  · intro reasons old new h n
    have hall : Inserted failed reasons
        (bringAll [] (ofChunks old ++ ending (n + reasons.length))).1
        (bringAll [] (ofChunks new ++ ending (n + reasons.length))).1 := by
      obtain ⟨hanswers, hleft⟩ := bringAll_inserted h []
      rw [bringAll_append, bringAll_append, hleft]
      exact hanswers.append_right _
    obtain ⟨m, hm, hn⟩ := hall.take n
    rw [← requests_opened (Nat.le_add_right n _)] at hn
    rw [← requests_opened (Nat.add_le_add_left hm n)] at hn
    exact ⟨m, hm, hn, hn.filterMap_eq fun _ => rfl⟩

/-- A chunk that is longer than a read and is cut within a character, a bare
escape, a failing read and an arrow. -/
theorem a_long_chunk_an_escape_and_an_arrow :
    (opened [.bytes (0x61 :: (List.replicate 32 [0xC3, 0xA9]).flatten), .bytes [0x1B],
        .failure ['x'], .bytes [0x1B, 0x5B, 0x41]]).requests 37 =
      (Key.plain (.char 'a') :: List.replicate 32 (Key.plain (.char 'é')) ++
          [Key.plain .escape]).map Except.ok ++
        [failed ['x'], .ok (Key.plain .up), .error .inputClosed] := by
  obtain ⟨hkeys, hfailing, -⟩ := keys_are_read_as_they_were_sent
  have hlong : Chunk (Key.plain (.char 'a') :: List.replicate 32 (Key.plain (.char 'é')))
      (0x61 :: (List.replicate 32 [0xC3, 0xA9]).flatten) := by
    refine @Chunk.encoded ((Key.plain (.char 'a'), [0x61]) ::
      List.replicate 32 (Key.plain (.char 'é'), [0xC3, 0xA9])) (by simp) ?_
    have hfirst : Key.Encodes (Key.plain (.char 'a')) [0x61] :=
      .printable (c := 'a') (by decide) (by decide)
    have hother : Key.Encodes (Key.plain (.char 'é')) [0xC3, 0xA9] := .wide (c := 'é') (by decide)
    simp only [List.forall_mem_cons, List.mem_replicate]
    exact ⟨hfirst, fun s hs => hs.2 ▸ hother⟩
  have harrow : Chunk [Key.plain .up] [0x1B, 0x5B, 0x41] := by
    refine @Chunk.encoded [(Key.plain .up, [0x1B, 0x5B, 0x41])] (by simp) ?_
    exact List.forall_mem_singleton.2 (.final (c := 'A') (by decide))
  have hbefore : bringAll [] (ofChunks [.bytes (0x61 :: (List.replicate 32 [0xC3, 0xA9]).flatten),
      .bytes [0x1B]]) = _ := @bringAll_chunks [(_, _), (_, _)]
    (List.forall_mem_cons.2 ⟨hlong, List.forall_mem_singleton.2 .escape⟩)
  have hwhole : (opened ([.bytes (0x61 :: (List.replicate 32 [0xC3, 0xA9]).flatten),
      .bytes [0x1B]] ++ [.bytes [0x1B, 0x5B, 0x41]])).requests 37 = _ :=
    hkeys [(_, _), (_, _), (_, _)] (List.forall_mem_cons.2 ⟨hlong, List.forall_mem_cons.2
      ⟨.escape, List.forall_mem_singleton.2 harrow⟩⟩) 37
  have h := hfailing [.bytes (0x61 :: (List.replicate 32 [0xC3, 0xA9]).flatten), .bytes [0x1B]]
    [.bytes [0x1B, 0x5B, 0x41]] ['x'] 37
  rw [hwhole, hbefore] at h
  exact h.trans rfl

end KeyInput

end TerminalPanes
