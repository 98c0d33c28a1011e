-- Reading keys one at a time from a source of bytes. Keys come out in the
-- order in which their bytes came in. A failing read changes nothing, and
-- every request ends after finitely many reads.
import TerminalPanes.Key.Decoder

namespace TerminalPanes

/-- Why no byte could be read or written. -/
inductive Fault where
  /-- The sink takes no more. -/
  | sinkFull
  /-- The input has ended. -/
  | inputClosed
  | inputFailed (reason : Text)
  deriving DecidableEq, Repr

def Fault.message : Fault → String
  | .sinkFull => "sink full"
  | .inputClosed => "input closed while waiting for a key"
  | .inputFailed reason => String.ofList reason

/-! ## The reader -/

/-- Keys that are ready, and bytes that wait for more. -/
structure KeyReader where
  waiting : List UInt8
  ready : List Key
  deriving DecidableEq, Repr

namespace KeyReader

def empty : KeyReader := ⟨[], []⟩

/-- Takes the bytes of one read, and at least one. A read brings all that the
terminal sent for a key, so bytes that wait without any key before them are
taken each by itself. -/
def receive (r : KeyReader) (bs : List UInt8) : KeyReader :=
  let (keys, waiting) := Key.advance r.waiting bs
  if keys.isEmpty then ⟨[], r.ready ++ Key.decodeEach waiting⟩
  else ⟨waiting, r.ready ++ keys⟩

/-- Takes the end of the input. What waits is all there will ever be. -/
def close (r : KeyReader) : KeyReader := ⟨[], r.ready ++ Key.decodeEach r.waiting⟩

end KeyReader

/-! ## Scripts -/

/-- What one read brings. No bytes at all mean the end of the input. -/
inductive Read where
  | bytes (bs : List UInt8)
  | failure (reason : Text)
  deriving DecidableEq, Repr

/-- The reads to come. After the last of them the input has ended. -/
abbrev Script := List Read

namespace Script

/-- The most bytes that one read brings. -/
def readMost : Nat := 64

/-- Cuts bytes that come together into reads. What is beyond the most that a
read brings comes with the reads after it. -/
def ofBytes (bs : List UInt8) : Script :=
  if bs.length ≤ readMost then [.bytes bs]
  else .bytes (bs.take readMost) :: ofBytes (bs.drop readMost)
termination_by bs.length
decreasing_by simp only [List.length_drop, readMost] at *; omega

/-- The reads that bring what comes together or fails. -/
def ofChunk : Read → Script
  | .bytes bs => ofBytes bs
  | .failure reason => [.failure reason]

def ofChunks (chunks : List Read) : Script := chunks.flatMap ofChunk

end Script

/-! ## Requests -/

/-- A reader together with the reads to come. -/
structure KeyInput where
  reader : KeyReader
  script : Script
  deriving DecidableEq, Repr

namespace KeyInput

def ofScript (s : Script) : KeyInput := ⟨KeyReader.empty, s⟩

/-- More reads after those to come. -/
def feed (i : KeyInput) (s : Script) : KeyInput := { i with script := i.script ++ s }

/-- Hands out a key that is ready, or says that the input has ended. -/
def takeOrClosed (reader : KeyReader) (script : Script) : Except Fault Key × KeyInput :=
  match reader.ready with
  | key :: keys => (.ok key, ⟨⟨reader.waiting, keys⟩, script⟩)
  | [] => (.error .inputClosed, ⟨reader, script⟩)

/-- The next key. Reads go on until there is one. -/
def readKey : KeyReader → Script → Except Fault Key × KeyInput
  | ⟨waiting, key :: keys⟩, script => (.ok key, ⟨⟨waiting, keys⟩, script⟩)
  | ⟨waiting, []⟩, [] => takeOrClosed (KeyReader.close ⟨waiting, []⟩) []
  | ⟨waiting, []⟩, .failure reason :: later =>
    (.error (.inputFailed reason), ⟨⟨waiting, []⟩, later⟩)
  | ⟨waiting, []⟩, .bytes [] :: later => takeOrClosed (KeyReader.close ⟨waiting, []⟩) later
  | ⟨waiting, []⟩, .bytes (b :: bs) :: later =>
    readKey (KeyReader.receive ⟨waiting, []⟩ (b :: bs)) later

def next (i : KeyInput) : Except Fault Key × KeyInput := readKey i.reader i.script

/-! ## Waiting for an answer -/

/-- How much there is left to read, and how much is left in the reader. -/
def remaining (i : KeyInput) : Nat × Nat :=
  (i.script.length, i.reader.waiting.length + i.reader.ready.length)

theorem takeOrClosed_ok {reader : KeyReader} {script : Script} {key : Key} {later : KeyInput}
    (h : takeOrClosed reader script = (.ok key, later)) :
    reader.ready = key :: later.reader.ready ∧ later.reader.waiting = reader.waiting ∧
      later.script = script := by
  unfold takeOrClosed at h
  split at h
  · next k keys hr =>
    simp only [Prod.mk.injEq, Except.ok.injEq] at h
    obtain ⟨rfl, rfl⟩ := h
    exact ⟨hr, rfl, rfl⟩
  · simp at h

/-- A key that the end of the input brings was waiting byte by byte. -/
theorem close_ok {waiting : List UInt8} {script : Script} {key : Key} {later : KeyInput}
    (h : takeOrClosed (KeyReader.close ⟨waiting, []⟩) script = (.ok key, later)) :
    later.script = script ∧
      later.reader.waiting.length + later.reader.ready.length < waiting.length := by
  obtain ⟨hr, hw, hs⟩ := takeOrClosed_ok h
  refine ⟨hs, ?_⟩
  have hlen : (Key.decodeEach waiting).length ≤ waiting.length := List.length_filterMap_le _ _
  simp only [KeyReader.close, List.nil_append] at hr hw
  rw [hr] at hlen
  rw [hw]
  simp only [List.length_cons, List.length_nil] at hlen ⊢
  omega

/-- A request that ends with a key leaves less to read, or as much to read and
less in the reader. -/
theorem readKey_progress {reader : KeyReader} {script : Script} {key : Key} {later : KeyInput}
    (h : readKey reader script = (.ok key, later)) :
    Prod.Lex (· < ·) (· < ·) later.remaining (remaining ⟨reader, script⟩) := by
  fun_induction readKey reader script with
  | case1 waiting key' keys script =>
    simp only [Prod.mk.injEq, Except.ok.injEq] at h
    obtain ⟨rfl, rfl⟩ := h
    exact Prod.Lex.right _ (by simp)
  | case2 waiting =>
    obtain ⟨hs, hr⟩ := close_ok h
    simp only [remaining, hs]
    exact Prod.Lex.right _ (by simpa using hr)
  | case3 => simp at h
  | case4 waiting later' =>
    obtain ⟨hs, hr⟩ := close_ok h
    exact Prod.Lex.left _ _ (by simp [hs])
  | case5 waiting b bs later' ih =>
    have hlex := ih h
    rcases Prod.lex_def.1 hlex with hl | ⟨hl, _⟩
    · exact Prod.Lex.left _ _ (by simp only [List.length_cons]; simp only [remaining] at hl; omega)
    · exact Prod.Lex.left _ _ (by simp only [List.length_cons]; simp only [remaining] at hl; omega)

/-- The first answer that the keys to come give. Keys that say nothing are
passed over. -/
def await {α : Type} (answer? : Key → Option α) (i : KeyInput) : Except Fault α × KeyInput :=
  match h : readKey i.reader i.script with
  | (.error fault, later) => (.error fault, later)
  | (.ok key, later) =>
    have := readKey_progress h
    match answer? key with
    | some a => (.ok a, later)
    | none => await answer? later
termination_by i.remaining
decreasing_by assumption

end KeyInput

end TerminalPanes
