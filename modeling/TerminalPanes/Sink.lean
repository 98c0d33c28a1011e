-- Where a terminal's output goes. A sink takes whole emissions until a limit
-- of bytes is reached. The emission that goes beyond the limit is cut at it,
-- in the middle of a character if need be, and refused.
import TerminalPanes.Escape.Basic
import TerminalPanes.Text.Utf8

namespace TerminalPanes

/-- What is sent at once and then flushed. -/
inductive Emission where
  | control (sequence : Sequence)
  /-- Text to be seen. -/
  | text (t : Text)
  /-- Characters that the terminal is to take for a control sequence. -/
  | raw (t : Text)
  deriving DecidableEq, Repr

namespace Emission

def chars : Emission → Text
  | .control s => s.write
  | .text t => t
  | .raw t => t

def bytes (e : Emission) : List UInt8 := Text.bytes e.chars

end Emission

structure Sink where
  /-- The emissions taken in full, the newest first. -/
  sent : List Emission
  /-- The bytes taken of emissions that were refused. -/
  cut : List UInt8
  /-- The bytes that can still be taken, if there is a limit. -/
  room : Option Nat
  deriving DecidableEq, Repr

namespace Sink

/-- A sink that has taken nothing yet. -/
def ofLimit (limit : Option Nat) : Sink := ⟨[], [], limit⟩

def unlimited : Sink := ofLimit none

/-- What is left of a limit after an emission, if it stays within. -/
def roomAfter? (room : Option Nat) (e : Emission) : Option (Option Nat) :=
  match room with
  | none => some none
  | some n => if e.bytes.length ≤ n then some (some (n - e.bytes.length)) else none

/-- Offers an emission. The answer tells whether it was taken in full. -/
def offer (s : Sink) (e : Emission) : Bool × Sink :=
  match roomAfter? s.room e with
  | some room => (true, { s with sent := e :: s.sent, room := room })
  | none =>
    (false, { s with cut := s.cut ++ e.bytes.take (s.room.getD 0), room := some 0 })

/-- Every emission that was taken in full is followed by a flush. -/
def flushes (s : Sink) : Nat := s.sent.length

/-- The emissions taken in full, in order. -/
def emissions (s : Sink) : List Emission := s.sent.reverse

/-- The bytes taken so far. Once an emission was cut only empty ones are taken
in full, so the cut bytes are the last. -/
def bytes (s : Sink) : List UInt8 := s.emissions.flatMap Emission.bytes ++ s.cut

/-- The bytes that a later state of a sink has taken beyond this one. -/
def bytesSince (before after : Sink) : List UInt8 :=
  (after.sent.take (after.flushes - before.flushes)).reverse.flatMap Emission.bytes
    ++ after.cut.drop before.cut.length

end Sink

end TerminalPanes
