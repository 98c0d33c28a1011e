-- Grapheme clusters by the tables. The clusters of a text put together are the
-- text, and what comes later never changes a cluster that has ended.
import TerminalPanes.Text.Property

namespace TerminalPanes.Text

/-! ## What the current cluster ends in -/

/-- How far a conjunct of consonants has come. -/
inductive Conjunct where
  | absent
  /-- A consonant, perhaps with marks. -/
  | consonant
  /-- A consonant with a virama among its marks. -/
  | linked
  deriving DecidableEq, Repr

/-- The end of the current cluster, as far as it decides about the next
character. -/
structure ClusterEnd where
  last : BreakClass
  /-- An emoji, perhaps with marks, stands at the end. -/
  pictograph : Bool
  /-- An emoji, perhaps with marks, and one joiner stand at the end. -/
  joined : Bool
  conjunct : Conjunct
  /-- An odd number of flag letters stands at the end. -/
  oddFlags : Bool
  deriving DecidableEq, Repr

namespace ClusterEnd

/-- The end of a cluster of one character. -/
def start (c : Char) : ClusterEnd where
  last := breakClass c
  pictograph := isPictograph c
  joined := false
  conjunct := if isConjunctConsonant c then .consonant else .absent
  oddFlags := breakClass c = .flag

/-- The conjunct after one more character. A mark keeps it, and a virama among
the marks links it. The non-joiner alone ends it. -/
def nextConjunct (s : ClusterEnd) (c : Char) : Conjunct :=
  if isConjunctConsonant c then .consonant
  else if s.conjunct = .absent then .absent
  else if c = virama then .linked
  else if c = '\u200c' then .absent
  else if breakClass c = .extend || breakClass c = .joiner then s.conjunct
  else .absent

/-- The end of the cluster after one more character. -/
def next (s : ClusterEnd) (c : Char) : ClusterEnd where
  last := breakClass c
  pictograph := isPictograph c || (s.pictograph && breakClass c = .extend)
  joined := s.pictograph && breakClass c = .joiner
  conjunct := s.nextConjunct c
  oddFlags := breakClass c = .flag && !s.oddFlags

/-- Whether a new cluster begins with `c`. -/
def breaksBefore (s : ClusterEnd) (c : Char) : Bool :=
  match s.last, breakClass c with
  | .carriageReturn, .lineFeed => false
  | .carriageReturn, _ | .lineFeed, _ | .control, _ => true
  | _, .carriageReturn | _, .lineFeed | _, .control => true
  | .jamoLead, .jamoLead | .jamoLead, .jamoVowel
  | .jamoLead, .openSyllable | .jamoLead, .closedSyllable => false
  | .openSyllable, .jamoVowel | .openSyllable, .jamoTail => false
  | .jamoVowel, .jamoVowel | .jamoVowel, .jamoTail => false
  | .closedSyllable, .jamoTail | .jamoTail, .jamoTail => false
  | _, .extend | _, .joiner | _, .spacing => false
  | .leading, _ => false
  | _, .flag => !s.oddFlags
  | _, _ => !(s.conjunct = .linked && isConjunctConsonant c) && !(s.joined && isPictograph c)

end ClusterEnd

/-! ## Clusters -/

/-- The rest of the current cluster and the clusters after it. -/
def clustersFrom (s : ClusterEnd) : Text → Text × List Text
  | [] => ([], [])
  | c :: rest =>
    if s.breaksBefore c then
      let (own, later) := clustersFrom (ClusterEnd.start c) rest
      ([], (c :: own) :: later)
    else
      let (own, later) := clustersFrom (s.next c) rest
      (c :: own, later)

/-- The clusters of a text, by the tables. -/
def Tables.clusters : Text → List Text
  | [] => []
  | c :: rest =>
    let (own, later) := clustersFrom (ClusterEnd.start c) rest
    (c :: own) :: later

theorem clustersFrom_of_breaksBefore {s : ClusterEnd} {c : Char} (h : s.breaksBefore c = true)
    (t : Text) :
    clustersFrom s (c :: t) =
      ([], (c :: (clustersFrom (.start c) t).1) :: (clustersFrom (.start c) t).2) := by
  rw [clustersFrom, if_pos h]

theorem clustersFrom_of_not_breaksBefore {s : ClusterEnd} {c : Char}
    (h : s.breaksBefore c = false) (t : Text) :
    clustersFrom s (c :: t) =
      (c :: (clustersFrom (s.next c) t).1, (clustersFrom (s.next c) t).2) := by
  rw [clustersFrom, if_neg (by simp [h])]

theorem clustersFrom_flatten (s : ClusterEnd) (t : Text) :
    (clustersFrom s t).1 ++ (clustersFrom s t).2.flatten = t := by
  induction t generalizing s with
  | nil => rfl
  | cons c rest ih =>
    unfold clustersFrom
    split
    · simpa using ih (ClusterEnd.start c)
    · simpa using ih (s.next c)

theorem clustersFrom_take (s : ClusterEnd) (t : Text) (n : Nat) :
    clustersFrom s ((clustersFrom s t).1 ++ ((clustersFrom s t).2.take n).flatten) =
      ((clustersFrom s t).1, (clustersFrom s t).2.take n) := by
  induction t generalizing s n with
  | nil => simp [clustersFrom]
  | cons c rest ih =>
    cases hbreak : s.breaksBefore c with
    | false =>
      simp only [clustersFrom_of_not_breaksBefore hbreak, List.cons_append, ih]
    | true =>
      rw [clustersFrom_of_breaksBefore hbreak]
      cases n with
      | zero => rfl
      | succ n =>
        simp only [List.take_succ_cons, List.flatten_cons, List.nil_append, List.cons_append]
        rw [clustersFrom_of_breaksBefore hbreak, ih]

namespace Tables

/-- Right after a line end a new cluster begins, whatever comes. -/
theorem clustersFrom_start_newline (t : Text) :
    clustersFrom (.start '\n') t = ([], clusters t) := by
  cases t with
  | nil => rfl
  | cons c rest =>
    have hbreak : (ClusterEnd.start '\n').breaksBefore c = true := by
      have hlast : (ClusterEnd.start '\n').last = .lineFeed := by decide
      rw [ClusterEnd.breaksBefore, hlast]
    exact clustersFrom_of_breaksBefore hbreak rest

theorem clusters_flatten (t : Text) : (clusters t).flatten = t := by
  have h := clustersFrom_flatten (.start '\n') t
  rw [clustersFrom_start_newline] at h
  exact h

/-- The first clusters of a text are the clusters of what they put together. -/
theorem clusters_front (t : Text) (n : Nat) :
    clusters ((clusters t).take n).flatten = (clusters t).take n := by
  have h := clustersFrom_take (.start '\n') t n
  simp only [clustersFrom_start_newline, List.nil_append] at h
  exact congrArg Prod.snd h

end Tables

end TerminalPanes.Text
