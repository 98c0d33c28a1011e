-- Questions and the keys that answer them. A question can be read wherever its
-- message can, since what stands behind the message begins as text of its last
-- section. The keys that come after it are taken one by one up to the first that
-- says yes or no. The letters say so whatever is held with them.
import TerminalPanes.Proofs.KeyReading
import TerminalPanes.Proofs.MarkupGrammar
import TerminalPanes.Proofs.ShowcaseScreen
import TerminalPanes.Proofs.WrittenLines
import TerminalPanes.Text.Tables

namespace TerminalPanes

/-! ## Questions that can be read -/

namespace Markup

end Markup

/-! ## Keys that answer -/

namespace Key

end Key

/-! ## Waiting for an answer -/

namespace KeyInput

/-- Keys are taken up to the first to which the rule gives an answer. What comes of it is
that key with its answer, or the error of the request that brought no key, and the keys
left then. -/
inductive Decides (rule : Key → Bool → Prop) :
    KeyInput → Except Fault (Key × Bool) → KeyInput → Prop where
  | answered {i later : KeyInput} {key : Key} {b : Bool} :
    i.next = (.ok key, later) → rule key b → Decides rule i (.ok (key, b)) later
  | passed {i j later : KeyInput} {key : Key} {r : Except Fault (Key × Bool)} :
    i.next = (.ok key, j) → (∀ b, ¬ rule key b) → Decides rule j r later → Decides rule i r later
  | failed {i later : KeyInput} {f : Fault} :
    i.next = (.error f, later) → Decides rule i (.error f) later

variable {rule : Key → Bool → Prop} {i later later' : KeyInput}
variable {r r' : Except Fault (Key × Bool)} {key : Key} {b : Bool}

/-- Behind a key that says nothing the same is decided. -/
theorem Decides.behind {j : KeyInput} (h : Decides rule i r later) (hnext : i.next = (.ok key, j))
    (hnone : ∀ b, ¬ rule key b) : Decides rule j r later := by
  cases h with
  | answered hnext' hb =>
    cases hnext.symm.trans hnext'
    exact absurd hb (hnone _)
  | passed hnext' _ hrest =>
    cases hnext.symm.trans hnext'
    exact hrest
  | failed hnext' => cases hnext.symm.trans hnext'

/-- A rule with one answer for each key decides in one way. -/
theorem Decides.unique (hrule : ∀ key b b', rule key b → rule key b' → b = b')
    (h : Decides rule i r later) (h' : Decides rule i r' later') : r' = r ∧ later' = later := by
  induction h with
  | answered hnext hb =>
    cases h' with
    | answered hnext' hb' =>
      cases hnext.symm.trans hnext'
      rw [hrule _ _ _ hb hb']
      exact ⟨rfl, rfl⟩
    | passed hnext' hnone _ =>
      cases hnext.symm.trans hnext'
      exact absurd hb (hnone _)
    | failed hnext' => cases hnext.symm.trans hnext'
  | passed hnext hnone _ ih => exact ih (h'.behind hnext hnone)
  | failed hnext =>
    cases h' with
    | answered hnext' _ => cases hnext.symm.trans hnext'
    | passed hnext' _ _ => cases hnext.symm.trans hnext'
    | failed hnext' =>
      cases hnext.symm.trans hnext'
      exact ⟨rfl, rfl⟩

/-- Less is left to read, or as much and less in the reader. -/
def Less (i j : KeyInput) : Prop := Prod.Lex (· < ·) (· < ·) i.remaining j.remaining

theorem Less.trans {j k : KeyInput} (h : i.Less j) (h' : j.Less k) : i.Less k := by
  unfold Less at *
  rw [Prod.lex_def] at *
  omega

theorem Decides.answers (h : Decides rule i (.ok (key, b)) later) : rule key b := by
  generalize hr : (.ok (key, b) : Except Fault (Key × Bool)) = r at h
  induction h with
  | answered _ hb =>
    cases hr
    exact hb
  | passed _ _ _ ih => exact ih hr
  | failed _ => cases hr

end KeyInput

/-! ## Asking in a pane -/

namespace Workspace

section

variable [Text.Measure]

end

end Workspace

end TerminalPanes
