-- Markup is shown as it says. What a section shows follows from its own
-- instructions and the style in force where it begins: for the first section
-- that of the caller, for all others the plain style that every section leaves
-- behind. What is told already is not sent again, and nothing is missed by it.
import TerminalPanes.Proofs.TerminalEndings
import TerminalPanes.Text.Tables

namespace TerminalPanes

/-! ## What sections say -/

namespace Instruction

/-- The attribute that the instruction names, if it names one. -/
def attribute? : Instruction → Option Attribute
  | .turnOn e => some e.attribute
  | _ => none

def foreground? : Instruction → Option Color
  | .foreground c => some c
  | _ => none

def background? : Instruction → Option Color
  | .background c => some c
  | _ => none

end Instruction

namespace Section

/-- The style that the section asks for: the attributes in force and those it
names, and of each colour the last one it names, or the one in force. -/
def shownIn (inForce : Style) (s : Section) : Style where
  attributes := .ofTest fun a =>
    inForce.attributes.has a || (s.instructions.filterMap Instruction.attribute?).contains a
  foreground := (s.instructions.filterMap Instruction.foreground?).getLast?.or inForce.foreground
  background := (s.instructions.filterMap Instruction.background?).getLast?.or inForce.background

/-- The contents of sections, each with the style it is to be shown in. -/
def shown (c : Config) (inForce : Style) : List Section → List (Text × Style)
  | [] => []
  | s :: rest => (s.content, s.shownIn inForce) :: shown c c.plainStyle rest

end Section

namespace Style

variable (s : Style) (instructions : List Instruction)

end Style

/-! ## What the screen shows -/

namespace Emission

/-- The emissions that are left when those for the style are taken out. -/
def unstyled (es : List Emission) : List Emission := es.filter fun e => e.styling?.isNone

theorem unstyled_tellsAll (s : Style) (acts : List StyleAct) :
    unstyled ((s.tellsAll acts).map .control) = [] := by
  rw [unstyled, List.filter_eq_nil_iff]
  intro e he
  obtain ⟨q, hq, rfl⟩ := List.mem_map.1 he
  simp [styling?, Style.final_of_mem_tellsAll hq]

end Emission

namespace Style

end Style

namespace Section

theorem actAll_flatMap_acts (c : Config) (inForce : Style) {sections : List Section}
    (h : sections ≠ []) : inForce.actAll (sections.flatMap (acts c)) = c.plainStyle := by
  induction sections generalizing inForce with
  | nil => contradiction
  | cons s rest ih =>
    rw [List.flatMap_cons, Style.actAll_append, actAll_acts]
    cases rest with
    | nil => rfl
    | cons s' rest' => exact ih c.plainStyle (List.cons_ne_nil s' rest')

theorem chars_unstyled_emissionsOfAll (c : Config) (inForce : Style) (sections : List Section) :
    (Emission.unstyled (emissionsOfAll c inForce sections)).flatMap Emission.chars =
      contents sections := by
  induction sections generalizing inForce with
  | nil => rfl
  | cons s rest ih =>
    have hopen := Emission.unstyled_tellsAll inForce (s.instructions.map Instruction.act)
    have hclose := Emission.unstyled_tellsAll inForce c.closingActs
    have hrest := ih c.plainStyle
    rw [Emission.unstyled] at hopen hclose hrest ⊢
    rw [emissionsOfAll, emissions, List.filter_append, List.filter_append, hopen,
      List.filter_cons_of_pos rfl, hclose, List.flatMap_append, hrest]
    simp [contents, Emission.chars]

end Section

/-! ## Writing sections -/

namespace Terminal

end Terminal

end TerminalPanes
