-- A border as it is seen. What is sent for it is read by a screen of cells. The
-- screen shows the frame around the pane, cut off where the screen ends, and
-- all else is as it was.
import TerminalPanes.Proofs.PaneDrawing
import TerminalPanes.Text.Tables

namespace TerminalPanes

/-! ## Frames as pictures -/

namespace Glyphs

variable {g : Glyphs} {r : Rect} {p : Point} {c : Char}

end Glyphs

/-- The column is on the screen, as far as its size is known. -/
def Size.Reaches (size : Size) (x : Int) : Prop := size.cols = 0 ∨ x < size.cols

instance (size : Size) (x : Int) : Decidable (size.Reaches x) :=
  inferInstanceAs (Decidable (_ ∨ _))

section

variable [Text.Measure]

/-- A stroke of single cells that begins on the screen loses the columns that are not on it. -/
theorem Size.glyph?_cut {size : Size} {k : Stroke} (hsingles : k.text.Singles)
    (hstart : k.start.clamped = k.start) (p : Point) :
    (size.cut k).glyph? p = if size.Reaches p.x then k.glyph? p else none := by
  unfold cut Stroke.glyph?
  rw [hstart]
  dsimp only
  by_cases hrow : p.y = k.start.y ∧ k.start.x ≤ p.x
  · rw [if_pos hrow, if_pos hrow]
    by_cases hcols : size.cols = 0
    · rw [visible_of_unknown hcols, if_pos (show size.Reaches p.x from .inl hcols)]
    · rw [visible_of_known hcols, hsingles.clip, List.getElem?_take]
      refine if_congr ?_ rfl rfl
      unfold Reaches
      omega
  · rw [if_neg hrow, if_neg hrow, ite_self]

/-- What is left of a picture on the screen. -/
theorem Stroke.MakeUp.cut {ks : List Stroke} {picture : Point → Option Char}
    (h : MakeUp ks picture) (size : Size) (hsingles : ∀ k ∈ ks, k.text.Singles)
    (hstart : ∀ k ∈ ks, k.start.clamped = k.start) :
    MakeUp (ks.map size.cut) fun p => if size.Reaches p.x then picture p else none := by
  have hcut : ∀ k ∈ ks, ∀ p c,
      (size.cut k).glyph? p = some c ↔ size.Reaches p.x ∧ k.glyph? p = some c := by
    intro k hk p c
    rw [Size.glyph?_cut (hsingles k hk) (hstart k hk), Option.ite_none_right_eq_some]
  constructor
  · intro k hk p c hc
    obtain ⟨whole, hwhole, rfl⟩ := List.mem_map.1 hk
    obtain ⟨hreach, hc⟩ := (hcut whole hwhole p c).1 hc
    exact (if_pos hreach).trans (h.sound whole hwhole p c hc)
  · intro p c hc
    rw [Option.ite_none_right_eq_some] at hc
    obtain ⟨k, hk, hglyph⟩ := h.complete p c hc.2
    exact ⟨size.cut k, List.mem_map_of_mem hk, (hcut k hk p c).2 ⟨hc.1, hglyph⟩⟩

namespace Workspace

end Workspace

end

namespace Workspace

end Workspace

end TerminalPanes
