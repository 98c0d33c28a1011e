-- Cutting sections to a number of columns. Each section is cut by itself, to
-- what the ones before it have left. A wide character that does not fit leaves
-- a column free, and the sections after it may take it, so what is kept need
-- not be a beginning of the whole. It is one when nothing is kept after the
-- first cut but what goes on in the text that was lost there.
import TerminalPanes.Markup.Cut
import TerminalPanes.Proofs.StyleRecord
import TerminalPanes.Proofs.MarkupShown
import TerminalPanes.Proofs.WorkspaceReach
import TerminalPanes.Text.Tables

namespace TerminalPanes

/-! ## Sections kept from the front -/

namespace Section

variable {s : Section} {sections kept rest : List Section}

theorem contents_cons (s : Section) (rest : List Section) :
    contents (s :: rest) = s.content ++ contents rest := rfl

/-- Sections kept from the front. Each may have lost the end of its content. -/
inductive Kept : List Section → List Section → Prop where
  | none (sections : List Section) : Kept sections []
  | more {s s' : Section} {rest kept : List Section} :
      s'.instructions = s.instructions → s'.content <+: s.content → Kept rest kept →
      Kept (s :: rest) (s' :: kept)

/-- Nothing is kept after the first section that lost text, but for what goes on
in the text that was lost. -/
def CutOnce : List Section → List Section → Prop
  | s :: rest, s' :: kept =>
    if s'.content = s.content then CutOnce rest kept
    else contents kept <+: s.content.drop s'.content.length ++ contents rest
  | _, _ => True

/-- Only then is what was kept a beginning of the whole. -/
theorem Kept.isPrefix_iff (h : Kept sections kept) :
    contents kept <+: contents sections ↔ CutOnce sections kept := by
  induction h with
  | none sections =>
    have hnil : contents [] <+: contents sections := List.nil_prefix
    cases sections <;> exact ⟨fun _ => trivial, fun _ => hnil⟩
  | @more s s' rest kept _ hcontent _ ih =>
    unfold CutOnce
    rw [contents_cons, contents_cons]
    by_cases hwhole : s'.content = s.content
    · rw [if_pos hwhole, hwhole, List.prefix_append_right_inj]
      exact ih
    · obtain ⟨lost, hlost⟩ := hcontent
      rw [if_neg hwhole, ← hlost, List.drop_left, List.append_assoc, List.prefix_append_right_inj]

end Section

namespace Terminal

theorem kept_of_cutOf {wrap : Wrap} {sections cut : List Section}
    (h : List.Forall₂ (CutOf wrap) sections cut) : Section.Kept sections cut := by
  induction h with
  | nil => exact .none []
  | cons hs _ ih => exact .more hs.instructions hs.content ih

variable {t : Terminal} {cell : Point} {room : Nat}

/-- The columns to the edge that a text leaves free are those behind it. -/
theorem roomAt_add (hx : 1 ≤ cell.x) (hroom : t.roomAt cell = some room) (columns : Nat) :
    t.roomAt (cell + ⟨min (columns : Int) Decimal.wordMax, 0⟩) = some (room - columns) := by
  have hcols := t.size.cols_le
  unfold roomAt at *
  unfold Decimal.shortMax at hcols
  unfold Decimal.wordMax
  split at hroom
  · cases hroom
  · rename_i hknown
    cases hroom
    rw [if_neg hknown, Point.add_x]
    dsimp only
    exact congrArg some (by omega)

theorem le_add_columns (hx : 1 ≤ cell.x) (columns : Nat) :
    1 ≤ (cell + ⟨min (columns : Int) Decimal.wordMax, 0⟩).x := by
  unfold Decimal.wordMax
  rw [Point.add_x]
  dsimp only
  omega

end Terminal

section

variable [Text.Measure]

/-! ## Sections as values -/

namespace Markup

theorem truncate_zero (sections : List Section) : truncate 0 sections = [] := by
  cases sections <;> rfl

theorem kept_truncate (room : Nat) (sections : List Section) :
    Section.Kept sections (truncate room sections) := by
  induction sections generalizing room with
  | nil => exact .none []
  | cons s rest ih =>
    unfold truncate
    split
    · exact .none _
    · obtain ⟨lost, hlost⟩ := Text.clip_append s.content room
      exact .more rfl ⟨lost, hlost.symm⟩ (ih _)

/-- The columns that the first cut leaves free. -/
def freeAtCut (room : Nat) : List Section → Nat
  | [] => 0
  | s :: rest =>
    let kept := Text.clip s.content room
    if kept = s.content then freeAtCut (room - Text.width kept) rest else room - Text.width kept

/-- Where the first cut leaves no column free, it is the only one. -/
theorem cutOnce_of_freeAtCut {room : Nat} {sections : List Section}
    (h : freeAtCut room sections = 0) : Section.CutOnce sections (truncate room sections) := by
  induction sections generalizing room with
  | nil => trivial
  | cons s rest ih =>
    unfold freeAtCut at h
    dsimp only at h
    unfold truncate
    split
    · trivial
    · unfold Section.CutOnce
      split at h
      · rename_i hwhole
        rw [if_pos hwhole]
        exact ih h
      · rename_i hcut
        rw [if_neg hcut, h, truncate_zero]
        exact List.nil_prefix

end Markup

/-! ## Sections on a terminal -/

namespace Terminal

section

variable {t : Terminal} {cell : Point} {room : Nat} {sections : List Section}

/-- At the edge nothing is kept of sections that begin with a column. -/
theorem contents_cutFrom_edge (hx : 1 ≤ cell.x) (hroom : t.roomAt cell = some 0)
    (hbegin : ∀ s ∈ sections, s.content.clip 0 = []) :
    Section.contents (t.cutFrom cell .clip sections) = [] := by
  induction sections generalizing cell with
  | nil => rfl
  | cons s rest ih =>
    obtain ⟨hs, hrest⟩ := List.forall_mem_cons.1 hbegin
    have hvisible : t.visibleAt cell s.content .clip = [] := by
      unfold visibleAt
      rw [hroom]
      exact hs
    unfold cutFrom
    dsimp only
    have hthen := roomAt_add hx hroom (Text.width [])
    rw [Nat.zero_sub] at hthen
    rw [Section.contents_cons, hvisible, List.nil_append]
    exact ih (le_add_columns hx _) hthen hrest

/-- Where the first cut leaves no column up to the edge, it is the only one for sections that
begin with a column. -/
theorem cutOnce_cutFrom (hx : 1 ≤ cell.x) (hroom : t.roomAt cell = some room)
    (hfree : Markup.freeAtCut room sections = 0)
    (hbegin : ∀ s ∈ sections, s.content.clip 0 = []) :
    Section.CutOnce sections (t.cutFrom cell .clip sections) := by
  induction sections generalizing cell room with
  | nil => trivial
  | cons s rest ih =>
    obtain ⟨-, hrest⟩ := List.forall_mem_cons.1 hbegin
    have hvisible : t.visibleAt cell s.content .clip = s.content.clip room := by
      unfold visibleAt
      rw [hroom]
    have hthen := roomAt_add hx hroom (s.content.clip room).width
    unfold Markup.freeAtCut at hfree
    dsimp only at hfree
    unfold cutFrom Section.CutOnce
    dsimp only
    rw [hvisible]
    split at hfree
    · rename_i hwhole
      rw [if_pos hwhole]
      exact ih (le_add_columns hx _) hthen hfree hrest
    · rename_i hcut
      rw [hfree] at hthen
      rw [if_neg hcut, contents_cutFrom_edge (le_add_columns hx _) hthen hrest]
      exact List.nil_prefix

end

/-- Cut sections are a beginning of the whole, as values and on a terminal, just
when nothing that goes on elsewhere is kept after the first cut. So it is where
the first cut leaves no column free, on a terminal up to its edge and with sections
that begin with a column, since one without any is written at the edge as well. -/
theorem cut_sections_are_a_prefix_when_cut_once (sections : List Section) {t : Terminal}
    (ht : t.Reachable) (hroom : t.sink.room = none) :
    (∀ room, (Section.contents (Markup.truncate room sections) <+: Section.contents sections ↔
        Section.CutOnce sections (Markup.truncate room sections)) ∧
      (Markup.freeAtCut room sections = 0 →
        Section.contents (Markup.truncate room sections) <+: Section.contents sections)) ∧
    ∃ cell es u, t.history.current? = some cell ∧ writeSections sections .clip t = .ok () u ∧
      u.sink.emissions = t.sink.emissions ++ es ∧
      (Emission.unstyled es).flatMap Emission.chars =
        Section.contents (t.cutFrom cell .clip sections) ∧
      ((Emission.unstyled es).flatMap Emission.chars <+: Section.contents sections ↔
        Section.CutOnce sections (t.cutFrom cell .clip sections)) ∧
      ∀ room, t.roomAt cell = some room → Markup.freeAtCut room sections = 0 →
        (∀ s ∈ sections, s.content.clip 0 = []) →
          (Emission.unstyled es).flatMap Emission.chars <+: Section.contents sections := by
  obtain ⟨cell, hc⟩ := History.current?_of_lt ht.valid.index_lt
  have hcells := ht.keeps History.stable_ofCells History.ofCells_ofLimit
  obtain ⟨hx, -, -⟩ := hcells.cells cell (List.mem_of_getElem? hc)
  obtain ⟨history, -, hends⟩ := ends_writeSections ht.valid hc sections .clip
  obtain ⟨hok, -⟩ := hends.unlimited hroom
  have hvisible := Section.chars_unstyled_emissionsOfAll t.config t.style
    (t.cutFrom cell .clip sections)
  have hcut := (kept_of_cutOf (cutOf_cutFrom t cell .clip sections)).isPrefix_iff
  rw [← hvisible] at hcut
  refine ⟨fun room => ?_, cell, _, _, hc, hok, Sink.emissions_takeAll _ _, hvisible, hcut, ?_⟩
  · have hiff := (Markup.kept_truncate room sections).isPrefix_iff
    exact ⟨hiff, fun hfree => hiff.2 (Markup.cutOnce_of_freeAtCut hfree)⟩
  · exact fun room hroom hfree hbegin => hcut.2 (cutOnce_cutFrom hx hroom hfree hbegin)

end Terminal

end

namespace Terminal

open scoped Text.Tables in
/-- On three columns the first section fits and nothing is left for the second. -/
theorem three_columns_leave_none_free :
    ∃ t u es, opening (blank Sink.unlimited ⟨3, 1⟩ Config.default) = .ok () t ∧
      writeSections [⟨['a', '中'], []⟩, ⟨['b'], []⟩] .clip t = .ok () u ∧
      u.sink.emissions = t.sink.emissions ++ es ∧
      (Emission.unstyled es).flatMap Emission.chars <+: ['a', '中', 'b'] ∧
      Section.contents (Markup.truncate 3 [⟨['a', '中'], []⟩, ⟨['b'], []⟩]) <+:
        ['a', '中', 'b'] := by
  obtain ⟨hopening, hroom⟩ :=
    (Ends.closing (blank Sink.unlimited ⟨3, 1⟩ Config.default)).unlimited rfl
  obtain ⟨hvalue, cell, es, u, hc, hok, hsent, -, -, hedge⟩ :=
    cut_sections_are_a_prefix_when_cut_once [⟨['a', '中'], []⟩, ⟨['b'], []⟩] (.opened hopening) hroom
  cases hc
  refine ⟨_, u, es, hopening, hok, hsent, hedge 3 rfl (by decide +kernel) ?_,
    (hvalue 3).2 (by decide +kernel)⟩
  decide +kernel

open scoped Text.Tables in
/-- A wide character that does not fit leaves a column free, and the next section
takes it, as a value and on a terminal. -/
theorem a_later_section_takes_the_place_of_cut_text :
    Section.contents (Markup.truncate 2 [⟨['a', '中'], []⟩, ⟨['b'], []⟩]) = ['a', 'b'] ∧
      (∃ t, openAndRun [.writeSections [⟨['a', '中'], []⟩, ⟨['b'], []⟩] (some .clip)]
          (blank Sink.unlimited ⟨2, 1⟩ Config.default) = .ok () t ∧
        (Emission.unstyled t.sink.emissions).flatMap Emission.chars = ['a', 'b']) ∧
      ¬ ['a', 'b'] <+: Section.contents [⟨['a', '中'], []⟩, ⟨['b'], []⟩] := by
  obtain ⟨_, t, hrun, htest⟩ := @exists_of_endsIn _
    (openAndRun [.writeSections [⟨['a', '中'], []⟩, ⟨['b'], []⟩] (some .clip)])
    (blank Sink.unlimited ⟨2, 1⟩ Config.default)
    (fun t => (Emission.unstyled t.sink.emissions).flatMap Emission.chars == ['a', 'b'])
    (by decide +kernel)
  exact ⟨by decide +kernel, ⟨t, hrun, beq_iff_eq.1 htest⟩, by decide⟩

end Terminal

end TerminalPanes
