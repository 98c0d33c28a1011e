-- Sections cut to a number of columns fit. The cut counts cluster by cluster
-- and the columns that are left are counted by the whole text kept. As long as
-- no text is wider than its clusters, the columns left never run below zero,
-- and sections that have room are left as they are.
import Mathlib.Data.List.Forall2
import TerminalPanes.Markup.Cut
import TerminalPanes.Proofs.TextFront
import TerminalPanes.Proofs.ClusterWidth

namespace TerminalPanes

section

variable [Text.Measure]

/-- What is kept of a section: its instructions, and its content up to the end of a
cluster. -/
structure Section.CutAtCluster (s s' : Section) : Prop where
  instructions : s'.instructions = s.instructions
  content : ∃ n, s'.content = Text.front s.content n

namespace Markup

/-- Sections cut by a loop that gives up when it would have to take more columns from
those left than there are. -/
def truncate? (room : Nat) : List Section → Option (List Section)
  | [] => some []
  | s :: rest =>
    if room = 0 then some []
    else
      let kept := Text.clip s.content room
      if room < Text.width kept then none
      else (truncate? (room - Text.width kept) rest).map ({ s with content := kept } :: ·)

section

variable {sections : List Section} (hfit : ∀ s ∈ sections, Text.FrontsFit s.content)

include hfit

theorem truncate?_eq (room : Nat) : truncate? room sections = some (truncate room sections) := by
  induction sections generalizing room with
  | nil => rfl
  | cons s rest ih =>
    obtain ⟨hs, hrest⟩ := List.forall_mem_cons.1 hfit
    rw [truncate?, truncate]
    split
    · rfl
    · have hfits := Nat.not_lt.2 (hs.width_clip_le room)
      simp [hfits, ih hrest]

theorem totalWidth_truncate_le (room : Nat) :
    Text.totalWidth ((truncate room sections).map Section.content) ≤ room := by
  induction sections generalizing room with
  | nil => exact Nat.zero_le room
  | cons s rest ih =>
    obtain ⟨hs, hrest⟩ := List.forall_mem_cons.1 hfit
    rw [truncate]
    split
    · exact Nat.zero_le room
    · have hfits := hs.width_clip_le room
      have hbelow := ih hrest (room - Text.width (Text.clip s.content room))
      simp only [List.map_cons, Text.totalWidth]
      omega

end

theorem tame_truncate {sections : List Section} (h : ∀ s ∈ sections, s.content.Tame)
    (room : Nat) : ∀ s ∈ truncate room sections, s.content.Tame := by
  induction sections generalizing room with
  | nil => exact h
  | cons s rest ih =>
    obtain ⟨hs, hrest⟩ := List.forall_mem_cons.1 h
    rw [truncate]
    split
    · exact List.forall_mem_nil _
    · exact List.forall_mem_cons.2 ⟨hs.clip room, ih hrest _⟩

theorem cutAtCluster_truncate (room : Nat) (sections : List Section) :
    List.Forall₂ Section.CutAtCluster (sections.take (truncate room sections).length)
      (truncate room sections) := by
  induction sections generalizing room with
  | nil => exact .nil
  | cons s rest ih =>
    rw [truncate]
    split
    · exact .nil
    · exact .cons ⟨rfl, _, Text.clip_eq_front s.content room⟩ (ih _)

/-- The columns of all contents, cluster by cluster. -/
def clusterWidth : List Section → Nat
  | [] => 0
  | s :: rest => Text.totalWidth (Text.clusters s.content) + clusterWidth rest

theorem truncate_of_clusterWidth_lt {sections : List Section}
    (hfit : ∀ s ∈ sections, Text.FrontsFit s.content) {room : Nat}
    (h : clusterWidth sections < room) : truncate room sections = sections := by
  induction sections generalizing room with
  | nil => rfl
  | cons s rest ih =>
    obtain ⟨hs, hrest⟩ := List.forall_mem_cons.1 hfit
    rw [clusterWidth] at h
    have hwhole : Text.clip s.content room = s.content := Text.clip_of_totalWidth_le (by omega)
    have hwidth := hs.width_le
    rw [truncate, if_neg (by omega)]
    simp only [hwhole]
    rw [ih hrest (by omega)]

/-- Cut sections fit in the columns given, and the columns left never run below zero, as
long as no text is wider than its clusters. The sections kept are the first ones, each up to
the end of a cluster and with its instructions, and they are all and whole where the
clusters leave a column free. -/
theorem cut_sections_fit_and_end_with_a_cluster (hwithin : Text.WithinClusters) (room : Nat)
    (sections : List Section) :
    truncate? room sections = some (truncate room sections) ∧
      Text.totalWidth ((truncate room sections).map Section.content) ≤ room ∧
      List.Forall₂ Section.CutAtCluster (sections.take (truncate room sections).length)
        (truncate room sections) ∧
      (clusterWidth sections < room → truncate room sections = sections) := by
  have hfit : ∀ s ∈ sections, Text.FrontsFit s.content := fun s _ => hwithin.frontsFit s.content
  exact ⟨truncate?_eq hfit room, totalWidth_truncate_le hfit room,
    cutAtCluster_truncate room sections, truncate_of_clusterWidth_lt hfit⟩

end Markup

end

namespace Markup

open scoped Text.Tables in
/-- A wide character that does not fit is left out, and the section after it is kept. -/
theorem a_cut_leaves_room_for_the_next_section :
    truncate? 3 [⟨['中', '文'], [.turnOn .bold]⟩, ⟨['a'], []⟩] =
        some [⟨['中'], [.turnOn .bold]⟩, ⟨['a'], []⟩] ∧
      Text.totalWidth ([⟨['中'], [.turnOn .bold]⟩, ⟨['a'], []⟩].map Section.content) ≤ 3 := by
  obtain ⟨hchecked, hfits, -⟩ := cut_sections_fit_and_end_with_a_cluster
    Text.Tables.withinClusters 3 [⟨['中', '文'], [.turnOn .bold]⟩, ⟨['a'], []⟩]
  have hcut : truncate 3 [⟨['中', '文'], [.turnOn .bold]⟩, ⟨['a'], []⟩] =
      [⟨['中'], [.turnOn .bold]⟩, ⟨['a'], []⟩] := by decide +kernel
  rw [hcut] at hchecked hfits
  exact ⟨hchecked, hfits⟩

end Markup

end TerminalPanes
