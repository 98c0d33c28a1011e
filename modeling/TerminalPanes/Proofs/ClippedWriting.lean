-- Writing that is clipped. What is written of a text depends on the column in
-- which it begins, and the record of that column moves on from text to text.
-- Wherever the cursor was, it ends no further than the right edge, or where it
-- was if that is beyond the edge.
import TerminalPanes.Proofs.ClusterWidth
import TerminalPanes.Proofs.DrawnRows

namespace TerminalPanes

section

variable [Text.Measure]

/-! ## What is kept -/

/-- What a clipped write in a column keeps of a text, on a screen of so many columns. -/
structure Text.ClippedAt (cols : Nat) (column : Int) (text kept : Text) : Prop where
  eq_clip : kept = text.clip (cols - column).toNat
  ends : column + kept.width ≤ max column cols
  no_columns : cols ≤ column → totalWidth kept.clusters = 0
  whole : column + totalWidth text.clusters ≤ cols → kept = text

theorem Text.FrontsFit.clippedAt_clip {text : Text} (h : text.FrontsFit) (cols : Nat)
    (column : Int) : ClippedAt cols column text (text.clip (cols - column).toNat) where
  eq_clip := rfl
  ends := by
    have hroom := h.width_clip_le (cols - column).toNat
    omega
  no_columns hpast := by
    have hroom : (cols - column).toNat = 0 := by omega
    rw [clusters_clip, hroom]
    exact Nat.le_zero.1 (totalWidth_fitting_le 0 _)
  whole hfits := clip_of_totalWidth_le (by omega)

/-- The column in which the record has the cursor once a text was written. -/
def Text.columnAfter (column : Int) (kept : Text) : Int :=
  column + min (kept.width : Int) Decimal.wordMax

/-- Sections that are clipped one behind the other, from a column on up to another. -/
inductive Section.ClippedFrom (cols : Nat) : Int → List Section → List Section → Int → Prop where
  | nil (column : Int) : ClippedFrom cols column [] [] column
  | cons {column stop : Int} {s : Section} {kept : Text} {rest cut : List Section} :
    Text.ClippedAt cols column s.content kept →
    ClippedFrom cols (Text.columnAfter column kept) rest cut stop →
    ClippedFrom cols column (s :: rest) ({ s with content := kept } :: cut) stop

namespace Text.ClippedAt

variable {cols : Nat} {column : Int} {text kept : Text}

theorem columnAfter_le (h : ClippedAt cols column text kept) :
    columnAfter column kept ≤ max column cols := by
  have hends := h.ends
  unfold columnAfter
  omega

end Text.ClippedAt

theorem Section.ClippedFrom.stop_le {cols : Nat} {column stop : Int}
    {sections cut : List Section} (h : ClippedFrom cols column sections cut stop) :
    stop ≤ max column cols := by
  induction h with
  | nil column => exact Int.le_max_left column cols
  | cons hfirst _ ih =>
    have hcolumn := hfirst.columnAfter_le
    omega

/-! ## Writing -/

namespace Terminal

variable {t : Terminal} {p : Point}

theorem visibleAt_clip_of_known (hknown : t.size.cols ≠ 0) (p : Point) (text : Text) :
    t.visibleAt (p + ⟨1, 1⟩) text .clip = text.clip (t.size.cols - p.x).toNat := by
  rw [visibleAt_clip, Size.visible_of_known hknown]

/-- What a write sends is settled before anything is sent. -/
theorem write_eq {cell : Point} (hc : t.history.current? = some cell) (text : Text) (wrap : Wrap) :
    write text wrap t =
      (emit (.text (t.visibleAt cell text wrap)) >>= fun _ =>
        advance (t.visibleAt cell text wrap).width) t := by
  have hroom : remainingColumns t = .ok (t.roomAt cell) t := by
    unfold remainingColumns roomAt
    rw [bind_of_ok (rfl : (get : Action Terminal) t = .ok t t)]
    split
    · rfl
    · have hcell : currentCell t = .ok cell t := by
        unfold currentCell
        rw [bind_of_ok (rfl : (get : Action Terminal) t = .ok t t), hc]
        rfl
      rw [bind_of_ok hcell]
      rfl
  exact bind_of_ok hroom

theorem add_columnAfter (p : Point) (kept : Text) :
    p + ⟨1, 1⟩ + ⟨min (kept.width : Int) Decimal.wordMax, 0⟩ =
      ⟨Text.columnAfter p.x kept, p.y⟩ + ⟨1, 1⟩ := by
  rw [← Point.add_columns_cell]
  exact congrArg (fun y => Point.mk (Text.columnAfter p.x kept) y + ⟨1, 1⟩) (Int.add_zero p.y)

/-- What is left of clipped sections is clipped from where they begin, each from where the
one before has ended. -/
theorem clippedFrom_cutFrom (hwithin : Text.WithinClusters) (hknown : t.size.cols ≠ 0) (p : Point)
    (sections : List Section) :
    ∃ stop, t.cellAfter (p + ⟨1, 1⟩) .clip sections = ⟨stop, p.y⟩ + ⟨1, 1⟩ ∧
      Section.ClippedFrom t.size.cols p.x sections (t.cutFrom (p + ⟨1, 1⟩) .clip sections)
        stop := by
  induction sections generalizing p with
  | nil => exact ⟨p.x, rfl, .nil p.x⟩
  | cons s rest ih =>
    simp only [cellAfter, cutFrom, visibleAt_clip_of_known hknown, add_columnAfter]
    obtain ⟨stop, hcell, hrest⟩ := ih ⟨Text.columnAfter p.x _, p.y⟩
    exact ⟨stop, hcell, .cons ((hwithin.frontsFit s.content).clippedAt_clip t.size.cols p.x) hrest⟩

/-- As long as no text is wider than its clusters, a clipped write leaves the cursor of a
terminal of known width, whatever was done to it before, in the same row, no further than
the right edge or where it was beyond it. What is sent of each text is cut at the end of a
cluster to the columns from the cursor to the edge. That is nothing with columns at or beyond
the edge, and the whole text, as if it were allowed to wrap, where its clusters fit. Sections
are cut each where it begins. Nothing but the sink makes such a write fail. -/
theorem clipped_writes_never_pass_the_right_edge (hwithin : Text.WithinClusters) {t : Terminal}
    (ht : t.Reachable) (hknown : t.size.cols ≠ 0) :
    ∃ p, t.position? = some p ∧
      (∀ text, ∃ kept, Text.ClippedAt t.size.cols p.x text kept ∧
        (p.x + Text.totalWidth text.clusters ≤ t.size.cols →
          write text .clip t = write text .allow t) ∧
        (t.sink.room = none → ∃ u, write text .clip t = .ok () u) ∧
        ∀ u, write text .clip t = .ok () u →
          u.sink.emissions = t.sink.emissions ++ [.text kept] ∧
            u.position? = some ⟨Text.columnAfter p.x kept, p.y⟩ ∧
            Text.columnAfter p.x kept ≤ max p.x t.size.cols) ∧
      (∀ sections, ∃ cut stop, Section.ClippedFrom t.size.cols p.x sections cut stop ∧
        (t.sink.room = none → ∃ u, writeSections sections .clip t = .ok () u) ∧
        ∀ u, writeSections sections .clip t = .ok () u →
          u.sink.emissions = t.sink.emissions ++ Section.emissionsOfAll t.config t.style cut ∧
            u.position? = some ⟨stop, p.y⟩ ∧ stop ≤ max p.x t.size.cols) := by
  obtain ⟨p, hp⟩ := exists_current? ht.valid
  refine ⟨p, position?_of_current? hp, fun text => ?_, fun sections => ?_⟩
  · have hkept := (hwithin.frontsFit text).clippedAt_clip t.size.cols p.x
    have hends := Ends.write hp text .clip
    rw [visibleAt_clip_of_known hknown] at hends
    refine ⟨_, hkept, fun hfits => ?_, fun hroom => ⟨_, (hends.unlimited hroom).1⟩, fun u hu => ?_⟩
    · rw [write_eq hp, write_eq hp, visibleAt_clip_of_known hknown, visibleAt_allow,
        hkept.whole hfits]
    · obtain ⟨-, rfl⟩ := hends.only hu
      have hafter := current?_advanced hp (text.clip (t.size.cols - p.x).toNat).width
      rw [add_columnAfter] at hafter
      exact ⟨Sink.emissions_takeAll _ _, position?_of_current? hafter, hkept.columnAfter_le⟩
  · obtain ⟨history, -, hafter, hends⟩ := ends_writeSections_at ht.valid hp sections .clip
    obtain ⟨stop, hstop, hcut⟩ := clippedFrom_cutFrom hwithin hknown p sections
    rw [hstop] at hafter
    refine ⟨_, stop, hcut, fun hroom => ⟨_, (hends.unlimited hroom).1⟩, fun u hu => ?_⟩
    obtain ⟨-, rfl⟩ := hends.only hu
    exact ⟨Sink.emissions_takeAll _ _, position?_of_current? hafter, hcut.stop_le⟩

end Terminal

end

namespace Terminal

open scoped Text.Tables in
/-- A wide character that would begin in the last column is not written. -/
theorem a_wide_character_in_the_last_column_is_not_written :
    ∃ t u, opening (blank Sink.unlimited ⟨3, 1⟩ Config.default) = .ok () t ∧
      write ['a', 'b', '中'] .clip t = .ok () u ∧
      u.sink.emissions = t.sink.emissions ++ [.text ['a', 'b']] ∧ u.position? = some ⟨2, 0⟩ := by
  obtain ⟨_, t, hopened, htest⟩ := @exists_of_endsIn _ opening
    (blank Sink.unlimited ⟨3, 1⟩ Config.default)
    (fun t => t.position? == some ⟨0, 0⟩ && t.size.cols == 3 && t.sink.room == none)
    (by decide +kernel)
  simp only [Bool.and_eq_true, beq_iff_eq] at htest
  obtain ⟨⟨hposition, hcols⟩, hroom⟩ := htest
  obtain ⟨p, hp, htexts, -⟩ :=
    clipped_writes_never_pass_the_right_edge Text.Tables.withinClusters (.opened hopened)
      (by rw [hcols]; decide)
  obtain ⟨kept, hkept, -, hok, hdone⟩ := htexts ['a', 'b', '中']
  obtain ⟨u, hu⟩ := hok hroom
  obtain ⟨hsent, hafter, -⟩ := hdone u hu
  rw [hposition, Option.some_inj] at hp
  have heq := hkept.eq_clip
  rw [← hp, hcols, show Text.clip ['a', 'b', '中'] (((3 : Nat) : Int) - 0).toNat = ['a', 'b'] by
    decide +kernel] at heq
  rw [heq] at hsent hafter
  rw [← hp] at hafter
  exact ⟨t, u, hopened, hu, hsent, hafter⟩

end Terminal

end TerminalPanes
