-- Texts of single cells. Each character of such a text is a cluster and takes a
-- column, whichever of the others are next to it. So the text is as wide as it is
-- long, and it is cut wherever the room ends. Of a measure it is asked that box
-- drawing and blanks are such texts, and by the tables they are.
import TerminalPanes.Proofs.TextFront
import TerminalPanes.Escape.Stream
import TerminalPanes.Pane.Glyphs
import TerminalPanes.Text.Tables

namespace TerminalPanes

/-! ## Edges -/

namespace Glyphs

theorem length_edge (g : Glyphs) (left right : Char) {width : Nat} (h : 2 ≤ width) :
    (g.edge left right width).length = width := by
  simp only [edge, List.length_append, List.length_cons, List.length_replicate, List.length_nil]
  omega

theorem edge_subset {g : Glyphs} {left right : Char} (hleft : left ∈ g.toList)
    (hright : right ∈ g.toList) (width : Nat) : g.edge left right width ⊆ g.toList := by
  intro c hc
  simp only [edge, List.mem_append, List.mem_cons, List.not_mem_nil, or_false] at hc
  rcases hc with (rfl | hc) | rfl
  · exact hleft
  · rw [List.eq_of_mem_replicate hc]
    simp [toList]
  · exact hright

/-- The characters of both borders, and the blank. -/
def drawable : Text := light.toList ++ double.toList ++ [' ']

end Glyphs

/-! ## Texts -/

section

variable [Text.Measure]

namespace Text

/-- Every text of these characters is cut between any two and takes a column for each, and
none of them begins a sequence. -/
structure Singles (t : Text) : Prop where
  escape_not_mem : Event.escape ∉ t
  cells (s : Text) : s ⊆ t → clusters s = s.map ([·]) ∧ width s = s.length

namespace Singles

variable {s t : Text}

theorem of_subset (h : Singles t) (hs : s ⊆ t) : Singles s where
  escape_not_mem hmem := h.escape_not_mem (hs hmem)
  cells u hu := h.cells u (List.Subset.trans hu hs)

theorem clusters (h : Singles t) : clusters t = t.map ([·]) := (h.cells t (List.Subset.refl t)).1

theorem width (h : Singles t) : width t = t.length := (h.cells t (List.Subset.refl t)).2

theorem take (h : Singles t) (n : Nat) : Singles (t.take n) := h.of_subset (List.take_subset n t)

theorem singleton (h : Singles t) {c : Char} (hc : c ∈ t) : Singles [c] :=
  h.of_subset (List.cons_subset.2 ⟨hc, List.nil_subset t⟩)

theorem replicate (h : Singles t) {c : Char} (hc : c ∈ t) (n : Nat) :
    Singles (List.replicate n c) :=
  h.of_subset fun _ hd => List.eq_of_mem_replicate hd ▸ hc

theorem clip (h : Singles t) (room : Nat) : clip t room = t.take room := by
  have hfitting : ∀ {s : Text}, s ⊆ t → ∀ room,
      (fitting room (s.map ([·]))).flatten = s.take room := by
    intro s
    induction s with
    | nil => exact fun _ room => by simp [fitting]
    | cons c rest ih =>
      intro hs room
      obtain ⟨hc, hrest⟩ := List.cons_subset.1 hs
      have hone : Text.width [c] = 1 := (h.singleton hc).width
      cases room with
      | zero => simp [fitting, hone]
      | succ room => simp [fitting, hone, ih hrest]
  rw [Text.clip, h.clusters, hfitting (List.Subset.refl t)]

/-- Such a text is as wide as its clusters are, wherever it is cut. -/
theorem additive (h : Singles t) : Additive t := by
  have hsum : ∀ {s : Text}, s ⊆ t → totalWidth (s.map ([·])) = s.length := by
    intro s
    induction s with
    | nil => exact fun _ => rfl
    | cons c rest ih =>
      intro hs
      obtain ⟨hc, hrest⟩ := List.cons_subset.1 hs
      have hone : Text.width [c] = 1 := (h.singleton hc).width
      rw [List.map_cons, totalWidth, hone, ih hrest, List.length_cons, Nat.add_comm]
  intro n
  have hfront : front t n = t.take n := by
    rw [front, h.clusters, ← List.map_take]
    exact List.flatMap_singleton' _
  rw [hfront, (h.take n).width, h.clusters, ← List.map_take, hsum (List.take_subset n t)]

end Singles

end Text

/-! ## Borders and blanks -/

namespace Glyphs

/-- Every character of the border takes a cell of its own. -/
def Singles (g : Glyphs) : Prop := Text.Singles g.toList

namespace Singles

variable {g : Glyphs}

theorem edge (h : g.Singles) {left right : Char} (hleft : left ∈ g.toList)
    (hright : right ∈ g.toList) (width : Nat) : Text.Singles (g.edge left right width) :=
  h.of_subset (edge_subset hleft hright width)

theorem vertical (h : g.Singles) : Text.Singles [g.vertical] := h.singleton (by simp [toList])

theorem titleOpen (h : g.Singles) : Text.Singles [g.titleOpen] := h.singleton (by simp [toList])

theorem titleClose (h : g.Singles) : Text.Singles [g.titleClose] := h.singleton (by simp [toList])

end Singles

end Glyphs

/-- The measure takes box drawing and blanks for what they are: each character is a cluster of
one column, and a text of them takes a column for each. -/
def SingleCells : Prop :=
  ∀ t : Text, t ⊆ Glyphs.drawable → Text.clusters t = t.map ([·]) ∧ Text.width t = t.length

namespace SingleCells

theorem singles (h : SingleCells) : Text.Singles Glyphs.drawable := ⟨by decide, h⟩

theorem glyphs (h : SingleCells) {g : Glyphs} (hg : g = .light ∨ g = .double) : g.Singles := by
  rcases hg with rfl | rfl
  · exact h.singles.of_subset fun c hc => List.mem_append_left _ (List.mem_append_left _ hc)
  · exact h.singles.of_subset fun c hc => List.mem_append_left _ (List.mem_append_right _ hc)

theorem blanks (h : SingleCells) (n : Nat) : Text.Singles (List.replicate n ' ') :=
  h.singles.replicate (by decide) n

end SingleCells

end

/-! ## By the tables -/

namespace Text.Tables

/-- The character is a cluster and takes a column, whatever of its kind is next to it. -/
structure IsSingle (c : Char) : Prop where
  class_other : breakClass c = .other
  not_pictograph : isPictograph c = false
  not_consonant : isConjunctConsonant c = false
  alone : Following.before c .plain = (1, .plain)

theorem isSingle_of_mem {cs : Text}
    (h : cs.all (fun c => breakClass c == .other && !isPictograph c && !isConjunctConsonant c &&
      Following.before c .plain == (1, .plain)) = true) {c : Char} (hc : c ∈ cs) : IsSingle c := by
  have htest := List.all_eq_true.1 h c hc
  simp only [Bool.and_eq_true, beq_iff_eq, Bool.not_eq_true'] at htest
  obtain ⟨⟨⟨hclass, hpicture⟩, hconsonant⟩, halone⟩ := htest
  exact ⟨hclass, hpicture, hconsonant, halone⟩

theorem measure_of_singles {t : Text} (h : ∀ c ∈ t, IsSingle c) :
    Text.measure t = ((t.length : Int), .plain) := by
  induction t with
  | nil => rfl
  | cons c rest ih =>
    obtain ⟨hc, hrest⟩ := List.forall_mem_cons.1 h
    simp only [Text.measure, ih hrest, hc.alone, List.length_cons]
    rfl

theorem clustersFrom_of_singles {c : Char} (hc : IsSingle c) {t : Text}
    (h : ∀ c ∈ t, IsSingle c) : clustersFrom (.start c) t = ([], t.map ([·])) := by
  induction t generalizing c with
  | nil => rfl
  | cons d rest ih =>
    obtain ⟨hd, hrest⟩ := List.forall_mem_cons.1 h
    have hbreak : (ClusterEnd.start c).breaksBefore d = true := by
      simp [ClusterEnd.breaksBefore, ClusterEnd.start, hc.class_other, hd.class_other,
        hd.not_consonant, hd.not_pictograph]
    rw [clustersFrom_of_breaksBefore hbreak, ih hd hrest]
    rfl

theorem clusters_of_singles {t : Text} (h : ∀ c ∈ t, IsSingle c) :
    clusters t = t.map ([·]) := by
  cases t with
  | nil => rfl
  | cons c rest =>
    obtain ⟨hc, hrest⟩ := List.forall_mem_cons.1 h
    simp only [clusters, clustersFrom_of_singles hc hrest]
    rfl

theorem singleCells : SingleCells := by
  intro t ht
  have hsingle : ∀ c ∈ t, IsSingle c := fun c hc =>
    isSingle_of_mem (by decide +kernel) (ht hc)
  refine ⟨clusters_of_singles hsingle, ?_⟩
  rw [width_eq, measure_of_singles hsingle]
  rfl

end Text.Tables

end TerminalPanes
