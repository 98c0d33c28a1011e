-- Fractions of a pane. A part stays inside the padded area of its parent and,
-- through any number of panes, of every pane above. Parts whose fractions do
-- not overlap do not overlap in cells, and the halves fill the whole. All of
-- this is computed in words, and nothing leaves them where the parent's columns
-- and rows can be counted.
import TerminalPanes.Proofs.FractionRounding
import TerminalPanes.Proofs.PaneForest

namespace TerminalPanes

/-! ## Rectangles inside rectangles -/

namespace Rect

variable {r inner outer : Rect} {p : Padding}

theorem start_x_add_width (r : Rect) : r.start.x + r.width = r.stop.x := by
  unfold width
  omega

theorem start_y_add_height (r : Rect) : r.start.y + r.height = r.stop.y := by
  unfold height
  omega

/-- The columns and rows can be counted, and neither number is negative. -/
structure Upright (r : Rect) : Prop where
  measured : r.Measured
  width : 0 ≤ r.width
  height : 0 ≤ r.height

/-- `inner` is upright and reaches over no edge of `outer`. -/
structure Inside (inner outer : Rect) : Prop where
  left : outer.start.x ≤ inner.start.x
  columns : inner.start.x ≤ inner.stop.x
  right : inner.stop.x ≤ outer.stop.x
  top : outer.start.y ≤ inner.start.y
  rows : inner.start.y ≤ inner.stop.y
  bottom : inner.stop.y ≤ outer.stop.y

theorem Inside.trans {between : Rect} (h : inner.Inside between) (h' : between.Inside outer) :
    inner.Inside outer where
  left := Int.le_trans h'.left h.left
  columns := h.columns
  right := Int.le_trans h.right h'.right
  top := Int.le_trans h'.top h.top
  rows := h.rows
  bottom := Int.le_trans h.bottom h'.bottom

theorem inset_inside (h : (r.inset p).Upright) : (r.inset p).Inside r := by
  obtain ⟨-, hwidth, hheight⟩ := h
  simp only [width, height, inset, Point.add_x, Point.add_y, Point.sub_x, Point.sub_y]
    at hwidth hheight
  constructor <;> simp only [inset, Point.add_x, Point.add_y, Point.sub_x, Point.sub_y] <;> omega

end Rect

/-! ## Fractions inside the whole -/

namespace Fraction

/-- Both numbers are finite and the first is not the greater one. -/
def AtMost (f g : Fraction) : Prop := ∃ a b, f = finite a ∧ g = finite b ∧ a ≤ b

/-- What begins at `offset` and extends over `extent` lies between zero and one.
The end is the rounded sum. -/
structure Inside (offset extent : Fraction) : Prop where
  double : offset.IsDouble
  begins : zero.AtMost offset
  reaches : zero.AtMost extent
  ends : (offset + extent).AtMost whole

/-- The cell is the floor of the exact product and sum, rounded once. -/
def IsFloorAt (length start : Int) (x : Fraction) (cell : Int) : Prop :=
  ∀ units, x = finite units →
    ∃ r, Rounded (length * units + start * one) r ∧ cell = toWord (r / one)

variable {f g offset extent : Fraction} {length start : Int}

theorem isFloorAt_cellOf (length start : Int) (x : Fraction) :
    IsFloorAt length start x (cellOf length start x) := by
  rintro units rfl
  exact cellOf_finite length start units

theorem isWord_cellOf (length start : Int) (x : Fraction) :
    Decimal.IsWord (cellOf length start x) := by
  unfold cellOf
  split
  · unfold toWord Decimal.IsWord Decimal.wordMin Decimal.wordMax
    omega
  · decide
  · split_ifs <;> decide

theorem AtMost.cellOf_le (h : f.AtMost g) (hlength : 0 ≤ length) (start : Int) :
    cellOf length start f ≤ cellOf length start g := by
  obtain ⟨a, b, rfl, rfl, hab⟩ := h
  exact cellOf_mono hlength hab start

theorem Inside.offset_atMost_sum (h : Inside offset extent) : offset.AtMost (offset + extent) := by
  obtain ⟨hdouble, ⟨-, o, -, rfl, -⟩, ⟨z, e, hz, rfl, he⟩, ⟨s, -, hs, -, -⟩⟩ := h
  cases hz
  exact ⟨o, s, rfl, hs, le_of_add_eq_finite hdouble.1 he hs⟩

/-- A part that begins and ends inside the whole has cells inside the length. -/
theorem Inside.cells (h : Inside offset extent) (hlength : 0 ≤ length)
    (hstart : Decimal.IsWord start) (hstop : Decimal.IsWord (start + length)) :
    start ≤ cellOf length start offset ∧
      cellOf length start offset ≤ cellOf length start (offset + extent) ∧
      cellOf length start (offset + extent) ≤ start + length := by
  refine ⟨?_, h.offset_atMost_sum.cellOf_le hlength start, ?_⟩
  · calc start = cellOf length start zero := (cellOf_zero length hstart).symm
      _ ≤ cellOf length start offset := h.begins.cellOf_le hlength start
  · calc cellOf length start (offset + extent) ≤ cellOf length start whole :=
        h.ends.cellOf_le hlength start
      _ = start + length := cellOf_whole hstop

theorem half_add_half : half + half = whole := by decide +kernel

theorem zero_add_half : zero + half = half := by decide +kernel

theorem zero_add_whole : zero + whole = whole := by decide +kernel

end Fraction

/-! ## Details -/

namespace Detail

variable {d : Detail} {area : Rect}

/-- The part lies inside the whole on both axes. -/
structure Fits (d : Detail) : Prop where
  columns : Fraction.Inside d.offsetX d.width
  rows : Fraction.Inside d.offsetY d.height

/-- Every corner of `rect` is the floor of a fraction of `area`, rounded once. -/
structure Floors (d : Detail) (area rect : Rect) : Prop where
  startX : Fraction.IsFloorAt area.width area.start.x d.offsetX rect.start.x
  startY : Fraction.IsFloorAt area.height area.start.y d.offsetY rect.start.y
  stopX : Fraction.IsFloorAt area.width area.start.x (d.offsetX + d.width) rect.stop.x
  stopY : Fraction.IsFloorAt area.height area.start.y (d.offsetY + d.height) rect.stop.y

theorem floors_rectIn (d : Detail) (area : Rect) : d.Floors area (d.rectIn area) where
  startX := Fraction.isFloorAt_cellOf _ _ _
  startY := Fraction.isFloorAt_cellOf _ _ _
  stopX := Fraction.isFloorAt_cellOf _ _ _
  stopY := Fraction.isFloorAt_cellOf _ _ _

theorem rectIn?_eq_some_iff {rect : Rect} :
    d.rectIn? area = some rect ↔ area.Measured ∧ d.rectIn area = rect := by
  unfold rectIn? Rect.measured?
  by_cases h : area.Measured
  · rw [if_pos h, Option.map_some, Option.some_inj, and_iff_right h]
  · rw [if_neg h, Option.map_none]
    exact iff_of_false nofun fun hrect => h hrect.1

theorem isSome_rectIn?_iff : (d.rectIn? area).isSome ↔ area.Measured := by
  rw [Option.isSome_iff_exists]
  exact ⟨fun ⟨_, h⟩ => (rectIn?_eq_some_iff.1 h).1, fun h => ⟨_, rectIn?_eq_some_iff.2 ⟨h, rfl⟩⟩⟩

/-- Cells are kept in the range of a word. -/
theorem inWords_rectIn (d : Detail) (area : Rect) : (d.rectIn area).InWords where
  startX := Fraction.isWord_cellOf _ _ _
  startY := Fraction.isWord_cellOf _ _ _
  stopX := Fraction.isWord_cellOf _ _ _
  stopY := Fraction.isWord_cellOf _ _ _

theorem Fits.inside (h : d.Fits) (hwords : area.InWords) (hupright : area.Upright) :
    (d.rectIn area).Inside area := by
  obtain ⟨hleft, hcolumns, hright⟩ := h.columns.cells hupright.width hwords.startX
    (by rw [area.start_x_add_width]; exact hwords.stopX)
  obtain ⟨htop, hrows, hbottom⟩ := h.rows.cells hupright.height hwords.startY
    (by rw [area.start_y_add_height]; exact hwords.stopY)
  rw [area.start_x_add_width] at hright
  rw [area.start_y_add_height] at hbottom
  exact ⟨hleft, hcolumns, hright, htop, hrows, hbottom⟩

theorem fits_leftHalf : leftHalf.Fits where
  columns :=
    { double := Fraction.isDouble_zero
      begins := ⟨_, _, rfl, rfl, Int.le_refl 0⟩
      reaches := ⟨_, _, rfl, rfl, by decide +kernel⟩
      ends := ⟨_, _, Fraction.zero_add_half, rfl, by decide +kernel⟩ }
  rows :=
    { double := Fraction.isDouble_zero
      begins := ⟨_, _, rfl, rfl, Int.le_refl 0⟩
      reaches := ⟨_, _, rfl, rfl, by decide +kernel⟩
      ends := ⟨_, _, Fraction.zero_add_whole, rfl, Int.le_refl _⟩ }

/-- The halves fill the area, be its sides negative or not. -/
theorem halves_fill (hwords : area.InWords) :
    (leftHalf.rectIn area).start = area.start ∧
      (leftHalf.rectIn area).stop.x = (rightHalf.rectIn area).start.x ∧
      (leftHalf.rectIn area).stop.y = area.stop.y ∧
      (rightHalf.rectIn area).start.y = area.start.y ∧
      (rightHalf.rectIn area).stop = area.stop := by
  have hstartX := Fraction.cellOf_zero area.width hwords.startX
  have hstartY := Fraction.cellOf_zero area.height hwords.startY
  have hstopX : Fraction.cellOf area.width area.start.x .whole = area.stop.x := by
    rw [Fraction.cellOf_whole (by rw [area.start_x_add_width]; exact hwords.stopX),
      area.start_x_add_width]
  have hstopY : Fraction.cellOf area.height area.start.y .whole = area.stop.y := by
    rw [Fraction.cellOf_whole (by rw [area.start_y_add_height]; exact hwords.stopY),
      area.start_y_add_height]
  simp only [rectIn, cornerIn, leftHalf, rightHalf, Fraction.half_add_half, Fraction.zero_add_half,
    Fraction.zero_add_whole, hstartX, hstartY, hstopX, hstopY, and_self]

end Detail

theorem Corner.words_of_resolve {size : Size} {corner : Corner} {p : Point}
    (h : corner.resolve size = some p) : p.Words := by
  cases corner with
  | fixed point =>
    obtain ⟨hwords, rfl⟩ := Point.words?_eq_some_iff.1 h
    exact hwords
  | computed ofSize =>
    obtain ⟨point, -, hpoint⟩ := Option.bind_eq_some_iff.1 h
    obtain ⟨hwords, rfl⟩ := Point.words?_eq_some_iff.1 hpoint
    exact hwords

/-! ## Parts of parts -/

namespace Forest

variable {f : Forest} {size : Size} {above id q : Nat} {d : Detail} {area : Rect}

/-- What is computed of a pane has corners of words. -/
theorem inWords_of_rectOf? {r : Rect} (h : rectOf? size f id = some r) : r.InWords := by
  induction f with
  | nil =>
    cases h
    decide
  | cons p older ih =>
    unfold rectOf? at h
    split at h
    · cases hplace : p.placement with
      | between start stop =>
        rw [hplace] at h
        obtain ⟨first, hfirst, h⟩ := Option.bind_eq_some_iff.1 h
        obtain ⟨last, hlast, h⟩ := Option.bind_eq_some_iff.1 h
        cases h
        have hstart := Corner.words_of_resolve hfirst
        have hstop := Corner.words_of_resolve hlast
        exact ⟨hstart.x, hstart.y, hstop.x, hstop.y⟩
      | within parent d =>
        rw [hplace] at h
        obtain ⟨area, -, h⟩ := Option.bind_eq_some_iff.1 h
        obtain ⟨-, rfl⟩ := Detail.rectIn?_eq_some_iff.1 h
        exact d.inWords_rectIn area
    · exact ih h

theorem inWords_of_areaOf? (h : areaOf? size f id = some area) : area.InWords := by
  induction f with
  | nil =>
    cases h
    decide
  | cons p older ih =>
    unfold areaOf? at h
    split at h
    · obtain ⟨r, -, hr⟩ := Option.bind_eq_some_iff.1 h
      obtain ⟨hwords, rfl⟩ := Rect.words?_eq_some_iff.1 hr
      exact hwords
    · exact ih h

theorem rectOf?_part_of_measured (hlt : q < id) (hpart : f.IsPart q d id)
    (harea : areaOf? size f q = some area) (hmeasured : area.Measured) :
    rectOf? size f id = some (d.rectIn area) := by
  rw [rectOf?_part size hlt hpart, harea, Option.bind_some]
  exact Detail.rectIn?_eq_some_iff.2 ⟨hmeasured, rfl⟩

/-- A part that fits into its parent, or into one that lies below `above` in the
same way and is upright inside its padding. -/
inductive FitsBelow (f : Forest) (size : Size) (above : Nat) : Nat → Prop where
  | part {d : Detail} {id : Nat} :
      above < id → f.IsPart above d id → d.Fits → FitsBelow f size above id
  | deeper {between id : Nat} {d : Detail} {area : Rect} : FitsBelow f size above between →
      areaOf? size f between = some area → area.Upright → between < id → f.IsPart between d id →
      d.Fits → FitsBelow f size above id

/-- By induction on the panes in between. The area of each is upright and inside
the area above, and the next part lies inside it. -/
theorem FitsBelow.inside (h : f.FitsBelow size above id) (harea : areaOf? size f above = some area)
    (hupright : area.Upright) : ∃ r, rectOf? size f id = some r ∧ r.Inside area := by
  induction h with
  | part hlt hpart hfits =>
    exact ⟨_, rectOf?_part_of_measured hlt hpart harea hupright.measured,
      hfits.inside (inWords_of_areaOf? harea) hupright⟩
  | @deeper between id d inner _ hinner hbetween hlt hpart hfits ih =>
    obtain ⟨outer, houter, hinside⟩ := ih
    have hwithin : inner.Inside area := by
      by_cases hlength : between < f.length
      · obtain ⟨p, hp⟩ := exists_pane? hlength
        have hinset := hinner
        rw [areaOf?_eq_inset hp, houter, Option.bind_some] at hinset
        obtain ⟨-, rfl⟩ := Rect.words?_eq_some_iff.1 hinset
        exact (Rect.inset_inside hbetween).trans hinside
      · obtain ⟨p, hp, -⟩ := hpart
        have hid := lt_of_pane? hp
        omega
    exact ⟨_, rectOf?_part_of_measured hlt hpart hinner hbetween.measured,
      (hfits.inside (inWords_of_areaOf? hinner) hbetween).trans hwithin⟩

/-- The parts that a pane is divided into, at every terminal size. They have corners just
where the columns and rows of its padded area can be counted. Then all corners are words, and
each is a floor of a fraction rounded once. What fits into an area whose sides are not negative
lies in it, and so does all that fits into a part with such an area, to any depth. Parts whose
fractions follow one another do not overlap, and where one ends at the fraction at which
another begins they share an edge. The halves fill the area even where a side is negative. -/
theorem parts_keep_inside_and_apart (hq : q < f.length) (harea : areaOf? size f q = some area)
    (details : List Detail) :
    let made := f.split q details
    made.1.length = details.length ∧
      (∀ d id, (d, id) ∈ details.zip made.1 →
        ((rectOf? size made.2 id).isSome ↔ area.Measured) ∧
          ∀ r, rectOf? size made.2 id = some r → r.InWords ∧ d.Floors area r ∧
            (0 ≤ area.width → 0 ≤ area.height → d.Fits → r.Inside area)) ∧
      (∀ above id outer, areaOf? size made.2 above = some outer → outer.Upright →
        made.2.FitsBelow size above id →
          ∃ r, rectOf? size made.2 id = some r ∧ r.Inside outer) ∧
      (∀ d id r d' id' r', (d, id) ∈ details.zip made.1 → (d', id') ∈ details.zip made.1 →
        rectOf? size made.2 id = some r → rectOf? size made.2 id' = some r' →
          (0 ≤ area.width → (d.offsetX + d.width).AtMost d'.offsetX → r.stop.x ≤ r'.start.x) ∧
          (0 ≤ area.height → (d.offsetY + d.height).AtMost d'.offsetY →
            r.stop.y ≤ r'.start.y) ∧
          (d.offsetX + d.width = d'.offsetX → r.stop.x = r'.start.x) ∧
          (d.offsetY + d.height = d'.offsetY → r.stop.y = r'.start.y)) ∧
      ∀ left l right r, (.leftHalf, left) ∈ details.zip made.1 →
        (.rightHalf, right) ∈ details.zip made.1 → rectOf? size made.2 left = some l →
          rectOf? size made.2 right = some r →
            l.start = area.start ∧ l.stop.x = r.start.x ∧ l.stop.y = area.stop.y ∧
              r.start.y = area.start.y ∧ r.stop = area.stop := by
  intro made
  obtain ⟨hlength, hparts⟩ := List.forall₂_iff_zip.1 (isPart_split f q details)
  have hwords := inWords_of_areaOf? harea
  have hrect : ∀ {d id}, (d, id) ∈ details.zip made.1 →
      rectOf? size made.2 id = d.rectIn? area := by
    intro d id hmem
    obtain ⟨hle, hpart⟩ := hparts hmem
    rw [rectOf?_part size (Nat.lt_of_lt_of_le hq hle) hpart, areaOf?_split size hq, harea,
      Option.bind_some]
  have hplace : ∀ {d id r}, (d, id) ∈ details.zip made.1 → rectOf? size made.2 id = some r →
      area.Measured ∧ d.rectIn area = r := by
    intro d id r hmem hr
    exact Detail.rectIn?_eq_some_iff.1 ((hrect hmem).symm.trans hr)
  refine ⟨hlength.symm, ?_, ?_, ?_, ?_⟩
  · intro d id hmem
    rw [hrect hmem]
    refine ⟨Detail.isSome_rectIn?_iff, fun r hr => ?_⟩
    obtain ⟨hmeasured, rfl⟩ := Detail.rectIn?_eq_some_iff.1 hr
    exact ⟨d.inWords_rectIn area, d.floors_rectIn area,
      fun hwidth hheight hfits => hfits.inside hwords ⟨hmeasured, hwidth, hheight⟩⟩
  · intro above id outer houter hupright hbelow
    exact hbelow.inside houter hupright
  · intro d id r d' id' r' hmem hmem' hr hr'
    obtain ⟨-, rfl⟩ := hplace hmem hr
    obtain ⟨-, rfl⟩ := hplace hmem' hr'
    exact ⟨fun hwidth hle => hle.cellOf_le hwidth _, fun hheight hle => hle.cellOf_le hheight _,
      fun heq => congrArg (Fraction.cellOf area.width area.start.x) heq,
      fun heq => congrArg (Fraction.cellOf area.height area.start.y) heq⟩
  · intro left l right r hleft hright hl hr
    obtain ⟨-, rfl⟩ := hplace hleft hl
    obtain ⟨-, rfl⟩ := hplace hright hr
    exact Detail.halves_fill hwords

/-- The left half of a screen, divided into halves again. Both lie on the screen
and share an edge. -/
theorem the_halves_of_a_half :
    let screen : Forest := ([Pane.ofPlacement .fullScreen] : Forest)
    let f := (screen.split 0 [.leftHalf]).2
    let made := f.split 1 [.leftHalf, .rightHalf]
    let size : Size := ⟨81, 25⟩
    let area : Rect := ⟨⟨0, 0⟩, ⟨40, 25⟩⟩
    areaOf? size f 1 = some area ∧ ∃ l r, rectOf? size made.2 2 = some l ∧
      rectOf? size made.2 3 = some r ∧ l.Inside area ∧ l.Inside ⟨⟨0, 0⟩, ⟨81, 25⟩⟩ ∧
      l.stop.x ≤ r.start.x ∧ r.stop = area.stop := by
  intro screen f made size area
  have harea : areaOf? size f 1 = some area := by decide +kernel
  have hwhole : areaOf? size made.2 0 = some ⟨⟨0, 0⟩, ⟨81, 25⟩⟩ := by decide +kernel
  have hmeasured : area.Measured := by decide
  have hupright : area.Upright := ⟨hmeasured, by decide, by decide⟩
  have hbelow : made.2.FitsBelow size 0 2 :=
    .deeper (.part Nat.zero_lt_one ⟨_, rfl, rfl⟩ Detail.fits_leftHalf)
      (show areaOf? size made.2 1 = some area by decide +kernel) hupright (Nat.lt_succ_self 1)
      ⟨_, rfl, rfl⟩ Detail.fits_leftHalf
  obtain ⟨-, hparts, hnested, happart, hhalves⟩ := parts_keep_inside_and_apart (f := f) (q := 1)
    (by decide) harea [.leftHalf, .rightHalf]
  have hleft : ((Detail.leftHalf, 2) : Detail × Nat) ∈ [Detail.leftHalf, .rightHalf].zip made.1 :=
    List.mem_cons_self
  have hright : ((Detail.rightHalf, 3) : Detail × Nat) ∈ [Detail.leftHalf, .rightHalf].zip made.1 :=
    List.mem_cons_of_mem _ List.mem_cons_self
  have hmeet : (Fraction.zero + Fraction.half).AtMost Fraction.half :=
    ⟨_, _, Fraction.zero_add_half, rfl, Int.le_refl _⟩
  obtain ⟨hsome, hplaced⟩ := hparts _ _ hleft
  obtain ⟨l, hl⟩ := Option.isSome_iff_exists.1 (hsome.2 hmeasured)
  obtain ⟨r, hr⟩ := Option.isSome_iff_exists.1 ((hparts _ _ hright).1.2 hmeasured)
  obtain ⟨-, -, hinside⟩ := hplaced l hl
  obtain ⟨l', hl', hscreen⟩ := hnested 0 2 _ hwhole ⟨by decide, by decide, by decide⟩ hbelow
  obtain rfl := Option.some.inj (hl'.symm.trans hl)
  obtain ⟨-, -, -, -, hstop⟩ := hhalves _ _ _ _ hleft hright hl hr
  exact ⟨harea, _, r, hl, hr, hinside (by decide) (by decide) Detail.fits_leftHalf, hscreen,
    (happart _ _ _ _ _ _ hleft hright hl hr).1 (by decide) hmeet, hstop⟩

end Forest

end TerminalPanes
