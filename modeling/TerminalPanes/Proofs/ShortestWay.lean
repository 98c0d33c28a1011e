-- The way to another point. Whoever always takes the first of the directions,
-- and asks for them again at every point, walks the shorter leg to its end and
-- then the longer one. No way is shorter, and no number on it leaves the words
-- where the two points are no further apart than a word can say.
import TerminalPanes.Proofs.PointText

namespace TerminalPanes

open Decimal (IsWord word?)

/-! ## Turns -/

/-- How many times a way turns into another direction. -/
def Direction.turns : List Direction → Nat
  | d :: e :: way => (if d = e then 0 else 1) + turns (e :: way)
  | _ => 0

theorem Direction.turns_replicate_succ (n : Nat) (d : Direction) (way : List Direction) :
    turns (List.replicate (n + 1) d ++ way) = turns (d :: way) := by
  induction n with
  | zero => rfl
  | succ n ih =>
    rw [List.replicate_succ, List.cons_append] at ih ⊢
    rw [List.replicate_succ, List.cons_append, turns, if_pos rfl, Nat.zero_add, ih]

/-- Two straight legs have one turn between them at most. -/
theorem Direction.turns_replicate_append_le (m n : Nat) (d e : Direction) :
    turns (List.replicate m d ++ List.replicate n e) ≤ 1 := by
  have hstraight : ∀ n, turns (List.replicate n e) = 0 := by
    intro n
    cases n with
    | zero => rfl
    | succ n => simpa [turns] using turns_replicate_succ n e []
  cases m with
  | zero => simp [hstraight]
  | succ m =>
    rw [turns_replicate_succ]
    cases n with
    | zero => exact Nat.zero_le 1
    | succ n =>
      have hrest := hstraight (n + 1)
      rw [List.replicate_succ] at hrest ⊢
      rw [turns, hrest]
      split <;> omega

namespace Point

variable {a b p q goal : Point} {d : Direction} {later way : List Direction}

/-! ## Steps -/

theorem step_east (p : Point) : p.step .east = ⟨p.x + 1, p.y⟩ :=
  congrArg (Point.mk (p.x + 1)) (Int.add_zero p.y)

theorem step_west (p : Point) : p.step .west = ⟨p.x - 1, p.y⟩ :=
  congrArg (Point.mk (p.x - 1)) (Int.add_zero p.y)

theorem step_south (p : Point) : p.step .south = ⟨p.x, p.y + 1⟩ :=
  congrArg (Point.mk · (p.y + 1)) (Int.add_zero p.x)

theorem step_north (p : Point) : p.step .north = ⟨p.x, p.y - 1⟩ :=
  congrArg (Point.mk · (p.y - 1)) (Int.add_zero p.x)

/-- How many steps two points are apart. -/
def distanceTo (a b : Point) : Nat := a.columnsTo b + a.rowsTo b

theorem distanceTo_le_step (a b : Point) (d : Direction) :
    a.distanceTo b ≤ (a.step d).distanceTo b + 1 := by
  cases d <;> simp only [step_east, step_west, step_south, step_north, distanceTo, columnsTo,
    rowsTo]
    <;> omega

/-- No way has fewer steps than two points are apart. -/
theorem distanceTo_le_length {way : List Direction} (h : way.foldl step a = b) :
    a.distanceTo b ≤ way.length := by
  induction way generalizing a with
  | nil =>
    cases h
    simp [distanceTo, columnsTo, rowsTo]
  | cons d way ih =>
    have hstep := distanceTo_le_step a b d
    have hrest := ih h
    rw [List.length_cons]
    omega

/-! ## Legs -/

variable {back on : Direction} {here there : Int}

/-- The way along one axis, from one coordinate to another. -/
def leg (back on : Direction) (here there : Int) : List Direction :=
  List.replicate (there - here).toNat on ++ List.replicate (here - there).toNat back

theorem leg_self (back on : Direction) (n : Int) : leg back on n n = [] := by
  simp [leg]

theorem leg_of_lt (h : here < there) :
    leg back on here there = on :: leg back on (here + 1) there := by
  have hon : (there - here).toNat = (there - (here + 1)).toNat + 1 := by omega
  have hback : (here - there).toNat = (here + 1 - there).toNat := by omega
  rw [leg, leg, hon, hback, List.replicate_succ, List.cons_append]

theorem leg_of_gt (h : there < here) :
    leg back on here there = back :: leg back on (here - 1) there := by
  have hon : (there - here).toNat = 0 := by omega
  have hon' : (there - (here - 1)).toNat = 0 := by omega
  have hback : (here - there).toNat = (here - 1 - there).toNat + 1 := by omega
  rw [leg, leg, hon, hon', hback, List.replicate_zero, List.nil_append, List.nil_append,
    List.replicate_succ]

theorem length_leg (back on : Direction) (here there : Int) :
    (leg back on here there).length = (there - here).natAbs := by
  rw [leg, List.length_append, List.length_replicate, List.length_replicate]
  omega

/-- A leg is straight. -/
theorem exists_leg_eq (back on : Direction) (here there : Int) :
    ∃ n d, leg back on here there = List.replicate n d := by
  rcases Int.le_total here there with h | h
  · have hback : (here - there).toNat = 0 := by omega
    exact ⟨(there - here).toNat, on, by rw [leg, hback, List.replicate_zero, List.append_nil]⟩
  · have hon : (there - here).toNat = 0 := by omega
    exact ⟨(here - there).toNat, back, by rw [leg, hon, List.replicate_zero, List.nil_append]⟩

/-- The whole shorter leg and then the whole longer one, the horizontal one first if both are
equally long. -/
def legsTo (a b : Point) : List Direction :=
  if a.rowsTo b < a.columnsTo b then leg .north .south a.y b.y ++ leg .west .east a.x b.x
  else leg .west .east a.x b.x ++ leg .north .south a.y b.y

example : legsTo ⟨0, 0⟩ ⟨3, -2⟩ = [.north, .north, .east, .east, .east] := rfl

theorem legsTo_of_columns_le (h : a.columnsTo b ≤ a.rowsTo b) :
    a.legsTo b = leg .west .east a.x b.x ++ leg .north .south a.y b.y := if_neg (Nat.not_lt.2 h)

theorem legsTo_of_rows_lt (h : a.rowsTo b < a.columnsTo b) :
    a.legsTo b = leg .north .south a.y b.y ++ leg .west .east a.x b.x := if_pos h

theorem legsTo_of_row (h : a.y = b.y) : a.legsTo b = leg .west .east a.x b.x := by
  unfold legsTo
  rw [h, leg_self, List.nil_append, List.append_nil, ite_self]

theorem legsTo_of_column (h : a.x = b.x) : a.legsTo b = leg .north .south a.y b.y := by
  unfold legsTo
  rw [h, leg_self, List.nil_append, List.append_nil, ite_self]

theorem length_legsTo (a b : Point) : (a.legsTo b).length = a.distanceTo b := by
  unfold legsTo distanceTo columnsTo rowsTo
  split
  · rw [List.length_append, length_leg, length_leg, Nat.add_comm]
  · rw [List.length_append, length_leg, length_leg]

theorem turns_legsTo_le (a b : Point) : Direction.turns (a.legsTo b) ≤ 1 := by
  obtain ⟨m, d, hhorizontal⟩ := exists_leg_eq .west .east a.x b.x
  obtain ⟨n, e, hvertical⟩ := exists_leg_eq .north .south a.y b.y
  unfold legsTo
  rw [hhorizontal, hvertical]
  split
  · exact Direction.turns_replicate_append_le n m e d
  · exact Direction.turns_replicate_append_le m n d e

/-! ## The first direction -/

/-- The direction along one axis. -/
def toward (back on : Direction) (here there : Int) : List Direction :=
  if here < there then [on] else if there < here then [back] else []

theorem toward_of_lt (h : here < there) : toward back on here there = [on] := if_pos h

theorem toward_of_gt (h : there < here) : toward back on here there = [back] := by
  rw [toward, if_neg (by omega), if_pos h]

theorem toward_self (back on : Direction) (n : Int) : toward back on n n = [] := by
  simp [toward]

theorem horizontalLeg_eq (a b : Point) : a.horizontalLeg b = toward .west .east a.x b.x := rfl

theorem verticalLeg_eq (a b : Point) : a.verticalLeg b = toward .north .south a.y b.y := rfl

theorem directionsTo_of_row (h : a.y = b.y) :
    a.directionsTo b = toward .west .east a.x b.x := by
  unfold directionsTo
  rw [horizontalLeg_eq, verticalLeg_eq, h, toward_self, List.nil_append, List.append_nil, ite_self]

theorem directionsTo_of_column (h : a.x = b.x) :
    a.directionsTo b = toward .north .south a.y b.y := by
  unfold directionsTo
  rw [horizontalLeg_eq, verticalLeg_eq, h, toward_self, List.nil_append, List.append_nil, ite_self]

/-- The direction in which the shorter leg begins, or the only one there is. -/
inductive Leads (a b : Point) : Direction → Prop
  | east (h : a.x < b.x) (hfirst : a.y = b.y ∨ a.columnsTo b ≤ a.rowsTo b) : Leads a b .east
  | west (h : b.x < a.x) (hfirst : a.y = b.y ∨ a.columnsTo b ≤ a.rowsTo b) : Leads a b .west
  | south (h : a.y < b.y) (hfirst : a.x = b.x ∨ a.rowsTo b < a.columnsTo b) : Leads a b .south
  | north (h : b.y < a.y) (hfirst : a.x = b.x ∨ a.rowsTo b < a.columnsTo b) : Leads a b .north

theorem eq_or_leads (a b : Point) : a = b ∨ ∃ d, Leads a b d := by
  -- Where the leg that would be first is empty, the other one leads.
  by_cases hrows : a.rowsTo b < a.columnsTo b
  · rcases Int.lt_trichotomy a.y b.y with hy | hy | hy
    · exact Or.inr ⟨.south, .south hy (Or.inr hrows)⟩
    · rcases Int.lt_trichotomy a.x b.x with hx | hx | hx
      · exact Or.inr ⟨.east, .east hx (Or.inl hy)⟩
      · simp [columnsTo, hx] at hrows
      · exact Or.inr ⟨.west, .west hx (Or.inl hy)⟩
    · exact Or.inr ⟨.north, .north hy (Or.inr hrows)⟩
  · have hcolumns := Nat.not_lt.1 hrows
    rcases Int.lt_trichotomy a.x b.x with hx | hx | hx
    · exact Or.inr ⟨.east, .east hx (Or.inr hcolumns)⟩
    · rcases Int.lt_trichotomy a.y b.y with hy | hy | hy
      · exact Or.inr ⟨.south, .south hy (Or.inl hx)⟩
      · exact Or.inl (by cases a; cases b; simp_all)
      · exact Or.inr ⟨.north, .north hy (Or.inl hx)⟩
    · exact Or.inr ⟨.west, .west hx (Or.inr hcolumns)⟩

theorem exists_directionsTo_of_horizontal (hfirst : a.y = b.y ∨ a.columnsTo b ≤ a.rowsTo b)
    (hleg : toward .west .east a.x b.x = [d]) : ∃ later, a.directionsTo b = d :: later := by
  rcases hfirst with hy | hcolumns
  · exact ⟨[], by rw [directionsTo_of_row hy, hleg]⟩
  · refine ⟨a.verticalLeg b, ?_⟩
    rw [directionsTo, if_neg (Nat.not_lt.2 hcolumns), horizontalLeg_eq, hleg, List.singleton_append]

theorem exists_directionsTo_of_vertical (hfirst : a.x = b.x ∨ a.rowsTo b < a.columnsTo b)
    (hleg : toward .north .south a.y b.y = [d]) : ∃ later, a.directionsTo b = d :: later := by
  rcases hfirst with hx | hrows
  · exact ⟨[], by rw [directionsTo_of_column hx, hleg]⟩
  · refine ⟨a.horizontalLeg b, ?_⟩
    rw [directionsTo, if_pos hrows, verticalLeg_eq, hleg, List.singleton_append]

/-- The direction that leads is the first. -/
theorem Leads.exists_directionsTo (h : Leads a b d) : ∃ later, a.directionsTo b = d :: later := by
  cases h with
  | east hx hfirst => exact exists_directionsTo_of_horizontal hfirst (toward_of_lt hx)
  | west hx hfirst => exact exists_directionsTo_of_horizontal hfirst (toward_of_gt hx)
  | south hy hfirst => exact exists_directionsTo_of_vertical hfirst (toward_of_lt hy)
  | north hy hfirst => exact exists_directionsTo_of_vertical hfirst (toward_of_gt hy)

theorem directionsTo_self (p : Point) : p.directionsTo p = [] := by
  rw [directionsTo_of_row rfl, toward_self]

theorem directionsTo_eq_nil_iff : a.directionsTo b = [] ↔ a = b := by
  constructor
  · intro hnil
    rcases eq_or_leads a b with heq | ⟨d, hd⟩
    · exact heq
    · obtain ⟨later, hlater⟩ := hd.exists_directionsTo
      rw [hlater] at hnil
      cases hnil
  · rintro rfl
    exact directionsTo_self a

theorem leads_of_directionsTo (h : a.directionsTo b = d :: later) : Leads a b d := by
  rcases eq_or_leads a b with rfl | ⟨first, hfirst⟩
  · rw [directionsTo_self] at h
    cases h
  · obtain ⟨later', hlater⟩ := hfirst.exists_directionsTo
    rw [hlater] at h
    cases h
    exact hfirst

/-! ## A step in the first direction -/

/-- The shorter leg stays the shorter one as it is walked. -/
theorem legsTo_of_horizontal {x : Int} (hfirst : a.y = b.y ∨ a.columnsTo b ≤ a.rowsTo b)
    (hleg : leg .west .east a.x b.x = d :: leg .west .east x b.x) :
    a.legsTo b = d :: legsTo ⟨x, a.y⟩ b := by
  rcases hfirst with hy | hcolumns
  · rw [legsTo_of_row hy, legsTo_of_row (a := ⟨x, a.y⟩) hy, hleg]
  · have hlength := congrArg List.length hleg
    rw [List.length_cons, length_leg, length_leg] at hlength
    have hnext : columnsTo ⟨x, a.y⟩ b ≤ rowsTo ⟨x, a.y⟩ b := by
      simp only [columnsTo, rowsTo] at *
      omega
    rw [legsTo_of_columns_le hcolumns, legsTo_of_columns_le hnext, hleg, List.cons_append]

theorem legsTo_of_vertical {y : Int} (hfirst : a.x = b.x ∨ a.rowsTo b < a.columnsTo b)
    (hleg : leg .north .south a.y b.y = d :: leg .north .south y b.y) :
    a.legsTo b = d :: legsTo ⟨a.x, y⟩ b := by
  rcases hfirst with hx | hrows
  · rw [legsTo_of_column hx, legsTo_of_column (a := ⟨a.x, y⟩) hx, hleg]
  · have hlength := congrArg List.length hleg
    rw [List.length_cons, length_leg, length_leg] at hlength
    have hnext : rowsTo ⟨a.x, y⟩ b < columnsTo ⟨a.x, y⟩ b := by
      simp only [columnsTo, rowsTo] at *
      omega
    rw [legsTo_of_rows_lt hrows, legsTo_of_rows_lt hnext, hleg, List.cons_append]

/-- The first direction is the first step of the legs, and the legs from the point that it
reaches are the rest of them. -/
theorem Leads.legsTo (h : Leads a b d) : a.legsTo b = d :: (a.step d).legsTo b := by
  cases h with
  | east hx hfirst =>
    rw [step_east]
    exact legsTo_of_horizontal hfirst (leg_of_lt hx)
  | west hx hfirst =>
    rw [step_west]
    exact legsTo_of_horizontal hfirst (leg_of_gt hx)
  | south hy hfirst =>
    rw [step_south]
    exact legsTo_of_vertical hfirst (leg_of_lt hy)
  | north hy hfirst =>
    rw [step_north]
    exact legsTo_of_vertical hfirst (leg_of_gt hy)

/-- A step in the first direction makes one leg shorter and leaves the other. -/
theorem Leads.nearer (h : Leads a b d) :
    (a.step d).columnsTo b ≤ a.columnsTo b ∧ (a.step d).rowsTo b ≤ a.rowsTo b ∧
      (a.step d).distanceTo b + 1 = a.distanceTo b := by
  cases h <;>
    simp only [step_east, step_west, step_south, step_north, distanceTo, columnsTo, rowsTo] <;>
      omega

/-- A step in the first direction does not leave the words, since it does not pass the goal. -/
theorem Leads.words (h : Leads a b d) (ha : a.Words) (hb : b.Words) : (a.step d).Words := by
  obtain ⟨⟨hxmin, hxmax⟩, hymin, hymax⟩ := ha
  obtain ⟨⟨hxmin', hxmax'⟩, hymin', hymax'⟩ := hb
  cases h <;> constructor <;> constructor <;>
    simp only [step_east, step_west, step_south, step_north] <;> omega

/-! ## Following the first direction -/

/-- From a point to a goal, always in the first of the directions there, which are asked for
again after every step, until there is none: the way taken, and where it ends. -/
inductive Follows (goal : Point) : Point → List Direction → Point → Prop
  | arrived {p : Point} (h : p.directionsTo goal = []) : Follows goal p [] p
  | onward {p q : Point} {d : Direction} {later way : List Direction}
      (h : p.directionsTo goal = d :: later) (hrest : Follows goal (p.step d) way q) :
      Follows goal p (d :: way) q

theorem legsTo_self (p : Point) : p.legsTo p = [] := by
  rw [legsTo_of_row rfl, leg_self]

/-- Following the first direction comes to an end, at the goal and by way of the legs. -/
theorem follows_legsTo (a b : Point) : Follows b a (a.legsTo b) b := by
  -- Each step is one step less to the goal.
  induction hn : a.distanceTo b generalizing a with
  | zero =>
    rcases eq_or_leads a b with rfl | ⟨d, hd⟩
    · rw [legsTo_self]
      exact .arrived (directionsTo_self a)
    · have hnearer := hd.nearer
      omega
  | succ n ih =>
    rcases eq_or_leads a b with rfl | ⟨d, hd⟩
    · rw [legsTo_self]
      exact .arrived (directionsTo_self a)
    · obtain ⟨later, hlater⟩ := hd.exists_directionsTo
      have hnearer := hd.nearer
      rw [hd.legsTo]
      exact .onward hlater (ih (a.step d) (by omega))

theorem Follows.unique (h : Follows goal p way q) : way = p.legsTo goal ∧ q = goal := by
  induction h with
  | arrived hnil =>
    rw [directionsTo_eq_nil_iff] at hnil
    subst hnil
    exact ⟨(legsTo_self _).symm, rfl⟩
  | onward hfirst _ ih =>
    exact ⟨by rw [(leads_of_directionsTo hfirst).legsTo, ← ih.1], ih.2⟩

theorem follows_iff : Follows b a way q ↔ way = a.legsTo b ∧ q = b := by
  constructor
  · exact Follows.unique
  · rintro ⟨rfl, rfl⟩
    exact follows_legsTo a q

/-! ## There and back -/

theorem columnsTo_comm (a b : Point) : b.columnsTo a = a.columnsTo b := by
  unfold columnsTo
  omega

theorem rowsTo_comm (a b : Point) : b.rowsTo a = a.rowsTo b := by
  unfold rowsTo
  omega

theorem toward_back (f : Direction → Direction) (hon : f on = back) (hback : f back = on) :
    toward back on there here = (toward back on here there).map f := by
  rcases Int.lt_trichotomy here there with h | rfl | h
  · rw [toward_of_lt h, toward_of_gt h, List.map_singleton, hon]
  · rw [toward_self, List.map_nil]
  · rw [toward_of_gt h, toward_of_lt h, List.map_singleton, hback]

/-- The directions back are the opposite ones, in the same order. -/
theorem directionsTo_back (a b : Point) :
    b.directionsTo a = (a.directionsTo b).map Direction.opposite := by
  have hhorizontal : b.horizontalLeg a = (a.horizontalLeg b).map Direction.opposite :=
    toward_back Direction.opposite rfl rfl
  have hvertical : b.verticalLeg a = (a.verticalLeg b).map Direction.opposite :=
    toward_back Direction.opposite rfl rfl
  unfold directionsTo
  rw [columnsTo_comm, rowsTo_comm, hhorizontal, hvertical, ← List.map_append, ← List.map_append]
  split <;> rfl

/-! ## Arithmetic on words -/

/-- The direction along one axis and the number of steps in it, if that number is a word. -/
def measuredLeg? (back on : Direction) (here there : Int) : Option (List (Direction × Int)) :=
  if here < there then (word? (there - here)).map fun n => [(on, n)]
  else if there < here then (word? (here - there)).map fun n => [(back, n)]
  else some []

/-- The directions in the order of the legs' lengths, if these are words. The sort is stable,
so the horizontal leg comes first if both are equally long. -/
def sortedDirections? (a b : Point) : Option (List Direction) := do
  let horizontal ← measuredLeg? .west .east a.x b.x
  let vertical ← measuredLeg? .north .south a.y b.y
  pure (((horizontal ++ vertical).mergeSort fun m n => m.2 ≤ n.2).map Prod.fst)

/-- No coordinate of one point differs from that of the other by more than a word can say,
whichever is taken from the other. -/
structure Near (a b : Point) : Prop where
  columns : IsWord (a.columnsTo b)
  rows : IsWord (a.rowsTo b)

theorem measuredLeg?_eq (back on : Direction) (here there : Int) :
    measuredLeg? back on here there =
      if IsWord (there - here).natAbs then
        some ((toward back on here there).map (·, ((there - here).natAbs : Int)))
      else none := by
  rcases Int.lt_trichotomy here there with h | rfl | h
  · have hlength : ((there - here).natAbs : Int) = there - here := by omega
    rw [measuredLeg?, if_pos h, toward_of_lt h, hlength, word?]
    split <;> rfl
  · have hzero : IsWord (here - here).natAbs := by simp [IsWord, Decimal.wordMin, Decimal.wordMax]
    rw [if_pos hzero, toward_self]
    simp [measuredLeg?]
  · have hlength : ((there - here).natAbs : Int) = here - there := by omega
    rw [measuredLeg?, if_neg (by omega), if_pos h, toward_of_gt h, hlength, word?]
    split <;> rfl

theorem length_toward_le (back on : Direction) (here there : Int) :
    (toward back on here there).length ≤ 1 := by
  unfold toward
  split
  · exact Nat.le_refl 1
  · split <;> simp

theorem map_fst_mergeSort {horizontal vertical : List Direction} (hh : horizontal.length ≤ 1)
    (hv : vertical.length ≤ 1) (columns rows : Nat) :
    ((horizontal.map (·, (columns : Int)) ++ vertical.map (·, (rows : Int))).mergeSort
        fun m n => m.2 ≤ n.2).map Prod.fst =
      if rows < columns then vertical ++ horizontal else horizontal ++ vertical := by
  rcases horizontal with _ | ⟨d, _ | ⟨_, _⟩⟩
  · rcases vertical with _ | ⟨e, _ | ⟨_, _⟩⟩
    · simp
    · simp
    · simp at hv
  · rcases vertical with _ | ⟨e, _ | ⟨_, _⟩⟩
    · simp
    · by_cases hrows : rows < columns
      · simp [List.mergeSort, hrows, Nat.not_le.2 hrows]
      · simp [List.mergeSort, hrows, Nat.not_lt.1 hrows]
    · simp at hv
  · simp at hh

/-- Sorted by the lengths of the legs, the directions come in their order, and they are found
just where no length is beyond the words. -/
theorem sortedDirections?_eq (a b : Point) :
    a.sortedDirections? b =
      if IsWord (a.columnsTo b) ∧ IsWord (a.rowsTo b) then some (a.directionsTo b) else none := by
  have hhorizontal : measuredLeg? .west .east a.x b.x =
      if IsWord (a.columnsTo b) then
        some ((toward .west .east a.x b.x).map (·, (a.columnsTo b : Int)))
      else none := measuredLeg?_eq .west .east a.x b.x
  have hvertical : measuredLeg? .north .south a.y b.y =
      if IsWord (a.rowsTo b) then
        some ((toward .north .south a.y b.y).map (·, (a.rowsTo b : Int)))
      else none := measuredLeg?_eq .north .south a.y b.y
  have hsorted := map_fst_mergeSort (length_toward_le .west .east a.x b.x)
    (length_toward_le .north .south a.y b.y) (a.columnsTo b) (a.rowsTo b)
  unfold sortedDirections?
  by_cases hx : IsWord (a.columnsTo b)
  · rw [hhorizontal, if_pos hx]
    by_cases hy : IsWord (a.rowsTo b)
    · rw [hvertical, if_pos hy, if_pos ⟨hx, hy⟩]
      exact congrArg some hsorted
    · rw [hvertical, if_neg hy, if_neg (not_and_of_not_right _ hy)]
      rfl
  · rw [hhorizontal, if_neg hx, if_neg (not_and_of_not_left _ hx)]
    rfl

theorem Near.sortedDirections? (h : Near a b) :
    a.sortedDirections? b = some (a.directionsTo b) := by
  rw [sortedDirections?_eq, if_pos ⟨h.columns, h.rows⟩]

theorem Near.symm (h : Near a b) : Near b a :=
  ⟨(columnsTo_comm a b).symm ▸ h.columns, (rowsTo_comm a b).symm ▸ h.rows⟩

theorem isWord_of_le {m n : Nat} (h : m ≤ n) (hn : IsWord n) : IsWord m := by
  obtain ⟨-, hmax⟩ := hn
  constructor
  · exact Int.le_trans (by decide) (Int.natCast_nonneg m)
  · omega

theorem Leads.near (h : Leads a b d) (hnear : Near a b) : Near (a.step d) b := by
  obtain ⟨hcolumns, hrows, -⟩ := h.nearer
  exact ⟨isWord_of_le hcolumns hnear.columns, isWord_of_le hrows hnear.rows⟩

/-- On the way the coordinates stay words, and the goal comes no further away. -/
theorem words_and_near_of_prefix {passed : List Direction} (hpassed : passed <+: a.legsTo b)
    (ha : a.Words) (hb : b.Words) (hnear : Near a b) :
    (passed.foldl step a).Words ∧ Near (passed.foldl step a) b := by
  induction passed generalizing a with
  | nil => exact ⟨ha, hnear⟩
  | cons d passed ih =>
    rcases eq_or_leads a b with rfl | ⟨first, hfirst⟩
    · rw [legsTo_self] at hpassed
      exact absurd (List.prefix_nil.1 hpassed) (List.cons_ne_nil d passed)
    · rw [hfirst.legsTo, List.cons_prefix_cons] at hpassed
      obtain ⟨rfl, hrest⟩ := hpassed
      exact ih hrest (hfirst.words ha hb) (hfirst.near hnear)

/-- Stepping in the first direction again and again ends, at the goal and nowhere else, after
as many steps as there are columns and rows between. The way is the whole shorter leg and then
the whole longer one, with one turn at most, and no other way to the goal has fewer steps. The
directions back are the opposite ones. Between two points of words, no further apart than a word
can say, every coordinate on the way is a word, and so is every length that the directions are
sorted by, there and back. -/
theorem the_first_direction_leads_the_shortest_way (a b : Point) :
    (∀ way q, Follows b a way q ↔ way = a.legsTo b ∧ q = b) ∧
      (a.legsTo b).length = (b.x - a.x).natAbs + (b.y - a.y).natAbs ∧
      Direction.turns (a.legsTo b) ≤ 1 ∧
      (∀ other : List Direction, other.foldl step a = b →
        (a.legsTo b).length ≤ other.length) ∧
      b.directionsTo a = (a.directionsTo b).map Direction.opposite ∧
      (a.Words → b.Words → Near a b → ∀ passed, passed <+: a.legsTo b →
        let p := passed.foldl step a
        p.Words ∧ p.sortedDirections? b = some (p.directionsTo b) ∧
          b.sortedDirections? p = some (b.directionsTo p)) := by
  have hlength := length_legsTo a b
  refine ⟨fun way q => follows_iff, hlength, turns_legsTo_le a b, fun other h => ?_,
    directionsTo_back a b, fun ha hb hnear passed hpassed => ?_⟩
  · rw [hlength]
    exact distanceTo_le_length h
  · obtain ⟨hwords, hrest⟩ := words_and_near_of_prefix hpassed ha hb hnear
    exact ⟨hwords, hrest.sortedDirections?, hrest.symm.sortedDirections?⟩

/-- Two legs of three steps each, and the widest row that a word can measure. -/
theorem a_tie_and_the_widest_row :
    Follows ⟨-1, -2⟩ ⟨2, 1⟩ [.west, .west, .west, .north, .north, .north] ⟨-1, -2⟩ ∧
      directionsTo ⟨-1, -2⟩ ⟨2, 1⟩ = [.east, .south] ∧
      sortedDirections? ⟨-2147483648, 1⟩ ⟨-1, 0⟩ = some [.north, .east] ∧
      sortedDirections? ⟨-1, 0⟩ ⟨-2147483648, 1⟩ = some [.south, .west] := by
  obtain ⟨hway, -, -, -, hback, -⟩ := the_first_direction_leads_the_shortest_way ⟨2, 1⟩ ⟨-1, -2⟩
  obtain ⟨-, -, -, -, -, hwords⟩ :=
    the_first_direction_leads_the_shortest_way ⟨-2147483648, 1⟩ ⟨-1, 0⟩
  obtain ⟨-, hthere, hthence⟩ :=
    hwords (by decide) (by decide) (by constructor <;> decide) [] List.nil_prefix
  exact ⟨(hway _ _).2 ⟨rfl, rfl⟩, hback, hthere, hthence⟩

end Point

end TerminalPanes
