-- Rounding to floating point numbers. What comes out can be held exactly, no
-- number that can be held is nearer, and of two that are equally near it is
-- the even one. Everything else follows from that: rounding keeps the order
-- and leaves alone what can be held already.
import TerminalPanes.Fraction
import TerminalPanes.Proofs.ColorText
import Mathlib.Tactic.Ring

namespace TerminalPanes

/-! ## What can be held -/

/-- At most 53 significant bits with zeros after them. Numbers of units of this
kind are held exactly by a floating point number. -/
def Held (n : Nat) : Prop := ∃ m k, n = m * 2 ^ k ∧ m ≤ 2 ^ 53

theorem held_of_le {n : Nat} (h : n ≤ 2 ^ 53) : Held n := ⟨n, 0, by simp, h⟩

theorem Held.mul_two_pow {n : Nat} (h : Held n) (k : Nat) : Held (n * 2 ^ k) := by
  obtain ⟨m, j, rfl, hm⟩ := h
  exact ⟨m, j + k, by rw [Nat.pow_add, Nat.mul_assoc], hm⟩

/-- What can be held is a multiple of a power of two, or less than 53 bits reach
up to from there. -/
theorem Held.dvd_or_lt {n : Nat} (h : Held n) (k : Nat) : 2 ^ k ∣ n ∨ n < 2 ^ 52 * 2 ^ k := by
  obtain ⟨m, j, rfl, hm⟩ := h
  by_cases hjk : k ≤ j
  · exact .inl (Dvd.dvd.mul_left (Nat.pow_dvd_pow 2 hjk) m)
  · have hle : m * 2 ^ j ≤ 2 ^ 52 * 2 ^ k := by
      calc m * 2 ^ j ≤ 2 ^ 53 * 2 ^ j := Nat.mul_le_mul_right _ hm
        _ = 2 ^ 52 * 2 ^ (j + 1) := by ring
        _ ≤ 2 ^ 52 * 2 ^ k := Nat.mul_le_mul_left _ (Nat.pow_le_pow_right (by omega) (by omega))
    rcases Nat.lt_or_eq_of_le hle with hlt | heq
    · exact .inr hlt
    · exact .inl (heq ▸ Nat.dvd_mul_left _ _)

/-- `r` is the number nearest to `x` that can be held. On a tie it is an even
multiple of the gap to the other one. -/
structure Rounded (x r : Int) : Prop where
  held : Held r.natAbs
  nearest : ∀ {e : Int}, Held e.natAbs → (r - x).natAbs ≤ (e - x).natAbs
  even : ∀ {e : Int}, Held e.natAbs → (e - x).natAbs = (r - x).natAbs → e ≠ r → 2 * (e - r) ∣ r

/-! ## Rounding does so -/

/-- The rounded quotient is off by half a divisor at most, and it is even where
it is off by just that. -/
theorem roundQuotient_spec (n : Nat) {d : Nat} (hd : 0 < d) :
    2 * n ≤ 2 * (roundQuotient n d * d) + d ∧ 2 * (roundQuotient n d * d) ≤ 2 * n + d ∧
      (2 * n = 2 * (roundQuotient n d * d) + d ∨ 2 * (roundQuotient n d * d) = 2 * n + d →
        roundQuotient n d % 2 = 0) := by
  have hn := Nat.div_add_mod n d
  have hlt := Nat.mod_lt n hd
  have hcomm : d * (n / d) = n / d * d := Nat.mul_comm _ _
  have hnext : (n / d + 1) * d = n / d * d + d := Nat.succ_mul _ _
  have hq : roundQuotient n d = if d < 2 * (n % d) ∨ d = 2 * (n % d) ∧ n / d % 2 = 1 then n / d + 1
      else n / d := by
    simp [roundQuotient]
  rw [hq]
  split
  · rw [hnext]
    omega
  · omega

/-- The spacing of the numbers around `n` that can be held. -/
def spacing (n : Nat) : Nat := 2 ^ (n.log2 + 1 - 53)

theorem roundRatio_eq (num den : Nat) :
    roundRatio num den =
      roundQuotient num (den * spacing (num / den)) * spacing (num / den) := rfl

theorem roundRatio_one (n : Nat) : roundRatio n 1 = roundQuotient n (spacing n) * spacing n := by
  rw [roundRatio_eq, Nat.div_one, Nat.one_mul]

theorem spacing_pos (n : Nat) : 0 < spacing n := Nat.two_pow_pos _

theorem lt_spacing_mul (n : Nat) : n < 2 ^ 53 * spacing n := by
  have hlt := @Nat.lt_log2_self n
  have hle : 2 ^ (n.log2 + 1) ≤ 2 ^ (53 + (n.log2 + 1 - 53)) :=
    Nat.pow_le_pow_right (by omega) (by omega)
  rw [Nat.pow_add 2 53] at hle
  exact Nat.lt_of_lt_of_le hlt hle

/-- Where the spacing is more than one, the number has all 53 bits above it. -/
theorem spacing_mul_le {n : Nat} (h : spacing n ≠ 1) : 2 ^ 52 * spacing n ≤ n := by
  have hlog : 53 ≤ n.log2 := by
    by_contra hlog
    exact h (by rw [spacing, show n.log2 + 1 - 53 = 0 by omega, Nat.pow_zero])
  have hn : n ≠ 0 := by
    rintro rfl
    simp at hlog
  have hpow : 2 ^ 52 * spacing n = 2 ^ n.log2 := by
    rw [spacing, ← Nat.pow_add]
    congr 1
    omega
  rw [hpow]
  exact Nat.log2_self_le hn

theorem held_roundRatio (num : Nat) {den : Nat} (hden : 0 < den) : Held (roundRatio num den) := by
  have hpos : 0 < den * spacing (num / den) := Nat.mul_pos hden (spacing_pos _)
  have hspec := roundQuotient_spec num hpos
  have hlt : num < 2 ^ 53 * (den * spacing (num / den)) := by
    rw [Nat.mul_comm den, ← Nat.mul_assoc]
    exact (Nat.div_lt_iff_lt_mul hden).1 (lt_spacing_mul (num / den))
  rw [roundRatio_eq]
  generalize den * spacing (num / den) = d at *
  have hq : roundQuotient num d ≤ 2 ^ 53 := by
    by_contra hq
    have hmul : (2 ^ 53 + 1) * d ≤ roundQuotient num d * d := Nat.mul_le_mul_right _ (by omega)
    rw [Nat.succ_mul] at hmul
    omega
  exact (held_of_le hq).mul_two_pow _

/-- Numbers that can be held and are no multiple of the spacing lie below all
that have 53 bits above it. -/
theorem dvd_or_lt_of_held {n e : Nat} (he : Held e) :
    spacing n ∣ e ∨ e < 2 ^ 52 * spacing n ∧ 2 ^ 52 * spacing n ≤ n := by
  by_cases h1 : spacing n = 1
  · exact .inl (h1 ▸ Nat.one_dvd e)
  · rcases he.dvd_or_lt (n.log2 + 1 - 53) with hdvd | hlt
    · exact .inl hdvd
    · exact .inr ⟨hlt, spacing_mul_le h1⟩

/-- Of the multiples of the spacing the rounded number is the nearest, and on a
tie it is an even multiple. -/
theorem nearest_multiple {n e : Nat} (h : spacing n ∣ e) :
    ((roundRatio n 1 : Int) - n).natAbs ≤ ((e : Int) - n).natAbs ∧
      (((e : Int) - n).natAbs = ((roundRatio n 1 : Int) - n).natAbs → e ≠ roundRatio n 1 →
        ((e : Int) - roundRatio n 1).natAbs = spacing n ∧
          roundQuotient n (spacing n) % 2 = 0) := by
  obtain ⟨j, rfl⟩ := h
  have hspec := roundQuotient_spec n (spacing_pos n)
  rw [roundRatio_one, Nat.mul_comm (spacing n) j]
  generalize roundQuotient n (spacing n) = q at *
  generalize spacing n = s at *
  rcases Nat.lt_trichotomy j q with hlt | rfl | hlt
  · have hstep : j * s + s ≤ q * s := by
      rw [← Nat.succ_mul]
      exact Nat.mul_le_mul_right s hlt
    omega
  · exact ⟨Nat.le_refl _, fun _ hne => absurd rfl hne⟩
  · have hstep : q * s + s ≤ j * s := by
      rw [← Nat.succ_mul]
      exact Nat.mul_le_mul_right s hlt
    omega

/-! ## Signs -/

theorem rounded_roundRatio (n : Nat) : Rounded n (roundRatio n 1) where
  held := held_roundRatio n Nat.one_pos
  nearest := by
    intro e he
    have hzero := (@nearest_multiple n 0 (Nat.dvd_zero _)).1
    rcases Int.le_total 0 e with hpos | hneg
    · obtain ⟨k, rfl⟩ := Int.eq_ofNat_of_zero_le hpos
      rcases @dvd_or_lt_of_held n k he with hdvd | ⟨hlt, hle⟩
      · exact (nearest_multiple hdvd).1
      · have hbits := (@nearest_multiple n (2 ^ 52 * spacing n) (Nat.dvd_mul_left _ _)).1
        omega
    · omega
  even := by
    intro e he htie hne
    have hzero := (@nearest_multiple n 0 (Nat.dvd_zero _)).1
    by_cases hpos : 0 ≤ e
    · obtain ⟨k, rfl⟩ := Int.eq_ofNat_of_zero_le hpos
      rcases @dvd_or_lt_of_held n k he with hdvd | ⟨hlt, hle⟩
      · obtain ⟨hgap, hq⟩ := (nearest_multiple hdvd).2 htie (by omega)
        obtain ⟨half, hhalf⟩ := Nat.dvd_of_mod_eq_zero hq
        have hr : (roundRatio n 1 : Int) = 2 * (spacing n : Int) * half := by
          rw [roundRatio_one, hhalf]
          push_cast
          ring
        rcases Int.natAbs_eq_iff.1 hgap with hgap | hgap
        · exact ⟨half, by rw [hgap, hr]⟩
        · exact ⟨-half, by rw [hgap, hr]; ring⟩
      · have hbits := (@nearest_multiple n (2 ^ 52 * spacing n) (Nat.dvd_mul_left _ _)).1
        omega
    · exfalso
      omega

theorem Rounded.neg {x r : Int} (h : Rounded x r) : Rounded (-x) (-r) where
  held := by
    rw [Int.natAbs_neg]
    exact h.held
  nearest := by
    intro e he
    have hmirror := @h.nearest (-e) (by rwa [Int.natAbs_neg])
    omega
  even := by
    intro e he htie hne
    have hmirror := @h.even (-e) (by rwa [Int.natAbs_neg]) (by omega) (by omega)
    have hgap : 2 * (e - -r) = -(2 * (-e - r)) := by ring
    rw [hgap]
    exact Int.dvd_neg.2 (Int.neg_dvd.2 hmirror)

theorem rounded_roundSigned (x : Int) : Rounded x (roundSigned x 1) := by
  unfold roundSigned
  split
  · rename_i hneg
    have h := (rounded_roundRatio x.natAbs).neg
    rwa [show -(x.natAbs : Int) = x by omega] at h
  · rename_i hpos
    have h := rounded_roundRatio x.natAbs
    rwa [show (x.natAbs : Int) = x by omega] at h

/-! ## Order -/

namespace Rounded

variable {x y r s e : Int}

theorem le_of_le (h : Rounded x r) (he : Held e.natAbs) (hx : x ≤ e) : r ≤ e := by
  have hnear := h.nearest he
  omega

theorem ge_of_ge (h : Rounded x r) (he : Held e.natAbs) (hx : e ≤ x) : e ≤ r := by
  have hnear := h.nearest he
  omega

/-- What can be held is left alone. -/
theorem eq_of_held (h : Rounded x r) (hx : Held x.natAbs) : r = x :=
  Int.le_antisymm (h.le_of_le hx (Int.le_refl x)) (h.ge_of_ge hx (Int.le_refl x))

theorem le_of_lt (hx : Rounded x r) (hy : Rounded y s) (hlt : x < y) : r ≤ s := by
  by_contra hsr
  -- Neither result can lie between the two numbers, so both numbers lie between
  -- the results, and then each result is nearer to the other's number.
  have hfar : y < r := by
    by_contra hle
    exact hsr (hy.ge_of_ge hx.held (by omega))
  have hbefore : s < x := by
    by_contra hle
    exact hsr (hx.le_of_le hy.held (by omega))
  have hnear := hx.nearest hy.held
  have hnear' := hy.nearest hx.held
  omega

end Rounded

theorem roundSigned_mono {x y : Int} (h : x ≤ y) : roundSigned x 1 ≤ roundSigned y 1 := by
  rcases Int.lt_or_eq_of_le h with hlt | rfl
  · exact (rounded_roundSigned x).le_of_lt (rounded_roundSigned y) hlt
  · exact Int.le_refl _

/-! ## Fractions -/

namespace Fraction

theorem exists_one_eq : ∃ k : Nat, one = ((2 ^ k : Nat) : Int) := by
  have h : ∃ k : Nat, one = ((Nat.pow 2 k : Nat) : Int) := ⟨_, rfl⟩
  simpa only [Nat.pow_eq] using h

theorem overflow_pos : 0 < overflow := by decide +kernel

-- The powers behind these two are too large to be computed with.
attribute [local irreducible] one overflow

/-- The number is one of the 64-bit floating point numbers. -/
def IsDouble : Fraction → Prop
  | finite units => Held units.natAbs ∧ units.natAbs < overflow
  | _ => True

theorem isDouble_zero : zero.IsDouble := ⟨held_of_le (Nat.zero_le _), overflow_pos⟩

/-- What is too large to be finite is infinite, and the rest is rounded. -/
theorem ofUnits_cases (num : Int) (den : Nat) :
    (∃ negative, ofUnits num den = infinite negative) ∨
      ofUnits num den = finite (roundSigned num den) := by
  by_cases h : overflow ≤ (roundSigned num den).natAbs
  · exact .inl ⟨_, if_pos h⟩
  · exact .inr (if_neg h)

theorem finite_add (a b : Int) : finite a + finite b = ofUnits (a + b) 1 := rfl

/-- A sum is no less than its first part when the second is not negative. -/
theorem le_of_add_eq_finite {a b s : Int} (ha : Held a.natAbs) (hb : 0 ≤ b)
    (h : finite a + finite b = finite s) : a ≤ s := by
  rw [finite_add] at h
  rcases ofUnits_cases (a + b) 1 with ⟨negative, hinf⟩ | hfin
  · rw [hinf] at h
    contradiction
  · rw [hfin] at h
    cases h
    exact (rounded_roundSigned (a + b)).ge_of_ge ha (by omega)

/-! ## Cells -/

theorem one_pos : 0 < one := by
  obtain ⟨k, hk⟩ := exists_one_eq
  rw [hk]
  exact Int.natCast_pos.2 (Nat.two_pow_pos k)

theorem toWord_mono {m n : Int} (h : m ≤ n) : toWord m ≤ toWord n := by
  unfold toWord
  omega

theorem toWord_of_isWord {n : Int} (h : Decimal.IsWord n) : toWord n = n := by
  obtain ⟨hmin, hmax⟩ := h
  unfold toWord
  omega

/-- The cell is the floor of the exact product and sum, rounded once. -/
theorem cellOf_finite (length start units : Int) :
    ∃ r, Rounded (length * units + start * one) r ∧
      cellOf length start (finite units) = toWord (r / one) :=
  ⟨_, rounded_roundSigned _, rfl⟩

theorem cellOf_le {length a b : Int} (h : length * a ≤ length * b) (start : Int) :
    cellOf length start (finite a) ≤ cellOf length start (finite b) :=
  toWord_mono (Int.ediv_le_ediv one_pos (roundSigned_mono (by omega)))

/-- A greater fraction of a length that is not negative leads to no cell
before. -/
theorem cellOf_mono {length a b : Int} (hlength : 0 ≤ length) (hab : a ≤ b) (start : Int) :
    cellOf length start (finite a) ≤ cellOf length start (finite b) :=
  cellOf_le (Int.mul_le_mul_of_nonneg_left hab hlength) start

/-- Where the exact result is a cell, rounding does not change it. -/
theorem cellOf_of_exact {length start units cell : Int} (hcell : Decimal.IsWord cell)
    (h : length * units + start * one = cell * one) :
    cellOf length start (finite units) = cell := by
  have hheld : Held (cell * one).natAbs := by
    obtain ⟨k, hk⟩ := exists_one_eq
    rw [Int.natAbs_mul, hk, Int.natAbs_natCast]
    refine (held_of_le ?_).mul_two_pow k
    obtain ⟨hmin, hmax⟩ := hcell
    unfold Decimal.wordMin at hmin
    unfold Decimal.wordMax at hmax
    omega
  rw [cellOf, h, (rounded_roundSigned _).eq_of_held hheld]
  rw [Int.mul_ediv_cancel _ (Int.ne_of_gt one_pos)]
  exact toWord_of_isWord hcell

theorem cellOf_zero (length : Int) {start : Int} (h : Decimal.IsWord start) :
    cellOf length start zero = start :=
  cellOf_of_exact h (by rw [Int.mul_zero, Int.zero_add])

theorem cellOf_whole {length start : Int} (h : Decimal.IsWord (start + length)) :
    cellOf length start whole = start + length :=
  cellOf_of_exact h (by ring)

/-- Half of a length ends between its ends, whichever comes first. -/
theorem cellOf_half_between {length start : Int} (hstart : Decimal.IsWord start)
    (hstop : Decimal.IsWord (start + length)) :
    min start (start + length) ≤ cellOf length start half ∧
      cellOf length start half ≤ max start (start + length) := by
  obtain ⟨units, hhalf, hsome, hless⟩ : ∃ units, half = finite units ∧ 0 ≤ units ∧ units ≤ one :=
    ⟨_, rfl, by decide +kernel, by decide +kernel⟩
  have hzero : cellOf length start (finite 0) = start := cellOf_zero length hstart
  have hwhole : cellOf length start (finite one) = start + length := cellOf_whole hstop
  rw [hhalf]
  rcases Int.le_total 0 length with h | h
  · have hlow := cellOf_mono h hsome start
    have hhigh := cellOf_mono h hless start
    omega
  · have hlow := cellOf_le (Int.mul_le_mul_of_nonpos_left h hless) start
    have hhigh := cellOf_le (Int.mul_le_mul_of_nonpos_left h hsome) start
    omega

end Fraction

end TerminalPanes
