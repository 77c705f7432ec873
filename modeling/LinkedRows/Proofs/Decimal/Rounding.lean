/-
# Decimals that round to a double

A finite double is a whole number times a power of two, and the rationals nearer to it than to any
other double form an interval around it: half a unit up and down, or a quarter down where the
doubles below are twice as dense.  The ends belong to it when the significand is even
(`Encloses`).

What `roundsTo` decides in whole numbers is membership in that interval (`roundsTo_iff`), and a
quotient in the interval is rounded to the double (`ofRatio_of_encloses`), so a decimal in it reads
as the double (`nearestBinary64_of_encloses`).
-/

import LinkedRows.Decimal.Reader
import Mathlib.Algebra.Order.Field.Power
import Mathlib.Data.Rat.Cast.Order
import Mathlib.Tactic.FieldSimp
import Mathlib.Tactic.Linarith
import Mathlib.Tactic.NormNum
import Mathlib.Tactic.Positivity
import Mathlib.Tactic.Ring

namespace LinkedRows

theorem pow2_eq (n : Nat) : pow2 n = 2 ^ n := rfl

theorem pow10_eq (n : Nat) : pow10 n = 10 ^ n := rfl

/-- A power with any whole exponent is a quotient of powers. -/
theorem zpow_eq_div {b : ℚ} (hb : b ≠ 0) (i : ℤ) : b ^ i = b ^ i.toNat / b ^ (-i).toNat := by
  rw [eq_div_iff (pow_ne_zero _ hb), ← zpow_natCast b (-i).toNat, ← zpow_natCast b i.toNat,
    ← zpow_add₀ hb]
  congr 1
  omega

/-- A quotient of whole numbers, scaled by a power from above or from below. -/
theorem ratio_scaled {b : ℚ} (hb : b ≠ 0) (num den : ℚ) (i : ℤ) :
    num * b ^ i.toNat / (den * b ^ (-i).toNat) = num / den * b ^ i := by
  rw [zpow_eq_div hb, mul_div_mul_comm]

namespace Decimal

/-- The number that a decimal is. -/
def toRat (d : Decimal) : ℚ := d.digits * 10 ^ d.exponent

theorem compareScaled_eq (a : Nat) (i : Int) (b : Nat) (j : Int) :
    compareScaled a i b j = compare ((a : ℚ) * 10 ^ i) (b * 2 ^ j) := by
  have hleft : (a : ℚ) * 10 ^ i = ((a * pow10 i.toNat * pow2 (-j).toNat : ℕ) : ℚ) /
      (10 ^ (-i).toNat * 2 ^ (-j).toNat) := by
    rw [zpow_eq_div (by norm_num), pow10_eq, pow2_eq]
    push_cast
    field_simp
  have hright : (b : ℚ) * 2 ^ j = ((b * pow2 j.toNat * pow10 (-i).toNat : ℕ) : ℚ) /
      (10 ^ (-i).toNat * 2 ^ (-j).toNat) := by
    rw [zpow_eq_div (by norm_num), pow10_eq, pow2_eq]
    push_cast
    field_simp
  have hpos : (0 : ℚ) < 10 ^ (-i).toNat * 2 ^ (-j).toNat := by positivity
  rw [compareScaled, hleft, hright]
  rcases lt_trichotomy (a * pow10 i.toNat * pow2 (-j).toNat) (b * pow2 j.toNat * pow10 (-i).toNat)
    with h | h | h
  · rw [compare_lt_iff_lt.2 h, eq_comm, compare_lt_iff_lt, div_lt_div_iff_of_pos_right hpos]
    exact_mod_cast h
  · rw [compare_eq_iff_eq.2 h, eq_comm, compare_eq_iff_eq, h]
  · rw [compare_gt_iff_gt.2 h, eq_comm, compare_gt_iff_gt, div_lt_div_iff_of_pos_right hpos]
    exact_mod_cast h

end Decimal

namespace Binary64

/-! ## The numbers that round to a double -/

variable {x : Binary64} {v : ℚ}

/-- The size of a finite double. -/
def size (x : Binary64) : ℚ := x.significand * 2 ^ x.scale

/-- How far down from a double the numbers reach that round to it, in units of its last place: half
a unit, or a quarter if the doubles below are twice as dense. -/
def reachBelow (x : Binary64) : ℚ := if x.fraction = 0 ∧ 1 < x.exponentField then 1 / 4 else 1 / 2

/-- The numbers that round to a finite double without its sign. -/
structure Encloses (x : Binary64) (v : ℚ) : Prop where
  above : (x.significand - x.reachBelow) * 2 ^ x.scale ≤ v
  below : v ≤ (x.significand + 1 / 2) * 2 ^ x.scale
  /-- The ends round to a neighbour if the significand is odd. -/
  inside : x.significand % 2 = 1 → (x.significand - x.reachBelow) * 2 ^ x.scale < v ∧
    v < (x.significand + 1 / 2) * 2 ^ x.scale

theorem unit_pos (x : Binary64) : (0 : ℚ) < 2 ^ x.scale := zpow_pos (by norm_num) _

/-- A number between the ends rounds to the double. -/
theorem encloses_of_lt (hbelow : (x.significand - x.reachBelow) * 2 ^ x.scale < v)
    (habove : v < (x.significand + 1 / 2) * 2 ^ x.scale) : Encloses x v :=
  ⟨hbelow.le, habove.le, fun _ => ⟨hbelow, habove⟩⟩

end Binary64

namespace Decimal

open Binary64

variable {d : Decimal} {x : Binary64}

/-- The comparisons of whole numbers tell whether a decimal rounds to a double. -/
theorem roundsTo_iff (hx : 0 < x.significand) : d.roundsTo x = true ↔ Encloses x d.toRat := by
  have hquarter : (2 : ℚ) ^ (x.scale - 2) = 2 ^ x.scale / 4 := by
    rw [zpow_sub₀ (by norm_num)]
    norm_num
  have hupper : ((4 * x.significand + 2 : ℕ) : ℚ) * 2 ^ (x.scale - 2) =
      (x.significand + 1 / 2) * 2 ^ x.scale := by
    rw [hquarter]
    push_cast
    ring
  have hlower : (((if x.fraction = 0 ∧ 1 < x.exponentField then 4 * x.significand - 1
      else 4 * x.significand - 2 : ℕ) : ℕ) : ℚ) * 2 ^ (x.scale - 2) =
      (x.significand - x.reachBelow) * 2 ^ x.scale := by
    rw [hquarter, reachBelow]
    split
    · rw [Nat.cast_sub (by omega)]
      push_cast
      ring
    · rw [Nat.cast_sub (by omega)]
      push_cast
      ring
  unfold roundsTo
  dsimp only
  rw [compareScaled_eq, compareScaled_eq, hlower, hupper, ← toRat]
  split
  · rename_i heven
    simp only [Bool.and_eq_true, bne_iff_ne, ne_eq, compare_lt_iff_lt, compare_gt_iff_gt, not_lt]
    constructor
    · rintro ⟨habove, hbelow⟩
      exact ⟨habove, hbelow, fun hodd => by omega⟩
    · exact fun h => ⟨h.above, h.below⟩
  · rename_i hodd
    simp only [Bool.and_eq_true, beq_iff_eq, compare_lt_iff_lt, compare_gt_iff_gt]
    constructor
    · rintro ⟨hbelow, habove⟩
      exact encloses_of_lt hbelow habove
    · exact fun h => h.inside (by omega)

end Decimal

namespace Binary64

/-! ## Rounding a quotient -/

/-- A quotient that is at most half away from a whole number rounds to it; from exactly half only if
the number is even. -/
theorem roundHalfEven_eq {num den k : Nat} (hden : 0 < den)
    (hlow : 2 * k * den ≤ 2 * num + den) (hhigh : 2 * num ≤ 2 * k * den + den)
    (hodd : k % 2 = 1 → 2 * k * den < 2 * num + den ∧ 2 * num < 2 * k * den + den) :
    roundHalfEven num den = k := by
  have hdiv : den * (num / den) + num % den = num := Nat.div_add_mod num den
  have hmod : num % den < den := Nat.mod_lt _ hden
  unfold roundHalfEven
  dsimp only
  generalize num / den = whole at hdiv ⊢
  generalize num % den = rest at hdiv hmod ⊢
  obtain hk | hk | hk | hk : k + 1 ≤ whole ∨ k = whole ∨ k = whole + 1 ∨ whole + 2 ≤ k := by omega
  · nlinarith
  · subst hk
    split
    · rfl
    · split
      · nlinarith
      · have : k % 2 = 0 := by
          by_contra hk
          have := hodd (by omega)
          nlinarith
        omega
  · subst hk
    split
    · nlinarith
    · split
      · rfl
      · have : (whole + 1) % 2 = 0 := by
          by_contra hk
          have := hodd (by omega)
          nlinarith
        omega
  · nlinarith

/-- The same with the quotient as a rational. -/
theorem roundHalfEven_of_near {num den k : Nat} (hden : 0 < den)
    (hlow : (k - 1 / 2 : ℚ) ≤ num / den) (hhigh : (num / den : ℚ) ≤ k + 1 / 2)
    (hodd : k % 2 = 1 → (k - 1 / 2 : ℚ) < num / den ∧ (num / den : ℚ) < k + 1 / 2) :
    roundHalfEven num den = k := by
  have hd : (0 : ℚ) < den := by exact_mod_cast hden
  refine roundHalfEven_eq hden ?_ ?_ fun hk => ?_
  · rw [le_div_iff₀ hd] at hlow
    have : (2 * k * den : ℚ) ≤ 2 * num + den := by linarith
    exact_mod_cast this
  · rw [div_le_iff₀ hd] at hhigh
    have : (2 * num : ℚ) ≤ 2 * k * den + den := by linarith
    exact_mod_cast this
  · obtain ⟨hlow, hhigh⟩ := hodd hk
    rw [lt_div_iff₀ hd] at hlow
    rw [div_lt_iff₀ hd] at hhigh
    have h₁ : (2 * k * den : ℚ) < 2 * num + den := by linarith
    have h₂ : (2 * num : ℚ) < 2 * k * den + den := by linarith
    exact ⟨by exact_mod_cast h₁, by exact_mod_cast h₂⟩

/-- A positive number is between the power of two that `log2` gives and the next one. -/
theorem log2_bounds {n : Nat} (hn : 0 < n) :
    (2 : ℚ) ^ (Nat.log2 n : ℤ) ≤ n ∧ (n : ℚ) < 2 ^ ((Nat.log2 n : ℤ) + 1) := by
  have hlow := Nat.log2_self_le (Nat.pos_iff_ne_zero.1 hn)
  have hhigh := @Nat.lt_log2_self n
  refine ⟨?_, ?_⟩
  · rw [zpow_natCast]
    exact_mod_cast hlow
  · rw [← Nat.cast_succ, zpow_natCast]
    exact_mod_cast hhigh

theorem floorLog2_bounds {num den : Nat} (hnum : 0 < num) (hden : 0 < den) :
    (2 : ℚ) ^ floorLog2 num den ≤ num / den ∧ (num / den : ℚ) < 2 ^ (floorLog2 num den + 1) := by
  have hd : (0 : ℚ) < den := by exact_mod_cast hden
  obtain ⟨hnumLow, hnumHigh⟩ := log2_bounds hnum
  obtain ⟨hdenLow, hdenHigh⟩ := log2_bounds hden
  -- The difference of the logarithms is at most one too great.
  set guess : ℤ := (Nat.log2 num : ℤ) - Nat.log2 den with hguess
  have hlow : (2 : ℚ) ^ (guess - 1) < num / den := by
    rw [lt_div_iff₀ hd]
    calc (2 : ℚ) ^ (guess - 1) * den < 2 ^ (guess - 1) * 2 ^ ((Nat.log2 den : ℤ) + 1) := by gcongr
      _ = 2 ^ (Nat.log2 num : ℤ) := by
        rw [← zpow_add₀ (by norm_num)]
        congr 1
        omega
      _ ≤ num := hnumLow
  have hhigh : (num / den : ℚ) < 2 ^ (guess + 1) := by
    rw [div_lt_iff₀ hd]
    calc (num : ℚ) < 2 ^ ((Nat.log2 num : ℤ) + 1) := hnumHigh
      _ = 2 ^ (guess + 1) * 2 ^ (Nat.log2 den : ℤ) := by
        rw [← zpow_add₀ (by norm_num)]
        congr 1
        omega
      _ ≤ 2 ^ (guess + 1) * den := by gcongr
  have hreached : (if 0 ≤ guess then den * pow2 guess.toNat ≤ num
      else den ≤ num * pow2 (-guess).toNat) ↔ (2 : ℚ) ^ guess ≤ num / den := by
    rw [le_div_iff₀ hd, zpow_eq_div (by norm_num)]
    simp only [pow2_eq]
    split
    · have hzero : (-guess).toNat = 0 := by omega
      rw [hzero, pow_zero, div_one, mul_comm]
      exact_mod_cast Iff.rfl
    · have hzero : guess.toNat = 0 := by omega
      rw [hzero, pow_zero, one_div, inv_mul_le_iff₀ (by positivity), mul_comm]
      exact_mod_cast Iff.rfl
  unfold floorLog2
  dsimp only
  rw [← hguess]
  by_cases h : (2 : ℚ) ^ guess ≤ num / den
  · rw [if_pos (by simpa using hreached.2 h)]
    exact ⟨h, hhigh⟩
  · rw [if_neg (by simpa using mt hreached.1 h)]
    refine ⟨hlow.le, ?_⟩
    rw [sub_add_cancel]
    exact lt_of_not_ge h

variable {x : Binary64} {num den k : Nat} {q : ℤ}

theorem floorLog2_eq (hnum : 0 < num) (hden : 0 < den) (hlow : (2 : ℚ) ^ q ≤ num / den)
    (hhigh : (num / den : ℚ) < 2 ^ (q + 1)) : floorLog2 num den = q := by
  obtain ⟨hlow', hhigh'⟩ := floorLog2_bounds hnum hden
  have h₁ : q < floorLog2 num den + 1 :=
    (zpow_lt_zpow_iff_right₀ (by norm_num)).1 (hlow.trans_lt hhigh')
  have h₂ : floorLog2 num den < q + 1 :=
    (zpow_lt_zpow_iff_right₀ (by norm_num)).1 (hlow'.trans_lt hhigh)
  omega

/-- Counting units `2 ^ q` divides by the unit from above or from below. -/
theorem roundHalfEven_units (num den : Nat) (q : ℤ) :
    (if 0 ≤ q then roundHalfEven num (den * pow2 q.toNat)
      else roundHalfEven (num * pow2 (-q).toNat) den) =
      roundHalfEven (num * pow2 (-q).toNat) (den * pow2 q.toNat) := by
  split
  · rw [show (-q).toNat = 0 by omega, pow2_eq 0, pow_zero, mul_one]
  · rw [show q.toNat = 0 by omega, pow2_eq 0, pow_zero, mul_one]

/-- A quotient in units `2 ^ q`. -/
theorem ratio_units (num den : Nat) (q : ℤ) :
    ((num * pow2 (-q).toNat : ℕ) : ℚ) / (den * pow2 q.toNat : ℕ) = num / den / 2 ^ q := by
  have h := ratio_scaled (by norm_num : (2 : ℚ) ≠ 0) num den (-q)
  rw [neg_neg, zpow_neg, ← div_eq_mul_inv] at h
  rw [← h, pow2_eq, pow2_eq]
  push_cast
  rfl

/-- A quotient near a whole number of units `2 ^ q`. -/
theorem roundHalfEven_scaled (hden : 0 < den) (hlow : (k - 1 / 2) * (2 : ℚ) ^ q ≤ num / den)
    (hhigh : (num / den : ℚ) ≤ (k + 1 / 2) * 2 ^ q)
    (hodd : k % 2 = 1 → (k - 1 / 2) * (2 : ℚ) ^ q < num / den ∧
      (num / den : ℚ) < (k + 1 / 2) * 2 ^ q) :
    (if 0 ≤ q then roundHalfEven num (den * pow2 q.toNat)
      else roundHalfEven (num * pow2 (-q).toNat) den) = k := by
  have hunit : (0 : ℚ) < 2 ^ q := by positivity
  rw [roundHalfEven_units]
  refine roundHalfEven_of_near (Nat.mul_pos hden (by rw [pow2_eq]; positivity)) ?_ ?_ fun h => ?_
  · rwa [ratio_units, le_div_iff₀ hunit]
  · rwa [ratio_units, div_le_iff₀ hunit]
  · rw [ratio_units, lt_div_iff₀ hunit, div_lt_iff₀ hunit]
    exact hodd h

/-! ## The bits of a double -/

/-- The 63 bits below the sign. -/
def unsignedBits (x : Binary64) : Nat := x.exponentField * 2 ^ 52 + x.fraction

theorem fraction_lt (x : Binary64) : x.fraction < 2 ^ 52 :=
  Nat.mod_lt _ (by norm_num [pow2_eq])

theorem exponentField_lt (x : Binary64) : x.exponentField < 2 ^ 11 :=
  Nat.mod_lt _ (by norm_num [pow2_eq])

theorem significand_lt (x : Binary64) : x.significand < 2 ^ 53 := by
  have := x.fraction_lt
  unfold significand
  rw [pow2_eq]
  split <;> omega

theorem ofSigned_unsignedBits (x : Binary64) : ofSigned x.isNegative x.unsignedBits = x := by
  have hbits : x.bits.toNat < 2 ^ 64 := x.bits.toNat_lt
  have hnat : (if x.isNegative then pow2 63 + x.unsignedBits else x.unsignedBits) =
      x.bits.toNat := by
    unfold isNegative unsignedBits exponentField fraction
    rw [pow2_eq, pow2_eq, pow2_eq]
    by_cases h : 2 ^ 63 ≤ x.bits.toNat
    · simp only [h, decide_true, if_true]
      omega
    · simp only [h, decide_false, Bool.false_eq_true, if_false]
      omega
  rw [ofSigned, hnat, UInt64.ofNat_toNat]

/-- The exponent's place and the significand add up to the bits. -/
theorem unsignedBits_eq (x : Binary64) :
    (x.scale + 1074).toNat * 2 ^ 52 + x.significand = x.unsignedBits := by
  simp only [scale, significand, unsignedBits, pow2_eq]
  split <;> omega

theorem unsignedBits_lt (hx : x.isFinite = true) : x.unsignedBits < infinityBits := by
  have h₁ := x.exponentField_lt
  have h₂ := x.fraction_lt
  have h₃ : x.exponentField ≠ 2047 := by simpa [isFinite] using hx
  simp only [unsignedBits, infinityBits, pow2_eq]
  omega

/-! ## Rounding to a double -/

theorem reachBelow_le (x : Binary64) : x.reachBelow ≤ 1 / 2 := by
  unfold reachBelow
  split <;> norm_num

theorem reachBelow_of_odd (h : x.significand % 2 = 1) : x.reachBelow = 1 / 2 := by
  refine if_neg fun hx => ?_
  simp only [significand, hx.1, pow2_eq] at h
  split at h <;> omega

theorem Encloses.pos {v : ℚ} (h : Encloses x v) (hx : 0 < x.significand) : 0 < v := by
  have h₁ : (1 : ℚ) ≤ x.significand := by exact_mod_cast hx
  have h₂ := x.reachBelow_le
  have h₃ := x.unit_pos
  have h₄ := h.above
  have : (0 : ℚ) < (x.significand - x.reachBelow) * 2 ^ x.scale := by
    apply mul_pos _ h₃
    linarith
  linarith

/-- What rounds to a double from below the power of two under its size rounds up to the power. -/
theorem Encloses.power_of_lt {v : ℚ} (h : Encloses x v) (hx : 1 < x.exponentField)
    (hlt : v < 2 ^ (x.scale + 52)) : x.significand = 2 ^ 52 ∧ x.reachBelow = 1 / 4 := by
  have hsignificand : x.significand = 2 ^ 52 + x.fraction := by
    unfold significand
    rw [if_neg (by omega), pow2_eq]
  have hless : (x.significand - x.reachBelow : ℚ) < 2 ^ 52 := by
    have h₁ := h.above.trans_lt hlt
    rw [zpow_add₀ (by norm_num), mul_comm] at h₁
    exact_mod_cast lt_of_mul_lt_mul_left h₁ x.unit_pos.le
  have hfraction : x.fraction = 0 := by
    by_contra hne
    have h₁ : (1 : ℚ) ≤ x.fraction := by exact_mod_cast Nat.one_le_iff_ne_zero.2 hne
    have h₂ : (x.significand : ℚ) = 2 ^ 52 + x.fraction := by exact_mod_cast hsignificand
    have h₃ := x.reachBelow_le
    linarith
  exact ⟨by rw [hsignificand, hfraction, add_zero], if_pos ⟨hfraction, hx⟩⟩

theorem scale_bounds (hfinite : x.isFinite = true) : -1074 ≤ x.scale ∧ x.scale ≤ 971 := by
  have h₁ := x.exponentField_lt
  have h₂ : x.exponentField ≠ 2047 := by simpa [isFinite] using hfinite
  unfold scale
  omega

theorem two_pow_le : (2 : ℚ) ^ (1024 : ℤ) ≤ 10 ^ (309 : ℤ) := by
  rw [zpow_ofNat, zpow_ofNat]
  calc (2 : ℚ) ^ 1024 = 2 * (2 ^ 93) ^ 11 := by rw [← pow_mul, ← pow_succ']
    _ ≤ 10 * (10 ^ 28) ^ 11 := by gcongr <;> norm_num
    _ = 10 ^ 309 := by rw [← pow_mul, ← pow_succ']

/-- A power of ten below half the least double. -/
theorem ten_pow_le : (10 : ℚ) ^ (-325 : ℤ) ≤ 1 / 2 * 2 ^ (-1074 : ℤ) := by
  have hsmall : (2 : ℚ) ^ (51 : ℤ) ≤ 10 ^ (16 : ℤ) := by norm_num
  calc (10 : ℚ) ^ (-325 : ℤ) = (10 ^ (16 : ℤ) * 10 ^ (309 : ℤ))⁻¹ := by
        rw [← zpow_add₀ (by norm_num), ← zpow_neg]
        norm_num only
    _ ≤ (2 ^ (51 : ℤ) * 2 ^ (1024 : ℤ))⁻¹ := by
        have := two_pow_le
        gcongr
    _ = 2 ^ (-1 : ℤ) * 2 ^ (-1074 : ℤ) := by
        rw [← zpow_add₀ (by norm_num), ← zpow_neg, ← zpow_add₀ (by norm_num)]
        norm_num only
    _ = 1 / 2 * 2 ^ (-1074 : ℤ) := by rw [zpow_neg_one, one_div]

/-- What rounds to a positive double is well within the range that reading looks at. -/
theorem Encloses.range {v : ℚ} (hfinite : x.isFinite = true) (hx : 0 < x.significand)
    (h : Encloses x v) : (10 : ℚ) ^ (-325 : ℤ) ≤ v ∧ v < 10 ^ (309 : ℤ) := by
  obtain ⟨hleast, hmost⟩ := scale_bounds hfinite
  refine ⟨le_trans ?_ h.above, h.below.trans_lt (lt_of_lt_of_le ?_ two_pow_le)⟩
  · have hhalf : (1 / 2 : ℚ) ≤ x.significand - x.reachBelow := by
      have h₁ : (1 : ℚ) ≤ x.significand := by exact_mod_cast hx
      have h₂ := x.reachBelow_le
      linarith
    calc (10 : ℚ) ^ (-325 : ℤ) ≤ 1 / 2 * 2 ^ (-1074 : ℤ) := ten_pow_le
      _ ≤ (x.significand - x.reachBelow) * 2 ^ x.scale := by
          gcongr
          norm_num
  · have hm : (x.significand : ℚ) + 1 ≤ 2 ^ (53 : ℤ) := by exact_mod_cast x.significand_lt
    have hunit := x.unit_pos
    calc ((x.significand : ℚ) + 1 / 2) * 2 ^ x.scale < 2 ^ (53 : ℤ) * 2 ^ x.scale := by
          gcongr
          linarith
      _ ≤ 2 ^ (53 : ℤ) * 2 ^ (971 : ℤ) := by
          gcongr
          norm_num
      _ = 2 ^ (1024 : ℤ) := by rw [← zpow_add₀ (by norm_num)]; norm_num only

/-- Rounding a quotient that is `k` units of `2 ^ q`, where `q` is the spacing at its size. -/
theorem ofRatio_of_units {negative : Bool} (hnum : num ≠ 0)
    (hq : max (floorLog2 num den - 52) (-1074) = q)
    (hk : (if 0 ≤ q then roundHalfEven num (den * pow2 q.toNat)
      else roundHalfEven (num * pow2 (-q).toNat) den) = k) :
    ofRatio negative num den =
      ofSigned negative (min ((q + 1074).toNat * 2 ^ 52 + k) infinityBits) := by
  unfold ofRatio
  rw [if_neg hnum]
  dsimp only
  rw [hq, hk, pow2_eq 52]

/-- Where the spacing of the double is the one at the size of the quotient. -/
theorem ofRatio_at_scale {negative : Bool} (hfinite : x.isFinite = true) (hnum : num ≠ 0)
    (hden : 0 < den) (h : Encloses x (num / den))
    (hq : max (floorLog2 num den - 52) (-1074) = x.scale) :
    ofRatio negative num den = ofSigned negative x.unsignedBits := by
  have hunit := x.unit_pos
  rw [ofRatio_of_units hnum hq (roundHalfEven_scaled hden ?_ h.below ?_), unsignedBits_eq,
    min_eq_left (unsignedBits_lt hfinite).le]
  · refine le_trans ?_ h.above
    gcongr
    exact x.reachBelow_le
  · intro hodd
    have := h.inside hodd
    rwa [reachBelow_of_odd hodd] at this

/-- Below a power of two the doubles are twice as dense; the quotient rounds up to the power. -/
theorem ofRatio_below_power {negative : Bool} (hfinite : x.isFinite = true) (hnum : 0 < num)
    (hden : 0 < den) (h : Encloses x (num / den)) (hexponent : 1 < x.exponentField)
    (hbelow : (num / den : ℚ) < 2 ^ (x.scale + 52)) :
    ofRatio negative num den = ofSigned negative x.unsignedBits := by
  obtain ⟨hsignificand, hreach⟩ := h.power_of_lt hexponent hbelow
  have hm : (x.significand : ℚ) = 2 ^ 52 := by exact_mod_cast hsignificand
  have hhalf : (2 : ℚ) ^ x.scale = 2 * 2 ^ (x.scale - 1) := by
    rw [zpow_sub₀ (by norm_num)]
    field_simp
  have hlog : floorLog2 num den = x.scale + 51 := by
    refine floorLog2_eq hnum hden ?_ ?_
    · refine le_trans ?_ h.above
      rw [zpow_add₀ (by norm_num), mul_comm, hm, hreach]
      gcongr
      norm_num
    · rwa [add_assoc]
  have hq : max (floorLog2 num den - 52) (-1074) = x.scale - 1 := by
    unfold scale at hlog ⊢
    omega
  have hcarry : (x.scale - 1 + 1074).toNat * 2 ^ 52 + 2 * x.significand = x.unsignedBits := by
    rw [← unsignedBits_eq, hsignificand]
    unfold scale
    omega
  have hhalfUnit : (0 : ℚ) < 2 ^ (x.scale - 1) := by positivity
  rw [ofRatio_of_units hnum.ne' hq (k := 2 * x.significand) (roundHalfEven_scaled hden ?_ ?_ ?_),
    hcarry, min_eq_left (unsignedBits_lt hfinite).le]
  · refine le_trans ?_ h.above
    rw [hhalf, hreach]
    push_cast
    linarith
  · refine le_trans hbelow.le ?_
    rw [zpow_add₀ (by norm_num), hhalf]
    push_cast
    rw [hm]
    norm_num
    nlinarith
  · intro hodd
    omega

/-- **A quotient in the interval of a double is rounded to it.** -/
theorem ofRatio_of_encloses {negative : Bool} (hfinite : x.isFinite = true)
    (hx : 0 < x.significand) (hden : 0 < den) (h : Encloses x (num / den)) :
    ofRatio negative num den = ofSigned negative x.unsignedBits := by
  have hd : (0 : ℚ) < den := by exact_mod_cast hden
  have hnum : 0 < num := by
    have := (div_pos_iff_of_pos_right hd).1 (h.pos hx)
    exact_mod_cast this
  have hunit := x.unit_pos
  obtain ⟨hscale, -⟩ := scale_bounds hfinite
  have hsize : (num / den : ℚ) < 2 ^ (x.scale + 52 + 1) := by
    have hm : (x.significand : ℚ) + 1 ≤ 2 ^ 53 := by exact_mod_cast x.significand_lt
    rw [add_assoc, zpow_add₀ (by norm_num), mul_comm]
    norm_num at hm ⊢
    nlinarith [h.below]
  have hlog : floorLog2 num den ≤ x.scale + 52 := by
    have := (floorLog2_bounds hnum hden).1.trans_lt hsize
    have := (zpow_lt_zpow_iff_right₀ (by norm_num : (1 : ℚ) < 2)).1 this
    omega
  by_cases hsmall : x.exponentField ≤ 1
  · -- At the least exponents the spacing is the least one.
    refine ofRatio_at_scale hfinite hnum.ne' hden h ?_
    unfold scale at hscale hlog ⊢
    omega
  by_cases hreached : (2 : ℚ) ^ (x.scale + 52) ≤ num / den
  · refine ofRatio_at_scale hfinite hnum.ne' hden h ?_
    rw [floorLog2_eq hnum hden hreached hsize]
    omega
  · exact ofRatio_below_power hfinite hnum hden h (not_le.1 hsmall) (not_le.1 hreached)

end Binary64

namespace Decimal

open Binary64

variable {x : Binary64} {v : ℚ}

/-- A positive number has as many digits as the first power of ten above it has zeros. -/
theorem digitCount_bounds {n : Nat} (hn : 0 < n) :
    (10 : ℚ) ^ ((digitCount n : ℤ) - 1) ≤ n ∧ (n : ℚ) < 10 ^ (digitCount n : ℤ) := by
  have hpos : 0 < digitCount n := Nat.length_toDigits_pos
  refine ⟨?_, ?_⟩
  · rw [show (digitCount n : ℤ) - 1 = (digitCount n - 1 : ℕ) by omega, zpow_natCast]
    by_cases hone : digitCount n = 1
    · rw [hone, Nat.sub_self, pow_zero]
      exact_mod_cast hn
    · have h : ¬digitCount n ≤ digitCount n - 1 := by omega
      rw [digitCount, Nat.length_toDigits_le_iff (by norm_num) (by unfold digitCount at *; omega),
        not_lt] at h
      exact_mod_cast h
  · rw [zpow_natCast]
    exact_mod_cast (Nat.length_toDigits_le_iff (by norm_num) hpos).1 le_rfl

/-- The power of ten at the leading digit of a decimal. -/
theorem toRat_bounds {d : Decimal} (hdigits : d.digits ≠ 0) :
    (10 : ℚ) ^ (d.exponent + digitCount d.digits - 1) ≤ d.toRat ∧
      d.toRat < 10 ^ (d.exponent + digitCount d.digits) := by
  obtain ⟨hfew, hmany⟩ := digitCount_bounds (Nat.pos_of_ne_zero hdigits)
  constructor
  · rw [toRat, add_sub_assoc, zpow_add₀ (by norm_num), mul_comm]
    gcongr
  · rw [toRat, zpow_add₀ (by norm_num), mul_comm]
    gcongr

/-- The quotient of whole numbers that a decimal is. -/
theorem toRat_eq_div (d : Decimal) : d.toRat =
    ((d.digits * pow10 d.exponent.toNat : ℕ) : ℚ) / (pow10 (-d.exponent).toNat : ℕ) := by
  rw [toRat, zpow_eq_div (by norm_num), pow10_eq, pow10_eq]
  push_cast
  rw [mul_div_assoc]

/-- **A decimal in the interval of a double reads as the double.** -/
theorem nearestBinary64_of_encloses {d : Decimal} (hfinite : x.isFinite = true)
    (hx : 0 < x.significand) (h : Encloses x d.toRat) :
    nearestBinary64 x.isNegative d.digits d.exponent = x := by
  obtain ⟨hlow, hhigh⟩ := h.range hfinite hx
  have hdigits : d.digits ≠ 0 := by
    intro hzero
    have := h.pos hx
    simp [toRat, hzero] at this
  obtain ⟨hfew, hmany⟩ := toRat_bounds hdigits
  have hleast : ¬d.exponent + digitCount d.digits < -330 := by
    have := (zpow_lt_zpow_iff_right₀ (by norm_num : (1 : ℚ) < 10)).1 (hlow.trans_lt hmany)
    omega
  have hmost : ¬311 < d.exponent + digitCount d.digits := by
    have := (zpow_lt_zpow_iff_right₀ (by norm_num : (1 : ℚ) < 10)).1 (hfew.trans_lt hhigh)
    omega
  unfold nearestBinary64
  dsimp only
  rw [if_neg (by tauto), if_neg hmost, ofRatio_of_encloses hfinite hx
    (by rw [pow10_eq]; positivity) (by rwa [← toRat_eq_div]), ofSigned_unsignedBits]

end Decimal
end LinkedRows
