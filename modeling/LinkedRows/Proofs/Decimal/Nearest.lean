/-
# Every number is rounded to the nearest double

`Rounding` gives the double that a decimal in its interval is rounded to; here is the other
direction, for every decimal there is.  A quotient is rounded to a whole number `k` of units `2 ^ q`
(`Near`), where the unit is the spacing of the doubles at its size.  Below `2 ^ 52` units the double
is subnormal, at `2 ^ 53` the carry goes into the exponent, and if it reaches the exponent of the
infinities the number was at least half a unit above the greatest double (`ofRatio_rounds`).
-/

import LinkedRows.Proofs.Decimal.Rounding

namespace LinkedRows
namespace Binary64

variable {negative : Bool} {v : ℚ} {num den k m : Nat} {q : ℤ}

/-- A double is what a number with a sign is rounded to: the number is in the interval of the
double, or the double is infinite and the number at least half a unit above the greatest one. -/
structure Rounds (negative : Bool) (v : ℚ) (x : Binary64) : Prop where
  sign : x.isNegative = negative
  size : (x.isFinite = true ∧ Encloses x v) ∨
    (x = infinity negative ∧ (2 ^ 53 - 1 / 2) * 2 ^ (971 : ℤ) ≤ v)

/-! ## The fields of a word that is put together -/

theorem bits_ofSigned (hm : m < 2 ^ 63) :
    (ofSigned negative m).bits.toNat = if negative then 2 ^ 63 + m else m := by
  rw [ofSigned, pow2_eq, UInt64.toNat_ofNat', Nat.mod_eq_of_lt]
  split <;> omega

theorem isNegative_ofSigned (hm : m < 2 ^ 63) : (ofSigned negative m).isNegative = negative := by
  rw [isNegative, bits_ofSigned hm, pow2_eq]
  cases negative with
  | true => simp
  | false => simpa using hm

theorem exponentField_ofSigned (hm : m < 2 ^ 63) :
    (ofSigned negative m).exponentField = m / 2 ^ 52 := by
  rw [exponentField, bits_ofSigned hm, pow2_eq, pow2_eq]
  split <;> omega

theorem fraction_ofSigned (hm : m < 2 ^ 63) : (ofSigned negative m).fraction = m % 2 ^ 52 := by
  rw [fraction, bits_ofSigned hm, pow2_eq]
  split <;> omega

theorem infinityBits_eq : infinityBits = 2047 * 2 ^ 52 := by
  rw [infinityBits, pow2_eq]

/-! ## Whole numbers of units -/

/-- A number is nearer to `k` units `2 ^ q` than to any other whole number of them, or half-way and
`k` is even. -/
structure Near (q : ℤ) (k : Nat) (v : ℚ) : Prop where
  above : (k - 1 / 2) * 2 ^ q ≤ v
  below : v ≤ (k + 1 / 2) * 2 ^ q
  inside : k % 2 = 1 → (k - 1 / 2) * 2 ^ q < v ∧ v < (k + 1 / 2) * 2 ^ q

theorem roundHalfEven_bounds (num : Nat) (hden : 0 < den) :
    2 * roundHalfEven num den * den ≤ 2 * num + den ∧
      2 * num ≤ 2 * roundHalfEven num den * den + den ∧
      (roundHalfEven num den % 2 = 1 → 2 * roundHalfEven num den * den < 2 * num + den ∧
        2 * num < 2 * roundHalfEven num den * den + den) := by
  have hdiv : den * (num / den) + num % den = num := Nat.div_add_mod num den
  have hmod : num % den < den := Nat.mod_lt _ hden
  unfold roundHalfEven
  dsimp only
  generalize num / den = whole at hdiv ⊢
  generalize num % den = rest at hdiv hmod ⊢
  split
  · refine ⟨?_, ?_, fun _ => ⟨?_, ?_⟩⟩ <;> nlinarith
  split
  · refine ⟨?_, ?_, fun _ => ⟨?_, ?_⟩⟩ <;> nlinarith
  · -- Half-way the result is even.
    have hhalf : 2 * rest = den := by omega
    have heven : (whole + whole % 2) % 2 = 0 := by omega
    obtain h | h : whole % 2 = 0 ∨ whole % 2 = 1 := by omega
    · rw [h] at heven ⊢
      refine ⟨?_, ?_, fun hodd => by omega⟩ <;> nlinarith
    · rw [h] at heven ⊢
      refine ⟨?_, ?_, fun hodd => by omega⟩ <;> nlinarith

/-- A quotient is near the whole number of units that it is rounded to. -/
theorem near_roundHalfEven (hden : 0 < den) (num : Nat) (q : ℤ) :
    Near q (roundHalfEven (num * pow2 (-q).toNat) (den * pow2 q.toNat)) (num / den) := by
  have hunit : (0 : ℚ) < 2 ^ q := by positivity
  have hscaled : 0 < den * pow2 q.toNat := Nat.mul_pos hden (by rw [pow2_eq]; positivity)
  have hd : (0 : ℚ) < (den * pow2 q.toNat : ℕ) := by exact_mod_cast hscaled
  have hvalue : (num / den : ℚ) =
      (num * pow2 (-q).toNat : ℕ) / (den * pow2 q.toNat : ℕ) * 2 ^ q := by
    rw [ratio_units, div_mul_cancel₀ _ hunit.ne']
  obtain ⟨habove, hbelow, hinside⟩ := roundHalfEven_bounds (num * pow2 (-q).toNat) hscaled
  rw [hvalue]
  generalize num * pow2 (-q).toNat = num, den * pow2 q.toNat = den at *
  generalize roundHalfEven num den = k at *
  have hge : (2 * k * den : ℚ) ≤ 2 * num + den := by exact_mod_cast habove
  have hle : (2 * num : ℚ) ≤ 2 * k * den + den := by exact_mod_cast hbelow
  refine ⟨?_, ?_, fun hodd => ?_⟩
  · rw [mul_le_mul_iff_of_pos_right hunit, le_div_iff₀ hd]
    linarith
  · rw [mul_le_mul_iff_of_pos_right hunit, div_le_iff₀ hd]
    linarith
  · obtain ⟨habove, hbelow⟩ := hinside hodd
    have hgt : (2 * k * den : ℚ) < 2 * num + den := by exact_mod_cast habove
    have hlt : (2 * num : ℚ) < 2 * k * den + den := by exact_mod_cast hbelow
    rw [mul_lt_mul_iff_of_pos_right hunit, mul_lt_mul_iff_of_pos_right hunit, lt_div_iff₀ hd,
      div_lt_iff₀ hd]
    constructor <;> linarith

/-! ## From units to a double -/

theorem Near.le (h : Near q k v) (hbelow : v < 2 ^ 53 * 2 ^ q) : k ≤ 2 ^ 53 := by
  have hunit : (0 : ℚ) < 2 ^ q := by positivity
  have hk : (k - 1 / 2 : ℚ) < 2 ^ 53 :=
    (mul_lt_mul_iff_of_pos_right hunit).1 (h.above.trans_lt hbelow)
  by_contra hmore
  have : ((2 ^ 53 + 1 : ℕ) : ℚ) ≤ k := by exact_mod_cast not_le.1 hmore
  push_cast at this
  linarith

theorem Near.ge (h : Near q k v) (habove : 2 ^ 52 * 2 ^ q ≤ v) : 2 ^ 52 ≤ k := by
  have hunit : (0 : ℚ) < 2 ^ q := by positivity
  have hk : (2 ^ 52 : ℚ) ≤ k + 1 / 2 :=
    (mul_le_mul_iff_of_pos_right hunit).1 (habove.trans h.below)
  by_contra hless
  have : (k + 1 : ℚ) ≤ 2 ^ 52 := by exact_mod_cast not_le.1 hless
  linarith

/-- With the spacing of a double as the unit, its significand is the whole number of them. -/
theorem Near.encloses {x : Binary64} (h : Near x.scale x.significand v)
    (hpower : x.fraction = 0 ∧ 1 < x.exponentField → x.significand * 2 ^ x.scale ≤ v) :
    Encloses x v := by
  have hunit := x.unit_pos
  refine ⟨?_, h.below, fun hodd => ?_⟩
  · unfold reachBelow
    split
    · rename_i hx
      refine le_trans ?_ (hpower hx)
      gcongr
      linarith
    · exact h.above
  · rw [reachBelow_of_odd hodd]
    exact h.inside hodd

/-- Fewer than `2 ^ 53` units stay in their binade. -/
theorem Near.rounds_of_lt (h : Near q k v) (hq : -1074 ≤ q)
    (habove : -1074 < q → 2 ^ 52 * 2 ^ q ≤ v) (hk : k < 2 ^ 53)
    (hfinite : (q + 1074).toNat * 2 ^ 52 + k < infinityBits) :
    Rounds negative v (ofSigned negative ((q + 1074).toNat * 2 ^ 52 + k)) := by
  rw [infinityBits_eq] at hfinite
  have hbits : (q + 1074).toNat * 2 ^ 52 + k < 2 ^ 63 := by omega
  have hleast : k < 2 ^ 52 → q = -1074 := by
    intro hk
    by_contra hne
    have := h.ge (habove (by omega))
    omega
  set x := ofSigned negative ((q + 1074).toNat * 2 ^ 52 + k) with hx
  have hfield : x.exponentField = ((q + 1074).toNat * 2 ^ 52 + k) / 2 ^ 52 :=
    exponentField_ofSigned hbits
  have hfraction : x.fraction = ((q + 1074).toNat * 2 ^ 52 + k) % 2 ^ 52 := fraction_ofSigned hbits
  have hscale : x.scale = q := by
    unfold scale
    omega
  have hsignificand : x.significand = k := by
    unfold significand
    rw [pow2_eq]
    split <;> omega
  refine ⟨isNegative_ofSigned hbits, .inl ⟨?_, ?_⟩⟩
  · rw [isFinite, bne_iff_ne]
    omega
  · refine Near.encloses (by rwa [hscale, hsignificand]) fun hpower => ?_
    have hk : k = 2 ^ 52 := by omega
    rw [hscale, hsignificand, hk]
    exact_mod_cast habove (by omega)

/-- `2 ^ 53` units are the least double of the next binade. -/
theorem Near.rounds_of_carry (h : Near q (2 ^ 53) v) (hq : -1074 ≤ q)
    (hbelow : v < 2 ^ 53 * 2 ^ q)
    (hfinite : (q + 1074).toNat * 2 ^ 52 + 2 ^ 53 < infinityBits) :
    Rounds negative v (ofSigned negative ((q + 1074).toNat * 2 ^ 52 + 2 ^ 53)) := by
  rw [infinityBits_eq] at hfinite
  have hbits : (q + 1074).toNat * 2 ^ 52 + 2 ^ 53 < 2 ^ 63 := by omega
  set x := ofSigned negative ((q + 1074).toNat * 2 ^ 52 + 2 ^ 53) with hx
  have hfield : x.exponentField = ((q + 1074).toNat * 2 ^ 52 + 2 ^ 53) / 2 ^ 52 :=
    exponentField_ofSigned hbits
  have hfraction : x.fraction = ((q + 1074).toNat * 2 ^ 52 + 2 ^ 53) % 2 ^ 52 :=
    fraction_ofSigned hbits
  have hscale : (2 : ℚ) ^ x.scale = 2 * 2 ^ q := by
    rw [show x.scale = q + 1 by unfold scale; omega, zpow_add_one₀ (by norm_num), mul_comm]
  have hsignificand : x.significand = 2 ^ 52 := by
    unfold significand
    rw [pow2_eq]
    split <;> omega
  have hm : (x.significand : ℚ) = 2 ^ 52 := by exact_mod_cast hsignificand
  have hreach : x.reachBelow = 1 / 4 := if_pos (by omega)
  refine ⟨isNegative_ofSigned hbits, .inl ⟨?_, ?_, ?_, fun hodd => by omega⟩⟩
  · rw [isFinite, bne_iff_ne]
    omega
  · rw [hm, hreach, hscale]
    refine le_trans (le_of_eq ?_) h.above
    push_cast
    ring
  · rw [hm, hscale]
    have hunit : (0 : ℚ) < 2 ^ q := by positivity
    linarith

/-- Units that reach the exponent of the infinities are at least half a unit above the greatest
double. -/
theorem Near.rounds_of_overflow (h : Near q k v) (hk : k ≤ 2 ^ 53)
    (habove : -1074 < q → 2 ^ 52 * 2 ^ q ≤ v)
    (hinfinite : infinityBits ≤ (q + 1074).toNat * 2 ^ 52 + k) :
    Rounds negative v (infinity negative) := by
  rw [infinityBits_eq] at hinfinite
  refine ⟨isNegative_ofSigned (by rw [infinityBits_eq]; omega), .inr ⟨rfl, ?_⟩⟩
  obtain rfl | hq : q = 971 ∨ 972 ≤ q := by omega
  · -- The carry out of the greatest binade.
    obtain rfl : k = 2 ^ 53 := by omega
    exact_mod_cast h.above
  · refine le_trans ?_ (habove (by omega))
    calc ((2 ^ 53 - 1 / 2) * 2 ^ (971 : ℤ) : ℚ) ≤ 2 ^ 52 * 2 ^ (972 : ℤ) := by
          rw [show (972 : ℤ) = 971 + 1 by norm_num, zpow_add_one₀ (by norm_num)]
          have hunit : (0 : ℚ) < 2 ^ (971 : ℤ) := by positivity
          generalize (2 : ℚ) ^ (971 : ℤ) = unit at hunit ⊢
          linarith
      _ ≤ 2 ^ 52 * 2 ^ q := by gcongr; norm_num

/-- **A quotient is rounded to the nearest double**, to the even one of two, and from half a unit
above the greatest one on to an infinity. -/
theorem ofRatio_rounds (negative : Bool) (hnum : 0 < num) (hden : 0 < den) :
    Rounds negative (num / den) (ofRatio negative num den) := by
  obtain ⟨hlow, hhigh⟩ := floorLog2_bounds hnum hden
  set q := max (floorLog2 num den - 52) (-1074) with hq
  have hbelow : (num / den : ℚ) < 2 ^ 53 * 2 ^ q := by
    rw [← zpow_natCast, ← zpow_add₀ (by norm_num)]
    refine hhigh.trans_le (zpow_le_zpow_right₀ (by norm_num) ?_)
    push_cast
    omega
  have habove : -1074 < q → (2 ^ 52 * 2 ^ q : ℚ) ≤ num / den := by
    intro hless
    rw [← zpow_natCast, ← zpow_add₀ (by norm_num)]
    refine le_trans (zpow_le_zpow_right₀ (by norm_num) ?_) hlow
    push_cast
    omega
  have hnear := near_roundHalfEven hden num q
  rw [ofRatio_of_units hnum.ne' hq.symm (roundHalfEven_units num den q)]
  generalize roundHalfEven (num * pow2 (-q).toNat) (den * pow2 q.toNat) = k at hnear ⊢
  have hk := hnear.le hbelow
  by_cases hinfinite : infinityBits ≤ (q + 1074).toNat * 2 ^ 52 + k
  · rw [min_eq_right hinfinite]
    exact hnear.rounds_of_overflow hk habove hinfinite
  · rw [not_le] at hinfinite
    rw [min_eq_left hinfinite.le]
    obtain rfl | hk := hk.eq_or_lt
    · exact hnear.rounds_of_carry (by omega) hbelow hinfinite
    · exact hnear.rounds_of_lt (by omega) habove hk hinfinite

/-! ## Decimals -/

/-- Half the least double and less is rounded to zero. -/
theorem rounds_zero (negative : Bool) (h : 0 ≤ v) (hsmall : v ≤ 1 / 2 * 2 ^ (-1074 : ℤ)) :
    Rounds negative v (zero negative) := by
  have hfield : (zero negative).exponentField = 0 := exponentField_ofSigned (by norm_num)
  have hfraction : (zero negative).fraction = 0 := fraction_ofSigned (by norm_num)
  have hscale : (zero negative).scale = -1074 := by
    rw [scale, hfield]
    rfl
  have hsignificand : (zero negative).significand = 0 := by
    rw [significand, if_pos hfield, hfraction]
  have hreach : (zero negative).reachBelow = 1 / 2 := if_neg (by omega)
  have hunit : (0 : ℚ) < 2 ^ (-1074 : ℤ) := by positivity
  refine ⟨isNegative_ofSigned (by norm_num), .inl ⟨?_, ?_, ?_, fun hodd => by omega⟩⟩
  · rw [isFinite, hfield]
    rfl
  · rw [hscale, hsignificand, hreach, Nat.cast_zero]
    generalize (2 : ℚ) ^ (-1074 : ℤ) = unit at hunit ⊢
    linarith
  · rw [hscale, hsignificand, Nat.cast_zero, zero_add]
    exact hsmall

end Binary64

namespace Decimal

open Binary64

theorem toRat_nonneg (d : Decimal) : 0 ≤ d.toRat := by
  unfold toRat
  positivity

/-- **A decimal is read as the nearest double.** -/
theorem nearestBinary64_rounds (negative : Bool) (d : Decimal) :
    Rounds negative d.toRat (nearestBinary64 negative d.digits d.exponent) := by
  unfold nearestBinary64
  dsimp only
  split
  case isTrue hsmall =>
    refine rounds_zero negative d.toRat_nonneg ?_
    by_cases hzero : d.digits = 0
    · rw [toRat, hzero, Nat.cast_zero, zero_mul]
      positivity
    · have hleast : d.exponent + digitCount d.digits ≤ -325 := by omega
      calc d.toRat ≤ 10 ^ (d.exponent + digitCount d.digits) := (toRat_bounds hzero).2.le
        _ ≤ 10 ^ (-325 : ℤ) := zpow_le_zpow_right₀ (by norm_num) hleast
        _ ≤ 1 / 2 * 2 ^ (-1074 : ℤ) := ten_pow_le
  case isFalse hsmall =>
    obtain ⟨hzero, -⟩ := not_or.1 hsmall
    split
    case isTrue hgreat =>
      refine ⟨isNegative_ofSigned (by rw [infinityBits_eq]; norm_num), .inr ⟨rfl, ?_⟩⟩
      calc ((2 ^ 53 - 1 / 2) * 2 ^ (971 : ℤ) : ℚ) ≤ 2 ^ (53 : ℤ) * 2 ^ (971 : ℤ) := by
            gcongr
            norm_num
        _ = 2 ^ (1024 : ℤ) := by rw [← zpow_add₀ (by norm_num)]; norm_num only
        _ ≤ 10 ^ (309 : ℤ) := two_pow_le
        _ ≤ 10 ^ (d.exponent + digitCount d.digits - 1) :=
            zpow_le_zpow_right₀ (by norm_num) (by omega)
        _ ≤ d.toRat := (toRat_bounds hzero).1
    case isFalse hgreat =>
      rw [toRat_eq_div]
      refine ofRatio_rounds negative (Nat.mul_pos (Nat.pos_of_ne_zero hzero) ?_) ?_
      · rw [pow10_eq]
        positivity
      · rw [pow10_eq]
        positivity

end Decimal
end LinkedRows
