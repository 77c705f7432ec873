/-
# The shortest decimal is one that reads back

The grid of seventeen-digit decimals is finer than the interval of the numbers that round to a
double, so one of the double's two neighbours on it is in the interval (`candidates_at_seventeen`).
The search therefore always finds a decimal that rounds to the double, and cutting zeros off its end
does not change its value (`shortest_encloses`).
-/

import LinkedRows.Proofs.Decimal.Rounding

namespace LinkedRows
namespace Decimal

open Binary64

variable {x : Binary64} {num den : Nat}

/-! ## The power of ten below a quotient -/

theorem floorLog10_bounds (hnum : 0 < num) (hden : 0 < den) :
    (10 : ℚ) ^ floorLog10 num den ≤ num / den ∧
      (num / den : ℚ) < 10 ^ (floorLog10 num den + 1) := by
  have hd : (0 : ℚ) < den := by exact_mod_cast hden
  unfold floorLog10
  split
  case isTrue hle =>
    have hdiv := Nat.div_add_mod num den
    have hmod := Nat.mod_lt num hden
    obtain ⟨hlow, hhigh⟩ := digitCount_bounds (Nat.div_pos hle hden)
    have hhigh' : num / den + 1 ≤ 10 ^ digitCount (num / den) := by
      rw [zpow_natCast] at hhigh
      exact_mod_cast hhigh
    refine ⟨hlow.trans ?_, ?_⟩
    · rw [le_div_iff₀ hd]
      exact_mod_cast Nat.div_mul_le_self num den
    · rw [div_lt_iff₀ hd, sub_add_cancel, zpow_natCast]
      have : num < 10 ^ digitCount (num / den) * den := by nlinarith
      exact_mod_cast this
  case isFalse hlt =>
    have hdiv := Nat.div_add_mod (den - 1) num
    have hmod := Nat.mod_lt (den - 1) hnum
    obtain ⟨hlow, hhigh⟩ := digitCount_bounds (Nat.div_pos (by omega : num ≤ den - 1) hnum)
    have hhigh' : (den - 1) / num + 1 ≤ 10 ^ digitCount ((den - 1) / num) := by
      rw [zpow_natCast] at hhigh
      exact_mod_cast hhigh
    refine ⟨?_, ?_⟩
    · rw [zpow_neg, zpow_natCast, le_div_iff₀ hd, inv_mul_le_iff₀ (by positivity)]
      have : den ≤ 10 ^ digitCount ((den - 1) / num) * num := by
        have : den - 1 < 10 ^ digitCount ((den - 1) / num) * num := by nlinarith
        omega
      exact_mod_cast this
    · rw [show -(digitCount ((den - 1) / num) : ℤ) + 1 = -((digitCount ((den - 1) / num) : ℤ) - 1)
        by ring, zpow_neg, div_lt_iff₀ hd, lt_inv_mul_iff₀ (by positivity)]
      calc (10 : ℚ) ^ ((digitCount ((den - 1) / num) : ℤ) - 1) * num
          ≤ ((den - 1) / num : ℕ) * num := by gcongr
        _ < den := by
          have : (den - 1) / num * num < den := by
            have := Nat.div_mul_le_self (den - 1) num
            omega
          exact_mod_cast this

/-! ## The neighbours on a grid -/

/-- The size of a double as a quotient of whole numbers. -/
theorem size_eq (x : Binary64) :
    ((x.significand * pow2 x.scale.toNat : ℕ) : ℚ) / (pow2 (-x.scale).toNat : ℕ) = x.size := by
  rw [size, zpow_eq_div (by norm_num), pow2_eq, pow2_eq]
  push_cast
  rw [mul_div_assoc]

/-- The steps of the seventeen-digit grid are shorter than twice what rounds to the double from
below. -/
theorem grid_step_lt {k : ℤ} (hk : (10 : ℚ) ^ k ≤ x.size) :
    (10 : ℚ) ^ (k - 16) < 2 * x.reachBelow * 2 ^ x.scale := by
  have hunit := x.unit_pos
  have hm : (x.significand : ℚ) < 10 ^ (16 : ℤ) * (2 * x.reachBelow) := by
    unfold reachBelow
    split
    case isTrue h =>
      have : x.significand = 2 ^ 52 := by
        rw [significand, if_neg (by omega), h.1, pow2_eq, add_zero]
      rw [this]
      norm_num
    case isFalse h =>
      have : (x.significand : ℚ) < 2 ^ 53 := by exact_mod_cast x.significand_lt
      norm_num at this ⊢
      linarith
  rw [zpow_sub₀ (by norm_num), div_lt_iff₀ (by positivity)]
  calc (10 : ℚ) ^ k ≤ x.significand * 2 ^ x.scale := hk
    _ < 10 ^ (16 : ℤ) * (2 * x.reachBelow) * 2 ^ x.scale := by gcongr
    _ = 2 * x.reachBelow * 2 ^ x.scale * 10 ^ (16 : ℤ) := by ring

/-- A number at most half a step away from the double rounds to it, if the steps are that short. -/
theorem encloses_of_near {step v : ℚ} (hstep : step < 2 * x.reachBelow * 2 ^ x.scale)
    (hnear : |v - x.size| ≤ step / 2) : Encloses x v := by
  have hunit := x.unit_pos
  have hreach : x.reachBelow * 2 ^ x.scale ≤ 1 / 2 * 2 ^ x.scale := by
    gcongr
    exact x.reachBelow_le
  obtain ⟨hlow, hhigh⟩ := abs_le.1 hnear
  unfold size at hlow hhigh
  apply encloses_of_lt <;> linarith

/-- Of two neighbouring multiples of a step, one is at most half a step away. -/
theorem exists_near {step v : ℚ} {low : Nat} (hbelow : low * step ≤ v)
    (habove : v ≤ (low + 1) * step) : ∃ n ∈ [low, low + 1], |n * step - v| ≤ step / 2 := by
  by_cases hhalf : v - low * step ≤ step / 2
  · exact ⟨low, by simp, abs_le.2 ⟨by linarith, by linarith⟩⟩
  · refine ⟨low + 1, by simp, abs_le.2 ⟨?_, ?_⟩⟩
    · push_cast
      linarith
    · push_cast
      linarith

/-- The quotient that the search takes apart is the size in steps of the grid. -/
theorem size_in_steps (x : Binary64) (g : ℤ) :
    ((x.significand * pow2 x.scale.toNat * pow10 (-g).toNat : ℕ) : ℚ) /
      (pow2 (-x.scale).toNat * pow10 g.toNat : ℕ) = x.size / 10 ^ g := by
  have h := ratio_scaled (by norm_num : (10 : ℚ) ≠ 0) (x.significand * pow2 x.scale.toNat : ℕ)
    (pow2 (-x.scale).toNat : ℕ) (-g)
  rw [size_eq, neg_neg, zpow_neg, ← div_eq_mul_inv] at h
  rw [← h, pow10_eq, pow10_eq]
  push_cast
  rfl

/-- One of the two neighbours on the seventeen-digit grid rounds to the double. -/
theorem candidates_at_seventeen {tie : Tie} {k : ℤ} (hx : 0 < x.significand)
    (hk : (10 : ℚ) ^ k ≤ x.size) : candidates tie x (k - 16) ≠ [] := by
  have hstep := grid_step_lt hk
  generalize k - 16 = g at hstep ⊢
  have hg : (0 : ℚ) < 10 ^ g := by positivity
  have hquotient := size_in_steps x g
  have hpos : 0 < pow2 (-x.scale).toNat * pow10 g.toNat := by
    rw [pow2_eq, pow10_eq]
    positivity
  unfold candidates
  dsimp only
  generalize x.significand * pow2 x.scale.toNat * pow10 (-g).toNat = num at hquotient ⊢
  generalize pow2 (-x.scale).toNat * pow10 g.toNat = den at hquotient hpos ⊢
  set low := num / den
  have hd : (0 : ℚ) < den := by exact_mod_cast hpos
  have hbelow : (low : ℚ) * 10 ^ g ≤ x.size := by
    rw [← le_div_iff₀ hg, ← hquotient, le_div_iff₀ hd]
    exact_mod_cast Nat.div_mul_le_self num den
  have habove : x.size ≤ ((low + 1 : ℕ) : ℚ) * 10 ^ g := by
    rw [← div_le_iff₀ hg, ← hquotient, div_le_iff₀ hd]
    have hdiv : den * low + num % den = num := Nat.div_add_mod num den
    have hmod := Nat.mod_lt num hpos
    have : num ≤ (low + 1) * den := by nlinarith
    exact_mod_cast this
  obtain ⟨n, hn, hnear⟩ := exists_near hbelow (by exact_mod_cast habove)
  have hmem : ∀ lowFirst : Bool, n ∈ if lowFirst then [low, low + 1] else [low + 1, low] := by
    rintro (_ | _)
    · simpa [or_comm] using hn
    · exact hn
  exact List.ne_nil_of_mem (List.mem_filter.2
    ⟨List.mem_map.2 ⟨n, hmem _, rfl⟩, (roundsTo_iff hx).2 (encloses_of_near hstep hnear)⟩)

/-! ## The decimal that is found -/

theorem roundsTo_of_mem_candidates {tie : Tie} {g : ℤ} {d : Decimal} (h : d ∈ candidates tie x g) :
    d.roundsTo x = true := by
  unfold candidates at h
  exact (List.mem_filter.1 h).2

@[simp] theorem toRat_stripZeros (limit : Nat) (d : Decimal) :
    (stripZeros limit d).toRat = d.toRat := by
  induction limit generalizing d with
  | zero => rfl
  | succ limit ih =>
    unfold stripZeros
    split
    case isTrue hzero =>
      have hdigits : (d.digits : ℚ) = 10 * (d.digits / 10 : ℕ) := by
        exact_mod_cast (Nat.mul_div_cancel' (Nat.dvd_of_mod_eq_zero hzero)).symm
      rw [ih, toRat, toRat, zpow_add_one₀ (by norm_num), hdigits]
      ring
    case isFalse => rfl

/-- **The shortest decimal of a double rounds to it.** -/
theorem shortest_encloses (tie : Tie) (hx : 0 < x.significand) :
    Encloses x (shortest tie x).toRat := by
  have hnum : 0 < x.significand * pow2 x.scale.toNat := by
    rw [pow2_eq]
    positivity
  have hden : 0 < pow2 (-x.scale).toNat := by
    rw [pow2_eq]
    positivity
  obtain ⟨hk, -⟩ := floorLog10_bounds hnum hden
  rw [size_eq] at hk
  unfold shortest
  dsimp only
  rw [toRat_stripZeros]
  generalize floorLog10 (x.significand * pow2 x.scale.toNat) (pow2 (-x.scale).toNat) = k at hk ⊢
  cases hfound : (List.range 17).findSome? fun (n : Nat) => (candidates tie x (k - n)).head? with
  | none =>
    have h := List.findSome?_eq_none_iff.1 hfound 16 (by simp)
    exact absurd (List.head?_eq_none_iff.1 h) (candidates_at_seventeen hx hk)
  | some d =>
    obtain ⟨n, -, hd⟩ := List.exists_of_findSome?_eq_some hfound
    exact (roundsTo_iff hx).1 (roundsTo_of_mem_candidates (List.mem_of_mem_head? hd))

end Decimal
end LinkedRows
