/-
# The shortest decimal that reads back

Of all decimals that round to a given double, the ones with the fewest digits, and of these the one
nearest to the double.  Where two are equally near, a format decides (`Tie`).

For `n = 1, 2, …` digits the candidates are the two neighbours of the value on the grid of `n`-digit
decimals; seventeen digits always suffice.  The decimals that round to a double form an interval
that reaches half way to the two doubles next to it, ends included when its significand is even.
-/

import LinkedRows.Binary64

namespace LinkedRows

/-- A positive decimal, `digits · 10 ^ exponent`. -/
structure Decimal where
  digits : Nat
  exponent : Int
deriving DecidableEq, Repr

namespace Decimal

/-- Which of two equally near decimals is taken. -/
inductive Tie where
  | up
  | toEven
deriving DecidableEq, Repr

/-- How many decimal digits a number has; zero has one. -/
def digitCount (n : Nat) : Nat := (Nat.toDigits 10 n).length

/-- The exponent of the power of ten at or just below `num / den`, both positive. -/
def floorLog10 (num den : Nat) : Int :=
  if den ≤ num then digitCount (num / den) - 1
  else -(digitCount ((den - 1) / num) : Int)

/-- Compares `a · 10 ^ i` with `b · 2 ^ j`. -/
def compareScaled (a : Nat) (i : Int) (b : Nat) (j : Int) : Ordering :=
  compare (a * pow10 i.toNat * pow2 (-j).toNat) (b * pow2 j.toNat * pow10 (-i).toNat)

/-- Does the decimal round to the finite positive double? -/
def roundsTo (d : Decimal) (x : Binary64) : Bool :=
  let m := x.significand
  let lower := if x.fraction = 0 ∧ 1 < x.exponentField then 4 * m - 1 else 4 * m - 2
  let fromBelow := compareScaled d.digits d.exponent lower (x.scale - 2)
  let fromAbove := compareScaled d.digits d.exponent (4 * m + 2) (x.scale - 2)
  if m % 2 = 0 then fromBelow != .lt && fromAbove != .gt
  else fromBelow == .gt && fromAbove == .lt

/-- The neighbours of a double on the grid with steps `10 ^ g` that round to it, the nearer
first. -/
def candidates (tie : Tie) (x : Binary64) (g : Int) : List Decimal :=
  let m := x.significand
  let num := m * pow2 x.scale.toNat * pow10 (-g).toNat
  let den := pow2 (-x.scale).toNat * pow10 g.toNat
  let low := num / den
  let lowFirst :=
    match compare (2 * num) ((2 * low + 1) * den), tie with
    | .lt, _ => true
    | .gt, _ => false
    | .eq, .up => false
    | .eq, .toEven => low % 2 == 0
  let pair := if lowFirst then [low, low + 1] else [low + 1, low]
  (pair.map fun n => Decimal.mk n g).filter (·.roundsTo x)

/-- The same decimal without zeros at the end of its digits; `limit` bounds how many are cut. -/
def stripZeros : (limit : Nat) → Decimal → Decimal
  | 0, d => d
  | limit + 1, d =>
    if d.digits % 10 = 0 then stripZeros limit ⟨d.digits / 10, d.exponent + 1⟩ else d

/-- The shortest decimal that rounds to a finite non-zero double, its sign left out. -/
def shortest (tie : Tie) (x : Binary64) : Decimal :=
  let k := floorLog10 (x.significand * pow2 x.scale.toNat) (pow2 (-x.scale).toNat)
  let found := (List.range 17).findSome? fun (n : Nat) => (candidates tie x (k - n)).head?
  stripZeros 17 (found.getD ⟨0, 0⟩)

end Decimal
end LinkedRows
