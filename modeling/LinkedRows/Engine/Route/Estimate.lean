/-
# Estimates

How many rows there are, and how much it takes to look at them, is estimated on a scale of
logarithms: ten times the logarithm to the base 2, as a whole number.  A table is thought to have
about a million rows, which is 200 on this scale, whatever it has.
-/

import LinkedRows.Engine.Declaration

namespace LinkedRows
namespace Engine
namespace Estimate

/-- Doubles a number below 8 until it is not, and counts ten for each time. -/
def raise : (fuel : Nat) → Nat → Nat × Int
  | 0, n => (n, 0)
  | fuel + 1, n =>
    if n < 8 then
      let (n, lost) := raise fuel (2 * n)
      (n, lost + 10)
    else (n, 0)

/-- Halves a number until it is below 16, and counts ten for each time. -/
def lower : (fuel : Nat) → Nat → Nat × Int
  | 0, n => (n, 0)
  | fuel + 1, n =>
    if 16 ≤ n then
      let (n, won) := lower fuel (n / 2)
      (n, won + 10)
    else (n, 0)

/-- The estimate of a number. -/
def ofNat (n : Nat) : Int :=
  if n < 2 then 0
  else
    let (m, lost) := raise 3 n
    let (m, won) := lower 64 m
    ([0, 2, 3, 5, 6, 7, 8, 9][m % 8]?).getD 0 + 30 + won - lost

/-- What the lesser of two numbers adds to the greater one. -/
def gain (difference : Nat) : Int :=
  if 49 < difference then 0
  else if 31 < difference then 1
  else
    let steps := [10, 10, 9, 9, 8, 8, 7, 7, 7, 6, 6, 6, 5, 5, 5, 4, 4, 4, 4, 3, 3, 3, 3, 3, 3]
    (steps[difference]?).getD 2

/-- The estimate of a sum. -/
def sum (a b : Int) : Int := max a b + gain (a - b).natAbs

/-- The estimate of the logarithm of a number. -/
def logarithm (n : Int) : Int := if n ≤ 10 then 0 else ofNat n.toNat - 33

/-- The rows of a table. -/
def rows : Int := 200

/-- The entries of the index of a key that agree in its first columns.  If they agree in all of them
there is one. -/
def entries (key : Key) (columns : Nat) : Int :=
  if columns = 0 then rows
  else if key.columns.length ≤ columns then 0
  else ([33, 32, 30, 28, 27][columns - 1]?).getD 23

/-- The size of a row. -/
def rowSize (d : Declaration) : Int := ofNat (4 * d.rowWidth)

/-- The size of an entry of the index of a key. -/
def entrySize (d : Declaration) (key : Key) : Int := ofNat (4 * d.keyWidth key)

/-- How much less it takes to look at an entry than at a row. -/
def entryShare (d : Declaration) (key : Key) : Int := 1 + 15 * entrySize d key / rowSize d

end Estimate
end Engine
end LinkedRows
