/-
# Printing reals

A double is brought between `10 ^ 17` and `10 ^ 19` by powers of ten, on pairs of doubles, and cut
to a whole number, whose decimal digits are then rounded, a half up.

| form | when | for instance |
| --- | --- | --- |
| with an exponent | it is less than -4 or more than 14 | `1.0e+20`, `2.5e-05` |
| positional | otherwise | `0.0001`, `150.0` |
-/

import LinkedRows.Binary64.Pair

namespace LinkedRows
namespace Engine
namespace Numeral

/-- How many digits are kept: a number of them, or those up to a place after the point. -/
inductive Rounding where
  | significant (count : Nat)
  | places (count : Nat)
deriving DecidableEq, Repr

/-- Digits without zeros at the end, and how many of them stand before the point. -/
structure Printed where
  digits : List Char
  point : Int
deriving DecidableEq, Repr

/-- Multiplies as long as a test asks for it; the number of steps is the second result. -/
def repeatTimes (again : Binary64 → Bool) (factor : Binary64.Pair) :
    (fuel : Nat) → Binary64.Pair → Binary64.Pair × Nat
  | 0, x => (x, 0)
  | fuel + 1, x =>
    if again x.high then
      let (x, steps) := repeatTimes again factor fuel (x.times factor)
      (x, steps + 1)
    else (x, 0)

/-- A positive double as a whole number of up to 19 digits, and the power of ten that goes with
it. -/
def toWhole (x : Binary64) : Nat × Int :=
  let down := Binary64.lt ⟨0x43DFFFFFFFFFFFFF⟩ x
  let beyond (limit : UInt64) (y : Binary64) : Bool :=
    if down then Binary64.lt ⟨limit⟩ y else y.lt ⟨limit⟩
  let limit (high low : UInt64) : UInt64 := if down then high else low
  let byHundred := beyond (limit 0x58A249AD2594C37C 0x2EE665BF1D3E6A8C)
  let byTen := beyond (limit 0x45F2A05F1FFFFFFF 0x4195FD7FE1796495)
  let byOne := beyond (limit 0x43DFFFFFFFFFFFFF 0x43A9999999999999)
  let (x, hundreds) := repeatTimes byHundred (.hundredPlaces down) 12 ⟨x, .zero false⟩
  let (x, tens) := repeatTimes byTen (.tenPlaces down) 12 x
  let (x, ones) := repeatTimes byOne (.onePlace down) 12 x
  let steps : Int := 100 * hundreds + 10 * tens + ones
  ((x.high.truncated + x.low.truncated).toNat, if down then steps else -steps)

/-- The digits of a positive number `n · 10 ^ e`, rounded.  At most `most` digits are kept. -/
def Printed.round (rounding : Rounding) (most n : Nat) (e : Int) : Printed :=
  let count := (Nat.toDigits 10 n).length
  let point := count + e
  let keep : Int :=
    match rounding with
    | .significant k => k
    | .places k => point + k
  if keep = 0 ∧ 5 * pow10 (count - 1) ≤ n then ⟨['1'], point + 1⟩
  else if 0 < keep ∧ (keep < count ∨ most < count) then
    let cut := count - min keep.toNat most
    let digits := Nat.toDigits 10 ((n + 5 * pow10 (cut - 1)) / pow10 cut)
    finish digits (point + ((digits.length : Int) - (count - cut : Nat)))
  else finish (Nat.toDigits 10 n) point
where
  /-- Drops the zeros at the end. -/
  finish (digits : List Char) (point : Int) : Printed :=
    ⟨(digits.reverse.dropWhile (· == '0')).reverse, point⟩

/-- The digits of a finite double without its sign. -/
def Printed.ofBinary64 (rounding : Rounding) (most : Nat) (x : Binary64) : Printed :=
  if x.isZero then ⟨['0'], 1⟩
  else
    let (n, e) := toWhole x.magnitude
    Printed.round rounding most n e

namespace Printed

/-- Digits after the point; there is at least one. -/
def afterPoint (digits : List Char) : List Char :=
  if digits.isEmpty then ['.', '0'] else '.' :: digits

/-- Positional, with at most so many digits after the point. -/
def positional (p : Printed) (places : Nat) : List Char :=
  let whole := p.digits.take p.point.toNat
  let whole := whole ++ List.replicate (p.point.toNat - whole.length) '0'
  let fraction := List.replicate (-p.point).toNat '0' ++ p.digits.drop p.point.toNat
  let fraction := ((fraction.take places).reverse.dropWhile (· == '0')).reverse
  (if whole.isEmpty then ['0'] else whole) ++ afterPoint fraction

/-- With an exponent of at least two digits. -/
def withExponent (p : Printed) : List Char :=
  let e := p.point - 1
  let size := Nat.toDigits 10 e.natAbs
  p.digits.take 1 ++ afterPoint (p.digits.drop 1) ++
    'e' :: (if e < 0 then '-' else '+') :: (if size.length < 2 then '0' :: size else size)

end Printed

/-- The sign of a printed double; a zero has none. -/
def signText (x : Binary64) : List Char := if x.isNegative && !x.isZero then ['-'] else []

/-- A double as a text of at most 15 digits. -/
def text (x : Binary64) : List Char :=
  if !x.isFinite then signText x ++ ['I', 'n', 'f']
  else
    let p := Printed.ofBinary64 (.significant 15) 26 x
    signText x ++ if p.point < -3 ∨ 15 < p.point then p.withExponent else p.positional 30

/-- A double with as many digits after the point. -/
def fixedText (places : Nat) (x : Binary64) : List Char :=
  signText x ++ (Printed.ofBinary64 (.places places) 26 x).positional places

/-- A finite double with up to 21 digits and an exponent. -/
def longText (x : Binary64) : List Char :=
  signText x ++ (Printed.ofBinary64 (.significant 21) 26 x).withExponent

end Numeral
end Engine
end LinkedRows
