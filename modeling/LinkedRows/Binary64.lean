/-
# Binary64 words

A double is its 64 bits: a sign, an 11-bit exponent field `e` and a 52-bit fraction `f`.

| field `e` | `f` | value |
| --- | --- | --- |
| 0 | any | `± f · 2^(-1074)` |
| 1 … 2046 | any | `± (2^52 + f) · 2^(e - 1075)` |
| 2047 | 0 | `± ∞` |
| 2047 | not 0 | not a number |

Everything is exact arithmetic on `Nat` and `Int`; `ofRatio` rounds a quotient to the nearest
double, ties to even, and the conversions from integers, from 32-bit floats and from decimal text
all go through it.
-/

import LinkedRows.Magnitude

namespace LinkedRows

/-- A double, as its bits. -/
structure Binary64 where
  bits : UInt64
deriving DecidableEq, Repr, Inhabited

namespace Binary64

/-- The 11 bits below the sign. -/
def exponentField (x : Binary64) : Nat := x.bits.toNat / pow2 52 % pow2 11

/-- The lowest 52 bits. -/
def fraction (x : Binary64) : Nat := x.bits.toNat % pow2 52

/-- The highest bit. -/
def isNegative (x : Binary64) : Bool := pow2 63 ≤ x.bits.toNat

def isNaN (x : Binary64) : Bool := x.exponentField == 2047 && x.fraction != 0

def isFinite (x : Binary64) : Bool := x.exponentField != 2047

/-- Both zeros are zero. -/
def isZero (x : Binary64) : Bool := x.exponentField == 0 && x.fraction == 0

/-- The whole number whose product with `2 ^ scale` is the size of a finite double. -/
def significand (x : Binary64) : Nat :=
  if x.exponentField = 0 then x.fraction else pow2 52 + x.fraction

/-- The power of two that goes with `significand`. -/
def scale (x : Binary64) : Int := max x.exponentField 1 - 1075

/-- The double with a sign and the 63 bits below it. -/
def ofSigned (negative : Bool) (magnitude : Nat) : Binary64 :=
  ⟨UInt64.ofNat (if negative then pow2 63 + magnitude else magnitude)⟩

/-- The 63 bits of an infinity. -/
def infinityBits : Nat := 2047 * pow2 52

def infinity (negative : Bool) : Binary64 := ofSigned negative infinityBits

def zero (negative : Bool) : Binary64 := ofSigned negative 0

/-- The quiet not-a-number without payload. -/
def nan : Binary64 := ofSigned false (infinityBits + pow2 51)

/-- Equality of numbers: not-a-number equals nothing, and the two zeros are equal. -/
def numericEq (x y : Binary64) : Bool :=
  !x.isNaN && !y.isNaN && (x == y || (x.isZero && y.isZero))

/-- The whole number nearest to `num / den`, the even one of two. -/
def roundHalfEven (num den : Nat) : Nat :=
  let whole := num / den
  let twice := 2 * (num % den)
  if twice < den then whole
  else if den < twice then whole + 1
  else whole + whole % 2

/-- The exponent of the power of two at or just below `num / den`, both positive. -/
def floorLog2 (num den : Nat) : Int :=
  let guess : Int := (Nat.log2 num : Int) - Nat.log2 den
  let reached := if 0 ≤ guess then den * pow2 guess.toNat ≤ num else den ≤ num * pow2 (-guess).toNat
  if reached then guess else guess - 1

/-- The double nearest to `num / den`, ties to even; beyond the greatest one, an infinity.

In units of `2 ^ q`, the spacing at this size, the quotient rounds to at most `2 ^ 53`; adding it to
the exponent's bits carries into the next binade, or into infinity, by itself. -/
def ofRatio (negative : Bool) (num den : Nat) : Binary64 :=
  if num = 0 then zero negative
  else
    let q := max (floorLog2 num den - 52) (-1074)
    let units :=
      if 0 ≤ q then roundHalfEven num (den * pow2 q.toNat)
      else roundHalfEven (num * pow2 (-q).toNat) den
    ofSigned negative (min ((q + 1074).toNat * pow2 52 + units) infinityBits)

/-- The double nearest to a 64-bit integer. -/
def ofInt64 (n : Int64) : Binary64 :=
  ofRatio (n.toInt < 0) n.toInt.natAbs 1

/-- The double with the value of a 32-bit float, given by its bits. -/
def ofBinary32 (bits : UInt32) : Binary64 :=
  let n := bits.toNat
  let negative := pow2 31 ≤ n
  let e := n / pow2 23 % pow2 8
  let f := n % pow2 23
  if e = 255 then if f = 0 then infinity negative else nan
  else
    let m := if e = 0 then f else pow2 23 + f
    ofRatio negative (m * pow2 (max e 1)) (pow2 150)

end Binary64
end LinkedRows
