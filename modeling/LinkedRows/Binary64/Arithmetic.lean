/-
# Arithmetic on doubles

Each operation is the exact one on the values, rounded to the nearest double, ties to even.  What
has no exact value follows the rules of the format:

| operation | result |
| --- | --- |
| with not-a-number | not-a-number |
| infinities that cancel, zero times an infinity | not-a-number |
| zero by zero, an infinity by an infinity | not-a-number |
| a number by zero | an infinity |
| a sum that is exactly zero | the positive zero, unless both terms are negative zeros |
-/

import LinkedRows.Binary64

namespace LinkedRows
namespace Binary64

/-- The double nearest to `± m · 2 ^ q`. -/
def ofScaled (negative : Bool) (m : Nat) (q : Int) : Binary64 :=
  ofRatio negative (m * pow2 q.toNat) (pow2 (-q).toNat)

/-- The double nearest to a natural number. -/
def ofNat (n : Nat) : Binary64 := ofRatio false n 1

/-- The whole number whose product with `2 ^ scale` is a finite double. -/
def signed (x : Binary64) : Int := if x.isNegative then -x.significand else x.significand

/-- The double with the other sign. -/
def negate (x : Binary64) : Binary64 := ofSigned (!x.isNegative) (x.bits.toNat % pow2 63)

/-- The double without its sign. -/
def magnitude (x : Binary64) : Binary64 := ofSigned false (x.bits.toNat % pow2 63)

def add (x y : Binary64) : Binary64 :=
  if x.isNaN || y.isNaN then nan
  else if !x.isFinite then
    if !y.isFinite && x.isNegative != y.isNegative then nan else x
  else if !y.isFinite then y
  else
    let q := min x.scale y.scale
    let sum := x.signed * pow2 (x.scale - q).toNat + y.signed * pow2 (y.scale - q).toNat
    if sum = 0 then zero (x.isNegative && y.isNegative) else ofScaled (sum < 0) sum.natAbs q

def sub (x y : Binary64) : Binary64 := x.add y.negate

def mul (x y : Binary64) : Binary64 :=
  let negative := x.isNegative != y.isNegative
  if x.isNaN || y.isNaN then nan
  else if !x.isFinite || !y.isFinite then if x.isZero || y.isZero then nan else infinity negative
  else ofScaled negative (x.significand * y.significand) (x.scale + y.scale)

def div (x y : Binary64) : Binary64 :=
  let negative := x.isNegative != y.isNegative
  if x.isNaN || y.isNaN then nan
  else if !x.isFinite then if !y.isFinite then nan else infinity negative
  else if !y.isFinite then zero negative
  else if y.isZero then if x.isZero then nan else infinity negative
  else
    let q := x.scale - y.scale
    ofRatio negative (x.significand * pow2 q.toNat) (y.significand * pow2 (-q).toNat)

/-- The order of two numbers: the zeros are equal, and an infinity is beyond all finite ones.  There
is none if one of the two is not a number. -/
def order? (x y : Binary64) : Option Ordering :=
  let size (z : Binary64) : Int := (z.bits.toNat % pow2 63 : Nat)
  let place (z : Binary64) : Int := if z.isNegative then -size z else size z
  if x.isNaN || y.isNaN then none else some (compare (place x) (place y))

def lt (x y : Binary64) : Bool := x.order? y == some .lt

/-- The whole number between a finite double and zero that is nearest to the double. -/
def truncated (x : Binary64) : Int :=
  let size : Nat := x.significand * pow2 x.scale.toNat / pow2 (-x.scale).toNat
  if x.isNegative then -size else size

end Binary64
end LinkedRows
