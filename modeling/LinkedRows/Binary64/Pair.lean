/-
# Pairs of doubles

A number as the sum of two doubles, the second one far smaller than the first, holds about twice
as many bits as one double.  Products of such pairs round in the last of these bits only, by
splitting each factor into halves whose products are exact.

`timesPowerOfTen` goes in steps of 100, 10 and 1; each step multiplies by a power of ten, which is
itself such a pair.
-/

import LinkedRows.Binary64.Arithmetic

namespace LinkedRows
namespace Binary64

/-- The sum of two doubles. -/
structure Pair where
  high : Binary64
  low : Binary64
deriving DecidableEq, Repr

/-- The double without the lower half of its bits. -/
def coarse (x : Binary64) : Binary64 :=
  let n := x.bits.toNat
  ⟨UInt64.ofNat (n - n % pow2 26)⟩

namespace Pair

/-- The product of two pairs. -/
def times (x y : Pair) : Pair :=
  let xFine := x.high.sub x.high.coarse
  let yFine := y.high.sub y.high.coarse
  let product := x.high.coarse.mul y.high.coarse
  let crossed := (x.high.coarse.mul yFine).add (xFine.mul y.high.coarse)
  let sum := product.add crossed
  let rest := ((product.sub sum).add crossed).add (xFine.mul yFine)
  let rest := ((x.high.mul y.low).add (x.low.mul y.high)).add rest
  let high := sum.add rest
  ⟨high, (sum.sub high).add rest⟩

/-- The two doubles added. -/
def total (x : Pair) : Binary64 := x.high.add x.low

/-- A number of 64 bits; what its nearest double leaves over goes into the second one. -/
def ofNat (n : Nat) : Pair :=
  let high := Binary64.ofNat n
  let rest : Int := n - high.truncated
  if high.truncated < pow2 64 then ⟨high, ofRatio (rest < 0) rest.natAbs 1⟩
  else ⟨high, .zero false⟩

/-- `10 ^ 100` and `10 ^ (-100)`. -/
def hundredPlaces (down : Bool) : Pair :=
  if down then ⟨⟨0x2B2BFF2EE48E0530⟩, ⟨0xA7B42A68781D46C4⟩⟩
  else ⟨⟨0x54B249AD2594C37D⟩, ⟨0xD134F4D87B3B31F4⟩⟩

/-- `10 ^ 10` and `10 ^ (-10)`. -/
def tenPlaces (down : Bool) : Pair :=
  if down then ⟨⟨0x3DDB7CDFD9D7BDBB⟩, ⟨0xBA720A5465DF8D2C⟩⟩
  else ⟨⟨0x4202A05F20000000⟩, .zero false⟩

/-- `10` and `10 ^ (-1)`. -/
def onePlace (down : Bool) : Pair :=
  if down then ⟨⟨0x3FB999999999999A⟩, ⟨0xBC5999999999999A⟩⟩
  else ⟨⟨0x4024000000000000⟩, .zero false⟩

/-- The product with a pair, several times. -/
def timesRepeated (factor : Pair) : Nat → Pair → Pair
  | 0, x => x
  | n + 1, x => timesRepeated factor n (x.times factor)

/-- The product with a power of ten. -/
def timesPowerOfTen (x : Pair) (e : Int) : Pair :=
  let down := e < 0
  let n := e.natAbs
  let x := timesRepeated (hundredPlaces down) (n / 100) x
  let x := timesRepeated (tenPlaces down) (n % 100 / 10) x
  timesRepeated (onePlace down) (n % 10) x

end Pair
end Binary64
end LinkedRows
