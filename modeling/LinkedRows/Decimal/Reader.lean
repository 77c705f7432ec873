/-
# Reading numbers

An integer is an optional sign and digits, and must fit 64 bits.  A double is an optional sign and
one of the words `inf`, `infinity`, `nan` in any case, or digits with an optional point somewhere
(at least one digit in all) and an optional exponent.  It reads as the nearest double.
-/

import LinkedRows.Decimal.Shortest

namespace LinkedRows
namespace Decimal

/-- The number that decimal digits spell, after the digits that spell `n`. -/
def natOfDigits (n : Nat) (digits : List Char) : Nat :=
  digits.foldl (fun n c => 10 * n + (c.toNat - 48)) n

/-- Takes the sign off; true is minus. -/
def readSign : List Char → Bool × List Char
  | '-' :: cs => (true, cs)
  | '+' :: cs => (false, cs)
  | cs => (false, cs)

/-- Reads a whole number of 64 bits. -/
def readInt64 (cs : List Char) : Option Int64 :=
  let (negative, digits) := readSign cs
  if digits.isEmpty || !digits.all Char.isDigit then none
  else
    let size : Int := natOfDigits 0 digits
    let n := if negative then -size else size
    int64? n

/-- The double nearest to `digits · 10 ^ exponent`.  A size below `10 ^ (-330)` is zero and one
above `10 ^ 310` infinite, so that a huge exponent costs nothing. -/
def nearestBinary64 (negative : Bool) (digits : Nat) (exponent : Int) : Binary64 :=
  let leading := exponent + digitCount digits
  if digits = 0 ∨ leading < -330 then .zero negative
  else if 311 < leading then .infinity negative
  else .ofRatio negative (digits * pow10 exponent.toNat) (pow10 (-exponent).toNat)

/-- Reads an exponent, with its mark, up to the end; no exponent is zero. -/
def readExponent : List Char → Option Int
  | [] => some 0
  | c :: cs =>
    if c = 'e' ∨ c = 'E' then
      let (negative, digits) := readSign cs
      if digits.isEmpty || !digits.all Char.isDigit then none
      else if negative then some (-natOfDigits 0 digits) else some (natOfDigits 0 digits)
    else none

/-- Reads an unsigned number with an optional point and exponent. -/
def readUnsigned (negative : Bool) (cs : List Char) : Option Binary64 :=
  let whole := cs.takeWhile Char.isDigit
  let rest := cs.dropWhile Char.isDigit
  let (fraction, rest) :=
    match rest with
    | '.' :: rest => (rest.takeWhile Char.isDigit, rest.dropWhile Char.isDigit)
    | rest => ([], rest)
  if whole.isEmpty && fraction.isEmpty then none
  else
    (readExponent rest).map fun e =>
      nearestBinary64 negative (natOfDigits 0 (whole ++ fraction)) (e - fraction.length)

/-- Reads a double. -/
def readBinary64 (cs : List Char) : Option Binary64 :=
  let (negative, rest) := readSign cs
  let word := String.ofList (rest.map Char.toLower)
  if word = "inf" ∨ word = "infinity" then some (.infinity negative)
  else if word = "nan" then some .nan
  else readUnsigned negative rest

end Decimal
end LinkedRows
