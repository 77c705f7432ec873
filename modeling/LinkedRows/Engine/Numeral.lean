/-
# Numerals

The number that a text begins with, after blanks: a sign, digits, a point and an exponent, of which
nearly everything may be missing.  Every text has a value; beside it is told how much of the text
the numeral takes.

A real is read with 19 or 20 digits; further digits only count as places.  Its value is the product
of a whole number of 64 bits and a power of ten, computed on pairs of doubles.  It is therefore
nearly always, but not always, the nearest double.
-/

import LinkedRows.Binary64.Pair
import LinkedRows.Decimal.Reader

namespace LinkedRows
namespace Engine
namespace Numeral

/-- The blanks around a numeral. -/
def isSpace (c : Char) : Bool := c == ' ' || ('\t' ≤ c && c ≤ '\r')

/-- How much of a text is a numeral. -/
inductive Extent where
  /-- All of it, without a point and an exponent. -/
  | integer
  /-- All of it, with a point or an exponent. -/
  | real
  /-- Only the beginning, which has a point or an exponent. -/
  | realBeginning
  /-- Only the beginning, which has none of them, or nothing. -/
  | other
deriving DecidableEq, Repr

/-- What a text begins with; an exponent may lack its digits. -/
structure Parts where
  negative : Bool
  whole : List Char
  fraction : Option (List Char)
  exponent : Option (Bool × List Char)
  rest : List Char
deriving DecidableEq, Repr

/-- Takes the exponent at the start of a text apart. -/
def takeExponent : List Char → Option (Bool × List Char) × List Char
  | c :: cs =>
    if c = 'e' ∨ c = 'E' then
      let (negative, cs) := Decimal.readSign cs
      (some (negative, cs.takeWhile Char.isDigit), cs.dropWhile Char.isDigit)
    else (none, c :: cs)
  | [] => (none, [])

/-- Takes a text apart. -/
def Parts.ofText (cs : List Char) : Parts :=
  let (negative, cs) := Decimal.readSign (cs.dropWhile isSpace)
  let whole := cs.takeWhile Char.isDigit
  let (fraction, rest) :=
    match cs.dropWhile Char.isDigit with
    | '.' :: rest => (some (rest.takeWhile Char.isDigit), rest.dropWhile Char.isDigit)
    | rest => (none, rest)
  let (exponent, rest) := takeExponent rest
  ⟨negative, whole, fraction, exponent, rest.dropWhile isSpace⟩

namespace Parts

def extent (p : Parts) : Extent :=
  let hasDigits := !p.whole.isEmpty || !(p.fraction.getD []).isEmpty
  let exponentHolds := p.exponent.all fun e => !e.2.isEmpty
  if !hasDigits then .other
  else if p.rest.isEmpty && exponentHolds then
    if p.fraction.isNone && p.exponent.isNone then .integer else .real
  else if p.fraction.isSome || (p.exponent.isSome && exponentHolds) then .realBeginning
  else .other

/-- From this size on a whole number takes no further digit. -/
def fullSize : Nat := (pow2 64 - 10) / 10

/-- One more digit, if there is room for it.  The power of ten changes by `taken` if there is, and
by `lost` if there is none. -/
def addDigit (taken lost : Int) (n : Nat × Int) (c : Char) : Nat × Int :=
  if n.1 < fullSize then (10 * n.1 + (c.toNat - 48), n.2 + taken) else (n.1, n.2 + lost)

/-- The digits as a whole number of 64 bits, and the power of ten that goes with it. -/
def significand (p : Parts) : Nat × Int :=
  (p.fraction.getD []).foldl (addDigit (-1) 0) (p.whole.foldl (addDigit 0 1) (0, 0))

/-- The value of the exponent; a long one counts as a great one. -/
def exponentValue (p : Parts) : Int :=
  match p.exponent with
  | none => 0
  | some (negative, digits) =>
    let size : Nat := digits.foldl
      (fun n c => if n < 10000 then 10 * n + (c.toNat - 48) else 10000) 0
    if negative then -size else size

/-- Takes powers of ten into the whole number while it has room for them. -/
def fill : (fuel : Nat) → Nat → Int → Nat × Int
  | 0, n, e => (n, e)
  | fuel + 1, n, e =>
    if 0 < e ∧ n < (pow2 64 - 2048) / 10 then fill fuel (10 * n) (e - 1)
    else if e < 0 ∧ n % 10 = 0 then fill fuel (n / 10) (e + 1)
    else (n, e)

/-- The value as a double; beyond the greatest one it is infinite. -/
def toReal (p : Parts) : Binary64 :=
  let (n, e) := p.significand
  if n = 0 then .zero p.negative
  else
    let (n, e) := fill 20 n (e + p.exponentValue)
    let size := ((Binary64.Pair.ofNat n).timesPowerOfTen e).total
    let size := if size.isNaN then .infinity false else size
    if p.negative then size.negate else size

end Parts

/-- The double that a text begins with, and how much of the text it is. -/
def real (cs : List Char) : Binary64 × Extent :=
  let p := Parts.ofText cs
  (p.toReal, p.extent)

/-- The whole number that a text begins with, the nearest one of 64 bits if it is too great; whether
it `fits`; and whether the text `isInteger`, that is, nothing but a whole number that fits. -/
structure Whole where
  value : Int64
  fits : Bool
  isInteger : Bool
deriving DecidableEq, Repr

/-- The whole number that a text begins with; none counts as zero. -/
def whole (cs : List Char) : Whole :=
  let (negative, cs) := Decimal.readSign (cs.dropWhile isSpace)
  let digits := cs.takeWhile Char.isDigit
  let size : Int := Decimal.natOfDigits 0 digits
  let alone := !digits.isEmpty && (cs.dropWhile Char.isDigit).all isSpace
  match int64? (if negative then -size else size) with
  | some n => ⟨n, true, alone⟩
  | none => ⟨if negative then Int64.minValue else Int64.maxValue, false, false⟩

/-- The value of a hexadecimal digit. -/
def hexDigit (c : Char) : Nat := if c.isDigit then c.toNat - 48 else c.toLower.toNat - 87

/-- The number of hexadecimal digits. -/
def natOfHex (digits : List Char) : Nat := digits.foldl (fun n c => 16 * n + hexDigit c) 0

end Numeral
end Engine
end LinkedRows
