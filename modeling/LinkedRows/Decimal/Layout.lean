/-
# Laying out a decimal

A `Layout` holds what one number format decides beyond the digits.  With the digits `d₁d₂…dₙ` and
the exponent `e` of the leading one, a number is written

| when | as |
| --- | --- |
| `e < 0`, positional | `0.0…0d₁…dₙ` |
| `0 ≤ e < n - 1`, positional | `d₁….…dₙ` |
| `n - 1 ≤ e`, positional | `d₁…dₙ0…0`, then `.0` if the format asks for it |
| otherwise | `d₁.d₂…dₙe…` |
-/

import LinkedRows.Decimal.Shortest

namespace LinkedRows
namespace Decimal

/-- The decisions of a number format. -/
structure Layout where
  /-- The leading exponents, from the first up to but not including the second, of the numbers
  written positionally; `none` if all are. -/
  positional : Option (Int × Int)
  /-- A whole number ends in `.0`. -/
  wholePoint : Bool
  /-- A positive exponent carries a plus sign. -/
  plusSign : Bool
  tie : Tie

namespace Layout

/-- Digits with `e` the exponent of the leading one, written without an exponent. -/
def positionalText (layout : Layout) (digits : List Char) (e : Int) : List Char :=
  if e < 0 then '0' :: '.' :: List.replicate ((-e).toNat - 1) '0' ++ digits
  else
    let whole := e.toNat + 1
    if whole < digits.length then digits.take whole ++ '.' :: digits.drop whole
    else
      digits ++ List.replicate (whole - digits.length) '0' ++
        if layout.wholePoint then ['.', '0'] else []

/-- Digits with `e` the exponent of the leading one, written with an exponent. -/
def exponentText (layout : Layout) (digits : List Char) (e : Int) : List Char :=
  let mantissa :=
    match digits with
    | d :: rest@(_ :: _) => d :: '.' :: rest
    | short => short
  let sign := if e < 0 then ['-'] else if layout.plusSign then ['+'] else []
  mantissa ++ 'e' :: sign ++ Nat.toDigits 10 e.natAbs

/-- A decimal that is not negative. -/
def decimalText (layout : Layout) (d : Decimal) : List Char :=
  let digits := Nat.toDigits 10 d.digits
  let e := d.exponent + (digits.length - 1 : Nat)
  let plain :=
    match layout.positional with
    | none => true
    | some (first, limit) => d.digits == 0 || (first ≤ e && e < limit)
  if plain then layout.positionalText digits e else layout.exponentText digits e

/-- A double in this format; what is no finite number has a name. -/
def text (layout : Layout) (x : Binary64) : String :=
  if x.isNaN then "NaN"
  else
    let sign := if x.isNegative then ['-'] else []
    let size :=
      if !x.isFinite then ['i', 'n', 'f']
      else if x.isZero then layout.decimalText ⟨0, 0⟩
      else layout.decimalText (shortest layout.tie x)
    String.ofList (sign ++ size)

end Layout

/-- The plain format: digits only, never an exponent. -/
def plainLayout : Layout where
  positional := none
  wholePoint := false
  plusSign := false
  tie := .up

end Decimal
end LinkedRows
