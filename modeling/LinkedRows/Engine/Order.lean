/-
# The order of data

Nothing comes first, then numbers by size, then texts, then bytes.  Whole numbers and reals are
compared exactly, never by rounding one of them.  Texts are compared byte by byte, after what their
collation does to them:

| collation | takes |
| --- | --- |
| `binary` | the bytes as they are |
| `nocase` | capital letters of ASCII as small ones |
| `rtrim` | no spaces at the end |
-/

import LinkedRows.Engine.Affinity

namespace LinkedRows
namespace Engine

/-- A way to compare texts. -/
inductive Collation where
  | binary
  | nocase
  | rtrim
deriving DecidableEq, Repr

namespace Collation

/-- The collation with a name, in any case. -/
def named? (name : String) : Option Collation :=
  match name.map Char.toLower with
  | "binary" => some .binary
  | "nocase" => some .nocase
  | "rtrim" => some .rtrim
  | _ => none

/-- A capital letter of ASCII as a small one. -/
def lowerByte (b : UInt8) : UInt8 := if 65 ≤ b ∧ b ≤ 90 then b + 32 else b

/-- The bytes that are compared. -/
def key : Collation → List UInt8 → List UInt8
  | .binary, bytes => bytes
  | .nocase, bytes => bytes.map lowerByte
  | .rtrim, bytes => (bytes.reverse.dropWhile (· == 32)).reverse

end Collation

/-- A number in units of `2 ^ (-1074)`, in which every finite double is whole; an infinity is beyond
all of them. -/
def units : Datum → Option Int
  | .integer n => some (n.toInt * pow2 1074)
  | .real x =>
    let size : Int := if x.isFinite then x.significand * pow2 (x.scale + 1074).toNat else pow2 2100
    some (if x.isNegative then -size else size)
  | _ => none

/-- Nothing comes before numbers, numbers before texts, texts before bytes. -/
def rank : Datum → Nat
  | .null => 0
  | .integer _ | .real _ => 1
  | .text _ => 2
  | .blob _ => 3

/-- The order of data. -/
def order (c : Collation) (d e : Datum) : Ordering :=
  match d, e with
  | .integer a, .integer b => compare a.toInt b.toInt
  | .text a, .text b => compare (c.key a) (c.key b)
  | .blob a, .blob b => compare a b
  | d, e =>
    match units d, units e with
    | some a, some b => compare a b
    | _, _ => compare (rank d) (rank e)

/-- Are two data equal?  Nothing equals nothing else, and not itself. -/
def sameDatum (c : Collation) (d e : Datum) : Bool :=
  !d.isNull && !e.isNull && order c d e == .eq

end Engine
end LinkedRows
