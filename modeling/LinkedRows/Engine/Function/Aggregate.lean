/-
# Values of functions of many rows

Such a function is given the arguments of each row, in the order of the rows.  Rows whose first
argument is nothing do not count.

A sum of reals is kept as a sum and the error that rounding has made of it so far, which is found
anew with each term.
-/

import LinkedRows.Binary64.Arithmetic
import LinkedRows.Engine.Function.Scalar

namespace LinkedRows
namespace Engine

/-- A sum of reals, and what rounding has lost of it. -/
structure RealSum where
  sum : Binary64
  lost : Binary64
deriving DecidableEq, Repr

namespace RealSum

/-- One more term. -/
def add (s : RealSum) (x : Binary64) : RealSum :=
  let t := s.sum.add x
  let lost :=
    if x.magnitude.lt s.sum.magnitude then (s.sum.sub t).add x else (x.sub t).add s.sum
  ⟨t, s.lost.add lost⟩

/-- Is a whole number too long to be a double? -/
def isLong (n : Int64) : Bool := pow2 52 ≤ n.toInt.natAbs

/-- A long whole number in two parts that are doubles. -/
def halves (n : Int64) : Int64 × Int64 :=
  let low := Int64.ofInt (n.toInt.tmod 16384)
  (n - low, low)

/-- The sum that is a whole number. -/
def ofInt64 (n : Int64) : RealSum :=
  if isLong n then
    let (high, low) := halves n
    ⟨.ofInt64 high, .ofInt64 low⟩
  else ⟨.ofInt64 n, .zero false⟩

/-- A whole number more. -/
def addInt64 (s : RealSum) (n : Int64) : RealSum :=
  if isLong n then
    let (high, low) := halves n
    (s.add (.ofInt64 high)).add (.ofInt64 low)
  else s.add (.ofInt64 n)

/-- The sum as a double. -/
def value (s : RealSum) : Binary64 := if s.lost.isFinite then s.sum.add s.lost else s.sum

end RealSum

/-- A sum: whole as long as all terms are and it fits, then of reals. -/
inductive Summation where
  | whole (n : Int64)
  | real (s : RealSum) (overflowed : Bool)
deriving DecidableEq, Repr

namespace Summation

/-- One more term. -/
def add : Summation → Datum → Summation
  | .whole m, .integer n =>
    match int64? (m.toInt + n.toInt) with
    | some sum => .whole sum
    | none => .real ((RealSum.ofInt64 m).addInt64 n) true
  | .whole m, d => .real ((RealSum.ofInt64 m).add d.toReal) false
  | .real s overflowed, .integer n => .real (s.addInt64 n) overflowed
  | .real s _, d => .real (s.add d.toReal) false

/-- The sum of data. -/
def ofData (ds : List Datum) : Summation :=
  (ds.map Affinity.compared).foldl add (.whole 0)

/-- The sum as a double. -/
def value : Summation → Binary64
  | .whole n => .ofInt64 n
  | .real s _ => s.value

end Summation

namespace Aggregate

/-- The sum as a datum, if it is a number of its kind. -/
def sumOf (ds : List Datum) : Except Issue Datum :=
  match Summation.ofData ds with
  | .whole n => .ok (.integer n)
  | .real _ true => .error .integerOverflow
  | .real s false => .ok (.ofBinary64 s.value)

/-- The better one of two data, the first one if they are equal. -/
def better (greatest : Bool) (c : Collation) (best d : Datum) : Datum :=
  if order c best d == (if greatest then .lt else .gt) then d else best

/-- Texts after another, each with a separator before it, the first one without. -/
def joinedText : List (List Datum) → List UInt8
  | [] => []
  | row :: rows => textOf row.head? ++ rows.flatMap fun row => separatorOf row ++ textOf row.head?
where
  /-- The bytes of a datum. -/
  textOf (d : Option Datum) : List UInt8 := ((d.bind Datum.bytes?)).getD []
  /-- The second datum of a row, or a comma. -/
  separatorOf : List Datum → List UInt8
    | [_] => [44]
    | row => textOf row[1]?

/-- The rows without those that have the same first datum as one before. -/
def distinct (c : Collation) : (seen : List Datum) → List (List Datum) → List (List Datum)
  | _, [] => []
  | seen, row :: rows =>
    let d := row.head?.getD .null
    if seen.any fun e => order c e d == .eq then distinct c seen rows
    else row :: distinct c (d :: seen) rows

/-- The value of a function of the arguments of all rows. -/
def value (f : Aggregate) (isDistinct : Bool) (c : Collation) (rows : List (List Datum)) :
    Except Issue Datum :=
  let counted := rows.filter fun row => !(row.head?).any Datum.isNull
  let counted := if isDistinct then distinct c [] counted else counted
  let first := counted.filterMap List.head?
  match f with
  | .count => .ok (Datum.ofNat counted.length)
  | .sum => if first.isEmpty then .ok .null else sumOf first
  | .total => .ok (.ofBinary64 (Summation.ofData first).value)
  | .average =>
    if first.isEmpty then .ok .null
    else .ok (.ofBinary64 ((Summation.ofData first).value.div (.ofNat first.length)))
  | .extreme greatest =>
    match first with
    | [] => .ok .null
    | d :: ds => .ok (ds.foldl (better greatest c) d)
  | .joined => .ok (if counted.isEmpty then .null else .text (joinedText counted))

end Aggregate
end Engine
end LinkedRows
