/-
# Affinities

The type that a column is declared with decides what becomes of the data that are stored there:

| affinity | declared type | a text that is a number | a whole real | a number |
| --- | --- | --- | --- | --- |
| `integer` | contains `INT` | becomes it | becomes an integer | stays |
| `text` | contains `CHAR`, `CLOB` or `TEXT` | stays | becomes a text | becomes a text |
| `blob` | contains `BLOB`, or no type | stays | stays | stays |
| `real` | contains `REAL`, `FLOA` or `DOUB` | becomes it | stays | becomes a real |
| `numeric` | any other one | becomes it | becomes an integer | stays |

A conversion that is asked for, `cast`, goes further: it always gives a datum of the type.
-/

import LinkedRows.Engine.Datum

namespace LinkedRows
namespace Engine

/-- What a column does to data. -/
inductive Affinity where
  | blob
  | text
  | numeric
  | integer
  | real
deriving DecidableEq, Repr

namespace Affinity

def isNumeric : Affinity → Bool
  | .numeric | .integer | .real => true
  | _ => false

/-- Does a list occur within another one? -/
def occurs (part : List Char) : List Char → Bool
  | [] => part.isEmpty
  | c :: cs => part.isPrefixOf (c :: cs) || occurs part cs

/-- The affinity of a declared type; the order of the tests matters for types that pass several. -/
def ofType (type : String) : Affinity :=
  let type := type.toList.map Char.toLower
  let has (part : String) : Bool := occurs part.toList type
  if has "int" then .integer
  else if has "char" || has "clob" || has "text" then .text
  else if has "blob" then .blob
  else if has "real" || has "floa" || has "doub" then .real
  else .numeric

/-- A real as a whole number if it is one, the least and the greatest ones apart. -/
def wholeReal (x : Binary64) : Datum :=
  let n := Datum.cut x
  if Int64.minValue < n ∧ n < Int64.maxValue ∧ (Binary64.ofInt64 n).numericEq x then .integer n
  else .real x

/-- A text that is a number as this number: an integer if it is one, or a real.  Other texts stay.
-/
def numberOfText (wholeReals : Bool) (bytes : List UInt8) : Datum :=
  let cs := Datum.characters bytes
  let real (x : Binary64) : Datum := if wholeReals then wholeReal x else .real x
  match Numeral.real cs with
  | (x, .integer) =>
    match Datum.smallInteger? x with
    | some n => .integer n
    | none =>
      let whole := Numeral.whole cs
      if whole.isInteger then .integer whole.value else real x
  | (x, .real) => real x
  | _ => .text bytes

/-- A datum as an operand of a comparison of numbers: only texts change. -/
def compared : Datum → Datum
  | .text bytes => numberOfText false bytes
  | d => d

/-- What a number becomes as a text; other data stay. -/
def asText : Datum → Datum
  | .integer n => .text (((Datum.integer n).bytes?).getD [])
  | .real x => .text (((Datum.real x).bytes?).getD [])
  | d => d

/-- What a datum becomes where only numbers matter. -/
def asNumber : Datum → Datum
  | .text bytes => numberOfText true bytes
  | .real x => wholeReal x
  | d => d

/-- What a datum becomes in a column. -/
def store : Affinity → Datum → Datum
  | .blob, d => d
  | .text, d => asText d
  | .numeric, d | .integer, d => asNumber d
  | .real, d =>
    match asNumber d with
    | .integer n => .real (.ofInt64 n)
    | d => d

/-- Converts a datum. -/
def cast : Affinity → Datum → Datum
  | _, .null => .null
  | .blob, d => .blob (d.bytes?.getD [])
  | .text, d => .text (d.bytes?.getD [])
  | .integer, d => .integer d.toInteger
  | .real, d => .real d.toReal
  | .numeric, .text bytes | .numeric, .blob bytes =>
    let cs := Datum.characters bytes
    let whole := Numeral.whole cs
    let (x, extent) := Numeral.real cs
    if (extent = .integer ∨ extent = .other) ∧ whole.fits then .integer whole.value
    else
      match Datum.smallInteger? x with
      | some n => .integer n
      | none => .real x
  | .numeric, d => d

end Affinity

/-- What happens to the two sides of a comparison, if any of them has an affinity: two columns are
compared as numbers if one of them holds numbers; a column lends its affinity to what is none. -/
def sharedAffinity : Option Affinity → Option Affinity → Affinity
  | some a, some b => if a.isNumeric || b.isNumeric then .numeric else .blob
  | some a, none | none, some a => a
  | none, none => .blob

/-- Both sides of a comparison under an affinity. -/
def Affinity.both (a : Affinity) (d e : Datum) : Datum × Datum :=
  let isText : Datum → Bool
    | .text _ => true
    | _ => false
  if a.isNumeric then (compared d, compared e)
  else if a = .text ∧ (isText d || isText e) then (asText d, asText e)
  else (d, e)

end Engine
end LinkedRows
