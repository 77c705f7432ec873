/-
# Data

What the engine stores and computes with: nothing, a whole number, a real, a text or bytes.  A text
is bytes too, which are UTF-8 unless a conversion from bytes made others of them.

Every datum can be asked for a number, and for a text unless it is nothing.  Texts and bytes are the
number that they begin with; numbers are the text that prints them.
-/

import LinkedRows.Engine.Numeral
import LinkedRows.Engine.Numeral.Printed
import LinkedRows.Text.Utf8
import LinkedRows.Value

namespace LinkedRows
namespace Engine

/-- A datum; a real is a number. -/
inductive Datum where
  | null
  | integer (n : Int64)
  | real (x : Binary64)
  | text (bytes : List UInt8)
  | blob (bytes : List UInt8)
deriving DecidableEq, Repr, Inhabited

namespace Datum

/-- Nothing if a double is not a number. -/
def ofBinary64 (x : Binary64) : Datum := if x.isNaN then .null else .real x

def ofBool (b : Bool) : Datum := .integer (if b then 1 else 0)

def ofString (s : String) : Datum := .text s.toUTF8.toList

/-- A text of characters in ASCII. -/
def ofAscii (cs : List Char) : Datum := .text (cs.map fun c => UInt8.ofNat c.toNat)

/-- The datum of a value; a truth value is 0 or 1. -/
def ofValue : Value → Datum
  | .null => .null
  | .bool b => ofBool b
  | .int n => .integer n
  | .double x => ofBinary64 x
  | .text s => ofString s
  | .bytes bs => .blob bs

/-- The value of a datum; a text that is no UTF-8 is read as far as it is. -/
def toValue : Datum → Value
  | .null => .null
  | .integer n => .int n
  | .real x => .double x
  | .text bytes => .text (Text.readUtf8 bytes)
  | .blob bytes => .bytes bytes

def isNull : Datum → Bool
  | .null => true
  | _ => false

/-- Bytes as characters, one each; numbers are written in ASCII. -/
def characters (bytes : List UInt8) : List Char := bytes.map fun b => Char.ofNat b.toNat

/-- The bytes of a datum's text; nothing has none. -/
def bytes? : Datum → Option (List UInt8)
  | .null => none
  | .integer n => some (toString n.toInt).toUTF8.toList
  | .real x => some ((Numeral.text x).map fun c => UInt8.ofNat c.toNat)
  | .text bytes | .blob bytes => some bytes

/-- A datum as a real. -/
def toReal : Datum → Binary64
  | .null => .zero false
  | .integer n => .ofInt64 n
  | .real x => x
  | .text bytes | .blob bytes => (Numeral.real (characters bytes)).1

/-- A real cut to a whole number of 64 bits, the nearest one if it is too great. -/
def cut (x : Binary64) : Int64 :=
  if !x.isFinite then if x.isNegative then Int64.minValue else Int64.maxValue
  else
    (int64? x.truncated).getD (if x.isNegative then Int64.minValue else Int64.maxValue)

/-- A datum as a whole number. -/
def toInteger : Datum → Int64
  | .null => 0
  | .integer n => n
  | .real x => cut x
  | .text bytes | .blob bytes => (Numeral.whole (characters bytes)).value

/-- The whole number that a real is, if it is less than `2 ^ 51` away from zero. -/
def smallInteger? (x : Binary64) : Option Int64 :=
  let n := cut x
  if x.isZero then some 0
  else if fits 51 n.toInt ∧ Binary64.ofInt64 n = x then some n
  else none

/-- A datum as an operand of arithmetic: a whole number, a real or nothing. -/
def toNumber : Datum → Datum
  | .text bytes | .blob bytes =>
    let cs := characters bytes
    let whole := Numeral.whole cs
    match Numeral.real cs with
    | (x, .integer) => if whole.isInteger then .integer whole.value else .real x
    | (x, .other) => if whole.fits then .integer whole.value else .real x
    | (x, _) => .real x
  | d => d

/-- Is a datum true?  None if it is nothing. -/
def truth? : Datum → Option Bool
  | .null => none
  | .integer n => some (n != 0)
  | d => some (!d.toReal.isZero)

/-- The datum of a truth value that may be unknown. -/
def ofTruth : Option Bool → Datum
  | none => .null
  | some b => ofBool b

/-- The name of a datum's type. -/
def typeName : Datum → String
  | .null => "null"
  | .integer _ => "integer"
  | .real _ => "real"
  | .text _ => "text"
  | .blob _ => "blob"

end Datum
end Engine
end LinkedRows
