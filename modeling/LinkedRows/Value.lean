/-
# Values

A value of a column: nothing, a truth value, a 64-bit integer, a double, a text or bytes.  Integers
of every width are 64-bit integers here, so that a link read from storage equals the identifier of
the row it points at.

Two notions of equality: `=` tells all values apart, `agrees` compares doubles as numbers.
-/

import LinkedRows.Decimal.Layout
import LinkedRows.Decimal.Reader
import LinkedRows.Fault
import LinkedRows.Text.Blank

namespace LinkedRows

/-- A value that a column can hold. -/
inductive Value where
  | null
  | bool (b : Bool)
  | int (n : Int64)
  | double (x : Binary64)
  | text (s : String)
  | bytes (bs : List UInt8)
deriving DecidableEq, Repr, Inhabited

/-- The kinds that a value can be asked for. -/
inductive Kind where
  | any
  | bool
  | int64
  | int32
  | double
  | text
deriving DecidableEq, Repr

namespace Value

def isNull : Value → Bool
  | .null => true
  | _ => false

/-- The name of the value's SQL type. -/
def typeName : Value → String
  | .null => "NULL"
  | .bool _ => "BOOLEAN"
  | .int _ => "BIGINT"
  | .double _ => "DOUBLE"
  | .text _ => "TEXT"
  | .bytes _ => "BLOB"

/-- Equality with doubles compared as numbers: not-a-number agrees with nothing, the zeros agree. -/
def agrees : Value → Value → Bool
  | .double x, .double y => x.numericEq y
  | v, w => v == w

/-- Integers are true unless zero. -/
def toBool? : Value → Option Bool
  | .bool b => some b
  | .int n => some (n != 0)
  | _ => none

/-- A text counts if it spells an integer between blanks. -/
def toInt64? : Value → Option Int64
  | .int n => some n
  | .bool b => some (if b then 1 else 0)
  | .text s => Decimal.readInt64 (Text.trim s.toList)
  | _ => none

/-- A text counts if it spells a number between blanks. -/
def toBinary64? : Value → Option Binary64
  | .double x => some x
  | .int n => some (.ofInt64 n)
  | .text s => Decimal.readBinary64 (Text.trim s.toList)
  | _ => none

def toText? : Value → Option String
  | .text s => some s
  | _ => none

/-- The bytes of a text are its UTF-8. -/
def toBytes? : Value → Option (List UInt8)
  | .bytes bs => some bs
  | .text s => some s.toUTF8.toList
  | _ => none

/-- A value for people: texts unquoted, doubles without an exponent, bytes only counted. -/
def display : Value → String
  | .null => "NULL"
  | .bool b => if b then "true" else "false"
  | .int n => toString n.toInt
  | .double x => Decimal.plainLayout.text x
  | .text s => s
  | .bytes bs => s!"[BLOB: {bs.length} bytes]"

/-- The fault of a value that is not of the kind asked for. -/
def mismatch (expected : String) (v : Value) : Fault :=
  .type ⟨expected, v.typeName, none⟩

/-- The value as the kind asked for, or the fault that it is no such value.  Numbers read as text,
but a text that should be a number must spell one. -/
def convert : Kind → Value → Except Fault Value
  | .any, v => .ok v
  | .bool, v => (v.toBool?.map .bool).elim (.error (v.mismatch "bool")) .ok
  | .int64, v => (v.toInt64?.map .int).elim (.error (v.mismatch "i64")) .ok
  | .int32, v =>
    match v.toInt64? with
    | none => .error (v.mismatch "i32")
    | some n =>
      if fits 31 n.toInt then .ok (.int n)
      else .error (.type ⟨"i32", s!"value {n.toInt} out of range", none⟩)
  | .double, v => (v.toBinary64?.map .double).elim (.error (v.mismatch "f64")) .ok
  | .text, .text s => .ok (.text s)
  | .text, .int n => .ok (.text (Value.int n).display)
  | .text, .double x => .ok (.text (Value.double x).display)
  | .text, v => .error (v.mismatch "String")

/-- The value as the kind asked for, where nothing stays nothing. -/
def convertOptional (kind : Kind) : Value → Except Fault Value
  | .null => .ok .null
  | v => v.convert kind

end Value
end LinkedRows
