/-
# Values as documents

Two ways from values to documents and back.

* By content: numbers, truth values and texts are themselves; bytes are an array of numbers.  What
  is no finite number is `null`.  Back, an array or an object is kept as its compact text.
* By tag: `"Null"`, or an object with one member, the tag, as in `{"BigInt": 7}`.  This way keeps
  the kind of every value; only doubles that are not finite are lost.
-/

import LinkedRows.Document
import LinkedRows.Value

namespace LinkedRows
namespace Value

/-- The value by content. -/
def toDocument : Value → Document
  | .null => .null
  | .bool b => .bool b
  | .int n => .int n.toInt
  | .double x => if x.isFinite then .double x else .null
  | .text s => .text s
  | .bytes bs => .array (bs.map fun b => .int b.toNat)

/-- The double nearest to a whole number. -/
def nearestDouble (n : Int) : Binary64 := .ofRatio (n < 0) n.natAbs 1

/-- The value with the content of a document. -/
def ofDocument : Document → Value
  | .null => .null
  | .bool b => .bool b
  | .int n => ((int64? n).map Value.int).getD (.double (nearestDouble n))
  | .double x => .double x
  | .text s => .text s
  | doc@(.array _) => .text doc.compact
  | doc@(.object _) => .text doc.compact

/-- The value by tag. -/
def toTagged : Value → Document
  | .null => .text "Null"
  | .bool b => .object [("Bool", .bool b)]
  | .int n => .object [("BigInt", .int n.toInt)]
  | .double x => .object [("Double", if x.isFinite then .double x else .null)]
  | .text s => .object [("Text", .text s)]
  | .bytes bs => .object [("Bytes", .array (bs.map fun b => .int b.toNat))]

/-- A number from 0 to 255. -/
def byteOf? : Document → Option UInt8
  | .int n => if 0 ≤ n ∧ n < 256 then some (UInt8.ofNat n.toNat) else none
  | _ => none

/-- The value under a tag. -/
def ofTag? : String → Document → Option Value
  | "Null", .null => some .null
  | "Bool", .bool b => some (.bool b)
  | "BigInt", .int n => (int64? n).map Value.int
  | "Double", .double x => some (.double x)
  | "Double", .int n => some (.double (nearestDouble n))
  | "Text", .text s => some (.text s)
  | "Bytes", .array items => (items.mapM byteOf?).map .bytes
  | _, _ => none

/-- The value that a tagged document stands for. -/
def ofTagged? : Document → Option Value
  | .text "Null" => some .null
  | .object [(tag, doc)] => ofTag? tag doc
  | _ => none

end Value
end LinkedRows
