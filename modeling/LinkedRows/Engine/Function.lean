/-
# Functions

The functions that expressions can call, by name and number of arguments.  A scalar function is
computed from the arguments of one row, an aggregate from those of many rows; `min` and `max` are
aggregates if they have one argument.
-/

import LinkedRows.Engine.Expr

namespace LinkedRows
namespace Engine

/-- The functions of one row. -/
inductive Scalar where
  | abs
  | changes
  | char
  | coalesce
  | concat
  | concatWith
  | glob
  | hex
  | choose
  | instr
  | lastNumber
  | length
  | like
  | likely
  | lower
  | trim (left right : Bool)
  | extreme (greatest : Bool)
  | nullIf
  | octetLength
  | quote
  | replace
  | round
  | sign
  | substr
  | typeName
  | unhex
  | unicode
  | upper
  | version
  | zeros
  | matches
  /-- Functions that exist, but not here. -/
  | beyond
deriving DecidableEq, Repr

/-- The functions of many rows. -/
inductive Aggregate where
  | count
  | sum
  | total
  | average
  | extreme (greatest : Bool)
  | joined
deriving DecidableEq, Repr

/-- A function, as an expression calls it; an aggregate may leave out repeated arguments. -/
inductive Callee where
  | scalar (f : Scalar)
  | aggregate (f : Aggregate) (name : String) (distinct : Bool)
deriving DecidableEq, Repr

namespace Scalar

/-- The functions that have a name in lower case, with the least and the greatest number of
arguments. -/
def named (name : String) : Option (Scalar × Nat × Option Nat) :=
  match name with
  | "abs" => some (.abs, 1, some 1)
  | "changes" => some (.changes, 0, some 0)
  | "char" => some (.char, 0, none)
  | "coalesce" => some (.coalesce, 2, none)
  | "concat" => some (.concat, 1, none)
  | "concat_ws" => some (.concatWith, 2, none)
  | "glob" => some (.glob, 2, some 2)
  | "hex" => some (.hex, 1, some 1)
  | "if" | "iif" => some (.choose, 2, none)
  | "ifnull" => some (.coalesce, 2, some 2)
  | "instr" => some (.instr, 2, some 2)
  | "last_insert_rowid" => some (.lastNumber, 0, some 0)
  | "length" => some (.length, 1, some 1)
  | "like" => some (.like, 2, some 3)
  | "likelihood" => some (.likely, 2, some 2)
  | "likely" | "unlikely" => some (.likely, 1, some 1)
  | "lower" => some (.lower, 1, some 1)
  | "ltrim" => some (.trim true false, 1, some 2)
  | "max" => some (.extreme true, 2, none)
  | "min" => some (.extreme false, 2, none)
  | "nullif" => some (.nullIf, 2, some 2)
  | "octet_length" => some (.octetLength, 1, some 1)
  | "quote" => some (.quote, 1, some 1)
  | "replace" => some (.replace, 3, some 3)
  | "round" => some (.round, 1, some 2)
  | "rtrim" => some (.trim false true, 1, some 2)
  | "sign" => some (.sign, 1, some 1)
  | "sqlite_version" => some (.version, 0, some 0)
  | "substr" | "substring" => some (.substr, 2, some 3)
  | "trim" => some (.trim true true, 1, some 2)
  | "typeof" => some (.typeName, 1, some 1)
  | "unhex" => some (.unhex, 1, some 2)
  | "unicode" => some (.unicode, 1, some 1)
  | "upper" => some (.upper, 1, some 1)
  | "zeroblob" => some (.zeros, 1, some 1)
  | "date" | "datetime" | "format" | "julianday" | "printf" | "strftime" | "time" | "unixepoch" =>
    some (.beyond, 0, none)
  | "timediff" => some (.beyond, 2, some 2)
  | "random" | "sqlite_source_id" | "total_changes" => some (.beyond, 0, some 0)
  | "match" => some (.matches, 2, some 2)
  | "randomblob" | "soundex" | "unistr" | "unistr_quote" => some (.beyond, 1, some 2)
  | _ => if name.startsWith "json" then some (.beyond, 0, none) else none

end Scalar

namespace Aggregate

/-- The functions that have a name in lower case, with the least and the greatest number of
arguments. -/
def named (name : String) : Option (Aggregate × Nat × Nat) :=
  match name with
  | "avg" => some (.average, 1, 1)
  | "count" => some (.count, 0, 1)
  | "group_concat" | "string_agg" => some (.joined, if name = "string_agg" then 2 else 1, 2)
  | "max" => some (.extreme true, 1, 1)
  | "min" => some (.extreme false, 1, 1)
  | "sum" => some (.sum, 1, 1)
  | "total" => some (.total, 1, 1)
  | _ => none

end Aggregate

namespace Call

/-- The function that a call with a number of arguments means. -/
def callee (c : Call) (arguments : Nat) : Except Issue Callee :=
  let name := c.name.map Char.toLower
  let aggregate? := (Aggregate.named name).bind fun (f, least, greatest) =>
    if least ≤ arguments ∧ arguments ≤ greatest then some (Callee.aggregate f c.name c.distinct)
    else none
  let scalar? := (Scalar.named name).bind fun (f, least, greatest) =>
    if least ≤ arguments ∧ greatest.all (arguments ≤ ·) then some (Callee.scalar f) else none
  match aggregate?.or scalar? with
  | some callee => .ok callee
  | none =>
    if (Aggregate.named name).isNone && (Scalar.named name).isNone then .error (.noFunction c.name)
    else .error (.argumentCount c.name)

end Call
end Engine
end LinkedRows
