/-
# Rows

The rows of a query's result: names and values by position.  A name that occurs more than once
stands for its last position.
-/

import LinkedRows.Value

namespace LinkedRows

/-- A row of a result.  The two lists need not be of one length: a name without a value stands for
nothing, a value without a name is found by position only. -/
structure Row where
  names : List String
  values : List Value
deriving DecidableEq, Repr

/-- The last position of a name. -/
def lastIndexOf? (name : String) : List String → Option Nat
  | [] => none
  | n :: rest =>
    match lastIndexOf? name rest with
    | some i => some (i + 1)
    | none => if n = name then some 0 else none

namespace Row

/-- A row from its columns. -/
def ofPairs (pairs : List (String × Value)) : Row := ⟨pairs.map Prod.fst, pairs.map Prod.snd⟩

/-- The columns that have both a name and a value. -/
def toPairs (r : Row) : List (String × Value) := r.names.zip r.values

def width (r : Row) : Nat := r.values.length

def get? (r : Row) (i : Nat) : Option Value := r.values[i]?

/-- The value at the last position of a name. -/
def find? (r : Row) (name : String) : Option Value :=
  (lastIndexOf? name r.names).bind r.get?

def contains (r : Row) (name : String) : Bool := (lastIndexOf? name r.names).isSome

/-- The type that the text of a missing column names. -/
def wantedName (kind : Kind) (optional : Bool) : String :=
  let plain :=
    match kind with
    | .any => "dbrecord_core::value::Value"
    | .bool => "bool"
    | .int64 => "i64"
    | .int32 => "i32"
    | .double => "f64"
    | .text => "alloc::string::String"
  if optional then s!"core::option::Option<{plain}>" else plain

/-- The value of a named column as the kind asked for.  Every fault names the column. -/
def read (r : Row) (kind : Kind) (optional : Bool) (name : String) : Except Fault Value :=
  match r.find? name with
  | none => .error (.type ⟨wantedName kind optional, s!"column '{name}' not found", some name⟩)
  | some v =>
    match if optional then v.convertOptional kind else v.convert kind with
    | .error (.type f) => .error (.type ⟨f.expected, f.found, some name⟩)
    | result => result

end Row
end LinkedRows
