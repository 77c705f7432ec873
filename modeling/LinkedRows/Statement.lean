/-
# Statements

The four statements that act on one row, as data, and their text in a dialect:

| statement | text |
| --- | --- |
| select | `SELECT c, … FROM t WHERE k = v` |
| insert | `INSERT INTO t (c, …) VALUES (v, …)` |
| insert of nothing | `INSERT INTO t DEFAULT VALUES`, in MySQL `INSERT INTO t () VALUES ()` |
| update | `UPDATE t SET c = v, … WHERE k = v` |
| delete | `DELETE FROM t WHERE k = v` |

Values are written as literals, so the list of parameters is empty.  A statement has no text only if
one of its values has no literal; of several, the first in the text decides the fault.
-/

import LinkedRows.Dialect

namespace LinkedRows

/-- The row whose column has a value. -/
structure RowKey where
  column : String
  value : Value
deriving DecidableEq, Repr

/-- A statement on one row of a table. -/
inductive Statement where
  | select (table : String) (columns : List String) (key : RowKey)
  | insert (table : String) (fields : List (String × Value))
  | update (table : String) (fields : List (String × Value)) (key : RowKey)
  | delete (table : String) (key : RowKey)
deriving DecidableEq, Repr

/-- The text of a statement and the values of its parameters, as a database takes them. -/
structure Prepared where
  text : String
  parameters : List Value
deriving DecidableEq, Repr

namespace Statement

/-- Texts with a comma between them. -/
def commaList (texts : List String) : String := ", ".intercalate texts

/-- A column and its value with an equals sign between them. -/
def equation (dialect : Dialect) (column : String) (value : Value) : Except Fault String :=
  (dialect.literal value).map fun literal => dialect.name column ++ " = " ++ literal

/-- The text of a statement. -/
def text (dialect : Dialect) : Statement → Except Fault String
  | .select table columns key => do
    let row ← equation dialect key.column key.value
    return s!"SELECT {commaList (columns.map dialect.name)} FROM {dialect.name table} WHERE {row}"
  | .insert table [] =>
    match dialect with
    | .mysql => .ok s!"INSERT INTO {dialect.name table} () VALUES ()"
    | _ => .ok s!"INSERT INTO {dialect.name table} DEFAULT VALUES"
  | .insert table fields => do
    let literals ← fields.mapM fun field => dialect.literal field.2
    let columns := commaList (fields.map fun field => dialect.name field.1)
    return s!"INSERT INTO {dialect.name table} ({columns}) VALUES ({commaList literals})"
  | .update table fields key => do
    let assignments ← fields.mapM fun field => equation dialect field.1 field.2
    let row ← equation dialect key.column key.value
    return s!"UPDATE {dialect.name table} SET {commaList assignments} WHERE {row}"
  | .delete table key => do
    let row ← equation dialect key.column key.value
    return s!"DELETE FROM {dialect.name table} WHERE {row}"

/-- The statement as a database takes it. -/
def prepare (dialect : Dialect) (s : Statement) : Except Fault Prepared :=
  (s.text dialect).map fun text => ⟨text, []⟩

/-- Does an update assign nothing? -/
def assignsNothing : Statement → Bool
  | .update _ fields _ => fields.isEmpty
  | _ => false

end Statement
end LinkedRows
