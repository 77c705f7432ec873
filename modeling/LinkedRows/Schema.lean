/-
# Schemas

A table as its database describes it: its columns in the order of their declaration, each with its
declared default and whether it is part of the key.
-/

import LinkedRows.Value.Document

namespace LinkedRows

/-- A column as declared. -/
structure ColumnShape where
  name : String
  declared : Value
  isKey : Bool
deriving DecidableEq, Repr

/-- A described table. -/
structure Schema where
  table : String
  columns : List ColumnShape
deriving DecidableEq, Repr

namespace ColumnShape

/-- The column as a document, its default by tag. -/
def toDocument (c : ColumnShape) : Document :=
  .object [("name", .text c.name), ("default_value", c.declared.toTagged),
    ("primary_key", .bool c.isKey)]

/-- Reads a column; only its name cannot be left out. -/
def ofDocument? (doc : Document) : Option ColumnShape := do
  match ← doc.fields? ["name", "default_value", "primary_key"] with
  | [name, declared, isKey] =>
    return ⟨← (← name).toText?, ← Document.field? Value.ofTagged? .null declared,
      ← Document.field? Document.toBool? false isKey⟩
  | _ => none

end ColumnShape

namespace Schema

/-- The key column, if exactly one column is a key. -/
def key? (s : Schema) : Option ColumnShape :=
  match s.columns.filter (·.isKey) with
  | [column] => some column
  | _ => none

/-- The first column with a name. -/
def column? (s : Schema) (name : String) : Option ColumnShape :=
  s.columns.find? fun c => c.name == name

def columnNames (s : Schema) : List String := s.columns.map (·.name)

/-- The schema as a document. -/
def toDocument (s : Schema) : Document :=
  .object [("name", .text s.table), ("columns", .array (s.columns.map ColumnShape.toDocument))]

/-- The fault of a table that has no columns, which is how a database describes a table it does not
have. -/
def notFound (table : String) : Fault :=
  .schema ⟨s!"table '{table}' has no columns or does not exist", none⟩

/-- The schema of a table from its description. -/
def ofColumns (table : String) : List ColumnShape → Except Fault Schema
  | [] => .error (notFound table)
  | columns => .ok ⟨table, columns⟩

end Schema
end LinkedRows
