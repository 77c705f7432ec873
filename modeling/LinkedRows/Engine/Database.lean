/-
# Databases

A database is a list of relations: declared tables with their rows.  Every row has a number; the
rows stand in the order of their numbers.  If the primary key is one column of the type `INTEGER`,
that column holds the number.

A row gets into a relation only if it passes these tests, in this order:

1. a required column has a datum,
2. the checks hold,
3. no other row has the same number,
4. no other row has the same data in the columns of a key, where nothing is never the same; the
   latest key comes first.

Every database has a table of its tables, which no statement changes.
-/

import LinkedRows.Engine.Declaration

namespace LinkedRows
namespace Engine

/-- A table with its rows. -/
structure Relation where
  declaration : Declaration
  rows : List Stored

/-- All tables, in the order of their creation. -/
structure Database where
  relations : List Relation

namespace Stored

/-- Do two rows agree in the columns of a key? -/
def agreesAt (row other : Stored) (key : Key) : Bool :=
  key.columns.all fun c => sameDatum c.collation (row.datum c.column) (other.datum c.column)

end Stored

/-- The whole number that a datum can stand for. -/
def Datum.wholeNumber? (d : Datum) : Option Int64 :=
  match Affinity.asNumber d with
  | .integer n => some n
  | _ => none

namespace Relation

def name (r : Relation) : String := r.declaration.name

/-- A number for a new row: one more than the last one, or else the first one that is free. -/
def nextNumber (r : Relation) : Int64 :=
  match r.rows.getLast? with
  | none => 1
  | some last =>
    if last.number < Int64.maxValue then last.number + 1
    else
      let free := (List.range (r.rows.length + 1)).find? fun i =>
        r.rows.all fun row => row.number != Int64.ofNat (i + 1)
      Int64.ofNat (free.getD 0 + 1)

/-- A row of data as the columns store them, with its number where the declaration wants it. -/
def stored (r : Relation) (number : Int64) (values : List Datum) : Stored :=
  let values := (r.declaration.traits.zip values).map fun (trait, d) => trait.affinity.store d
  match r.declaration.numbering with
  | some i => ⟨number, values.set i (.integer number)⟩
  | none => ⟨number, values⟩

/-- The first required column without a datum. -/
def missing? (r : Relation) (row : Stored) : Option Column :=
  ((r.declaration.columns.zip row.values).find? fun (c, d) => c.required && d.isNull).map Prod.fst

/-- The first check that a row fails; a check whose truth is unknown is passed. -/
def failedCheck? (r : Relation) (s : Surroundings) (row : Stored) : Except Issue (Option Check) :=
  let names := Names.ofTable r.declaration.subject
  let scene : Scene := ⟨r.declaration.traits, [], s, some row, []⟩
  r.declaration.checks.findM? fun check => do
    return (← scene.value (← names.formula check.condition)).truth? == some false

/-- The first key in which another row agrees. -/
def repeated? (r : Relation) (row : Stored) : Option Key :=
  r.declaration.keys.find? fun key => r.rows.any fun other => row.agreesAt other key

/-- Tests whether a row can get into a relation. -/
def approve (r : Relation) (s : Surroundings) (row : Stored) : Except Issue Unit := do
  if let some c := r.missing? row then throw (.notNull r.name c.name)
  if let some check := ← r.failedCheck? s row then throw (.checkFailed check.title)
  if r.rows.any fun other => other.number == row.number then
    throw (.notUnique r.name [r.declaration.subject.placeName .number])
  if let some key := r.repeated? row then
    throw (.notUnique r.name (r.declaration.namesAt key.positions))

/-- Rows with one more, at the place of its number. -/
def insertSorted (row : Stored) : List Stored → List Stored
  | [] => [row]
  | other :: rest =>
    if row.number < other.number then row :: other :: rest else other :: insertSorted row rest

/-- The relation with one more row. -/
def place (r : Relation) (row : Stored) : Relation :=
  if (r.rows.getLast?).all fun last => last.number < row.number then
    { r with rows := r.rows ++ [row] }
  else { r with rows := insertSorted row r.rows }

/-- The relation without the row of a number. -/
def remove (r : Relation) (number : Int64) : Relation :=
  { r with rows := r.rows.filter fun row => row.number != number }

end Relation

/-- The declaration of the table of tables. -/
def tablesDeclaration : Declaration :=
  let columns := [Column.ofType "type" "TEXT", Column.ofType "name" "TEXT",
    Column.ofType "tbl_name" "TEXT", Column.ofType "rootpage" "INT", Column.ofType "sql" "TEXT"]
  { Declaration.empty "sqlite_master" with columns := columns }

namespace Database

/-- No table at all. -/
def empty : Database := ⟨[]⟩

/-- Is this a name of the table of tables? -/
def isTables (name : String) : Bool :=
  sameName name "sqlite_master" || sameName name "sqlite_schema"

/-- The entries that a relation has in the table of tables: one for itself and one for the index of
each key.  Each has a place in the database of its own. -/
def entries (r : Relation) (firstPlace : Nat) : List (List Datum) :=
  let name := r.name
  let entry (kind : String) (title : String) (place : Nat) (text : Datum) : List Datum :=
    [.ofString kind, .ofString title, .ofString name, .ofNat place, text]
  entry "table" name firstPlace (.ofString r.declaration.text) ::
    (List.range r.declaration.keys.length).map fun i =>
      entry "index" s!"sqlite_autoindex_{name}_{i + 1}" (firstPlace + i + 1) .null

/-- All entries of the table of tables. -/
def allEntries : (firstPlace : Nat) → List Relation → List (List Datum)
  | _, [] => []
  | place, r :: rest =>
    entries r place ++ allEntries (place + 1 + r.declaration.keys.length) rest

/-- The table of tables. -/
def tables (d : Database) : Relation :=
  let rows := (allEntries 2 d.relations).zipIdx.map fun (values, i) =>
    ⟨Int64.ofNat (i + 1), values⟩
  ⟨tablesDeclaration, rows⟩

/-- The relation with a name. -/
def find? (d : Database) (name : String) : Option Relation :=
  if isTables name then some d.tables else d.relations.find? fun r => sameName r.name name

/-- The database with one relation in the place of the one with its name. -/
def update (d : Database) (r : Relation) : Database :=
  ⟨d.relations.map fun other => if sameName other.name r.name then r else other⟩

/-- The database with one more relation. -/
def add (d : Database) (r : Relation) : Database := ⟨d.relations ++ [r]⟩

/-- The database without a relation. -/
def drop (d : Database) (name : String) : Database :=
  ⟨d.relations.filter fun r => !sameName r.name name⟩

end Database
end Engine
end LinkedRows
