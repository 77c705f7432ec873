/-
# Declarations of tables

A table is declared with columns, keys, references and checks.  If the primary key is one column of
the type `INTEGER`, that column holds the number of the row; every other key has an index.

A table begins without anything, and what its declaration says is added from left to right.  A key
on columns that already have one is not a second one.
-/

import LinkedRows.Engine.Expr.Names

namespace LinkedRows
namespace Engine

/-- What a column takes when an insertion leaves it out: the text of the declaration, and the
expression that it is. -/
structure Default where
  text : String
  phrase : Phrase

/-- A column as declared.  The width tells how much room its data are thought to take. -/
structure Column where
  name : String
  type : String
  trait : Trait
  width : Nat
  required : Bool
  default : Option Default

/-- A column of a key, and how its data are ordered there. -/
structure KeyColumn where
  column : Nat
  collation : Collation
  descending : Bool
deriving DecidableEq, Repr

/-- Columns whose data together differ from row to row. -/
structure Key where
  columns : List KeyColumn
  primary : Bool
deriving DecidableEq, Repr

/-- Columns that refer to a table: to its primary key if no columns of it are named. -/
structure Reference where
  columns : List Nat
  table : String
  targets : Option (List String)
deriving DecidableEq, Repr

/-- A condition on every row, and its name. -/
structure Check where
  title : String
  condition : Phrase

/-- A table as declared, in the words of `text`.  The keys and the references are the latest first.
-/
structure Declaration where
  name : String
  text : String
  columns : List Column
  numbering : Option Nat
  primary : List Nat
  keys : List Key
  references : List Reference
  checks : List Check

namespace Column

/-- The types that are known by their names. -/
def standardTypes : List (String × Affinity) :=
  [("ANY", .numeric), ("BLOB", .blob), ("INT", .integer), ("INTEGER", .integer), ("REAL", .real),
    ("TEXT", .text)]

/-- The width of a type that is not one of these: a size in it is one in bytes. -/
def widthOf (type : String) (affinity : Affinity) : Nat :=
  let lower := type.map Char.toLower
  let isSized := Affinity.occurs "char".toList lower.toList ||
    affinity == .blob && Affinity.occurs "blob(".toList lower.toList
  if affinity.isNumeric then 1
  else if isSized then
    let digits := (type.toList.dropWhile fun c => !c.isDigit).takeWhile Char.isDigit
    min 255 (Decimal.natOfDigits 0 digits / 4 + 1)
  else 5

/-- A column with a name and a type. -/
def ofType (name type : String) : Column :=
  match standardTypes.find? fun t => sameName t.1 type with
  | some (standard, affinity) =>
    ⟨name, standard, ⟨affinity, .binary⟩, if affinity.isNumeric then 1 else 5, false, none⟩
  | none =>
    if type.isEmpty then ⟨name, "", ⟨.blob, .binary⟩, 1, false, none⟩
    else
      let affinity := Affinity.ofType type
      ⟨name, type, ⟨affinity, .binary⟩, widthOf type affinity, false, none⟩

end Column

namespace Key

/-- The positions of the columns. -/
def positions (k : Key) : List Nat := k.columns.map KeyColumn.column

/-- Are two keys on the same columns, compared in the same way? -/
def sameColumns (k l : Key) : Bool :=
  k.columns.map (fun c => (c.column, c.collation)) == l.columns.map fun c => (c.column, c.collation)

end Key

namespace Declaration

/-- A table without anything. -/
def empty (name : String) : Declaration := ⟨name, "", [], none, [], [], [], []⟩

def columnNames (d : Declaration) : List String := d.columns.map Column.name

def traits (d : Declaration) : List Trait := d.columns.map Column.trait

/-- The table as names see it. -/
def subject (d : Declaration) : Subject := ⟨d.name, d.columnNames, d.numbering⟩

/-- The position of a column. -/
def position? (d : Declaration) (name : String) : Option Nat :=
  d.columnNames.findIdx? (sameName name)

/-- The names of columns at positions. -/
def namesAt (d : Declaration) (positions : List Nat) : List String :=
  positions.filterMap fun i => d.columnNames[i]?

/-- The way a column is compared. -/
def traitAt (d : Declaration) (position : Nat) : Trait :=
  (d.traits[position]?).getD ⟨.blob, .binary⟩

/-- Does a column have to have a datum? -/
def isRequired (d : Declaration) (position : Nat) : Bool :=
  (d.columns[position]?).any Column.required

/-- The place of a column in the primary key, from 1 on, or 0. -/
def primaryPlace (d : Declaration) (position : Nat) : Nat :=
  if !d.primary.contains position then 0
  else
    match d.keys.find? Key.primary with
    | some key => ((key.positions.idxOf? position).map (· + 1)).getD 0
    | none => 1

/-- The table with its last column changed. -/
def changeLast (d : Declaration) (change : Column → Column) : Declaration :=
  { d with columns := d.columns.modify (d.columns.length - 1) change }

/-- The table with one more key, unless there is one on these columns already; that one is the
primary key if the new one is. -/
def addKey (d : Declaration) (key : Key) : Declaration :=
  if d.keys.any key.sameColumns then
    { d with
      keys := d.keys.map fun k =>
        if k.sameColumns key then { k with primary := k.primary || key.primary } else k }
  else { d with keys := key :: d.keys }

/-- The table whose last column has a collation, also in the keys that the column has so far. -/
def collateLast (d : Declaration) (collation : Collation) : Declaration :=
  let last := d.columns.length - 1
  let d := d.changeLast fun c => { c with trait := { c.trait with collation := collation } }
  { d with
    keys := d.keys.map fun k =>
      { k with
        columns := k.columns.map fun c =>
          if c.column = last then { c with collation := collation } else c } }

/-- How much room a row is thought to take. -/
def rowWidth (d : Declaration) : Nat :=
  (d.columns.map Column.width).foldl Nat.add (if d.numbering.isSome then 0 else 1)

/-- How much room an entry of the index of a key is thought to take. -/
def keyWidth (d : Declaration) (key : Key) : Nat :=
  (key.positions.map fun i => ((d.columns[i]?).map Column.width).getD 1).foldl Nat.add 1

end Declaration
end Engine
end LinkedRows
