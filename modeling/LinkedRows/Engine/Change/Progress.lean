/-
# The progress of a change

A change works row by row.  Before a row gets its place its table has to approve of it, and the
references from it and to it are counted.  If references are open at the end, the change fails.

The insertion of a single row fails at once if it refers to nothing that is there.
-/

import LinkedRows.Engine.Change

namespace LinkedRows
namespace Engine

/-- What a change has done so far: the database, how many references are open, how many rows it has
touched, and the number of the row inserted last. -/
structure Progress where
  database : Database
  references : Int
  touched : Nat
  lastNumber : Int64

namespace Progress

/-- Nothing has been done. -/
def start (d : Database) (s : Surroundings) : Progress := ⟨d, 0, 0, s.lastNumber⟩

/-- The relation of a table. -/
def relation (p : Progress) (table : Declaration) : Except Issue Relation :=
  match p.database.find? table.name with
  | some r => .ok r
  | none => .error (.noTable table.name)

/-- The number that a datum gives to a row. -/
def numberOf (d : Datum) : Except Issue Int64 :=
  match d.wholeNumber? with
  | some n => .ok n
  | none => .error .mismatch

/-- The number of a new row: the one that is given, or the next one. -/
def newNumber (r : Relation) (given : Datum) : Except Issue Int64 :=
  if given.isNull then .ok r.nextNumber else numberOf given

/-- A change that fails if references are open. -/
def settled (p : Progress) : Except Issue Unit :=
  if 0 < p.references then .error .orphan else .ok ()

/-- Inserts one row. -/
def insert (p : Progress) (i : Insertion) (scene : Scene) (row : NewRow) :
    Except Issue Progress := do
  let r ← p.relation i.table
  let around := { scene.surroundings with lastNumber := p.lastNumber }
  let scene := { scene with surroundings := around }
  let values ← row.values.mapM scene.value
  let given ← (row.number.map scene.value).getD (.ok .null)
  let stored := r.stored (← newNumber r given) values
  r.approve around stored
  let next : Progress :=
    { database := p.database.update (r.place stored)
      references := i.links.added p.database (fun _ => p.database) stored p.references
      touched := p.touched + 1
      lastNumber := stored.number }
  if i.rows.length = 1 then next.settled
  return next

/-- Inserts rows; what was done before an issue stays known. -/
def insertAll (i : Insertion) (scene : Scene) :
    List NewRow → Progress → Progress × Except Issue Unit
  | [], p => (p, p.settled)
  | row :: rows, p =>
    match p.insert i scene row with
    | .ok p => insertAll i scene rows p
    | .error issue => (p, .error issue)

/-- Changes one row. -/
def change (p : Progress) (u : Update) (scene : Scene) (row : Stored) : Except Issue Progress := do
  let r ← p.relation u.table
  let scene := scene.on row
  let number ← (u.number.map fun e => do numberOf (← scene.value e)).getD (.ok row.number)
  let values ← u.values.foldlM
    (fun values (i, e) => return values.set i (← scene.value e)) row.values
  let rest := r.remove row.number
  let stored := rest.stored number values
  rest.approve scene.surroundings stored
  let without := p.database.update rest
  let isAssigned (i : Nat) : Bool := u.values.any fun v => v.1 = i
  let seen := if u.links.leavesFirst then without else p.database
  let found (l : Link) : Database :=
    if u.links.leavesFirst || l.isOwn && l.isMoved isAssigned then without else p.database
  let references := u.links.removed p.database row p.references
  return { p with
    database := p.database.update (rest.place stored)
    references := u.links.added seen found stored references
    touched := p.touched + 1 }

/-- Deletes one row. -/
def delete (p : Progress) (x : Deletion) (row : Stored) : Except Issue Progress := do
  let r ← p.relation x.table
  return { p with
    database := p.database.update (r.remove row.number)
    references := x.links.removed p.database row p.references
    touched := p.touched + 1 }

/-- The rows on which a condition is true. -/
def chosen (scene : Scene) (condition : Formula) (rows : List Stored) :
    Except Issue (List Stored) :=
  rows.filterM fun row => (scene.on row).holds condition

/-- Does all of an update. -/
def changeAll (p : Progress) (u : Update) (scene : Scene) : Except Issue Progress := do
  let r ← p.relation u.table
  let rows ← chosen scene u.condition (u.route.visit r.rows)
  let p ← rows.foldlM (fun p row => p.change u scene row) p
  p.settled
  return p

/-- Does all of a deletion. -/
def deleteAll (p : Progress) (x : Deletion) (scene : Scene) : Except Issue Progress := do
  let r ← p.relation x.table
  let rows ← chosen scene x.condition r.rows
  let p ← rows.foldlM (fun p row => p.delete x row) p
  p.settled
  return p

end Progress
end Engine
end LinkedRows
