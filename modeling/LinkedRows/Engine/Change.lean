/-
# Changes

Insertions, updates and deletions with all names resolved, and with the links that they have to
leave whole.  All issues that a change has with the tables are found here, before a row is
touched.

A column that an insertion leaves out takes its default, and the column that holds the number of the
row takes the next number.  If a column is named twice, an insertion takes the first datum for it
and an update the last one; of numbers the last one counts for both.
-/

import LinkedRows.Engine.References
import LinkedRows.Engine.Selection

namespace LinkedRows
namespace Engine

/-- A row to be inserted: a formula for each column, and one for its number. -/
structure NewRow where
  values : List Formula
  number : Option Formula

/-- Rows to be inserted. -/
structure Insertion where
  table : Declaration
  rows : List NewRow
  links : Links

/-- Data to be assigned to the rows on which a condition is true, in the order of a route. -/
structure Update where
  table : Declaration
  values : List (Nat × Formula)
  number : Option Formula
  condition : Formula
  links : Links
  route : Route

/-- Rows to be deleted: those on which a condition is true. -/
structure Deletion where
  table : Declaration
  condition : Formula
  links : Links

namespace Names

/-- Formulas of rows of values.  Several rows are looked at from the last one on, and each has to be
as wide as the one after it. -/
def rowFormulas : List (List Phrase) → Except Issue (List (List Formula))
  | [row] => return [← row.mapM Names.none.formula]
  | rows => severalRows rows
where
  /-- Formulas of several rows. -/
  severalRows : List (List Phrase) → Except Issue (List (List Formula))
    | [] => .ok []
    | row :: rest => do
      let rest ← severalRows rest
      if (rest.head?).any fun next => next.length ≠ row.length then throw .unevenRows
      return (← row.mapM ({ Names.none with aggregates := true }).formula) :: rest

end Names

namespace Database

/-- The table that a change is about; the table of tables is none of them. -/
def changeable (d : Database) (t : Target) : Except Issue Declaration := do
  let r ← d.relation t
  if isTables t.table then throw (.notModifiable r.name)
  return r.declaration

/-- The table as the names in a change see it. -/
def changedSubject (table : Declaration) (t : Target) : Subject :=
  { table.subject with name := t.calledName table.name }

/-- The formula of a column that an insertion leaves out. -/
def defaultFormula (c : Column) : Except Issue Formula :=
  match c.default with
  | some default => { Names.none with ofDefault := true }.formula default.phrase
  | none => .ok (.literal .null)

/-- The row of formulas that are written for places. -/
def newRow (table : Declaration) (places : List Place) (row : List Formula) :
    Except Issue NewRow := do
  let written := places.zip row
  let values ← table.columns.zipIdx.mapM fun (c, i) =>
    if table.numbering = some i then .ok (.literal .null)
    else
      match written.find? fun w => w.1 = .column i with
      | some (_, e) => .ok e
      | none => defaultFormula c
  return ⟨values, (written.reverse.find? fun w => w.1 = .number).map Prod.snd⟩

/-- Resolves an insertion.  No rows stand for one row of defaults. -/
def insertion (d : Database) (enforcing : Bool) (t : Target) (columns : Option (List String))
    (rows : List (List Phrase)) : Except Issue Insertion := do
  let table ← d.changeable t
  let places ←
    match columns with
    | none => pure ((Query.allColumns table).map fun column =>
        ((Formula.place? column.2).getD .number))
    | some names => names.mapM fun name =>
      match table.subject.place? name with
      | some place => .ok place
      | none => .error (.lacksColumn t.shownName name)
  let formulas ← Names.rowFormulas rows
  let width := (formulas.head?.map List.length).getD 0
  match columns with
  | none =>
    if width ≠ 0 && width ≠ table.columns.length then
      throw (.tableWidth t.shownName table.columns.length width)
  | some names => if width ≠ names.length then throw (.listWidth names.length width)
  let formulas := if formulas.isEmpty then [[]] else formulas
  let places := if width = 0 then [] else places
  let rows ← formulas.mapM (newRow table places)
  let links ← if enforcing then d.linksOfInsertion table (rows.length = 1) else pure .none
  return ⟨table, rows, links⟩

/-- The assignments of an update, as places and formulas. -/
def assignments (subject : Subject) (written : List (String × Phrase)) :
    Except Issue (List (Place × Formula)) :=
  written.mapM fun (name, e) => do
    let f ← (Names.ofTable subject).formula e
    match subject.place? name with
    | some place => return (place, f)
    | none => throw (.noColumn name)

/-- The order in which the rows of an update are visited.  It is that of their numbers if links
are at stake, or if the number or a column of the key changes by which rows are found. -/
def updateRoute (table : Declaration) (t : Target) (u : Update) : Route :=
  let hasLinks := !u.links.fromHere.isEmpty || !u.links.toHere.isEmpty
  if hasLinks || u.number.isSome then .plain
  else
    let route := Route.ofSearch
      { table := table
        terms := Term.ofCondition table u.condition
        used := Query.usedColumns table (u.condition :: u.values.map Prod.snd)
        sorting := []
        purpose := .showing
        isDistinct := false
        outputs := 0
        limit := none
        withoutIndex := t.searching = .withoutIndex
        changes := true }
    let isChanged := route.key.any fun key =>
      key.positions.any fun i => u.values.any fun v => v.1 = i
    if isChanged then .plain else route

/-- Resolves an update. -/
def updating (d : Database) (enforcing : Bool) (t : Target) (written : List (String × Phrase))
    (condition : Option Phrase) : Except Issue Update := do
  let table ← d.changeable t
  let subject := changedSubject table t
  let assigned ← assignments subject written
  let condition ← (Names.ofTable subject).condition condition
  let values := assigned.filterMap fun
    | (.column i, e) => some (i, e)
    | (.number, _) => none
  let number := (assigned.reverse.find? fun a => a.1 = .number).map Prod.snd
  let isAssigned (i : Nat) : Bool := values.any fun v => v.1 = i
  let links ←
    if enforcing then d.linksOfUpdate table isAssigned number.isSome else pure .none
  let u : Update := ⟨table, values, number, condition, links, .plain⟩
  return { u with route := updateRoute table t u }

/-- Resolves a deletion. -/
def deletion (d : Database) (enforcing : Bool) (t : Target) (condition : Option Phrase) :
    Except Issue Deletion := do
  let table ← d.changeable t
  let condition ← (Names.ofTable (changedSubject table t)).condition condition
  let links ← if enforcing then d.linksOfDeletion table else pure .none
  return ⟨table, condition, links⟩

/-- Resolves the removal of a table: its rows are deleted first. -/
def removal (d : Database) (enforcing : Bool) (t : Target) : Except Issue Deletion := do
  let r ← d.relation t
  if isTables t.table then throw (.notRemovable r.name)
  let table := r.declaration
  let links := if enforcing then d.linksOfRemoval table else .none
  return ⟨table, .literal (.integer 1), links⟩

end Database
end Engine
end LinkedRows
