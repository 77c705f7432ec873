/-
# Running plans

A statement that fails leaves the database as it was, and no row counts as touched.  But the rows
that a longer insertion had placed before it failed still count as inserted last.

Between the beginning of a transaction and its end, all changes can be undone.
-/

import LinkedRows.Engine.Change.Progress
import LinkedRows.Engine.Plan
import LinkedRows.Engine.Selection.Rows

namespace LinkedRows
namespace Engine
namespace Connection

/-- The only row where there is no table. -/
def noTable : List Stored := [⟨0, []⟩]

/-- The scene of a statement on a table. -/
def scene (c : Connection) (parameters : List Datum) (table : Option Declaration) : Scene :=
  ⟨(table.map Declaration.traits).getD [], parameters, c.surroundings, none, noTable⟩

/-- The connection after a change that went well. -/
def after (c : Connection) (p : Progress) : Connection :=
  { c with database := p.database, touched := p.touched, lastNumber := p.lastNumber }

/-- Ends a change: it takes effect if it went well. -/
def ended (c : Connection) : Except Issue Progress → Except Issue (List Row) × Connection
  | .ok p => (.ok [], c.after p)
  | .error issue => (.error issue, { c with touched := 0 })

/-- Inserts rows. -/
def insertRows (c : Connection) (parameters : List Datum) (i : Insertion) :
    Except Issue (List Row) × Connection :=
  let p := Progress.start c.database c.surroundings
  match Progress.insertAll i (c.scene parameters none) i.rows p with
  | (p, .ok ()) => (.ok [], c.after p)
  | (p, .error issue) => (.error issue, { c with touched := 0, lastNumber := p.lastNumber })

/-- Removes a table, after its rows. -/
def removeTable (c : Connection) (x : Deletion) : Except Issue (List Row) × Connection :=
  let p := Progress.start c.database c.surroundings
  match p.deleteAll x (c.scene [] (some x.table)) with
  | .ok p => (.ok [], { c with database := p.database.drop x.table.name })
  | .error issue => (.error issue, c)

/-- The rows of a selection. -/
def select (c : Connection) (parameters : List Datum) (s : Selection) : Except Issue (List Row) :=
  let all := s.table.elim noTable fun d => ((c.database.find? d.name).map Relation.rows).getD []
  s.rows (c.scene parameters s.table) all

/-- The rows of values that are asked for, under the titles `column1` and so on. -/
def valueRows (c : Connection) (parameters : List Datum) (rows : List (List Formula)) :
    Except Issue (List Row) :=
  let scene := c.scene parameters none
  rows.mapM fun row => do
    let data ← row.mapM scene.value
    let titles := (List.range row.length).map fun i => s!"column{i + 1}"
    return ⟨titles, data.map Datum.toValue⟩

/-- Runs a plan with the data of its parameters. -/
def run (c : Connection) (parameters : List Datum) (plan : Plan) :
    Except Issue (List Row) × Connection :=
  let start := Progress.start c.database c.surroundings
  if plan.writes && !c.writable then (.error .readOnly, c)
  else
    match plan with
    | .nothing => (.ok [], c)
    | .create d => (.ok [], { c with database := c.database.add ⟨d, []⟩ })
    | .drop x => c.removeTable x
    | .insert i => c.insertRows parameters i
    | .update u => c.ended (start.changeAll u (c.scene parameters (some u.table)))
    | .delete x => c.ended (start.deleteAll x (c.scene parameters (some x.table)))
    | .select s => (c.select parameters s, c)
    | .values rows => (c.valueRows parameters rows, c)
    | .show titles rows =>
      (.ok (rows.map fun row => ⟨titles, row.map Datum.toValue⟩), c)
    | .start =>
      match c.saved with
      | none => (.ok [], { c with saved := some c.database })
      | some _ => (.error .insideTransaction, c)
    | .finish =>
      match c.saved with
      | some _ => (.ok [], { c with saved := none })
      | none => (.error (.outsideTransaction "commit"), c)
    | .undo =>
      match c.saved with
      | some database => (.ok [], { c with database := database, saved := none })
      | none => (.error (.outsideTransaction "rollback"), c)

end Connection
end Engine
end LinkedRows
