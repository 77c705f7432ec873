/-
# From paths to columns

Registering a path adds the columns and joins on its way that are missing; looking it up adds
nothing and finds the path only if all of them are there.  A join starts at the record that owns
its link, which need not be the record that the path starts at.
-/

import LinkedRows.Forest
import LinkedRows.Path

namespace LinkedRows

/-- A change of a forest that may fail; what it added before it failed stays. -/
abbrev Growth : Type → Type := ExceptT Fault (StateM Forest)

namespace Growth

/-- A change that cannot fail. -/
def ofForest {α : Type} (change : Forest → α × Forest) : Growth α :=
  ExceptT.mk fun f =>
    let (a, f) := change f
    (.ok a, f)

end Growth

namespace Path

/-- The fault of a path that ends at a table and should not. -/
def endsAtTable (p : Path) : Fault :=
  .malformedPath p.text p.text.utf8ByteSize "path must end with a column"

/-- The fault of a path that ends in a column and should not. -/
def endsInColumnFault (p : Path) (name : String) : Fault :=
  .malformedPath p.text 0 s!"'{name}' is a column, expected a table"

/-- Adds what is missing on the way to the column of a path. -/
def growColumn : Path → NodeId → Growth CellId
  | .column name, n => .ofForest fun f => f.ensureCell n name
  | p@(.table name key link), n => do
    let linkCell ← link.growColumn n
    let _ ← Growth.ofForest fun f => f.ensureJoin linkCell name key
    throw p.endsAtTable
  | .join name key link inner, n => do
    let linkCell ← link.growColumn n
    let child ← Growth.ofForest fun f => f.ensureJoin linkCell name key
    inner.growColumn child

/-- Adds what is missing on the way to the table of a path. -/
def growTable : Path → NodeId → Growth NodeId
  | p@(.column name), _ => throw (p.endsInColumnFault name)
  | .table name key link, n => do
    let linkCell ← link.growColumn n
    Growth.ofForest fun f => f.ensureJoin linkCell name key
  | .join name key link inner, n => do
    let linkCell ← link.growColumn n
    let child ← Growth.ofForest fun f => f.ensureJoin linkCell name key
    inner.growTable child

end Path

namespace Forest

/-- The column of a path from a record, added if it is missing. -/
def registerColumn (n : NodeId) (p : Path) : Growth CellId :=
  if p.endsInColumn then p.growColumn n else throw p.endsAtTable

/-- The record of a path from a record, added if it is missing. -/
def registerTable (n : NodeId) (p : Path) : Growth NodeId :=
  match p.leaf? with
  | some name => throw (p.endsInColumnFault name)
  | none => p.growTable n

/-- The record behind a link, if that join is registered. -/
def joined? (f : Forest) (link : CellId) (table key : String) : Option NodeId :=
  (f.findEdge? (f.cell link).owner ⟨table, key, (f.cell link).name⟩).map fun e => (f.edge e).child

/-- The column of a path from a record, if it is registered. -/
def lookupColumn? (f : Forest) (n : NodeId) : Path → Option CellId
  | .column name => f.findCell? n name
  | .table _ _ _ => none
  | .join name key link inner => do
    let linkCell ← f.lookupColumn? n link
    let child ← f.joined? linkCell name key
    f.lookupColumn? child inner

/-- The record of a path from a record, if it is registered. -/
def lookupTable? (f : Forest) (n : NodeId) : Path → Option NodeId
  | .column _ => none
  | .table name key link => do
    let linkCell ← f.lookupColumn? n link
    f.joined? linkCell name key
  | .join name key link inner => do
    let linkCell ← f.lookupColumn? n link
    let child ← f.joined? linkCell name key
    f.lookupTable? child inner

end Forest
end LinkedRows
