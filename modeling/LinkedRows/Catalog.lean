/-
# The catalog

The schemas that have been asked for, each kept until it is forgotten.  Loading a schema takes three
steps: look it up (`lookUp`); if it is missing, ask the connector and see what it answers
(`Stage.answered`); then keep the answer unless another one was kept meanwhile, in which case that
one counts (`keep`).  The catalog is only needed for the first step and for the last one.
-/

import LinkedRows.Connector

namespace LinkedRows

/-- Schemas by the names of their tables. -/
structure Catalog where
  schemas : List Schema
deriving DecidableEq, Repr

namespace Catalog

def empty : Catalog := ⟨[]⟩

/-- The schema kept for a table. -/
def find? (catalog : Catalog) (table : String) : Option Schema :=
  catalog.schemas.find? fun s => s.table == table

/-- Keeps a schema unless its table has one already; the result is the one that is kept then. -/
def keep (catalog : Catalog) (s : Schema) : Schema × Catalog :=
  match catalog.find? s.table with
  | some kept => (kept, catalog)
  | none => (s, ⟨catalog.schemas ++ [s]⟩)

/-- Drops the schema of a table. -/
def forget (catalog : Catalog) (table : String) : Catalog :=
  ⟨catalog.schemas.filter fun s => s.table != table⟩

/-- How many tables have a schema here. -/
def size (catalog : Catalog) : Nat := catalog.schemas.length

def isEmpty (catalog : Catalog) : Bool := catalog.schemas.isEmpty

/-! ## Loading -/

/-- How far a load has come. -/
inductive Stage where
  /-- The catalog had no entry for the table. -/
  | missed
  /-- The connector is describing the table. -/
  | asking
  /-- The description is there and not kept yet. -/
  | described (s : Schema)
  | done (result : Except Fault Schema)

namespace Stage

/-- What the connector's answer leads to: a fault ends the load. -/
def answered : Except Fault Schema → Stage
  | .ok s => .described s
  | .error f => .done (.error f)

/-- How many steps a load has to go at most. -/
def stepsLeft : Stage → Nat
  | missed => 3
  | asking => 2
  | described _ => 1
  | done _ => 0

theorem stepsLeft_answered_lt (answer : Except Fault Schema) :
    (answered answer).stepsLeft < asking.stepsLeft := by
  cases answer with
  | ok => exact Nat.one_lt_two
  | error => exact Nat.zero_lt_two

end Stage

/-- Looks a table up, which ends a load if the table has an entry. -/
def lookUp (catalog : Catalog) (table : String) : Stage :=
  match catalog.find? table with
  | some s => .done (.ok s)
  | none => .missed

/-- Takes a load from the stage it has come to, step by step, to its end. -/
def finish {σ : Type} (c : Connector σ) (table : String) : Stage → Action σ Catalog Schema
  | .missed => finish c table .asking
  | .asking => do finish c table (.answered (← Action.attempt (c.schema table)))
  | .described s => do
    let (kept, catalog) := (← Action.state).keep s
    Action.update fun _ => catalog
    finish c table (.done (.ok kept))
  | .done result => Action.ofExcept result
termination_by stage => stage.stepsLeft
decreasing_by
  · decide
  · exact Stage.stepsLeft_answered_lt _
  · exact Nat.zero_lt_one

/-- The schema of a table, asked for if it is not kept. -/
def load {σ : Type} (c : Connector σ) (table : String) : Action σ Catalog Schema := do
  finish c table ((← Action.state).lookUp table)

end Catalog
end LinkedRows
