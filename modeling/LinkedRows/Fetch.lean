/-
# Fetching

Fetching reads a record and then the records below it, so that each child learns its key from the
row of its parent.  Only columns that are not assigned are read; a record whose columns are all
assigned needs no statement.  Records that are new after that, or deleted, are passed over with
all below them.
-/

import LinkedRows.Save

namespace LinkedRows
namespace Forest

/-- The columns of a record that are not assigned. -/
def cleanCells (f : Forest) (n : NodeId) : List CellId :=
  (f.node n).cells.filter fun c => !(f.cell c).isDirty

end Forest

variable {σ : Type}

/-- Reads the columns of one record that are not assigned. -/
def fetchNode (c : Connector σ) (n : NodeId) : Action σ Forest Unit := do
  readCells c n ((← Action.state).cleanCells n)
  Action.update fun f => f.setCurrent n true

/-- Fetches what is behind joins. -/
def fetchBelow (c : Connector σ) : Branches → Action σ Forest Unit
  | .nil => pure ()
  | .cons e child below next => do
    if !((← Action.state).node child).deleted then
      Action.update (·.seedChild e)
      if (← Action.state).isBound child then
        fetchNode c child
        fetchBelow c below
    fetchBelow c next

/-- Fetches a record and what is below it. -/
def fetchTree (c : Connector σ) (n : NodeId) : Action σ Forest Unit := do
  let below := (← Action.state).below n
  fetchNode c n
  fetchBelow c below

/-- Fetches a record that has a row, and what is below it. -/
def fetch (c : Connector σ) (n : NodeId) : Action σ Forest Unit := do
  let f ← Action.state
  if !f.isBound n then throw (f.notSaved n "fetch")
  fetchTree c n

end LinkedRows
