/-
# Deleting

One row, or all rows at and below a record, children first.  Before all rows are deleted the
records are fetched if one of them is stale, so that every row that hangs below is known.
-/

import LinkedRows.Fetch

namespace LinkedRows

variable {σ : Type}

/-- Deletes the row of one record. -/
def delete (c : Connector σ) (n : NodeId) : Action σ Forest Unit := do
  let f ← Action.state
  if !f.isBound n then throw (f.notSaved n "delete")
  (f.planDelete n).run c

/-- Runs writes in order up to the first that fails. -/
def runWrites (c : Connector σ) : List Write → Action σ Forest Unit
  | [] => pure ()
  | w :: rest => do
    w.run c
    runWrites c rest

/-- Deletes the rows at and below a record; the result is how many statements that took. -/
def deleteAll (c : Connector σ) (root : NodeId) : Action σ Forest Nat := do
  let f ← Action.state
  if !f.isBound root then throw (f.notSaved root "delete")
  if (f.preOrder root).any f.isStale then fetchTree c root
  let writes := (← Action.state).planDeleteAll root
  runWrites c writes
  return writes.length

end LinkedRows
