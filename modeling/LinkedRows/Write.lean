/-
# Planned writes

A write is planned from the state of a forest as plain data, and run later.  Saving a record that is
new inserts it, saving any other one updates its row; either way the columns that were assigned are
written, in the order of registration, except the key.  A new record with nothing assigned is only
inserted when it is saved itself, not when it is merely below a record that is saved.
-/

import LinkedRows.Connector
import LinkedRows.Forest.Traversal

namespace LinkedRows

/-- A write to the row of one record. -/
inductive Write where
  | insert (node : NodeId) (table : String) (cells : List CellId) (fields : List (String × Value))
  | update (node : NodeId) (table : String) (key : RowKey) (cells : List CellId)
      (fields : List (String × Value))
  | delete (node : NodeId) (table : String) (key : RowKey)
deriving DecidableEq, Repr

namespace Forest

/-- The row of a record. -/
def rowKey (f : Forest) (n : NodeId) : RowKey := ⟨f.keyName n, f.keyValue n⟩

/-- The assigned columns of a record except its key. -/
def pendingCells (f : Forest) (n : NodeId) : List CellId :=
  (f.node n).cells.filter fun c => (f.cell c).isDirty && !(f.cell c).isKey

/-- The write that saving a record needs; `direct` says that the record is saved itself. -/
def planSave? (f : Forest) (n : NodeId) (direct : Bool) : Option Write :=
  let cells := f.pendingCells n
  let fields := cells.map fun c => ((f.cell c).name, (f.cell c).value)
  if f.isNew n then
    if cells.isEmpty && !direct then none else some (.insert n (f.node n).table cells fields)
  else if cells.isEmpty then none
  else some (.update n (f.node n).table (f.rowKey n) cells fields)

/-- The write that deletes the row of a record. -/
def planDelete (f : Forest) (n : NodeId) : Write := .delete n (f.node n).table (f.rowKey n)

/-- The writes that delete the rows at and below a record, children first. -/
def planDeleteAll (f : Forest) (n : NodeId) : List Write :=
  ((f.postOrder n).filter f.isBound).map f.planDelete

/-- The fault of a record that an action does not apply to. -/
def notSaved (f : Forest) (n : NodeId) (action : String) : Fault :=
  let table := (f.node n).table
  let state := if (f.node n).deleted then "was deleted" else "has not been saved"
  .notSaved table s!"cannot {action} '{table}': record {state}"

end Forest

namespace Write

/-- The record whose row is written. -/
def node : Write → NodeId
  | .insert n _ _ _ | .update n _ _ _ _ | .delete n _ _ => n

/-- The statement that does the write. -/
def statement : Write → Statement
  | .insert _ table _ fields => .insert table fields
  | .update _ table key _ fields => .update table fields key
  | .delete _ table key => .delete table key

/-- The fault of an insertion that has no identifier. -/
def noIdentifier (statement : String) : Fault :=
  .query ⟨.database, some statement, "connector reported no generated identifier", none⟩

variable {σ : Type}

/-- Executes a write, and records in the forest what storage now holds: the written values, the
identifier of a new row, or that the row is gone. -/
def run (c : Connector σ) (w : Write) : Action σ Forest Unit := do
  let prepared ← c.prepare w.statement
  let _ ← c.run prepared
  match w with
  | .insert n _ cells _ =>
    let key ← c.lastInserted
    if key.isNull then throw (noIdentifier prepared.text)
    Action.update fun f => ((f.settle cells).setKey n key).setCurrent n false
  | .update n _ _ cells _ => Action.update fun f => (f.settle cells).setCurrent n false
  | .delete n _ _ => Action.update fun f => f.markDeleted n

end Write
end LinkedRows
