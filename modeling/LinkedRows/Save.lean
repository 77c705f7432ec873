/-
# Saving

Saving a record saves everything below it, children first, so that a link can carry the key that
its child has just been given.  Before anything is written, links that were never read are read
where they matter: behind a stale record whose new child has changes there may be a row already,
and then the child takes its key instead of being inserted.

Records that were deleted, and all below them, are left alone.  Nothing is undone when a statement
fails.
-/

import LinkedRows.Write

namespace LinkedRows
namespace Forest

/-- Would saving a record write something at it or below it? -/
def hasChanges (f : Forest) (n : NodeId) : Bool :=
  (f.preOrder n).any fun m => !(f.node m).deleted && !(f.pendingCells m).isEmpty

/-- A new child takes the key that its link holds, if it holds one. -/
def seedChild (f : Forest) (e : EdgeId) : Forest :=
  let edge := f.edge e
  let key := (f.cell edge.link).value
  if f.isNew edge.child && !key.isNull then f.setKey edge.child key else f

/-- The links of a record that were not read and lead to a new child with changes. -/
def unreadLinks (f : Forest) (n : NodeId) : List CellId :=
  if f.isStale n then
    let unread := (f.node n).edges.filter fun e =>
      let edge := f.edge e
      f.isNew edge.child && !(f.node edge.child).deleted && !(f.cell edge.link).isDirty &&
        f.hasChanges edge.child
    (unread.map fun e => (f.edge e).link).eraseDups
  else []

/-- A link follows a saved child: always if the child was new before, else unless it was
assigned. -/
def followChild (f : Forest) (e : EdgeId) (wasNew : Bool) : Forest :=
  let edge := f.edge e
  let key := f.keyValue edge.child
  if !f.isNew edge.child && (wasNew || !(f.cell edge.link).isDirty) &&
      !(f.cell edge.link).value.agrees key then
    f.modifyCell edge.link (·.assign key)
  else f

/-- The statement that reads columns of a record. -/
def selection (f : Forest) (n : NodeId) (cells : List CellId) : Statement :=
  .select (f.node n).table (cells.map fun c => (f.cell c).name) (f.rowKey n)

end Forest

variable {σ : Type}

/-- Reads columns of a record, if there are any.  A row that is not there changes nothing. -/
def readCells (c : Connector σ) (n : NodeId) (cells : List CellId) : Action σ Forest Unit := do
  if !cells.isEmpty then
    let prepared ← c.prepare ((← Action.state).selection n cells)
    if let some row ← c.firstRow? prepared then
      Action.update fun f => f.load cells row.values

/-- Reads the unread links of a record. -/
def readLinks (c : Connector σ) (n : NodeId) : Action σ Forest Unit := do
  readCells c n ((← Action.state).unreadLinks n)

/-- Gives the new records behind joins the keys that the links hold, parents first. -/
def resolveBelow (c : Connector σ) : Branches → Action σ Forest Unit
  | .nil => pure ()
  | .cons e child below next => do
    if !((← Action.state).node child).deleted then
      Action.update (·.seedChild e)
      readLinks c child
      resolveBelow c below
    resolveBelow c next

/-- Writes what saving one record needs; a record that needs nothing is no longer current either. -/
def saveNode (c : Connector σ) (n : NodeId) (direct : Bool) : Action σ Forest Unit := do
  match (← Action.state).planSave? n direct with
  | some w => w.run c
  | none => Action.update fun f => f.setCurrent n false

/-- Saves what is behind joins, children first, and lets each link follow its child. -/
def saveBelow (c : Connector σ) : Branches → Action σ Forest Unit
  | .nil => pure ()
  | .cons e child below next => do
    if !((← Action.state).node child).deleted then
      let wasNew := (← Action.state).isNew child
      saveBelow c below
      saveNode c child false
      Action.update fun f => f.followChild e wasNew
    saveBelow c next

/-- Saves a record and everything below it. -/
def save (c : Connector σ) (root : NodeId) : Action σ Forest Unit := do
  let f ← Action.state
  if (f.node root).deleted then throw (f.notSaved root "save")
  readLinks c root
  resolveBelow c (f.below root)
  saveBelow c (f.below root)
  saveNode c root true

end LinkedRows
