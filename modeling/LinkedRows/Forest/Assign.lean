/-
# Assigning columns

Assigning a link binds the record behind it to another row: it takes the new key, or becomes new
when the link becomes null, and what was read for the old row is forgotten.  A record below it
whose link is forgotten that way loses its row too.  Assigning a link the value that it has
changes no binding.
-/

import LinkedRows.Forest.Traversal

namespace LinkedRows
namespace Forest

/-- Binds one record to the row with a key, and forgets what was read. -/
def rebindNode (f : Forest) (n : NodeId) (key : Value) : Forest :=
  let node := f.node n
  let f := f.modifyNode n fun node => { node with current := false, deleted := false }
  let f := f.modifyCell node.key fun c => if key.isNull then c.discard else c.assign key
  (node.cells.filter (· != node.key)).foldl (fun f c => f.modifyCell c (·.load .null)) f

/-- Unbinds the records behind links that are forgotten; an assigned link keeps its record. -/
def unbindBelow : Branches → Forest → Forest
  | .nil, f => f
  | .cons e child below next, f =>
    let f :=
      if (f.cell (f.edge e).link).isDirty then f
      else unbindBelow below (f.rebindNode child .null)
    unbindBelow next f

/-- Binds a record to the row with a key, and unbinds what hangs on what was read. -/
def rebind (f : Forest) (n : NodeId) (key : Value) : Forest :=
  unbindBelow (f.below n) (f.rebindNode n key)

/-- The records that are joined through a column. -/
def linkedBy (f : Forest) (c : CellId) : List NodeId :=
  ((f.node (f.cell c).owner).edges.filter fun e => (f.edge e).link == c).map f.childOf

/-- Assigns a column, and rebinds the records joined through it if its value changes. -/
def assign (f : Forest) (c : CellId) (v : Value) : Forest :=
  let changed := !(f.cell c).value.agrees v
  let assigned := f.modifyCell c (·.assign v)
  if changed then (f.linkedBy c).foldl (fun f n => f.rebind n v) assigned else assigned

end Forest
end LinkedRows
