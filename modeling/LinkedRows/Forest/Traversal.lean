/-
# Walks through the forest

`Branches` is the part of a forest below a record as a tree: for each of its joins, in order, the
child and what is below the child.  Joins lead from older to newer records, so no way down is longer
than the number of records, and the depth that `below` starts with never runs out.

Orders of the records at and below a record:

* `preOrder`, parents before children, with a stack of the records still to visit;
* `postOrder`, children before parents;
* `chain`, the one way from a root down to a record.
-/

import LinkedRows.Forest

namespace LinkedRows

/-- The joins of a record, first to last, each with its child and what is below the child. -/
inductive Branches where
  | nil
  | cons (edge : EdgeId) (child : NodeId) (below : Branches) (next : Branches)
deriving DecidableEq, Repr

namespace Branches

/-- The records, parents before children. -/
def preOrder : Branches → List NodeId
  | .nil => []
  | .cons _ child below next => child :: below.preOrder ++ next.preOrder

/-- The records, children before parents. -/
def postOrder : Branches → List NodeId
  | .nil => []
  | .cons _ child below next => below.postOrder ++ child :: next.postOrder

end Branches

namespace Forest

/-- The record that a join leads to. -/
def childOf (f : Forest) (e : EdgeId) : NodeId := (f.edge e).child

/-- What is behind some joins, down to a depth. -/
def branches (f : Forest) : (depth : Nat) → List EdgeId → Branches
  | 0, _ => .nil
  | depth + 1, edges =>
    edges.foldr (fun e next =>
      .cons e (f.childOf e) (f.branches depth (f.node (f.childOf e)).edges) next) .nil

/-- What is below a record. -/
def below (f : Forest) (n : NodeId) : Branches := f.branches f.nodes.length (f.node n).edges

/-- Visits the records on a stack and all below them; `steps` bounds the visits. -/
def visit (f : Forest) : (steps : Nat) → List NodeId → List NodeId
  | 0, _ => []
  | _, [] => []
  | steps + 1, n :: stack => n :: f.visit steps ((f.node n).edges.map f.childOf ++ stack)

/-- A record and all below it, parents before children. -/
def preOrder (f : Forest) (n : NodeId) : List NodeId := f.visit f.nodes.length [n]

/-- A record and all below it, children before parents. -/
def postOrder (f : Forest) (n : NodeId) : List NodeId := (f.below n).postOrder ++ [n]

/-- The way down to a record, from at most `steps` joins above it. -/
def chainWithin (f : Forest) : (steps : Nat) → NodeId → List NodeId
  | 0, n => [n]
  | steps + 1, n =>
    match (f.node n).parent with
    | none => [n]
    | some e => f.chainWithin steps (f.edge e).owner ++ [n]

/-- The way from a root down to a record. -/
def chain (f : Forest) (n : NodeId) : List NodeId := f.chainWithin f.nodes.length n

/-- The topmost stale record on the way down to a record. -/
def staleAnchor? (f : Forest) (n : NodeId) : Option NodeId := (f.chain n).find? f.isStale

end Forest
end LinkedRows
