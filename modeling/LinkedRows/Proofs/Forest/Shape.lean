/-
# The shape of a forest

Which records, columns and joins there are, and how they hang together: all of a forest but the
values of its columns and the two flags of its records.  Assigning, reading and writing keep the
shape (`SameShape`), so whatever is said about it once holds for a whole run: the tree below a
record, the columns that paths lead to, and that the forest is well formed.
-/

import LinkedRows.Forest.Assign
import LinkedRows.Proofs.Forest.Access

namespace LinkedRows

/-- A record without its flags. -/
def Node.shape (n : Node) : Node := { n with current := false, deleted := false }

/-- A column without its values. -/
def Cell.shape (c : Cell) : Cell := { c with stored := .null, assigned := none }

namespace Forest

/-- A forest without values and flags. -/
def shape (f : Forest) : Forest := ⟨f.nodes.map Node.shape, f.cells.map Cell.shape, f.edges⟩

/-- The second forest has the shape of the first. -/
def SameShape (f g : Forest) : Prop := g.shape = f.shape

theorem node_shape (f : Forest) (n : NodeId) : f.shape.node n = (f.node n).shape := by
  unfold node shape
  rw [List.getElem?_map]
  cases f.nodes[n.index]? <;> rfl

theorem cell_shape (f : Forest) (c : CellId) : f.shape.cell c = (f.cell c).shape := by
  unfold cell shape
  rw [List.getElem?_map]
  cases f.cells[c.index]? <;> rfl

namespace SameShape

variable {f g h : Forest}

@[refl] theorem refl (f : Forest) : SameShape f f := rfl

theorem trans (hs : SameShape f g) (ht : SameShape g h) : SameShape f h := Eq.trans ht hs

theorem node (hs : SameShape f g) (n : NodeId) : (g.node n).shape = (f.node n).shape := by
  rw [← node_shape, ← node_shape, hs]

theorem cell (hs : SameShape f g) (c : CellId) : (g.cell c).shape = (f.cell c).shape := by
  rw [← cell_shape, ← cell_shape, hs]

/-- What of a record the shape keeps. -/
theorem node_proj {α : Type} (hs : SameShape f g) (proj : Node → α)
    (hp : ∀ node : Node, proj node.shape = proj node) (n : NodeId) :
    proj (g.node n) = proj (f.node n) := by
  rw [← hp, hs.node, hp]

/-- What of a column the shape keeps. -/
theorem cell_proj {α : Type} (hs : SameShape f g) (proj : Cell → α)
    (hp : ∀ cell : Cell, proj cell.shape = proj cell) (c : CellId) :
    proj (g.cell c) = proj (f.cell c) := by
  rw [← hp, hs.cell, hp]

theorem edge (hs : SameShape f g) (e : EdgeId) : g.edge e = f.edge e := by
  have h : g.shape.edge e = f.shape.edge e := by rw [hs]
  exact h

theorem table (hs : SameShape f g) (n : NodeId) : (g.node n).table = (f.node n).table :=
  hs.node_proj Node.table (fun _ => rfl) n

theorem key (hs : SameShape f g) (n : NodeId) : (g.node n).key = (f.node n).key :=
  hs.node_proj Node.key (fun _ => rfl) n

theorem cells (hs : SameShape f g) (n : NodeId) : (g.node n).cells = (f.node n).cells :=
  hs.node_proj Node.cells (fun _ => rfl) n

theorem edges (hs : SameShape f g) (n : NodeId) : (g.node n).edges = (f.node n).edges :=
  hs.node_proj Node.edges (fun _ => rfl) n

theorem parent (hs : SameShape f g) (n : NodeId) : (g.node n).parent = (f.node n).parent :=
  hs.node_proj Node.parent (fun _ => rfl) n

theorem name (hs : SameShape f g) (c : CellId) : (g.cell c).name = (f.cell c).name :=
  hs.cell_proj Cell.name (fun _ => rfl) c

theorem owner (hs : SameShape f g) (c : CellId) : (g.cell c).owner = (f.cell c).owner :=
  hs.cell_proj Cell.owner (fun _ => rfl) c

theorem isKey (hs : SameShape f g) (c : CellId) : (g.cell c).isKey = (f.cell c).isKey :=
  hs.cell_proj Cell.isKey (fun _ => rfl) c

theorem keyName (hs : SameShape f g) (n : NodeId) : g.keyName n = f.keyName n := by
  rw [Forest.keyName, Forest.keyName, hs.name, hs.key]

theorem length_nodes (hs : SameShape f g) : g.nodes.length = f.nodes.length := by
  have h : (g.nodes.map Node.shape).length = (f.nodes.map Node.shape).length :=
    congrArg (fun h : Forest => h.nodes.length) hs
  simpa using h

theorem length_cells (hs : SameShape f g) : g.cells.length = f.cells.length := by
  have h : (g.cells.map Cell.shape).length = (f.cells.map Cell.shape).length :=
    congrArg (fun h : Forest => h.cells.length) hs
  simpa using h

theorem hasNode (hs : SameShape f g) (n : NodeId) : g.HasNode n ↔ f.HasNode n := by
  rw [HasNode, HasNode, hs.length_nodes]

theorem hasCell (hs : SameShape f g) (c : CellId) : g.HasCell c ↔ f.HasCell c := by
  rw [HasCell, HasCell, hs.length_cells]

theorem length_edges (hs : SameShape f g) : g.edges.length = f.edges.length := by
  have h : g.shape.edges.length = f.shape.edges.length := by rw [hs]
  exact h

theorem hasEdge (hs : SameShape f g) (e : EdgeId) : g.HasEdge e ↔ f.HasEdge e := by
  rw [HasEdge, HasEdge, hs.length_edges]

theorem childOf (hs : SameShape f g) (e : EdgeId) : g.childOf e = f.childOf e := by
  rw [Forest.childOf, Forest.childOf, hs.edge]

end SameShape

/-! ## What keeps the shape -/

theorem modify_map_shape {α : Type} (shape : α → α) {change : α → α}
    (h : ∀ a, shape (change a) = shape a) (i : Nat) (l : List α) :
    (l.modify i change).map shape = l.map shape := by
  refine List.ext_getElem? fun j => ?_
  rw [List.getElem?_map, List.getElem?_map, List.getElem?_modify]
  cases l[j]? with
  | none => simp
  | some a => by_cases hj : i = j <;> simp [hj, h]

theorem sameShape_modifyNode (f : Forest) (n : NodeId) {change : Node → Node}
    (h : ∀ node, (change node).shape = node.shape) : SameShape f (f.modifyNode n change) := by
  simp only [SameShape, shape, modifyNode, modify_map_shape Node.shape h]

theorem sameShape_modifyCell (f : Forest) (c : CellId) {change : Cell → Cell}
    (h : ∀ cell, (change cell).shape = cell.shape) : SameShape f (f.modifyCell c change) := by
  simp only [SameShape, shape, modifyCell, modify_map_shape Cell.shape h]

/-- A change that goes through a list keeps the shape if each of its steps does. -/
theorem sameShape_foldl {α : Type} {step : Forest → α → Forest}
    (h : ∀ f a, SameShape f (step f a)) (f : Forest) (l : List α) :
    SameShape f (l.foldl step f) := by
  induction l generalizing f with
  | nil => rfl
  | cons a rest ih => exact (h f a).trans (ih (step f a))

theorem sameShape_setCurrent (f : Forest) (n : NodeId) (current : Bool) :
    SameShape f (f.setCurrent n current) := sameShape_modifyNode f n fun _ => rfl

theorem sameShape_markDeleted (f : Forest) (n : NodeId) : SameShape f (f.markDeleted n) :=
  sameShape_modifyNode f n fun _ => rfl

theorem sameShape_setKey (f : Forest) (n : NodeId) (key : Value) : SameShape f (f.setKey n key) :=
  sameShape_modifyCell f _ fun _ => rfl

theorem sameShape_loadCell (f : Forest) (c : CellId) (v : Value) :
    SameShape f (f.modifyCell c (·.load v)) := sameShape_modifyCell f c fun _ => rfl

theorem sameShape_settle (f : Forest) (cells : List CellId) : SameShape f (f.settle cells) :=
  sameShape_foldl (fun f c => @sameShape_modifyCell f c Cell.settle fun _ => rfl) f cells

theorem sameShape_load (f : Forest) (cells : List CellId) (values : List Value) :
    SameShape f (f.load cells values) :=
  sameShape_foldl (fun f (pair : CellId × Value) => sameShape_loadCell f pair.1 pair.2) f _

theorem sameShape_rebindNode (f : Forest) (n : NodeId) (key : Value) :
    SameShape f (f.rebindNode n key) := by
  unfold rebindNode
  refine SameShape.trans ?_ (sameShape_foldl (fun f c => sameShape_loadCell f c .null) _ _)
  refine SameShape.trans (sameShape_modifyNode f n ?_) (sameShape_modifyCell _ _ ?_)
  · exact fun _ => rfl
  · intro cell
    split <;> rfl

theorem sameShape_unbindBelow : ∀ (b : Branches) (f : Forest), SameShape f (unbindBelow b f)
  | .nil, _ => rfl
  | .cons e child below next, f => by
    rw [unbindBelow]
    refine SameShape.trans ?_ (sameShape_unbindBelow next _)
    split
    · rfl
    · exact (sameShape_rebindNode f child .null).trans (sameShape_unbindBelow below _)

theorem sameShape_assign (f : Forest) (c : CellId) (v : Value) : SameShape f (f.assign c v) := by
  have h : SameShape f (f.modifyCell c (·.assign v)) := sameShape_modifyCell f c fun _ => rfl
  unfold assign
  dsimp only
  split
  · refine h.trans (sameShape_foldl (fun f n => ?_) _ _)
    exact (sameShape_rebindNode f n v).trans (sameShape_unbindBelow _ _)
  · exact h

end Forest
end LinkedRows
