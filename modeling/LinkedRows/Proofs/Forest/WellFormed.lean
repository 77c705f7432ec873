/-
# Well-formed forests

A forest is well formed when its three lists agree: each column and each join is listed by exactly
the record it names as its owner, a record lists its key first and no name or label twice, and each
join leads from its link to a younger record that names it as its parent.  The last condition makes
a forest of the arena: the ways down from a record are shorter than the list of records.

`WellFormed` only speaks of the shape, so every change that keeps the shape keeps it.
-/

import LinkedRows.Proofs.Forest.Shape

namespace LinkedRows
namespace Forest

/-- Records and columns agree. -/
structure ColumnsFit (f : Forest) : Prop where
  hasCell {n c} : c ∈ (f.node n).cells → f.HasCell c
  owner_of_mem {n c} : c ∈ (f.node n).cells → (f.cell c).owner = n
  mem_owner {c} : f.HasCell c → c ∈ (f.node (f.cell c).owner).cells
  nodup_cells (n) : (f.node n).cells.Nodup
  name_inj {n c d} : c ∈ (f.node n).cells → d ∈ (f.node n).cells →
    (f.cell c).name = (f.cell d).name → c = d
  key_first {n} : f.HasNode n → (f.node n).cells.head? = some (f.node n).key
  isKey_iff {c} : f.HasCell c → ((f.cell c).isKey = true ↔ (f.node (f.cell c).owner).key = c)

/-- Records and joins agree. -/
structure JoinsFit (f : Forest) : Prop where
  hasEdge {n e} : e ∈ (f.node n).edges → f.HasEdge e
  owner_of_edge {n e} : e ∈ (f.node n).edges → (f.edge e).owner = n
  mem_edges {e} : f.HasEdge e → e ∈ (f.node (f.edge e).owner).edges
  nodup_edges (n) : (f.node n).edges.Nodup
  label_inj {n e e'} : e ∈ (f.node n).edges → e' ∈ (f.node n).edges →
    (f.edge e).label = (f.edge e').label → e = e'
  link_mem {e} : f.HasEdge e → (f.edge e).link ∈ (f.node (f.edge e).owner).cells
  label_eq {e} : f.HasEdge e → (f.edge e).label =
    ⟨(f.node (f.edge e).child).table, f.keyName (f.edge e).child, (f.cell (f.edge e).link).name⟩
  hasChild {e} : f.HasEdge e → f.HasNode (f.edge e).child
  owner_lt_child {e} : f.HasEdge e → (f.edge e).owner.index < (f.edge e).child.index
  parent_child {e} : f.HasEdge e → (f.node (f.edge e).child).parent = some e
  edge_of_parent {n e} : (f.node n).parent = some e → f.HasEdge e ∧ (f.edge e).child = n

structure WellFormed (f : Forest) : Prop extends ColumnsFit f, JoinsFit f

theorem hasNode_of_mem_cells {f : Forest} {n : NodeId} {c : CellId} (h : c ∈ (f.node n).cells) :
    f.HasNode n := by
  by_contra hn
  rw [node_of_not_hasNode f hn] at h
  exact absurd h List.not_mem_nil

theorem hasNode_of_mem_edges {f : Forest} {n : NodeId} {e : EdgeId} (h : e ∈ (f.node n).edges) :
    f.HasNode n := by
  by_contra hn
  rw [node_of_not_hasNode f hn] at h
  exact absurd h List.not_mem_nil

theorem hasNode_of_current {f : Forest} {n : NodeId} (h : (f.node n).current = true) :
    f.HasNode n := by
  by_contra hn
  rw [node_of_not_hasNode f hn] at h
  exact Bool.false_ne_true h

namespace WellFormed

variable {f g : Forest}

theorem of_sameShape (hs : SameShape f g) (hf : WellFormed f) : WellFormed g where
  hasCell h := (hs.hasCell _).2 (hf.hasCell (hs.cells _ ▸ h))
  owner_of_mem h := (hs.owner _).trans (hf.owner_of_mem (hs.cells _ ▸ h))
  mem_owner h := by
    rw [hs.owner, hs.cells]
    exact hf.mem_owner ((hs.hasCell _).1 h)
  nodup_cells n := hs.cells n ▸ hf.nodup_cells n
  name_inj hc hd h := by
    rw [hs.cells] at hc hd
    rw [hs.name, hs.name] at h
    exact hf.name_inj hc hd h
  key_first h := by
    rw [hs.cells, hs.key]
    exact hf.key_first ((hs.hasNode _).1 h)
  isKey_iff h := by
    rw [hs.isKey, hs.owner, hs.key]
    exact hf.isKey_iff ((hs.hasCell _).1 h)
  hasEdge h := (hs.hasEdge _).2 (hf.hasEdge (hs.edges _ ▸ h))
  owner_of_edge h := by
    rw [hs.edge]
    exact hf.owner_of_edge (hs.edges _ ▸ h)
  mem_edges h := by
    rw [hs.edge, hs.edges]
    exact hf.mem_edges ((hs.hasEdge _).1 h)
  nodup_edges n := hs.edges n ▸ hf.nodup_edges n
  label_inj he he' h := by
    rw [hs.edges] at he he'
    rw [hs.edge, hs.edge] at h
    exact hf.label_inj he he' h
  link_mem h := by
    rw [hs.edge, hs.cells]
    exact hf.link_mem ((hs.hasEdge _).1 h)
  label_eq h := by
    rw [hs.edge, hs.table, hs.keyName, hs.name]
    exact hf.label_eq ((hs.hasEdge _).1 h)
  hasChild h := by
    rw [hs.edge, hs.hasNode]
    exact hf.hasChild ((hs.hasEdge _).1 h)
  owner_lt_child h := by
    rw [hs.edge]
    exact hf.owner_lt_child ((hs.hasEdge _).1 h)
  parent_child h := by
    rw [hs.edge, hs.parent]
    exact hf.parent_child ((hs.hasEdge _).1 h)
  edge_of_parent h := by
    rw [hs.parent] at h
    rw [hs.hasEdge, hs.edge]
    exact hf.edge_of_parent h

theorem empty : WellFormed Forest.empty where
  hasCell h := absurd h List.not_mem_nil
  owner_of_mem h := absurd h List.not_mem_nil
  mem_owner h := absurd h (Nat.not_lt_zero _)
  nodup_cells _ := List.nodup_nil
  name_inj h := absurd h List.not_mem_nil
  key_first h := absurd h (Nat.not_lt_zero _)
  isKey_iff h := absurd h (Nat.not_lt_zero _)
  hasEdge h := absurd h List.not_mem_nil
  owner_of_edge h := absurd h List.not_mem_nil
  mem_edges h := absurd h (Nat.not_lt_zero _)
  nodup_edges _ := List.nodup_nil
  label_inj h := absurd h List.not_mem_nil
  link_mem h := absurd h (Nat.not_lt_zero _)
  label_eq h := absurd h (Nat.not_lt_zero _)
  hasChild h := absurd h (Nat.not_lt_zero _)
  owner_lt_child h := absurd h (Nat.not_lt_zero _)
  parent_child h := absurd h (Nat.not_lt_zero _)
  edge_of_parent h := nomatch h

variable (hf : WellFormed f)
include hf

theorem key_mem {n : NodeId} (h : f.HasNode n) : (f.node n).key ∈ (f.node n).cells :=
  List.mem_of_mem_head? (hf.key_first h)

theorem hasCell_key {n : NodeId} (h : f.HasNode n) : f.HasCell (f.node n).key :=
  hf.hasCell (hf.key_mem h)

theorem owner_key {n : NodeId} (h : f.HasNode n) : (f.cell (f.node n).key).owner = n :=
  hf.owner_of_mem (hf.key_mem h)

theorem hasOwner {c : CellId} (h : f.HasCell c) : f.HasNode (f.cell c).owner :=
  hasNode_of_mem_cells (hf.mem_owner h)

/-- Of the columns of a record, the key and no other is flagged. -/
theorem isKey_of_mem {n : NodeId} {c : CellId} (h : c ∈ (f.node n).cells) :
    (f.cell c).isKey = true ↔ (f.node n).key = c := by
  rw [hf.isKey_iff (hf.hasCell h), hf.owner_of_mem h]

theorem hasLink {e : EdgeId} (h : f.HasEdge e) : f.HasCell (f.edge e).link :=
  hf.hasCell (hf.link_mem h)

theorem owner_link {e : EdgeId} (h : f.HasEdge e) :
    (f.cell (f.edge e).link).owner = (f.edge e).owner := hf.owner_of_mem (hf.link_mem h)

theorem hasEdgeOwner {e : EdgeId} (h : f.HasEdge e) : f.HasNode (f.edge e).owner :=
  hasNode_of_mem_edges (hf.mem_edges h)

/-- The parent of a record is older than the record. -/
theorem owner_lt_of_parent {n : NodeId} {e : EdgeId} (hp : (f.node n).parent = some e) :
    (f.edge e).owner.index < n.index := by
  obtain ⟨he, rfl⟩ := hf.edge_of_parent hp
  exact hf.owner_lt_child he

/-- What holds of the records without a parent, and of a record when it holds of its parent, holds
of all records. -/
theorem parent_induction {motive : NodeId → Prop}
    (root : ∀ n, (f.node n).parent = none → motive n)
    (child : ∀ n e, (f.node n).parent = some e → motive (f.edge e).owner → motive n)
    (n : NodeId) : motive n := by
  induction hk : n.index using Nat.strongRecOn generalizing n with
  | ind k ih =>
    cases hp : (f.node n).parent with
    | none => exact root n hp
    | some e => exact child n e hp (ih _ (hk ▸ hf.owner_lt_of_parent hp) _ rfl)

/-- Only one join leads to a record. -/
theorem edge_unique {e e' : EdgeId} (he : f.HasEdge e) (he' : f.HasEdge e')
    (h : (f.edge e).child = (f.edge e').child) : e = e' := by
  have hp := hf.parent_child he
  rw [h, hf.parent_child he'] at hp
  exact (Option.some.inj hp).symm

end WellFormed
end Forest
end LinkedRows
