/-
# Joining a record

`withJoin` is the forest that `ensureJoin` makes when there is no such join yet: one more record
with its key column, and one more join that leads from the owner of the link to it.  The record is
younger than its owner, so the joins still lead from older to younger records, and the forest stays
well formed.
-/

import LinkedRows.Proofs.Forest.Growth

namespace LinkedRows
namespace Forest

/-- The join that `ensureJoin` adds. -/
def newEdge (f : Forest) (link : CellId) (table key : String) : Edge :=
  ⟨(f.cell link).owner, ⟨f.nodes.length⟩, link, ⟨table, key, (f.cell link).name⟩⟩

/-- The forest with a new join and its child, before the owner lists the join. -/
def withChild (f : Forest) (link : CellId) (table key : String) : Forest :=
  let grown := (f.addNode table key (f.cell link).value (some ⟨f.edges.length⟩)).2
  { grown with edges := grown.edges ++ [f.newEdge link table key] }

/-- The forest with one more join through a link. -/
def withJoin (f : Forest) (link : CellId) (table key : String) : Forest :=
  (f.withChild link table key).modifyNode (f.cell link).owner fun node =>
    { node with edges := node.edges ++ [⟨f.edges.length⟩] }

variable {f : Forest} {link : CellId} {table key : String}

theorem ensureJoin_of_some {e : EdgeId}
    (h : f.findEdge? (f.cell link).owner ⟨table, key, (f.cell link).name⟩ = some e) :
    f.ensureJoin link table key = ((f.edge e).child, f) := by
  simp only [ensureJoin, h]

theorem ensureJoin_of_none
    (h : f.findEdge? (f.cell link).owner ⟨table, key, (f.cell link).name⟩ = none) :
    f.ensureJoin link table key = (⟨f.nodes.length⟩, f.withJoin link table key) := by
  simp only [ensureJoin, h]
  rfl

theorem hasNode_withJoin (m : NodeId) :
    (f.withJoin link table key).HasNode m ↔ f.HasNode m ∨ m = ⟨f.nodes.length⟩ := by
  cases m
  simp [HasNode, withJoin, withChild, addNode]
  omega

theorem hasCell_withJoin (c : CellId) :
    (f.withJoin link table key).HasCell c ↔ f.HasCell c ∨ c = ⟨f.cells.length⟩ := by
  cases c
  simp [HasCell, withJoin, withChild, addNode, modifyNode]
  omega

theorem hasEdge_withJoin (e : EdgeId) :
    (f.withJoin link table key).HasEdge e ↔ f.HasEdge e ∨ e = ⟨f.edges.length⟩ := by
  cases e
  simp [HasEdge, withJoin, withChild, addNode, modifyNode]
  omega

theorem node_withChild (m : NodeId) :
    (f.withChild link table key).node m =
      if m.index = f.nodes.length then f.newNode table (some ⟨f.edges.length⟩) else f.node m :=
  getElem?_getD_append _ _ _ _

theorem node_withJoin (hl : f.HasNode (f.cell link).owner) (m : NodeId) :
    (f.withJoin link table key).node m =
      if m.index = f.nodes.length then f.newNode table (some ⟨f.edges.length⟩)
      else if m = (f.cell link).owner then
        { f.node m with edges := (f.node m).edges ++ [⟨f.edges.length⟩] }
      else f.node m := by
  have howner : ¬(f.cell link).owner.index = f.nodes.length := Nat.ne_of_lt hl
  have hhas : (f.withChild link table key).HasNode (f.cell link).owner :=
    (hasNode_addNode table key (f.cell link).value _ _).2 (Or.inl hl)
  rw [withJoin, node_modifyNode, node_withChild, node_withChild, if_neg howner]
  by_cases hm : m = (f.cell link).owner
  · rw [if_pos ⟨hm, hhas⟩, if_pos hm, hm, if_neg howner]
  · rw [if_neg fun h => hm h.1, if_neg hm]

theorem cell_withJoin (c : CellId) :
    (f.withJoin link table key).cell c =
      if c.index = f.cells.length then f.newKey key (f.cell link).value else f.cell c :=
  getElem?_getD_append _ _ _ _

theorem edge_withJoin (e : EdgeId) :
    (f.withJoin link table key).edge e =
      if e.index = f.edges.length then f.newEdge link table key else f.edge e :=
  getElem?_getD_append _ _ _ _

theorem node_newChild (hl : f.HasNode (f.cell link).owner) :
    (f.withJoin link table key).node ⟨f.nodes.length⟩ =
      f.newNode table (some ⟨f.edges.length⟩) := by
  rw [node_withJoin hl, if_pos rfl]

theorem cell_newChild :
    (f.withJoin link table key).cell ⟨f.cells.length⟩ = f.newKey key (f.cell link).value := by
  rw [cell_withJoin, if_pos rfl]

theorem edge_newJoin :
    (f.withJoin link table key).edge ⟨f.edges.length⟩ = f.newEdge link table key := by
  rw [edge_withJoin, if_pos rfl]

/-- The owner of the link lists the new join, and every other record its old ones. -/
theorem mem_edges_withJoin (hl : f.HasNode (f.cell link).owner) {m : NodeId} {e : EdgeId} :
    e ∈ ((f.withJoin link table key).node m).edges ↔
      e ∈ (f.node m).edges ∨ m = (f.cell link).owner ∧ e = ⟨f.edges.length⟩ := by
  rw [node_withJoin hl]
  split
  · rename_i hm
    have hnew : ¬f.HasNode m := fun h => Nat.ne_of_lt h hm
    refine iff_of_false List.not_mem_nil ?_
    rintro (h | ⟨rfl, -⟩)
    · exact hnew (hasNode_of_mem_edges h)
    · exact hnew hl
  · split <;> simp [*]

theorem extends_withJoin (hl : f.HasNode (f.cell link).owner) :
    Extends f (f.withJoin link table key) := by
  have hnode {m : NodeId} (hm : f.HasNode m) : (f.withJoin link table key).node m =
      if m = (f.cell link).owner then
        { f.node m with edges := (f.node m).edges ++ [⟨f.edges.length⟩] }
      else f.node m := by
    rw [node_withJoin hl, if_neg (Nat.ne_of_lt hm)]
  exact
    { hasNode := fun hm => (hasNode_withJoin _).2 (Or.inl hm)
      hasCell := fun hc => (hasCell_withJoin _).2 (Or.inl hc)
      hasEdge := fun he => (hasEdge_withJoin _).2 (Or.inl he)
      cell := fun hc => by rw [cell_withJoin, if_neg (Nat.ne_of_lt hc)]
      edge := fun he => by rw [edge_withJoin, if_neg (Nat.ne_of_lt he)]
      table := fun hm => by rw [hnode hm]; split <;> rfl
      key := fun hm => by rw [hnode hm]; split <;> rfl
      deleted := fun hm => by rw [hnode hm]; split <;> rfl
      parent := fun hm => by rw [hnode hm]; split <;> rfl
      current := fun hm h => by rw [hnode hm] at h; split at h <;> exact h
      cells := fun hm => by rw [hnode hm]; split <;> exact List.prefix_rfl
      edges := fun hm => by
        rw [hnode hm]
        split
        · exact List.prefix_append _ _
        · exact List.prefix_rfl
      cells_of_current := fun hm _ => by rw [hnode hm]; split <;> rfl }

theorem cell_key_newChild (hl : f.HasNode (f.cell link).owner) :
    (f.withJoin link table key).cell ((f.withJoin link table key).node ⟨f.nodes.length⟩).key =
      f.newKey key (f.cell link).value := by
  rw [node_newChild hl, newNode, cell_newChild]

/-- The child of a new join has the value of the link for its key. -/
theorem keyValue_newChild (hl : f.HasNode (f.cell link).owner) :
    (f.withJoin link table key).keyValue ⟨f.nodes.length⟩ = (f.cell link).value := by
  rw [keyValue, cell_key_newChild hl, newKey, Cell.value]
  cases h : (f.cell link).value <;> rfl

/-- The child of a new join is new exactly if the link is null. -/
theorem isNew_newChild (hl : f.HasNode (f.cell link).owner) :
    (f.withJoin link table key).isNew ⟨f.nodes.length⟩ = (f.cell link).value.isNull := by
  rw [isNew, cell_key_newChild hl, newKey]
  cases (f.cell link).value <;> rfl

theorem not_hasEdge_next : ¬f.HasEdge ⟨f.edges.length⟩ := Nat.lt_irrefl _

theorem keyName_newChild (hl : f.HasNode (f.cell link).owner) :
    (f.withJoin link table key).keyName ⟨f.nodes.length⟩ = key := by
  rw [keyName, cell_key_newChild hl, newKey]

theorem addsCell_withJoin (hl : f.HasNode (f.cell link).owner) :
    AddsCell f (f.withJoin link table key) (f.newKey key (f.cell link).value) where
  toExtends := extends_withJoin hl
  hasCell_iff := hasCell_withJoin _
  cell_new := cell_newChild
  cells_eq m := by
    rw [newKey, ← cells_addNode table key (f.cell link).value (some ⟨f.edges.length⟩),
      node_withJoin hl, node_addNode]
    split
    · rfl
    · split <;> rfl

theorem columnsFit_withJoin (hf : WellFormed f) (hl : f.HasCell link) :
    ColumnsFit (f.withJoin link table key) := by
  have ho : f.HasNode (f.cell link).owner := hf.hasOwner hl
  refine (addsCell_withJoin ho).columnsFit hf.toColumnsFit (fun c hc => ?_)
    (fun m hm hold => ?_) ?_
  · exact absurd (hasNode_of_mem_cells hc) (Nat.lt_irrefl _)
  · rw [((hasNode_withJoin m).1 hm).resolve_left hold, node_newChild ho]
    rfl
  · rw [newKey, node_newChild ho]
    exact iff_of_true rfl rfl

/-- No join of the owner has the label that the new one gets. -/
theorem label_ne_of_findEdge? {n : NodeId} {label : Label} (h : f.findEdge? n label = none)
    {e : EdgeId} (he : e ∈ (f.node n).edges) : (f.edge e).label ≠ label := by
  simpa using List.find?_eq_none.1 h e he

/-- The new join has a label that is new to its owner, and its child is the youngest record. -/
theorem joinsFit_withJoin (hf : WellFormed f) (hl : f.HasCell link)
    (hlabel : f.findEdge? (f.cell link).owner ⟨table, key, (f.cell link).name⟩ = none) :
    JoinsFit (f.withJoin link table key) := by
  have ho : f.HasNode (f.cell link).owner := hf.hasOwner hl
  have hx : Extends f (f.withJoin link table key) := extends_withJoin ho
  exact
    { hasEdge := fun h => (hasEdge_withJoin _).2 (((mem_edges_withJoin ho).1 h).imp hf.hasEdge
        And.right)
      owner_of_edge := fun h => by
        rcases (mem_edges_withJoin ho).1 h with h | ⟨rfl, rfl⟩
        · rw [hx.edge (hf.hasEdge h), hf.owner_of_edge h]
        · rw [edge_newJoin, newEdge]
      mem_edges := fun {e} h => by
        rw [mem_edges_withJoin ho]
        rcases (hasEdge_withJoin e).1 h with h | rfl
        · rw [hx.edge h]
          exact Or.inl (hf.mem_edges h)
        · rw [edge_newJoin]
          exact Or.inr ⟨rfl, rfl⟩
      nodup_edges := fun m => by
        rw [node_withJoin ho]
        split
        · exact List.nodup_nil
        · split
          · refine List.nodup_append.2 ⟨hf.nodup_edges m, List.nodup_singleton _, ?_⟩
            intro e he e' he' h
            rw [h, List.mem_singleton.1 he'] at he
            exact not_hasEdge_next (hf.hasEdge he)
          · exact hf.nodup_edges m
      label_inj := fun he he' h => by
        rcases (mem_edges_withJoin ho).1 he with he | ⟨rfl, rfl⟩ <;>
          rcases (mem_edges_withJoin ho).1 he' with he' | ⟨hm, rfl⟩
        · rw [hx.edge (hf.hasEdge he), hx.edge (hf.hasEdge he')] at h
          exact hf.label_inj he he' h
        · rw [hx.edge (hf.hasEdge he), edge_newJoin] at h
          exact absurd h (label_ne_of_findEdge? hlabel (hm ▸ he))
        · rw [hx.edge (hf.hasEdge he'), edge_newJoin] at h
          exact absurd h.symm (label_ne_of_findEdge? hlabel he')
        · rfl
      link_mem := fun {e} h => by
        rcases (hasEdge_withJoin e).1 h with h | rfl
        · rw [hx.edge h]
          exact (hx.cells (hf.hasEdgeOwner h)).subset (hf.link_mem h)
        · rw [edge_newJoin]
          exact (hx.cells ho).subset (hf.mem_owner hl)
      label_eq := fun {e} h => by
        rcases (hasEdge_withJoin e).1 h with h | rfl
        · rw [hx.edge h, hf.label_eq h, hx.table (hf.hasChild h), hx.keyName hf (hf.hasChild h),
            hx.cell (hf.hasLink h)]
        · rw [edge_newJoin, newEdge, keyName_newChild ho, node_newChild ho, newNode, hx.cell hl]
      hasChild := fun {e} h => by
        rw [hasNode_withJoin]
        rcases (hasEdge_withJoin e).1 h with h | rfl
        · rw [hx.edge h]
          exact Or.inl (hf.hasChild h)
        · rw [edge_newJoin]
          exact Or.inr rfl
      owner_lt_child := fun {e} h => by
        rcases (hasEdge_withJoin e).1 h with h | rfl
        · rw [hx.edge h]
          exact hf.owner_lt_child h
        · rw [edge_newJoin]
          exact ho
      parent_child := fun {e} h => by
        rcases (hasEdge_withJoin e).1 h with h | rfl
        · rw [hx.edge h, hx.parent (hf.hasChild h)]
          exact hf.parent_child h
        · rw [edge_newJoin, newEdge, node_newChild ho, newNode]
      edge_of_parent := fun {m e} h => by
        by_cases hm : m = ⟨f.nodes.length⟩
        · rw [hm, node_newChild ho] at h
          obtain rfl : ⟨f.edges.length⟩ = e := Option.some.inj h
          exact ⟨(hasEdge_withJoin _).2 (Or.inr rfl), by rw [edge_newJoin, newEdge, hm]⟩
        · have hp : (f.node m).parent = some e := by
            rw [node_withJoin ho, if_neg fun h => hm (congrArg NodeId.mk h)] at h
            split at h <;> exact h
          obtain ⟨he, hc⟩ := hf.edge_of_parent hp
          exact ⟨hx.hasEdge he, by rw [hx.edge he, hc]⟩ }

/-- A join with a new label fits into a well-formed forest. -/
theorem WellFormed.withJoin (hf : WellFormed f) (hl : f.HasCell link)
    (hlabel : f.findEdge? (f.cell link).owner ⟨table, key, (f.cell link).name⟩ = none) :
    WellFormed (f.withJoin link table key) where
  toColumnsFit := columnsFit_withJoin hf hl
  toJoinsFit := joinsFit_withJoin hf hl hlabel

end Forest
end LinkedRows
