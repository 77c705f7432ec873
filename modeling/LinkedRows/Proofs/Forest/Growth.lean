/-
# Growing a forest

The three ways in which a forest grows (`addRoot`, `ensureCell`, `ensureJoin`) put new records,
columns and joins behind the old ones.  `Extends` says what of the old forest stays: everything
about its columns and joins, and of its records all but what is appended to their lists and that a
record with a new column is no longer current.

Each of them adds one column, at the end of the columns of its record.  `AddsCell.columnsFit` says
when records and columns still agree then, and adding a record or a column keeps a forest well
formed.
-/

import LinkedRows.Proofs.Forest.WellFormed

namespace LinkedRows
namespace Forest

/-- The second forest has all that the first one has. -/
structure Extends (f g : Forest) : Prop where
  hasNode {n} : f.HasNode n → g.HasNode n
  hasCell {c} : f.HasCell c → g.HasCell c
  hasEdge {e} : f.HasEdge e → g.HasEdge e
  cell {c} : f.HasCell c → g.cell c = f.cell c
  edge {e} : f.HasEdge e → g.edge e = f.edge e
  table {n} : f.HasNode n → (g.node n).table = (f.node n).table
  key {n} : f.HasNode n → (g.node n).key = (f.node n).key
  deleted {n} : f.HasNode n → (g.node n).deleted = (f.node n).deleted
  parent {n} : f.HasNode n → (g.node n).parent = (f.node n).parent
  current {n} : f.HasNode n → (g.node n).current = true → (f.node n).current = true
  cells {n} : f.HasNode n → (f.node n).cells <+: (g.node n).cells
  edges {n} : f.HasNode n → (f.node n).edges <+: (g.node n).edges
  /-- A record that stays current gets no column. -/
  cells_of_current {n} : f.HasNode n → (g.node n).current = true →
    (g.node n).cells = (f.node n).cells

namespace Extends

variable {f g h : Forest}

theorem refl (f : Forest) : Extends f f where
  hasNode := id
  hasCell := id
  hasEdge := id
  cell _ := rfl
  edge _ := rfl
  table _ := rfl
  key _ := rfl
  deleted _ := rfl
  parent _ := rfl
  current _ := id
  cells _ := List.prefix_rfl
  edges _ := List.prefix_rfl
  cells_of_current _ _ := rfl

theorem trans (hx : Extends f g) (hy : Extends g h) : Extends f h where
  hasNode hn := hy.hasNode (hx.hasNode hn)
  hasCell hc := hy.hasCell (hx.hasCell hc)
  hasEdge he := hy.hasEdge (hx.hasEdge he)
  cell hc := (hy.cell (hx.hasCell hc)).trans (hx.cell hc)
  edge he := (hy.edge (hx.hasEdge he)).trans (hx.edge he)
  table hn := (hy.table (hx.hasNode hn)).trans (hx.table hn)
  key hn := (hy.key (hx.hasNode hn)).trans (hx.key hn)
  deleted hn := (hy.deleted (hx.hasNode hn)).trans (hx.deleted hn)
  parent hn := (hy.parent (hx.hasNode hn)).trans (hx.parent hn)
  current hn hc := hx.current hn (hy.current (hx.hasNode hn) hc)
  cells hn := (hx.cells hn).trans (hy.cells (hx.hasNode hn))
  edges hn := (hx.edges hn).trans (hy.edges (hx.hasNode hn))
  cells_of_current hn hc := (hy.cells_of_current (hx.hasNode hn) hc).trans
    (hx.cells_of_current hn (hy.current (hx.hasNode hn) hc))

theorem keyName (hx : Extends f g) (hf : WellFormed f) {n : NodeId} (hn : f.HasNode n) :
    g.keyName n = f.keyName n := by
  rw [Forest.keyName, Forest.keyName, hx.key hn, hx.cell (hf.hasCell_key hn)]

theorem keyValue (hx : Extends f g) (hf : WellFormed f) {n : NodeId} (hn : f.HasNode n) :
    g.keyValue n = f.keyValue n := by
  rw [Forest.keyValue, Forest.keyValue, hx.key hn, hx.cell (hf.hasCell_key hn)]

theorem isNew (hx : Extends f g) (hf : WellFormed f) {n : NodeId} (hn : f.HasNode n) :
    g.isNew n = f.isNew n := by
  rw [Forest.isNew, Forest.isNew, hx.key hn, hx.cell (hf.hasCell_key hn)]

end Extends

/-! ## Lists with one more entry -/

theorem getElem?_getD_append {α : Type} (l : List α) (a d : α) (i : Nat) :
    (l ++ [a])[i]?.getD d = if i = l.length then a else l[i]?.getD d := by
  rcases Nat.lt_trichotomy i l.length with h | h | h
  · rw [List.getElem?_append_left h, if_neg (Nat.ne_of_lt h)]
  · subst h
    simp
  · rw [List.getElem?_append_right (Nat.le_of_lt h), if_neg (Nat.ne_of_gt h),
      List.getElem?_eq_none (Nat.le_of_lt h), List.getElem?_eq_none (by simp; omega)]

/-! ## One more column -/

/-- The second forest has all that the first one has, and one more column, the last of its
record. -/
structure AddsCell (f g : Forest) (new : Cell) : Prop extends Extends f g where
  hasCell_iff {c} : g.HasCell c ↔ f.HasCell c ∨ c = ⟨f.cells.length⟩
  cell_new : g.cell ⟨f.cells.length⟩ = new
  cells_eq (n) : (g.node n).cells =
    if n = new.owner then (f.node n).cells ++ [⟨f.cells.length⟩] else (f.node n).cells

theorem not_hasCell_next {f : Forest} : ¬f.HasCell ⟨f.cells.length⟩ := Nat.lt_irrefl _

namespace AddsCell

variable {f g : Forest} {new : Cell}

theorem mem_cells (ha : AddsCell f g new) {n : NodeId} {c : CellId} :
    c ∈ (g.node n).cells ↔
      c ∈ (f.node n).cells ∨ n = new.owner ∧ c = ⟨f.cells.length⟩ := by
  rw [ha.cells_eq]
  split <;> simp [*]

/-- Records and columns still agree if the name of the new column is new to its record, and it is
the key exactly of a record that is new, too. -/
theorem columnsFit (ha : AddsCell f g new) (hf : ColumnsFit f)
    (hfresh : ∀ c ∈ (f.node new.owner).cells, (f.cell c).name ≠ new.name)
    (hfirst : ∀ n, g.HasNode n → ¬f.HasNode n → (g.node n).cells.head? = some (g.node n).key)
    (hkey : new.isKey = true ↔ (g.node new.owner).key = ⟨f.cells.length⟩) : ColumnsFit g where
  hasCell h := ha.hasCell_iff.2 ((ha.mem_cells.1 h).imp hf.hasCell And.right)
  owner_of_mem {n c} h := by
    rcases ha.mem_cells.1 h with h | ⟨rfl, rfl⟩
    · rw [ha.cell (hf.hasCell h), hf.owner_of_mem h]
    · rw [ha.cell_new]
  mem_owner {c} h := by
    rcases ha.hasCell_iff.1 h with h | rfl
    · rw [ha.cell h]
      exact ha.mem_cells.2 (Or.inl (hf.mem_owner h))
    · rw [ha.cell_new]
      exact ha.mem_cells.2 (Or.inr ⟨rfl, rfl⟩)
  nodup_cells n := by
    rw [ha.cells_eq]
    split
    · refine List.nodup_append.2 ⟨hf.nodup_cells n, List.nodup_singleton _, ?_⟩
      intro c hc d hd he
      rw [he, List.mem_singleton.1 hd] at hc
      exact not_hasCell_next (hf.hasCell hc)
    · exact hf.nodup_cells n
  name_inj {n c d} hc hd h := by
    rcases ha.mem_cells.1 hc with hc | ⟨rfl, rfl⟩ <;> rcases ha.mem_cells.1 hd with hd | ⟨hn, rfl⟩
    · rw [ha.cell (hf.hasCell hc), ha.cell (hf.hasCell hd)] at h
      exact hf.name_inj hc hd h
    · rw [ha.cell (hf.hasCell hc), ha.cell_new] at h
      exact absurd h (hfresh c (hn ▸ hc))
    · rw [ha.cell (hf.hasCell hd), ha.cell_new] at h
      exact absurd h.symm (hfresh d hd)
    · rfl
  key_first {n} h := by
    by_cases hn : f.HasNode n
    · obtain ⟨rest, hrest⟩ := ha.cells hn
      rw [← hrest, List.head?_append, hf.key_first hn, ha.key hn]
      rfl
    · exact hfirst n h hn
  isKey_iff {c} h := by
    rcases ha.hasCell_iff.1 h with h | rfl
    · rw [ha.cell h, ha.key (hasNode_of_mem_cells (hf.mem_owner h))]
      exact hf.isKey_iff h
    · rw [ha.cell_new]
      exact hkey

end AddsCell

/-! ## A new record -/

/-- The record that `addNode` adds. -/
def newNode (f : Forest) (table : String) (parent : Option EdgeId) : Node :=
  { table := table, key := ⟨f.cells.length⟩, cells := [⟨f.cells.length⟩], edges := [],
    current := false, deleted := false, parent := parent }

/-- The key column that `addNode` adds. -/
def newKey (f : Forest) (keyName : String) (key : Value) : Cell :=
  ⟨keyName, ⟨f.nodes.length⟩, true, .null, if key.isNull then none else some key⟩

section

variable {f : Forest} (table keyName : String) (key : Value)

theorem node_addNode (parent : Option EdgeId) (m : NodeId) :
    (f.addNode table keyName key parent).2.node m =
      if m.index = f.nodes.length then f.newNode table parent else f.node m :=
  getElem?_getD_append _ _ _ _

theorem cell_addNode (parent : Option EdgeId) (c : CellId) :
    (f.addNode table keyName key parent).2.cell c =
      if c.index = f.cells.length then f.newKey keyName key else f.cell c :=
  getElem?_getD_append _ _ _ _

theorem hasNode_addNode (parent : Option EdgeId) (m : NodeId) :
    (f.addNode table keyName key parent).2.HasNode m ↔ f.HasNode m ∨ m = ⟨f.nodes.length⟩ := by
  cases m
  simp [HasNode, addNode]
  omega

theorem hasCell_addNode (parent : Option EdgeId) (c : CellId) :
    (f.addNode table keyName key parent).2.HasCell c ↔ f.HasCell c ∨ c = ⟨f.cells.length⟩ := by
  cases c
  simp [HasCell, addNode]
  omega

theorem extends_addNode (parent : Option EdgeId) :
    Extends f (f.addNode table keyName key parent).2 := by
  have hnode {n : NodeId} (hn : f.HasNode n) :
      (f.addNode table keyName key parent).2.node n = f.node n := by
    rw [node_addNode, if_neg (Nat.ne_of_lt hn)]
  exact
    { hasNode := fun hn => (hasNode_addNode table keyName key parent _).2 (Or.inl hn)
      hasCell := fun hc => (hasCell_addNode table keyName key parent _).2 (Or.inl hc)
      hasEdge := id
      cell := fun hc => by rw [cell_addNode, if_neg (Nat.ne_of_lt hc)]
      edge := fun _ => rfl
      table := fun hn => by rw [hnode hn]
      key := fun hn => by rw [hnode hn]
      deleted := fun hn => by rw [hnode hn]
      parent := fun hn => by rw [hnode hn]
      current := fun hn hc => by rwa [hnode hn] at hc
      cells := fun hn => (hnode hn).symm ▸ List.prefix_rfl
      edges := fun hn => (hnode hn).symm ▸ List.prefix_rfl
      cells_of_current := fun hn _ => by rw [hnode hn] }

/-- The new record has no columns but its key. -/
theorem cells_addNode (parent : Option EdgeId) (n : NodeId) :
    ((f.addNode table keyName key parent).2.node n).cells =
      if n = ⟨f.nodes.length⟩ then (f.node n).cells ++ [⟨f.cells.length⟩] else (f.node n).cells := by
  rw [node_addNode]
  by_cases hn : n = ⟨f.nodes.length⟩
  · rw [if_pos hn, if_pos (congrArg NodeId.index hn), hn, node_of_not_hasNode f (Nat.lt_irrefl _)]
    rfl
  · rw [if_neg hn, if_neg fun h => hn (congrArg NodeId.mk h)]

theorem addsCell_addNode (parent : Option EdgeId) :
    AddsCell f (f.addNode table keyName key parent).2 (f.newKey keyName key) where
  toExtends := extends_addNode table keyName key parent
  hasCell_iff := hasCell_addNode table keyName key parent _
  cell_new := by rw [cell_addNode, if_pos rfl]
  cells_eq := cells_addNode table keyName key parent

theorem columnsFit_addNode (hf : ColumnsFit f) (parent : Option EdgeId) :
    ColumnsFit (f.addNode table keyName key parent).2 := by
  refine (addsCell_addNode table keyName key parent).columnsFit hf (fun c hc => ?_)
    (fun n hn hold => ?_) ?_
  · exact absurd (hasNode_of_mem_cells hc) (Nat.lt_irrefl _)
  · rw [((hasNode_addNode table keyName key parent n).1 hn).resolve_left hold, node_addNode,
      if_pos rfl]
    rfl
  · rw [newKey, node_addNode, if_pos rfl]
    exact iff_of_true rfl rfl

end

variable {f : Forest}

/-- Joins still agree with their records after growth that adds none. -/
theorem joinsFit_of_extends {g : Forest} (hf : WellFormed f) (hx : Extends f g)
    (hedge : ∀ e, g.HasEdge e → f.HasEdge e)
    (hedges : ∀ n, (g.node n).edges = (f.node n).edges)
    (hparent : ∀ n, (g.node n).parent = (f.node n).parent) : JoinsFit g where
  hasEdge h := hx.hasEdge (hf.hasEdge (hedges _ ▸ h))
  owner_of_edge {n e} h := by
    rw [hedges] at h
    rw [hx.edge (hf.hasEdge h), hf.owner_of_edge h]
  mem_edges {e} h := by
    have he := hedge e h
    rw [hx.edge he, hedges]
    exact hf.mem_edges he
  nodup_edges n := hedges n ▸ hf.nodup_edges n
  label_inj {n e e'} he he' h := by
    rw [hedges] at he he'
    rw [hx.edge (hf.hasEdge he), hx.edge (hf.hasEdge he')] at h
    exact hf.label_inj he he' h
  link_mem {e} h := by
    have he := hedge e h
    rw [hx.edge he]
    exact (hx.cells (hf.hasEdgeOwner he)).subset (hf.link_mem he)
  label_eq {e} h := by
    have he := hedge e h
    rw [hx.edge he, hf.label_eq he, hx.table (hf.hasChild he), hx.keyName hf (hf.hasChild he),
      hx.cell (hf.hasLink he)]
  hasChild {e} h := by
    have he := hedge e h
    rw [hx.edge he]
    exact hx.hasNode (hf.hasChild he)
  owner_lt_child {e} h := by
    have he := hedge e h
    rw [hx.edge he]
    exact hf.owner_lt_child he
  parent_child {e} h := by
    have he := hedge e h
    rw [hx.edge he, hparent]
    exact hf.parent_child he
  edge_of_parent {n e} h := by
    rw [hparent] at h
    obtain ⟨he, hc⟩ := hf.edge_of_parent h
    exact ⟨hx.hasEdge he, by rw [hx.edge he, hc]⟩

/-- A root fits into a well-formed forest. -/
theorem WellFormed.addRoot (hf : WellFormed f) (table keyName : String) (key : Value) :
    WellFormed (f.addRoot table keyName key).2 where
  toColumnsFit := columnsFit_addNode table keyName key hf.toColumnsFit none
  toJoinsFit := by
    have hdefault {n : NodeId} (hn : n.index = f.nodes.length) : f.node n = default :=
      node_of_not_hasNode f (by rw [HasNode, hn]; exact Nat.lt_irrefl _)
    refine joinsFit_of_extends hf (extends_addNode table keyName key none) (fun _ h => h)
      (fun n => ?_) fun n => ?_
    all_goals
      rw [Forest.addRoot, node_addNode]
      split
      · rename_i hn
        rw [hdefault hn]
        rfl
      · rfl

/-! ## A new column -/

variable {name : String}

/-- The forest with one more column of a record. -/
def withCell (f : Forest) (n : NodeId) (name : String) : Forest :=
  let grown : Forest := { f with cells := f.cells ++ [Cell.blank name n false] }
  grown.modifyNode n fun node =>
    { node with cells := node.cells ++ [⟨f.cells.length⟩], current := false }

theorem ensureCell_of_some {n : NodeId} {c : CellId} (h : f.findCell? n name = some c) :
    f.ensureCell n name = (c, f) := by
  rw [ensureCell, h]

theorem ensureCell_of_none {n : NodeId} (h : f.findCell? n name = none) :
    f.ensureCell n name = (⟨f.cells.length⟩, f.withCell n name) := by
  rw [ensureCell, h]
  rfl

theorem node_withCell {n : NodeId} (hn : f.HasNode n) (m : NodeId) :
    (f.withCell n name).node m =
      if m = n then { f.node n with cells := (f.node n).cells ++ [⟨f.cells.length⟩],
                                    current := false }
      else f.node m := by
  rw [withCell, node_modifyNode]
  by_cases hm : m = n
  · rw [if_pos ⟨hm, hn⟩, if_pos hm]
    rfl
  · rw [if_neg fun h => hm h.1, if_neg hm]
    rfl

theorem cell_withCell (n : NodeId) (c : CellId) :
    (f.withCell n name).cell c =
      if c.index = f.cells.length then Cell.blank name n false else f.cell c :=
  getElem?_getD_append _ _ _ _

theorem hasNode_withCell (n m : NodeId) : (f.withCell n name).HasNode m ↔ f.HasNode m := by
  simp [HasNode, withCell]

theorem hasCell_withCell (n : NodeId) (c : CellId) :
    (f.withCell n name).HasCell c ↔ f.HasCell c ∨ c = ⟨f.cells.length⟩ := by
  cases c
  simp [HasCell, withCell, modifyNode]
  omega

theorem cell_newCell (n : NodeId) :
    (f.withCell n name).cell ⟨f.cells.length⟩ = Cell.blank name n false := by
  rw [cell_withCell, if_pos rfl]

theorem extends_withCell (name : String) {n : NodeId} (hn : f.HasNode n) :
    Extends f (f.withCell n name) where
  hasNode hm := (hasNode_withCell n _).2 hm
  hasCell hc := (hasCell_withCell n _).2 (Or.inl hc)
  hasEdge he := he
  cell hc := by rw [cell_withCell, if_neg (Nat.ne_of_lt hc)]
  edge _ := rfl
  table {m} _ := by
    rw [node_withCell hn]
    split <;> simp [*]
  key {m} _ := by
    rw [node_withCell hn]
    split <;> simp [*]
  deleted {m} _ := by
    rw [node_withCell hn]
    split <;> simp [*]
  parent {m} _ := by
    rw [node_withCell hn]
    split <;> simp [*]
  current {m} _ h := by
    rw [node_withCell hn] at h
    split at h
    · exact absurd h Bool.false_ne_true
    · exact h
  cells {m} _ := by
    rw [node_withCell hn]
    split
    · rename_i hm
      exact hm ▸ List.prefix_append _ _
    · exact List.prefix_rfl
  edges {m} _ := by
    rw [node_withCell hn]
    split
    · rename_i hm
      exact hm ▸ List.prefix_rfl
    · exact List.prefix_rfl
  cells_of_current {m} _ h := by
    rw [node_withCell hn] at h ⊢
    split at h
    · exact absurd h Bool.false_ne_true
    · rename_i hm
      rw [if_neg hm]

theorem addsCell_withCell (name : String) {n : NodeId} (hn : f.HasNode n) :
    AddsCell f (f.withCell n name) (Cell.blank name n false) where
  toExtends := extends_withCell name hn
  hasCell_iff := hasCell_withCell n _
  cell_new := cell_newCell n
  cells_eq m := by
    rw [node_withCell hn, Cell.blank]
    split
    · rename_i hm
      rw [hm]
    · rfl

/-- A column with a new name fits into a well-formed forest. -/
theorem WellFormed.withCell (hf : WellFormed f) {n : NodeId} (hn : f.HasNode n)
    (hname : f.findCell? n name = none) : WellFormed (f.withCell n name) where
  toColumnsFit := by
    refine (addsCell_withCell name hn).columnsFit hf.toColumnsFit (fun c hc => ?_)
      (fun m hm hold => absurd ((hasNode_withCell n m).1 hm) hold) ?_
    · simpa [Cell.blank] using List.find?_eq_none.1 hname c hc
    · rw [Cell.blank, (extends_withCell name hn).key hn]
      refine iff_of_false Bool.false_ne_true fun h => not_hasCell_next (f := f) ?_
      exact h ▸ hf.hasCell_key hn
  toJoinsFit := by
    refine joinsFit_of_extends hf (extends_withCell name hn) (fun _ h => h)
      (fun m => ?_) fun m => ?_
    all_goals
      rw [node_withCell hn]
      split
      · rename_i hm
        rw [hm]
      · rfl

end Forest
end LinkedRows
