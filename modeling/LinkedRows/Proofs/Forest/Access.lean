/-
# Reading a changed forest

What `node`, `cell` and `edge` find after each elementary change of a forest.  A change reaches the
record or column with its index and no other one, and none if there is no such index; nothing but
growth adds to the three lists.

`cell_load_map`, `cell_load` and `cell_settle` say the same about the two changes that go through a
list of columns.
-/

import LinkedRows.Forest
import Mathlib.Data.List.Nodup

namespace LinkedRows

theorem Cell.settle_settle (c : Cell) : c.settle.settle = c.settle := rfl

namespace Forest

/-- There is a record with this index. -/
def HasNode (f : Forest) (n : NodeId) : Prop := n.index < f.nodes.length

/-- There is a column with this index. -/
def HasCell (f : Forest) (c : CellId) : Prop := c.index < f.cells.length

/-- There is a join with this index. -/
def HasEdge (f : Forest) (e : EdgeId) : Prop := e.index < f.edges.length

instance (f : Forest) (n : NodeId) : Decidable (f.HasNode n) := Nat.decLt _ _

instance (f : Forest) (c : CellId) : Decidable (f.HasCell c) := Nat.decLt _ _

instance (f : Forest) (e : EdgeId) : Decidable (f.HasEdge e) := Nat.decLt _ _

instance (f : Forest) (P : NodeId → Prop) [DecidablePred P] :
    Decidable (∀ n, f.HasNode n → P n) :=
  decidable_of_iff (∀ i < f.nodes.length, P ⟨i⟩) ⟨fun h n hn => h n.index hn, fun h i => h ⟨i⟩⟩

instance (f : Forest) (P : CellId → Prop) [DecidablePred P] :
    Decidable (∀ c, f.HasCell c → P c) :=
  decidable_of_iff (∀ i < f.cells.length, P ⟨i⟩) ⟨fun h c hc => h c.index hc, fun h i => h ⟨i⟩⟩

instance (f : Forest) (P : EdgeId → Prop) [DecidablePred P] :
    Decidable (∀ e, f.HasEdge e → P e) :=
  decidable_of_iff (∀ i < f.edges.length, P ⟨i⟩) ⟨fun h e he => h e.index he, fun h i => h ⟨i⟩⟩

instance (f : Forest) (P : EdgeId → Prop) [DecidablePred P] :
    Decidable (∃ e, f.HasEdge e ∧ P e) :=
  decidable_of_iff (∃ i < f.edges.length, P ⟨i⟩)
    ⟨fun ⟨i, hi, h⟩ => ⟨⟨i⟩, hi, h⟩, fun ⟨e, he, h⟩ => ⟨e.index, he, h⟩⟩

variable (f : Forest)

theorem node_of_not_hasNode {n : NodeId} (h : ¬f.HasNode n) : f.node n = default := by
  rw [node, List.getElem?_eq_none (Nat.le_of_not_lt h), Option.getD_none]

theorem cell_of_not_hasCell {c : CellId} (h : ¬f.HasCell c) : f.cell c = default := by
  rw [cell, List.getElem?_eq_none (Nat.le_of_not_lt h), Option.getD_none]

/-! ## One record -/

theorem node_modifyNode (n m : NodeId) (change : Node → Node) :
    (f.modifyNode n change).node m =
      if m = n ∧ f.HasNode n then change (f.node n) else f.node m := by
  unfold node modifyNode HasNode
  by_cases h : m = n
  · subst h
    by_cases hm : m.index < f.nodes.length
    · simp [hm]
    · simp [hm]
  · have hne : n.index ≠ m.index := fun he => h (by cases m; cases n; cases he; rfl)
    simp [h, List.getElem?_modify_ne _ _ hne]

/-- A field that a change of a record keeps. -/
theorem node_modifyNode_proj {α : Type} (proj : Node → α) (n m : NodeId) {change : Node → Node}
    (h : ∀ node, proj (change node) = proj node) :
    proj ((f.modifyNode n change).node m) = proj (f.node m) := by
  rw [node_modifyNode]
  split
  · rename_i hm
    rw [h, hm.1]
  · rfl

@[simp] theorem cell_modifyNode (n : NodeId) (change : Node → Node) (c : CellId) :
    (f.modifyNode n change).cell c = f.cell c := rfl

@[simp] theorem edge_modifyNode (n : NodeId) (change : Node → Node) (e : EdgeId) :
    (f.modifyNode n change).edge e = f.edge e := rfl

@[simp] theorem length_nodes_modifyNode (n : NodeId) (change : Node → Node) :
    (f.modifyNode n change).nodes.length = f.nodes.length := List.length_modify ..

/-! ## One column -/

theorem cell_modifyCell (c d : CellId) (change : Cell → Cell) :
    (f.modifyCell c change).cell d =
      if d = c ∧ f.HasCell c then change (f.cell c) else f.cell d := by
  unfold cell modifyCell HasCell
  by_cases h : d = c
  · subst h
    by_cases hd : d.index < f.cells.length
    · simp [hd]
    · simp [hd]
  · have hne : c.index ≠ d.index := fun he => h (by cases c; cases d; cases he; rfl)
    simp [h, List.getElem?_modify_ne _ _ hne]

theorem cell_modifyCell_self {c : CellId} (h : f.HasCell c) (change : Cell → Cell) :
    (f.modifyCell c change).cell c = change (f.cell c) := by
  rw [cell_modifyCell, if_pos ⟨rfl, h⟩]

theorem cell_modifyCell_of_ne {c d : CellId} (h : d ≠ c) (change : Cell → Cell) :
    (f.modifyCell c change).cell d = f.cell d := by
  rw [cell_modifyCell, if_neg fun hd => h hd.1]

/-- A field that a change of a column keeps. -/
theorem cell_modifyCell_proj {α : Type} (proj : Cell → α) (c d : CellId) {change : Cell → Cell}
    (h : ∀ cell, proj (change cell) = proj cell) :
    proj ((f.modifyCell c change).cell d) = proj (f.cell d) := by
  rw [cell_modifyCell]
  split
  · rename_i hd
    rw [h, hd.1]
  · rfl

@[simp] theorem node_modifyCell (c : CellId) (change : Cell → Cell) (n : NodeId) :
    (f.modifyCell c change).node n = f.node n := rfl

@[simp] theorem edge_modifyCell (c : CellId) (change : Cell → Cell) (e : EdgeId) :
    (f.modifyCell c change).edge e = f.edge e := rfl

@[simp] theorem length_cells_modifyCell (c : CellId) (change : Cell → Cell) :
    (f.modifyCell c change).cells.length = f.cells.length := List.length_modify ..

/-! ## Several columns -/

@[simp] theorem node_load (cells : List CellId) (values : List Value) (n : NodeId) :
    (f.load cells values).node n = f.node n := by
  unfold load
  generalize cells.zip values = pairs
  induction pairs generalizing f with
  | nil => rfl
  | cons pair rest ih => rw [List.foldl_cons, ih, node_modifyCell]

/-- Loading leaves a column as it is, or gives it a value from storage if it is in the list. -/
theorem cell_load (cells : List CellId) (values : List Value) (c : CellId) :
    (f.load cells values).cell c = f.cell c ∨
      c ∈ cells ∧ ∃ v, (f.load cells values).cell c = (f.cell c).load v := by
  unfold load
  induction cells generalizing f values with
  | nil => exact Or.inl rfl
  | cons d rest ih =>
    cases values with
    | nil => exact Or.inl rfl
    | cons v values =>
      rw [List.zip_cons_cons, List.foldl_cons]
      have hstep : (f.modifyCell d (·.load v)).cell c = f.cell c ∨
          c = d ∧ (f.modifyCell d (·.load v)).cell c = (f.cell c).load v := by
        rw [cell_modifyCell]
        split
        · rename_i h
          exact Or.inr ⟨h.1, by rw [h.1]⟩
        · exact Or.inl rfl
      rcases ih (f.modifyCell d (·.load v)) values with h | ⟨hc, w, h⟩ <;> rw [h]
      · rcases hstep with hs | ⟨rfl, hs⟩
        · exact Or.inl hs
        · exact Or.inr ⟨List.mem_cons_self .., v, hs⟩
      · refine Or.inr ⟨List.mem_cons_of_mem _ hc, w, ?_⟩
        rcases hstep with hs | ⟨-, hs⟩ <;> rw [hs]
        rfl

/-- Loading gives a column the value at its own position, if there are that many values. -/
theorem cell_load_getElem? {cells : List CellId} {values : List Value} (hnodup : cells.Nodup)
    {i : Nat} {c : CellId} {v : Value} (hc : cells[i]? = some c) (hv : values[i]? = some v)
    (h : f.HasCell c) : (f.load cells values).cell c = (f.cell c).load v := by
  induction cells generalizing f values i with
  | nil => cases hc
  | cons d rest ih =>
    obtain ⟨hd, hrest⟩ := List.nodup_cons.1 hnodup
    cases values with
    | nil => cases hv
    | cons x values =>
      have hload : f.load (d :: rest) (x :: values) =
        (f.modifyCell d (·.load x)).load rest values := rfl
      rw [hload]
      cases i with
      | zero =>
        obtain rfl : d = c := Option.some.inj hc
        obtain rfl : x = v := Option.some.inj hv
        rcases cell_load _ rest values d with hcell | ⟨hmem, -⟩
        · rw [hcell, cell_modifyCell_self f h]
        · exact absurd hmem hd
      | succ i =>
        have hne : c ≠ d := fun hcd => hd (hcd ▸ List.mem_of_getElem? hc)
        rw [ih _ hrest hc hv (by rwa [HasCell, length_cells_modifyCell]),
          cell_modifyCell_of_ne f hne]

/-- Loading leaves a column alone that there is no value for. -/
theorem cell_load_of_short {cells : List CellId} {values : List Value} (hnodup : cells.Nodup)
    {i : Nat} {c : CellId} (hc : cells[i]? = some c) (hv : values[i]? = none) :
    (f.load cells values).cell c = f.cell c := by
  induction cells generalizing f values i with
  | nil => cases hc
  | cons d rest ih =>
    obtain ⟨hd, hrest⟩ := List.nodup_cons.1 hnodup
    cases values with
    | nil => rfl
    | cons x values =>
      cases i with
      | zero => cases hv
      | succ i =>
        have hne : c ≠ d := fun hcd => hd (hcd ▸ List.mem_of_getElem? hc)
        show ((f.modifyCell d (·.load x)).load rest values).cell c = f.cell c
        rw [ih _ hrest hc hv, cell_modifyCell_of_ne f hne]

/-- Loading gives a column the value at its position or leaves it the one that it had. -/
theorem stored_load {cells : List CellId} (values : List Value) (hnodup : cells.Nodup) {i : Nat}
    {c : CellId} (hc : cells[i]? = some c) (h : f.HasCell c) :
    ((f.load cells values).cell c).stored = (values[i]?).getD (f.cell c).stored := by
  cases hv : values[i]? with
  | none => rw [cell_load_of_short f hnodup hc hv, Option.getD_none]
  | some x =>
    rw [cell_load_getElem? f hnodup hc hv h, Option.getD_some]
    rfl

/-- Loading as many values as columns gives every column its value. -/
theorem cell_load_map (cells : List CellId) (value : CellId → Value) {c : CellId}
    (h : f.HasCell c) :
    (f.load cells (cells.map value)).cell c =
      if c ∈ cells then (f.cell c).load (value c) else f.cell c := by
  unfold load
  induction cells generalizing f with
  | nil => rfl
  | cons d rest ih =>
    rw [List.map_cons, List.zip_cons_cons, List.foldl_cons,
      ih _ (by rwa [HasCell, length_cells_modifyCell]), cell_modifyCell]
    by_cases hd : c = d
    · subst hd
      by_cases hc : c ∈ rest <;> simp [hc, h, Cell.load]
    · simp [hd]

@[simp] theorem node_settle (cells : List CellId) (n : NodeId) :
    (f.settle cells).node n = f.node n := by
  unfold settle
  induction cells generalizing f with
  | nil => rfl
  | cons c rest ih => rw [List.foldl_cons, ih, node_modifyCell]

theorem cell_settle (cells : List CellId) (c : CellId) :
    (f.settle cells).cell c = if c ∈ cells then (f.cell c).settle else f.cell c := by
  unfold settle
  induction cells generalizing f with
  | nil => rfl
  | cons d rest ih =>
    have hstep : (f.modifyCell d Cell.settle).cell c =
        if c = d then (f.cell c).settle else f.cell c := by
      by_cases hd : c = d
      · subst hd
        by_cases hc : f.HasCell c
        · rw [cell_modifyCell_self f hc, if_pos rfl]
        · rw [cell_modifyCell, if_neg fun h => hc h.2, if_pos rfl, cell_of_not_hasCell f hc]
          rfl
      · rw [cell_modifyCell_of_ne f hd, if_neg hd]
    rw [List.foldl_cons, ih, hstep]
    by_cases hd : c = d
    · by_cases hc : c ∈ rest <;> simp [hd, Cell.settle_settle]
    · simp [hd]

end Forest
end LinkedRows
