/-
# Records with changes

The walk that visits a record and all below it with a stack visits exactly what hangs below the
record, each record once; so the bound on its steps never cuts it short (`preOrder_eq`).

Therefore a record has changes if columns are assigned at it or below it, and then so have all
records above it.  Which records have changes does not depend on what was read.

The forest of a record has one root, so all its records are that one or below it (`Rooted`).
-/

import LinkedRows.Proofs.Forest.Twins
import Mathlib.Data.List.Perm.Subperm

namespace LinkedRows
namespace Forest

variable {f g : Forest} {n root : NodeId} {b : Branches}

/-! ## Forests with one root -/

/-- A forest in which one record alone has no join that leads to it. -/
structure Rooted (f : Forest) (root : NodeId) : Prop where
  hasRoot : f.HasNode root
  isRoot : (f.node root).parent = none
  unique {m} : f.HasNode m → (f.node m).parent = none → m = root

theorem Rooted.of_sameShape (hr : Rooted f root) (hs : SameShape f g) : Rooted g root where
  hasRoot := (hs.hasNode root).2 hr.hasRoot
  isRoot := (hs.parent root).trans hr.isRoot
  unique hn hp := hr.unique ((hs.hasNode _).1 hn) ((hs.parent _).symm.trans hp)

theorem Rooted.twins (hr : Rooted f root) (h : Twins f g) : Rooted g root where
  hasRoot := (h.hasNode root).2 hr.hasRoot
  isRoot := (h.parent root).trans hr.isRoot
  unique hn hp := hr.unique ((h.hasNode _).1 hn) ((h.parent _).symm.trans hp)

theorem Rooted.grows (hr : Rooted f root) (hf : WellFormed f) (hg : Grows f g) :
    Rooted g root := by
  induction hg with
  | refl => exact hr
  | @cell g m name hfg hm hname ih =>
    have hx := extends_withCell name hm
    refine ⟨hx.hasNode ih.hasRoot, (hx.parent ih.hasRoot).trans ih.isRoot, fun hn hp => ?_⟩
    have hn := (hasNode_withCell m _).1 hn
    exact ih.unique hn ((hx.parent hn).symm.trans hp)
  | @join g link table key hfg hl hlabel ih =>
    have ho := (hf.grows hfg).hasOwner hl
    have hx : Extends g (g.withJoin link table key) := extends_withJoin ho
    refine ⟨hx.hasNode ih.hasRoot, (hx.parent ih.hasRoot).trans ih.isRoot, fun {m} hm hp => ?_⟩
    rcases (hasNode_withJoin m).1 hm with hm | rfl
    · exact ih.unique hm ((hx.parent hm).symm.trans hp)
    · rw [node_newChild ho] at hp
      cases hp

/-- The root is the oldest record. -/
theorem Rooted.index_le (hr : Rooted f root) (hf : WellFormed f) (hn : f.HasNode n) :
    root.index ≤ n.index := by
  induction n using hf.parent_induction with
  | root n hp => exact hr.unique hn hp ▸ Nat.le_refl _
  | child n e hp ih =>
    obtain ⟨he, rfl⟩ := hf.edge_of_parent hp
    exact Nat.le_trans (ih (hf.hasEdgeOwner he)) (Nat.le_of_lt (hf.owner_lt_child he))

/-- All records are the root or below it. -/
theorem Rooted.mem_below (hr : Rooted f root) (hf : WellFormed f) (hn : f.HasNode n) :
    n = root ∨ n ∈ (f.below root).preOrder := by
  induction n using hf.parent_induction with
  | root n hp => exact Or.inl (hr.unique hn hp)
  | child n e hp ih =>
    obtain ⟨he, rfl⟩ := hf.edge_of_parent hp
    have hedge := hf.mem_edges he
    refine Or.inr ?_
    rcases ih (hf.hasEdgeOwner he) with h | h
    · exact childOf_mem_below hf (h ▸ hedge)
    · exact childOf_mem_of_mem hf (hangs_below hf root) h hedge

/-! ## The walk -/

theorem preOrder_hang (f : Forest) (edges : List EdgeId) : (f.hang edges).preOrder =
    (edges.map f.childOf).flatMap fun m => m :: (f.below m).preOrder := by
  induction edges with
  | nil => rfl
  | cons e rest ih => rw [hang, Branches.preOrder, ih, List.map_cons, List.flatMap_cons]

/-- The walk visits what is on the stack and below it, up to its bound. -/
theorem visit_eq (hf : WellFormed f) (steps : Nat) (stack : List NodeId) : f.visit steps stack =
    (stack.flatMap fun n => n :: (f.below n).preOrder).take steps := by
  induction steps generalizing stack with
  | zero => rw [visit, List.take_zero]
  | succ steps ih =>
    cases stack with
    | nil => rfl
    | cons n stack =>
      rw [visit, ih, List.flatMap_append, ← preOrder_hang, ← below_eq_hang hf, List.flatMap_cons,
        List.cons_append, List.take_succ_cons]

/-- What is below a child is not behind the joins after its own. -/
theorem not_mem_next_of_below (hf : WellFormed f) {e : EdgeId} {child : NodeId}
    {below next : Branches} (hb : f.Hangs n (.cons e child below next))
    (hjoins : (Branches.cons e child below next).joins.Nodup) {m : NodeId}
    (hm : m ∈ below.preOrder) : m ∉ next.preOrder := by
  have hchild := child_not_mem_next hf hb hjoins
  obtain ⟨he, rfl, -, hbelow, hnext⟩ := hb
  have hlt := index_lt_childOf hf he
  induction hk : m.index using Nat.strongRecOn generalizing m with
  | ind k ih =>
    intro hmem
    obtain ⟨e', hp, h⟩ := parent_of_mem_preOrder hf hbelow hm
    obtain ⟨e'', hp', h'⟩ := parent_of_mem_preOrder hf hnext hmem
    obtain rfl := Option.some.inj (hp.symm.trans hp')
    obtain ⟨he', hc⟩ := hf.edge_of_parent hp
    have hup := hf.owner_lt_child he'
    rw [hc] at hup
    -- The owner of the join is on both sides too, or where they start.
    rcases h with h | h
    · have howner := hf.owner_of_edge (edges_of_joins hbelow h)
      rcases h' with h' | h'
      · rw [hf.owner_of_edge (edges_of_joins hnext h')] at howner
        rw [howner] at hlt
        exact Nat.lt_irrefl _ hlt
      · exact hchild (howner ▸ h')
    · rcases h' with h' | h'
      · have hdeep := (lt_of_mem_preOrder hf hbelow h).1
        rw [hf.owner_of_edge (edges_of_joins hnext h')] at hdeep
        exact Nat.lt_asymm hlt hdeep
      · exact ih _ (hk ▸ hup) h rfl h'

/-- The first child and the records below it are not behind the later joins. -/
theorem not_mem_next_of_first (hf : WellFormed f) {e : EdgeId} {child m : NodeId}
    {below next : Branches} (hb : f.Hangs n (.cons e child below next))
    (hjoins : (Branches.cons e child below next).joins.Nodup) (hm : m ∈ child :: below.preOrder) :
    m ∉ next.preOrder := by
  rcases List.mem_cons.1 hm with rfl | hm
  · exact child_not_mem_next hf hb hjoins
  · exact not_mem_next_of_below hf hb hjoins hm

theorem hasNode_of_mem_first (hf : WellFormed f) {e : EdgeId} {child m : NodeId}
    {below next : Branches} (hb : f.Hangs n (.cons e child below next))
    (hm : m ∈ child :: below.preOrder) : f.HasNode m := by
  obtain ⟨he, rfl, -, hbelow, -⟩ := hb
  rcases List.mem_cons.1 hm with rfl | hm
  · exact hf.hasChild (hf.hasEdge he)
  · exact (lt_of_mem_preOrder hf hbelow hm).2

theorem nodup_preOrder (hf : WellFormed f) (hb : f.Hangs n b) (hjoins : b.joins.Nodup) :
    b.preOrder.Nodup := by
  induction b generalizing n with
  | nil => exact List.nodup_nil
  | cons e child below next ihBelow ihNext =>
    have hchild := child_not_mem_next hf hb hjoins
    have hdisjoint : below.preOrder.Disjoint next.preOrder := fun m hm =>
      not_mem_next_of_below hf hb hjoins hm
    obtain ⟨-, -, hbelow, hhang, hnext⟩ := hb
    rw [Branches.preOrder, List.cons_append, List.nodup_cons, List.mem_append, not_or,
      List.nodup_append']
    refine ⟨⟨fun h => ?_, hchild⟩, ?_, ihNext hnext (List.nodup_cons.1 hjoins).2, hdisjoint⟩
    · exact not_mem_of_hangs hf hhang h
    · exact ihBelow hhang (hbelow ▸ nodup_joins_below hf child)

/-- The walk from a record visits it and all that is below it. -/
theorem preOrder_eq (hf : WellFormed f) (hn : f.HasNode n) :
    f.preOrder n = n :: (f.below n).preOrder := by
  have hb := hangs_below hf n
  have hnodup : (n :: (f.below n).preOrder).Nodup := List.nodup_cons.2
    ⟨not_mem_below hf n, nodup_preOrder hf hb (nodup_joins_below hf n)⟩
  have hlen : (n :: (f.below n).preOrder).length ≤ f.nodes.length := by
    rw [← List.length_map NodeId.index, ← List.length_range (n := f.nodes.length)]
    refine List.Subperm.length_le (List.subperm_of_subset (hnodup.map ?_) fun i hi => ?_)
    · intro m m' h
      cases m
      cases m'
      exact congrArg NodeId.mk h
    · obtain ⟨m, hm, rfl⟩ := List.mem_map.1 hi
      rw [List.mem_range]
      rcases List.mem_cons.1 hm with rfl | hm
      · exact hn
      · exact (lt_of_mem_preOrder hf hb hm).2
  rw [preOrder, visit_eq hf, List.flatMap_cons, List.flatMap_nil, List.append_nil,
    List.take_of_length_le hlen]

/-! ## Changes -/

/-- A record has changes if a column is assigned at it or below it, of a record that was not
deleted. -/
theorem hasChanges_iff (hf : WellFormed f) (hn : f.HasNode n) : f.hasChanges n = true ↔
    ∃ m, (m = n ∨ m ∈ (f.below n).preOrder) ∧ (f.node m).deleted = false ∧
      f.pendingCells m ≠ [] := by
  rw [hasChanges, preOrder_eq hf hn, List.any_eq_true]
  simp only [List.mem_cons, Bool.and_eq_true, Bool.not_eq_true', List.isEmpty_eq_false_iff]

theorem hasNode_of_pendingCells (h : f.pendingCells n ≠ []) : f.HasNode n := by
  obtain ⟨c, hc⟩ := List.exists_mem_of_ne_nil _ h
  exact hasNode_of_mem_cells (mem_pendingCells.1 hc).1

theorem hasChanges_of_pendingCells (hf : Intact f) (h : f.pendingCells n ≠ []) :
    f.hasChanges n = true :=
  (hasChanges_iff hf.toWellFormed (hasNode_of_pendingCells h)).2
    ⟨n, Or.inl rfl, hf.undeleted n, h⟩

/-- The owner of a join has changes if its child has. -/
theorem hasChanges_owner (hf : Intact f) {e : EdgeId} (he : f.HasEdge e)
    (h : f.hasChanges (f.edge e).child = true) : f.hasChanges (f.edge e).owner = true := by
  have hwf := hf.toWellFormed
  have hedge := hwf.mem_edges he
  obtain ⟨m, hm, hpending⟩ := (hasChanges_iff hwf (hwf.hasChild he)).1 h
  refine (hasChanges_iff hwf (hwf.hasEdgeOwner he)).2 ⟨m, Or.inr ?_, hpending⟩
  rw [below_eq_hang hwf, preOrder_hang, List.mem_flatMap]
  exact ⟨f.childOf e, List.mem_map_of_mem hedge, List.mem_cons.2 hm⟩

/-- Reading leaves what is to be written. -/
theorem Learns.pendingCells_eq_nil_iff (h : Learns f g) (hf : WellFormed f) (n : NodeId) :
    g.pendingCells n = [] ↔ f.pendingCells n = [] := by
  rw [Forest.pendingCells_eq_nil_iff (h.steady.wellFormed hf), Forest.pendingCells_eq_nil_iff hf]
  simp only [pending?_of_sameShape h.steady.shape fun _ hk => h.assigned hf hk]

theorem Learns.hasChanges (h : Learns f g) (hf : WellFormed f) (hn : f.HasNode n) :
    g.hasChanges n = f.hasChanges n := by
  have hs := h.steady.shape
  rw [Bool.eq_iff_iff, hasChanges_iff (h.steady.wellFormed hf) ((hs.hasNode n).2 hn),
    hasChanges_iff hf hn, hs.below]
  simp only [ne_eq, h.pendingCells_eq_nil_iff hf, h.steady.deleted]

/-- Twins have something to write for the same records. -/
theorem Twins.pendingCells_eq_nil_iff (h : Twins f g) (hf : WellFormed f) (hg : WellFormed g)
    (n : NodeId) : g.pendingCells n = [] ↔ f.pendingCells n = [] := by
  rw [Forest.pendingCells_eq_nil_iff hg, Forest.pendingCells_eq_nil_iff hf]
  simp only [h.pending?]

theorem Twins.hasChanges (h : Twins f g) (hf : Intact f) (hg : Intact g) (hn : f.HasNode n) :
    g.hasChanges n = f.hasChanges n := by
  rw [Bool.eq_iff_iff, hasChanges_iff hg.toWellFormed ((h.hasNode n).2 hn),
    hasChanges_iff hf.toWellFormed hn, h.below]
  simp only [ne_eq, h.pendingCells_eq_nil_iff hf.toWellFormed hg.toWellFormed, hf.undeleted,
    hg.undeleted]

end Forest
end LinkedRows
