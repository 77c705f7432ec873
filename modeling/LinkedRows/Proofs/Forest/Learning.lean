/-
# What reading makes known

Reading changes a forest in three ways: clean columns of a record take values from storage, a new
child takes the key that its link holds, and a record is marked as current or not.  `Learns` is any
number of these steps.  Each of them is steady, and what one step keeps, reading keeps.

A forest is untouched when it is intact and no column but keys is assigned, and when a record that
is joined through the key of another one has a row only if that one has (`Untouched`).  Forests in
which nothing was assigned are untouched, and reading keeps them so.
-/

import LinkedRows.Proofs.Forest.Intact

namespace LinkedRows
namespace Forest

/-- The steps of reading. -/
inductive Learns (f : Forest) : Forest → Prop
  | refl : Learns f f
  | load {g : Forest} {n : NodeId} {cells : List CellId} (values : List Value) : Learns f g →
      (∀ c ∈ cells, c ∈ (g.node n).cells ∧ (g.cell c).isKey = false ∧
        (g.cell c).isDirty = false) → Learns f (g.load cells values)
  | seed {g : Forest} {e : EdgeId} : Learns f g → g.HasEdge e → Learns f (g.seedChild e)
  | setCurrent {g : Forest} (n : NodeId) (current : Bool) : Learns f g →
      Learns f (g.setCurrent n current)

variable {f g h : Forest}

theorem Learns.trans (hfg : Learns f g) (hgh : Learns g h) : Learns f h := by
  induction hgh with
  | refl => exact hfg
  | load values _ hcells ih => exact ih.load values hcells
  | seed _ he ih => exact ih.seed he
  | setCurrent n current _ ih => exact ih.setCurrent n current

theorem Learns.steady (h : Learns f g) : Steady f g := by
  induction h with
  | refl => exact Steady.refl f
  | load values _ hcells ih => exact ih.trans (steady_load _ values fun c hc => (hcells c hc).2.1)
  | seed _ _ ih => exact ih.trans (steady_seedChild _ _)
  | setCurrent n current _ ih => exact ih.trans (steady_setCurrent _ n current)

/-- Reading assigns no columns but keys. -/
theorem Learns.assigned (h : Learns f g) (hf : WellFormed f) {c : CellId}
    (hk : (f.cell c).isKey = false) : (g.cell c).assigned = (f.cell c).assigned := by
  induction h with
  | refl => rfl
  | @load g n cells values _ _ ih =>
    rw [← ih]
    rcases cell_load g cells values c with h | ⟨-, v, h⟩ <;> rw [h]
    rfl
  | @seed g e hg he ih =>
    have hs := hg.steady
    rw [cell_seedChild_of_ne, ih]
    rintro rfl
    rw [← hs.shape.isKey, isKey_key (hs.wellFormed hf) ((hs.wellFormed hf).hasChild he)] at hk
    exact Bool.false_ne_true hk.symm
  | setCurrent n current _ ih => exact ih

/-- Reading leaves assigned columns as they are. -/
theorem Learns.cell_of_dirty (h : Learns f g) {c : CellId} (hc : (f.cell c).isDirty = true) :
    g.cell c = f.cell c := by
  induction h with
  | refl => rfl
  | @load g n cells values _ hcells ih =>
    rcases cell_load g cells values c with h | ⟨hmem, -⟩
    · rw [h, ih]
    · have hclean := (hcells c hmem).2.2
      rw [ih, hc] at hclean
      cases hclean
  | @seed g e _ he ih =>
    by_cases hkey : c = (g.node (g.edge e).child).key
    · -- The child of an assigned key is not new.
      rw [seedChild_of_bound, ih]
      rw [isNew, ← hkey, ih, hc]
      rfl
    · rw [cell_seedChild_of_ne hkey, ih]
  | setCurrent _ _ _ ih => exact ih

/-- Reading gives no other key to a record that has one. -/
theorem Learns.keyValue (h : Learns f g) (hf : WellFormed f) {n : NodeId} (hn : f.HasNode n)
    (hbound : f.isNew n = false) : g.keyValue n = f.keyValue n := by
  induction h with
  | refl => rfl
  | @load g m cells values hg hcells ih =>
    have hn := (hg.steady.shape.hasNode n).2 hn
    rw [← ih, Forest.keyValue, Forest.keyValue, node_load]
    rcases cell_load g cells values (g.node n).key with h | ⟨hmem, -⟩
    · rw [h]
    · exact absurd ((hcells _ hmem).2.1.symm.trans (isKey_key (hg.steady.wellFormed hf) hn))
        Bool.false_ne_true
  | @seed g e hg he ih =>
    have hwf := hg.steady.wellFormed hf
    rw [← ih]
    by_cases hchild : n = (g.edge e).child
    · rw [seedChild_of_bound (hchild ▸ hg.steady.isNew hf hn hbound)]
    · exact (reaches_seedChild hwf he).keyValue hwf ((hg.steady.shape.hasNode n).2 hn)
        (by simpa using hchild)
  | @setCurrent g m current _ ih =>
    rw [← ih, Forest.keyValue, Forest.keyValue, (sameShape_setCurrent g m current).key]
    rfl

/-- What reads columns of a record with a row is not changed by reading. -/
theorem Learns.selection (h : Learns f g) (hf : WellFormed f) {n : NodeId} (hn : f.HasNode n)
    (hbound : f.isNew n = false) (cells : List CellId) :
    g.selection n cells = f.selection n cells := by
  have hs := h.steady.shape
  simp only [Forest.selection, rowKey, hs.table, hs.name, hs.keyName, h.keyValue hf hn hbound]

/-! ## Untouched forests -/

/-- Nothing but keys is assigned, and no record has a row through the key of one that has none. -/
structure Untouched (f : Forest) : Prop extends Intact f where
  clean {c} : (f.cell c).isKey = false → (f.cell c).isDirty = false
  ownerBound {e} : f.HasEdge e → (f.cell (f.edge e).link).isKey = true →
    f.isNew (f.edge e).child = false → f.isNew (f.edge e).owner = false

namespace Untouched

theorem pendingCells_eq_nil (hf : Untouched f) (n : NodeId) : f.pendingCells n = [] := by
  refine List.filter_eq_nil_iff.2 fun c _ => ?_
  cases hk : (f.cell c).isKey with
  | true => simp
  | false => simp [hf.clean hk]

/-- The key of the owner of a join, where the join goes through that key. -/
theorem link_eq_key (hf : WellFormed f) {e : EdgeId} (he : f.HasEdge e)
    (hk : (f.cell (f.edge e).link).isKey = true) :
    (f.node (f.edge e).owner).key = (f.edge e).link := (hf.isKey_of_mem (hf.link_mem he)).1 hk

/-- A key that links to a row is the key of a record with a row. -/
theorem ownerBound_of_value (hf : Intact f) {e : EdgeId} (he : f.HasEdge e)
    (hk : (f.cell (f.edge e).link).isKey = true)
    (hv : (f.cell (f.edge e).link).value ≠ .null) : f.isNew (f.edge e).owner = false := by
  refine isNew_of_keyValue hf.toWellFormed hf.unstored (hf.hasEdgeOwner he) ?_
  rwa [keyValue, link_eq_key hf.toWellFormed he hk]

theorem addRoot_empty (table keyName : String) (key : Value) :
    Untouched (Forest.empty.addRoot table keyName key).2 where
  toIntact := Intact.empty.addRoot table keyName key
  clean {c} hk := by
    rw [Forest.addRoot, cell_addNode] at hk ⊢
    split at hk
    · exact absurd hk (by simp [newKey])
    · rw [if_neg ‹_›]
      rfl
  ownerBound he := absurd he (Nat.not_lt_zero _)

theorem withCell (hf : Untouched f) {n : NodeId} {name : String} (hn : f.HasNode n)
    (hname : f.findCell? n name = none) : Untouched (f.withCell n name) where
  toIntact := hf.toIntact.withCell hn hname
  clean {c} hk := by
    rw [cell_withCell] at hk ⊢
    split at hk
    · rw [if_pos ‹_›]
      rfl
    · rw [if_neg ‹_›]
      exact hf.clean hk
  ownerBound {e} he hk hchild := by
    have hx := extends_withCell name hn
    have he : f.HasEdge e := he
    rw [hx.edge he] at hk hchild ⊢
    rw [hx.cell (hf.hasLink he)] at hk
    rw [hx.isNew hf.toWellFormed (hf.hasChild he)] at hchild
    rw [hx.isNew hf.toWellFormed (hf.hasEdgeOwner he)]
    exact hf.ownerBound he hk hchild

theorem withJoin (hf : Untouched f) {link : CellId} {table key : String} (hl : f.HasCell link)
    (hlabel : f.findEdge? (f.cell link).owner ⟨table, key, (f.cell link).name⟩ = none) :
    Untouched (f.withJoin link table key) where
  toIntact := hf.toIntact.withJoin hl hlabel
  clean {c} hk := by
    rw [cell_withJoin] at hk ⊢
    split at hk
    · exact absurd hk (by simp [newKey])
    · rw [if_neg ‹_›]
      exact hf.clean hk
  ownerBound {e} he hk hchild := by
    have ho := hf.hasOwner hl
    have hx : Extends f (f.withJoin link table key) := extends_withJoin ho
    rcases (hasEdge_withJoin e).1 he with he | rfl
    · rw [hx.edge he] at hk hchild ⊢
      rw [hx.cell (hf.hasLink he)] at hk
      rw [hx.isNew hf.toWellFormed (hf.hasChild he)] at hchild
      rw [hx.isNew hf.toWellFormed (hf.hasEdgeOwner he)]
      exact hf.ownerBound he hk hchild
    · rw [edge_newJoin, newEdge] at hk hchild ⊢
      rw [hx.cell hl] at hk
      rw [hx.isNew hf.toWellFormed ho]
      refine isNew_of_keyValue hf.toWellFormed hf.unstored ho ?_
      rw [keyValue, (hf.isKey_iff hl).1 hk]
      -- The child takes its key from the link, so a null link leaves the child new.
      intro hnull
      have hnew : (f.withJoin link table key).isNew ⟨f.nodes.length⟩ = true := by
        rw [isNew_newChild ho, hnull]
        rfl
      exact Bool.false_ne_true (hchild.symm.trans hnew)

theorem grows (hf : Untouched f) (hg : Grows f g) : Untouched g := by
  induction hg with
  | refl => exact hf
  | cell _ hn hname ih => exact ih.withCell hn hname
  | join _ hl hlabel ih => exact ih.withJoin hl hlabel

/-- A steady change that assigns only keys, each to a record whose owner has a row if the link is
its key, leaves a forest untouched. -/
theorem of_steady (hf : Untouched f) (hs : Steady f g)
    (hclean : ∀ c, (f.cell c).isKey = false → (g.cell c).isDirty = (f.cell c).isDirty)
    (hbound : ∀ e, f.HasEdge e → (f.cell (f.edge e).link).isKey = true →
      f.isNew (f.edge e).child = true → g.isNew (f.edge e).child = false →
        f.isNew (f.edge e).owner = false) : Untouched g where
  toIntact := hf.toIntact.steady hs
  clean {c} hk := by
    have hk := (hs.shape.isKey c).symm.trans hk
    rw [hclean c hk, hf.clean hk]
  ownerBound {e} he hk hchild := by
    have he := (hs.shape.hasEdge e).1 he
    rw [hs.shape.edge, hs.shape.isKey] at hk
    rw [hs.shape.edge] at hchild ⊢
    refine hs.isNew hf.toWellFormed (hf.hasEdgeOwner he) ?_
    cases hnew : f.isNew (f.edge e).child with
    | false => exact hf.ownerBound he hk hnew
    | true => exact hbound e he hk hnew hchild

theorem load (hf : Untouched f) {cells : List CellId} (values : List Value)
    (hcells : ∀ c ∈ cells, (f.cell c).isKey = false) : Untouched (f.load cells values) := by
  refine hf.of_steady (steady_load f values hcells) (fun c _ => ?_) fun e he _ hnew hbound => ?_
  · rcases cell_load f cells values c with h | ⟨-, v, h⟩ <;> rw [h]
    rfl
  · have hkey := isKey_key hf.toWellFormed (hf.hasChild he)
    rw [isNew, node_load] at hbound
    rcases cell_load f cells values (f.node (f.edge e).child).key with h | ⟨hmem, -⟩
    · rw [h] at hbound
      exact absurd (hnew.symm.trans hbound) (by decide)
    · rw [hcells _ hmem] at hkey
      exact absurd hkey Bool.false_ne_true

theorem seedChild (hf : Untouched f) {e : EdgeId} (he : f.HasEdge e) :
    Untouched (f.seedChild e) := by
  have hreach := reaches_seedChild hf.toWellFormed he
  refine hf.of_steady hreach.toSteady (fun c hk => ?_) fun e' he' hk hnew hbound => ?_
  · rw [cell_seedChild_of_ne]
    rintro rfl
    rw [isKey_key hf.toWellFormed (hf.hasChild he)] at hk
    exact Bool.false_ne_true hk.symm
  · -- Only the child of this very join can have become bound.
    by_cases hchild : (f.edge e').child = (f.edge e).child
    · obtain rfl := hf.edge_unique he' he hchild
      refine ownerBound_of_value hf.toIntact he' hk fun hnull => ?_
      unfold Forest.seedChild at hbound
      dsimp only at hbound
      rw [hnull] at hbound
      simp only [Value.isNull, Bool.not_true, Bool.and_false, Bool.false_eq_true,
        if_false] at hbound
      exact absurd (hnew.symm.trans hbound) (by decide)
    · rw [hreach.isNew hf.toWellFormed (hf.hasChild he') (by simpa using hchild)] at hbound
      exact absurd (hnew.symm.trans hbound) (by decide)

/-- Reading leaves a forest untouched. -/
theorem learns (hf : Untouched f) (h : Learns f g) : Untouched g := by
  induction h with
  | refl => exact hf
  | load values _ hcells ih => exact ih.load values fun c hc => (hcells c hc).2.1
  | seed _ he ih => exact ih.seedChild he
  | setCurrent n current _ ih =>
    refine ih.of_steady (steady_setCurrent _ n current) (fun _ _ => rfl) fun e _ _ hnew hb => ?_
    rw [isNew, (sameShape_setCurrent _ n current).key] at hb
    exact absurd (hnew.symm.trans hb) (by decide)

end Untouched
end Forest
end LinkedRows
