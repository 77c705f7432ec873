/-
# Intact forests

A forest is intact when it is well formed, no record of it was deleted, and storage is not known to
hold any key: a key column holds nothing but what was assigned to it.  Forests are intact from their
first record on; growing them and assigning columns keeps them so, and so does every steady change.

`Built` are the forests that come about by growing and assigning alone.
-/

import LinkedRows.Proofs.Forest.Registration
import LinkedRows.Proofs.Forest.Steady

namespace LinkedRows
namespace Forest

/-- Nothing is deleted, and keys hold what was assigned. -/
structure Intact (f : Forest) : Prop extends WellFormed f where
  unstored : KeysUnstored f
  undeleted (n) : (f.node n).deleted = false

namespace Intact

variable {f g : Forest}

theorem empty : Intact Forest.empty where
  toWellFormed := WellFormed.empty
  unstored _ h := absurd h Bool.false_ne_true
  undeleted _ := rfl

theorem steady (hf : Intact f) (hs : Steady f g) : Intact g where
  toWellFormed := hs.wellFormed hf.toWellFormed
  unstored := hs.keysUnstored hf.unstored
  undeleted n := by rw [hs.deleted, hf.undeleted]

theorem addRoot (hf : Intact f) (table keyName : String) (key : Value) :
    Intact (f.addRoot table keyName key).2 where
  toWellFormed := hf.toWellFormed.addRoot table keyName key
  unstored c := by
    rw [Forest.addRoot, cell_addNode]
    split
    · exact fun _ => rfl
    · exact hf.unstored c
  undeleted n := by
    rw [Forest.addRoot, node_addNode]
    split
    · rfl
    · exact hf.undeleted n

theorem withCell (hf : Intact f) {n : NodeId} {name : String} (hn : f.HasNode n)
    (hname : f.findCell? n name = none) : Intact (f.withCell n name) where
  toWellFormed := hf.toWellFormed.withCell hn hname
  unstored c := by
    rw [cell_withCell]
    split
    · exact fun _ => rfl
    · exact hf.unstored c
  undeleted m := by
    rw [node_withCell hn]
    split <;> simp [hf.undeleted]

theorem withJoin (hf : Intact f) {link : CellId} {table key : String} (hl : f.HasCell link)
    (hlabel : f.findEdge? (f.cell link).owner ⟨table, key, (f.cell link).name⟩ = none) :
    Intact (f.withJoin link table key) where
  toWellFormed := hf.toWellFormed.withJoin hl hlabel
  unstored c := by
    rw [cell_withJoin]
    split
    · exact fun _ => rfl
    · exact hf.unstored c
  undeleted m := by
    rw [node_withJoin (hf.hasOwner hl)]
    split
    · rfl
    · split <;> simp [hf.undeleted]

theorem grows (hf : Intact f) (hg : Grows f g) : Intact g := by
  induction hg with
  | refl => exact hf
  | cell _ hn hname ih => exact ih.withCell hn hname
  | join _ hl hlabel ih => exact ih.withJoin hl hlabel

end Intact

/-! ## Assigning -/

/-- From the first forest to the second, storage is known to hold what it was, or nothing, and no
record was deleted. -/
structure Forgets (f g : Forest) : Prop where
  shape : SameShape f g
  stored (c) : (g.cell c).stored = (f.cell c).stored ∨ (g.cell c).stored = .null
  deleted (n) : (g.node n).deleted = true → (f.node n).deleted = true

variable {f g h : Forest}

theorem Forgets.refl (f : Forest) : Forgets f f := ⟨rfl, fun _ => Or.inl rfl, fun _ => id⟩

theorem Forgets.trans (hf : Forgets f g) (hg : Forgets g h) : Forgets f h where
  shape := hf.shape.trans hg.shape
  stored c := by
    rcases hg.stored c with hc | hc
    · rw [hc]
      exact hf.stored c
    · exact Or.inr hc
  deleted n hn := hf.deleted n (hg.deleted n hn)

theorem forgets_modifyCell (f : Forest) (c : CellId) {change : Cell → Cell}
    (hshape : ∀ cell, (change cell).shape = cell.shape)
    (hstored : ∀ cell, (change cell).stored = cell.stored ∨ (change cell).stored = .null) :
    Forgets f (f.modifyCell c change) where
  shape := sameShape_modifyCell f c hshape
  stored d := by
    rw [cell_modifyCell]
    split
    · rename_i hd
      rw [hd.1]
      exact hstored _
    · exact Or.inl rfl
  deleted _ := id

theorem forgets_foldl {α : Type} {step : Forest → α → Forest}
    (hstep : ∀ f a, Forgets f (step f a)) (f : Forest) (l : List α) :
    Forgets f (l.foldl step f) := by
  induction l generalizing f with
  | nil => exact Forgets.refl f
  | cons a rest ih => exact (hstep f a).trans (ih (step f a))

theorem forgets_rebindNode (f : Forest) (n : NodeId) (key : Value) :
    Forgets f (f.rebindNode n key) := by
  unfold rebindNode
  dsimp only
  refine Forgets.trans (g := f.modifyNode n fun node =>
    { node with current := false, deleted := false }) ?_ (Forgets.trans ?_ (forgets_foldl ?_ _ _))
  · refine ⟨sameShape_modifyNode f n fun _ => rfl, fun _ => Or.inl rfl, fun m hm => ?_⟩
    rw [node_modifyNode] at hm
    split at hm
    · exact absurd hm Bool.false_ne_true
    · exact hm
  · refine forgets_modifyCell _ _ (fun cell => ?_) fun cell => ?_
    · split <;> rfl
    · split <;> exact Or.inl rfl
  · exact fun f c => forgets_modifyCell f c (fun _ => rfl) fun _ => Or.inr rfl

theorem forgets_unbindBelow : ∀ (b : Branches) (f : Forest), Forgets f (unbindBelow b f)
  | .nil, f => Forgets.refl f
  | .cons e child below next, f => by
    rw [unbindBelow]
    refine Forgets.trans ?_ (forgets_unbindBelow next _)
    split
    · exact Forgets.refl f
    · exact (forgets_rebindNode f child .null).trans (forgets_unbindBelow below _)

theorem forgets_assign (f : Forest) (c : CellId) (v : Value) : Forgets f (f.assign c v) := by
  have h : Forgets f (f.modifyCell c (·.assign v)) :=
    forgets_modifyCell f c (fun _ => rfl) fun _ => Or.inl rfl
  unfold assign
  dsimp only
  split
  · refine h.trans (forgets_foldl (fun f n => ?_) _ _)
    exact (forgets_rebindNode f n v).trans (forgets_unbindBelow _ _)
  · exact h

theorem Intact.forgets (hf : Intact f) (hg : Forgets f g) : Intact g where
  toWellFormed := hf.toWellFormed.of_sameShape hg.shape
  unstored d hd := by
    rcases hg.stored d with h | h
    · rw [h, hf.unstored d ((hg.shape.isKey d).symm.trans hd)]
    · exact h
  undeleted n := by
    by_contra hn
    rw [Bool.not_eq_false] at hn
    exact Bool.false_ne_true ((hf.undeleted n).symm.trans (hg.deleted n hn))

theorem Intact.assign (hf : Intact f) (c : CellId) (v : Value) : Intact (f.assign c v) :=
  hf.forgets (forgets_assign f c v)

/-! ## Building forests -/

/-- The forests that adding records, registering paths and assigning columns lead to. -/
inductive Built : Forest → Prop
  | empty : Built Forest.empty
  | addRoot {f : Forest} (table keyName : String) (key : Value) :
      Built f → Built (f.addRoot table keyName key).2
  | registerColumn {f : Forest} {n : NodeId} (p : Path) : Built f → f.HasNode n →
      Built ((registerColumn n p).perform f).2
  | registerTable {f : Forest} {n : NodeId} (p : Path) : Built f → f.HasNode n →
      Built ((registerTable n p).perform f).2
  | assign {f : Forest} {c : CellId} (v : Value) : Built f → f.HasCell c → Built (f.assign c v)

theorem Built.intact (hf : Built f) : Intact f := by
  induction hf with
  | empty => exact Intact.empty
  | addRoot table keyName key _ ih => exact ih.addRoot table keyName key
  | registerColumn p _ hn ih => exact ih.grows (registerColumn_spec ih.toWellFormed p hn).1
  | registerTable p _ hn ih => exact ih.grows (grows_registerTable ih.toWellFormed p hn)
  | assign v _ _ ih => exact ih.assign _ v

end Forest
end LinkedRows
