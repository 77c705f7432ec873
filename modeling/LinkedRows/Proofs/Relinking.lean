/-
# Records that are bound to another row

Assigning a link binds the records that are joined through it to the row with the assigned key, one
after the other.  `relinkBelow` does this in one walk over the joins of the record that the link
belongs to, and is what the assignment does (`foldl_rebind`).

What becomes of each join of the forest then is told by `assign_joins`.  All joins are kept or
matched but those which start at one of these records and go through its key: their links have the
new key, and their children still have the old one.
-/

import LinkedRows.Proofs.Unbinding

namespace LinkedRows
namespace Forest

variable {f g h : Forest} {n m : NodeId} {b below next : Branches} {e : EdgeId} {v : Value}

/-! ## Records that are bound to another row -/

/-- The records that some joins lead to through a column. -/
def linkedIn (f : Forest) (d : CellId) (joins : List EdgeId) : List NodeId :=
  (joins.filter fun e => (f.edge e).link == d).map f.childOf

/-- The join starts at one of these records, and its link is the key of that record. -/
def ThroughKey (f : Forest) (records : List NodeId) (e : EdgeId) : Prop :=
  (f.edge e).owner ∈ records ∧ (f.edge e).link = (f.node (f.edge e).owner).key

instance (f : Forest) (records : List NodeId) (e : EdgeId) : Decidable (f.ThroughKey records e) :=
  inferInstanceAs (Decidable (_ ∧ _))

theorem mem_linkedIn {d : CellId} {joins : List EdgeId} :
    m ∈ f.linkedIn d joins ↔ ∃ e ∈ joins, (f.edge e).link = d ∧ f.childOf e = m := by
  simp [linkedIn, and_assoc]

theorem linkedIn_of_sameShape (hs : SameShape f g) (d : CellId) (joins : List EdgeId) :
    g.linkedIn d joins = f.linkedIn d joins := by
  unfold linkedIn
  simp only [hs.edge]
  exact List.map_congr_left fun e _ => hs.childOf e

theorem throughKey_of_sameShape (hs : SameShape f g) {records : List NodeId} :
    g.ThroughKey records e ↔ f.ThroughKey records e := by
  rw [ThroughKey, ThroughKey, hs.edge, hs.key]

/-- Binds the records that the joins at the top lead to through a column to the row with a key. -/
def relinkBelow (d : CellId) (v : Value) : Branches → Forest → Forest
  | .nil, f => f
  | .cons e child below next, f => relinkBelow d v next
    (if (f.edge e).link = d then unbindBelow below (f.rebindNode child v) else f)

/-- Binding these records one after the other goes through the joins at the top. -/
theorem foldl_rebind (hs : SameShape f g) (d : CellId) (edges : List EdgeId) :
    (f.linkedIn d edges).foldl (fun f n => f.rebind n v) g =
      relinkBelow d v (f.hang edges) g := by
  induction edges generalizing g with
  | nil => rfl
  | cons e rest ih =>
    rw [hang, relinkBelow, hs.edge]
    by_cases hlink : (f.edge e).link = d
    · have hlinked : f.linkedIn d (e :: rest) = f.childOf e :: f.linkedIn d rest := by
        simp [linkedIn, hlink]
      have hrebind : g.rebind (f.childOf e) v =
          unbindBelow (f.below (f.childOf e)) (g.rebindNode (f.childOf e) v) := by
        rw [rebind, hs.below]
      rw [hlinked, List.foldl_cons, if_pos hlink, hrebind]
      exact ih (hs.trans (hrebind ▸ sameShape_rebind g _ v))
    · have hlinked : f.linkedIn d (e :: rest) = f.linkedIn d rest := by
        simp [linkedIn, hlink]
      rw [hlinked, if_neg hlink]
      exact ih hs

theorem touches_relinkBelow (d : CellId) (v : Value) (b : Branches) (hf : WellFormed f)
    (hb : f.Hangs n b) : Touches b.preOrder f (relinkBelow d v b f) := by
  induction b generalizing f with
  | nil => exact .refl _ f
  | cons e child below next _ ih =>
    obtain ⟨he, rfl, -, hbelow, hnext⟩ := hb
    rw [relinkBelow]
    split
    · have hfirst := touches_rebound hf (hf.hasChild (hf.hasEdge he)) hbelow v
      have hlater := ih (hf.of_sameShape hfirst.shape) (hfirst.shape.hangs hnext)
      exact (hfirst.mono fun m hm => List.mem_append_left next.preOrder hm).trans
        (hlater.mono fun m hm => List.mem_cons_of_mem _ (List.mem_append_right _ hm))
    · exact (ih hf hnext).mono fun m hm => List.mem_cons_of_mem _ (List.mem_append_right _ hm)

/-- What the walk does that binds the records joined through a column to the row with a key: the
joins through the keys of these records have the key for the value of their links and children with
the keys that they had, all others are kept or matched, and those through the column are matched. -/
structure Relinked (d : CellId) (v : Value) (b : Branches) (f g : Forest) : Prop where
  through_key {e : EdgeId} : e ∈ b.allJoins → v.isNull = false →
    f.ThroughKey (f.linkedIn d b.joins) e → g.linkValue e = v ∧ g.childKey e = f.childKey e
  others {e : EdgeId} : e ∈ b.allJoins →
    (v.isNull = false → ¬f.ThroughKey (f.linkedIn d b.joins) e) →
      Kept f g e ∧ (f.edge e).link ≠ d ∨ Matched g e

section

variable {d : CellId} {child : NodeId} {e' : EdgeId} (hf : WellFormed f)
  (hb : f.Hangs n (.cons e child below next))
  (hnodup : (Branches.cons e child below next).joins.Nodup)
include hf hb

/-- The first join starts at the record that the tree hangs from, which is not joined to itself. -/
theorem not_throughKey_first :
    ¬f.ThroughKey (f.linkedIn d (Branches.cons e child below next).joins) e := by
  rintro ⟨hmem, -⟩
  obtain ⟨e', he', -, hchild⟩ := mem_linkedIn.1 hmem
  have hlt := index_lt_childOf hf (edges_of_joins hb he')
  rw [hchild, hf.owner_of_edge hb.mem] at hlt
  exact Nat.lt_irrefl _ hlt

/-- A join below the first child does not go through a column of the record that the tree hangs
from. -/
theorem link_ne_of_mem_below (hd : (f.cell d).owner = n) (he' : e' ∈ below.allJoins) :
    (f.edge e').link ≠ d := by
  intro hl
  have howner := hf.owner_link (hasEdge_of_mem_allJoins hf hb.deeper he')
  rw [hl, hd] at howner
  have hout := not_mem_of_hangs hf hb
  rw [Branches.mem_preOrder_cons] at hout
  obtain ⟨⟨-, h⟩ | h, -⟩ := mem_of_mem_allJoins hf hb.deeper he'
  · exact hout (Or.inl (howner.trans h))
  · exact hout (Or.inr (Or.inl (howner ▸ h)))

include hnodup

/-- Below the first child, only the joins of the child itself go through the key of a record that
is joined through a column of the record above. -/
theorem throughKey_below (he' : e' ∈ below.allJoins) :
    f.ThroughKey (f.linkedIn d (Branches.cons e child below next).joins) e' ↔
      (f.edge e).link = d ∧ f.ThroughKey [child] e' := by
  rw [ThroughKey, ThroughKey, mem_linkedIn, List.mem_singleton, ← and_assoc]
  refine and_congr_left fun _ => ⟨?_, ?_⟩
  · rintro ⟨e'', he'', hl, hchild⟩
    rcases List.mem_cons.1 he'' with rfl | he''
    · exact ⟨hl, hchild.symm.trans hb.isChild⟩
    · have hmem := childOf_mem_preOrder hb.later he''
      exact absurd (hchild ▸ hmem) (first_not_mem_next hf hb hnodup (Or.inr he')).1
  · rintro ⟨hl, howner⟩
    exact ⟨e, List.mem_cons_self .., hl, hb.isChild.trans howner.symm⟩

/-- The later joins go through the keys of the records that later joins lead to. -/
theorem throughKey_next (he' : e' ∈ next.allJoins) :
    f.ThroughKey (f.linkedIn d (Branches.cons e child below next).joins) e' ↔
      f.ThroughKey (f.linkedIn d next.joins) e' := by
  rw [ThroughKey, ThroughKey, mem_linkedIn, mem_linkedIn]
  refine and_congr_left fun _ => ⟨?_, ?_⟩
  · rintro ⟨e'', he'', hl, hchild⟩
    rcases List.mem_cons.1 he'' with rfl | he''
    · have hmem : (f.edge e').owner ∈ child :: below.preOrder :=
        hchild ▸ hb.isChild ▸ List.mem_cons_self ..
      exact absurd hmem (later_not_mem_first hf hb hnodup he').1
    · exact ⟨e'', he'', hl, hchild⟩
  · rintro ⟨e'', he'', hl, hchild⟩
    exact ⟨e'', List.mem_cons_of_mem _ he'', hl, hchild⟩

end

/-- The walk comes to the first join and what is below it, and then to the later joins. -/
theorem Relinked.cons {d : CellId} {child : NodeId} (hf : WellFormed f)
    (hb : f.Hangs n (.cons e child below next))
    (hnodup : (Branches.cons e child below next).joins.Nodup) (hd : (f.cell d).owner = n)
    (hlink : (f.edge e).link = d → Matched g e) (hkept : (f.edge e).link ≠ d → Kept f g e)
    (hkey : v.isNull = false → (f.edge e).link = d → ∀ e' ∈ below.allJoins,
      f.ThroughKey [child] e' → g.linkValue e' = v ∧ g.childKey e' = f.childKey e')
    (hdeep : ∀ e' ∈ below.allJoins,
      (v.isNull = false → (f.edge e).link = d → ¬f.ThroughKey [child] e') →
        Kept f g e' ∨ Matched g e')
    (hfirst : Touches (child :: below.preOrder) f g) (hnext : Relinked d v next g h)
    (hlater : Touches next.preOrder g h) : Relinked d v (.cons e child below next) f h := by
  have hstays {e' : EdgeId} (he' : e' = e ∨ e' ∈ below.allJoins) : Kept g h e' :=
    first_kept hf hb hnodup hfirst.shape hlater he'
  have hbefore {e' : EdgeId} (he' : e' ∈ next.allJoins) : Kept f g e' :=
    later_kept hf hb hnodup hfirst he'
  have hgoes {e' : EdgeId} (he' : e' = e ∨ e' ∈ below.allJoins) (hne : (f.edge e').link ≠ d)
      (hfg : Kept f g e' ∨ Matched g e') : Kept f h e' ∧ (f.edge e').link ≠ d ∨ Matched h e' :=
    hfg.imp (fun hkept => ⟨hkept.trans (hstays he'), hne⟩) (hstays he').matched_iff.2
  have hthrough {e' : EdgeId} (he' : e' ∈ next.allJoins) :
      g.ThroughKey (g.linkedIn d next.joins) e' ↔
        f.ThroughKey (f.linkedIn d (Branches.cons e child below next).joins) e' := by
    rw [throughKey_of_sameShape hfirst.shape, linkedIn_of_sameShape hfirst.shape,
      throughKey_next hf hb hnodup he']
  refine ⟨fun {e'} he' hv hkeyed => ?_, fun {e'} he' hnot => ?_⟩ <;>
    rw [Branches.mem_allJoins_cons] at he'
  · rcases he' with rfl | he' | he'
    · exact absurd hkeyed (not_throughKey_first hf hb)
    · obtain ⟨hl, hkeyed⟩ := (throughKey_below hf hb hnodup he').1 hkeyed
      obtain ⟨hvalue, hchild⟩ := hkey hv hl e' he' hkeyed
      have hkept := hstays (Or.inr he')
      exact ⟨hkept.1.trans hvalue, hkept.2.trans hchild⟩
    · obtain ⟨hvalue, hchild⟩ := hnext.through_key he' hv ((hthrough he').2 hkeyed)
      exact ⟨hvalue, hchild.trans (hbefore he').2⟩
  · rcases he' with rfl | he' | he'
    · by_cases hl : (f.edge e').link = d
      · exact Or.inr ((hstays (Or.inl rfl)).matched_iff.2 (hlink hl))
      · exact hgoes (Or.inl rfl) hl (Or.inl (hkept hl))
    · exact hgoes (Or.inr he') (link_ne_of_mem_below hf hb hd he') (hdeep e' he' fun hv hl hkeyed =>
        hnot hv ((throughKey_below hf hb hnodup he').2 ⟨hl, hkeyed⟩))
    · have hlater := hnext.others he' fun hv hkeyed => hnot hv ((hthrough he').1 hkeyed)
      refine hlater.imp_left ?_
      rintro ⟨hkept, hne⟩
      exact ⟨(hbefore he').trans hkept, hfirst.shape.edge e' ▸ hne⟩

theorem relinked_relinkBelow {d : CellId} (b : Branches) (hf : Consistent f) (hb : f.Hangs n b)
    (hnodup : b.joins.Nodup) (hd : (f.cell d).owner = n) (hv : (f.cell d).value = v) :
    Relinked d v b f (relinkBelow d v b f) := by
  induction b generalizing f with
  | nil =>
    exact ⟨fun h => absurd h List.not_mem_nil, fun h => absurd h List.not_mem_nil⟩
  | cons e child below next _ ih =>
    have hwf := hf.toWellFormed
    have hnodupNext := (List.nodup_cons.1 hnodup).2
    have hout := not_mem_of_hangs hwf hb
    rw [Branches.preOrder, List.mem_append, not_or] at hout
    obtain ⟨he, rfl, hbelowEq, hbelow, hnext⟩ := hb
    have hhas : f.HasNode (f.childOf e) := hwf.hasChild (hwf.hasEdge he)
    by_cases hl : (f.edge e).link = d
    · have hf₁ := hf.rebindNode (f.childOf e) v
      have hunbound := unbound_unbindBelow below hf₁ ((sameShape_rebindNode f _ v).hangs hbelow)
        (hbelowEq ▸ nodup_joins_below hwf _) (linkValue_rebindNode_of_clean hf hhas hbelow)
      have hfirst := touches_rebound hwf hhas hbelow v
      have hf₂ := hf₁.forgets (forgets_unbindBelow below _)
      have hmatched := matched_rebound hwf (hwf.hasEdge he) hbelow
      rw [linkValue, hl, hv] at hmatched
      have hcell := hfirst.cell (hd ▸ hout.1)
      rw [relinkBelow, if_pos hl]
      refine Relinked.cons hwf ⟨he, rfl, hbelowEq, hbelow, hnext⟩ hnodup hd (fun _ => hmatched)
        (fun hne => absurd hl hne) (fun hnull _ e' he' hthrough => ?_) (fun e' he' hnot => ?_)
        hfirst (ih hf₂ (hfirst.shape.hangs hnext) hnodupNext ((hfirst.shape.owner d).trans hd)
          (by rw [hcell, hv]))
        (touches_relinkBelow d v next hf₂.toWellFormed (hfirst.shape.hangs hnext))
      · have howner := List.mem_singleton.1 hthrough.1
        obtain ⟨⟨htop, -⟩ | hdeep, -⟩ := mem_of_mem_allJoins hwf hbelow he'
        · exact hunbound.through_key hwf hhas hbelow hnull htop (howner ▸ hthrough.2)
        · exact absurd (howner ▸ hdeep) (not_mem_of_hangs hwf hbelow)
      · refine hunbound.joins hwf hhas hbelow he' fun hnull htop hkey => hnot hnull hl ?_
        have howner := hwf.owner_of_edge (edges_of_joins hbelow htop)
        exact ⟨List.mem_singleton.2 howner, howner.symm ▸ hkey⟩
    · rw [relinkBelow, if_neg hl]
      exact Relinked.cons hwf ⟨he, rfl, hbelowEq, hbelow, hnext⟩ hnodup hd
        (fun h => absurd h hl) (fun _ => ⟨rfl, rfl⟩) (fun _ h => absurd h hl)
        (fun _ _ _ => Or.inl ⟨rfl, rfl⟩) (.refl _ f) (ih hf hnext hnodupNext hd hv)
        (touches_relinkBelow d v next hwf hnext)

/-! ## Assigning -/

variable {d : CellId}

/-- An assignment that changes the value of a column binds the records joined through the column,
all in one walk. -/
theorem assign_of_changed (hf : WellFormed f) (h : (f.cell d).value.agrees v = false) :
    f.assign d v =
      relinkBelow d v (f.below (f.cell d).owner) (f.modifyCell d (·.assign v)) := by
  have hs : SameShape f (f.modifyCell d (·.assign v)) := sameShape_modifyCell f d fun _ => rfl
  unfold assign
  dsimp only
  rw [h, below_eq_hang hf, ← foldl_rebind hs]
  rfl

theorem assign_of_unchanged (h : (f.cell d).value.agrees v = true) :
    f.assign d v = f.modifyCell d (·.assign v) := by
  unfold assign
  dsimp only
  rw [h]
  rfl

/-- A record stays as it is unless the value of a column changes that it, or a record above it, is
joined through. -/
theorem node_assign_cases (f : Forest) (d : CellId) (v : Value) (m : NodeId) :
    (f.assign d v).node m = f.node m ∨ (f.cell d).value.agrees v = false ∧
      ∃ n ∈ f.linkedBy d, m = n ∨ m ∈ (f.below n).preOrder := by
  cases hchanged : (f.cell d).value.agrees v with
  | true =>
    rw [assign_of_unchanged hchanged]
    exact Or.inl rfl
  | false =>
    by_cases hmem : ∃ n ∈ f.linkedBy d, m = n ∨ m ∈ (f.below n).preOrder
    · exact Or.inr ⟨rfl, hmem⟩
    refine Or.inl ?_
    have hall (records : List NodeId)
        (hout : ∀ n ∈ records, ¬(m = n ∨ m ∈ (f.below n).preOrder)) (g : Forest)
        (hs : SameShape f g) :
        (records.foldl (fun f n => f.rebind n v) g).node m = g.node m := by
      induction records generalizing g with
      | nil => rfl
      | cons n rest ih =>
        obtain ⟨hn, hrest⟩ := List.forall_mem_cons.1 hout
        rw [not_or] at hn
        rw [List.foldl_cons, ih hrest _ (hs.trans (sameShape_rebind g n v)),
          node_rebind hn.1 (by rw [hs.below]; exact hn.2)]
    unfold assign
    dsimp only
    rw [hchanged]
    exact hall _ (fun n hn h => hmem ⟨n, hn, h⟩) _ (sameShape_modifyCell f d fun _ => rfl)

/-- **What an assignment does to each join.**  Assigning another value to a column that is no key
keeps or matches the joins of the forest, but for those through the key of a record that is joined
through the column and bound to another row: their links have the new key, and their children the
keys that they had. -/
theorem assign_joins (hf : Consistent f) (hd : f.HasCell d) (hk : (f.cell d).isKey = false)
    (hchanged : (f.cell d).value.agrees v = false) (he : f.HasEdge e) :
    (v.isNull = false → f.ThroughKey (f.linkedBy d) e →
      (f.assign d v).linkValue e = v ∧ (f.assign d v).childKey e = f.childKey e) ∧
    ((v.isNull = false → ¬f.ThroughKey (f.linkedBy d) e) →
      Kept f (f.assign d v) e ∨ Matched (f.assign d v) e) := by
  have hwf := hf.toWellFormed
  have hforgets : Forgets f (f.modifyCell d (·.assign v)) :=
    forgets_modifyCell f d (fun _ => rfl) fun _ => Or.inl rfl
  have hs := hforgets.shape
  have hg := hf.forgets hforgets
  have hb := hs.hangs (hangs_below hwf (f.cell d).owner)
  have hrelinked := relinked_relinkBelow (f.below (f.cell d).owner) hg hb
    (nodup_joins_below hwf _) (hs.owner d) (congrArg Cell.value (cell_modifyCell_self f hd _))
  have hchild : (f.modifyCell d (·.assign v)).childKey e = f.childKey e := by
    rw [childKey, childKey, edge_modifyCell, node_modifyCell]
    exact cell_key_assignCell hwf hk (hwf.hasChild he) v
  have hfirst (hne : (f.edge e).link ≠ d) : Kept f (f.modifyCell d (·.assign v)) e := by
    refine ⟨?_, hchild⟩
    rw [linkValue, linkValue, edge_modifyCell, cell_modifyCell_of_ne f hne]
  have hlinked : (f.modifyCell d (·.assign v)).linkedIn d (f.below (f.cell d).owner).joins =
      f.linkedBy d := by
    rw [linkedIn_of_sameShape hs, joins_below hwf]
    rfl
  rw [assign_of_changed hwf hchanged]
  by_cases hmem : e ∈ (f.below (f.cell d).owner).allJoins
  · refine ⟨fun hnull hthrough => ?_, fun hnot => ?_⟩
    · obtain ⟨hvalue, hkept⟩ := hrelinked.through_key hmem hnull
        (hlinked ▸ (throughKey_of_sameShape hs).2 hthrough)
      exact ⟨hvalue, hkept.trans hchild⟩
    · refine (hrelinked.others hmem fun hnull hthrough => hnot hnull ?_).imp_left fun h =>
        (hfirst h.2).trans h.1
      exact (throughKey_of_sameShape hs).1 (hlinked ▸ hthrough)
  · -- The join neither starts at the record of the column or below it, nor leads there.
    have hbelow := hangs_below hwf (f.cell d).owner
    have hchildOut : f.childOf e ∉ (f.below (f.cell d).owner).preOrder := fun h =>
      hmem (mem_allJoins hwf hbelow he h)
    have hdeep : (f.edge e).owner ∉ (f.below (f.cell d).owner).preOrder := fun h =>
      hchildOut (childOf_mem_of_mem hwf hbelow h (hwf.mem_edges he))
    have howner : (f.edge e).owner ≠ (f.cell d).owner := fun h =>
      hchildOut (childOf_mem_below hwf (h ▸ hwf.mem_edges he))
    have hkept := (touches_relinkBelow d v _ hg.toWellFormed hb).kept hg.toWellFormed
      ((hs.hasEdge e).2 he) (by rwa [hs.edge]) (by rwa [hs.childOf])
    refine ⟨fun _ hthrough => ?_, fun _ => Or.inl ((hfirst fun hl => howner ?_).trans hkept)⟩
    · obtain ⟨e', he', -, hchild'⟩ := mem_linkedIn.1 hthrough.1
      exact absurd (hchild' ▸ childOf_mem_below hwf he') hdeep
    · rw [← hl, hwf.owner_link he]

end Forest
end LinkedRows
