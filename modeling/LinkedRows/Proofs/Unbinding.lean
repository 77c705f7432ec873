/-
# Records that lose their rows

Binding a record to another row forgets what was read of it, and what hangs on a column that is
forgotten thereby loses its row too.  This is told join by join here.  A join is `Kept` if neither
the value of its link nor the key of its child changed, and `Matched` if its child has the value of
the link for its key, or is new because the link is null.

Below a record that becomes new, the joins with assigned links are kept, the other ones are matched,
and further down each join is one or the other (`unbound_unbindBelow`).  Below a record that gets
another row this holds of all joins but those through its key (`Unbound.joins`,
`Unbound.through_key`): an assigned key is passed over like any other assigned link.
-/

import LinkedRows.Proofs.Forest.Changes
import LinkedRows.Proofs.Forest.Rebinding
import LinkedRows.Proofs.Reachable

namespace LinkedRows
namespace Forest

variable {f g h : Forest} {n m : NodeId} {b below next : Branches} {e : EdgeId} {v : Value}

/-! ## Frames -/

/-- From the first forest to the second, of one shape, no columns changed but those of some
records. -/
structure Touches (records : List NodeId) (f g : Forest) : Prop where
  shape : SameShape f g
  cell {d} : (f.cell d).owner ∉ records → g.cell d = f.cell d

namespace Touches

variable {records others : List NodeId}

theorem refl (records : List NodeId) (f : Forest) : Touches records f f :=
  ⟨SameShape.refl f, fun _ => rfl⟩

theorem trans (hr : Touches records f g) (hs : Touches records g h) : Touches records f h where
  shape := hr.shape.trans hs.shape
  cell hd := by rw [hs.cell (by rwa [hr.shape.owner]), hr.cell hd]

theorem mono (hr : Touches records f g) (hsub : ∀ n ∈ records, n ∈ others) : Touches others f g :=
  ⟨hr.shape, fun hd => hr.cell fun hmem => hd (hsub _ hmem)⟩

end Touches

theorem touches_rebindNode (hf : WellFormed f) (hn : f.HasNode n) (key : Value) :
    Touches [n] f (f.rebindNode n key) where
  shape := sameShape_rebindNode f n key
  cell hd := cell_rebindNode_of_owner_ne hf hn (by simpa using hd)

theorem touches_unbindBelow (b : Branches) (hf : WellFormed f) (hb : f.Hangs n b) :
    Touches b.preOrder f (unbindBelow b f) := by
  induction b generalizing f n with
  | nil => exact .refl _ f
  | cons e child below next ihBelow ihNext =>
    obtain ⟨he, rfl, -, hbelow, hnext⟩ := hb
    have hsub : ∀ m, m = f.childOf e ∨ m ∈ below.preOrder ∨ m ∈ next.preOrder →
        m ∈ (Branches.cons e (f.childOf e) below next).preOrder := fun m hm =>
      List.mem_cons.2 (hm.imp_right List.mem_append.2)
    rw [unbindBelow]
    split
    · exact (ihNext hf hnext).mono fun m hm => hsub m (Or.inr (Or.inr hm))
    · have hnode := touches_rebindNode hf (hf.hasChild (hf.hasEdge he)) .null
      have hdeep := ihBelow (hf.of_sameShape hnode.shape) (hnode.shape.hangs hbelow)
      have hs := hnode.shape.trans hdeep.shape
      have hlater := ihNext (hf.of_sameShape hs) (hs.hangs hnext)
      refine ((hnode.mono fun m hm => ?_).trans (hdeep.mono fun m hm => ?_)).trans
        (hlater.mono fun m hm => ?_)
      · exact hsub m (Or.inl (List.mem_singleton.1 hm))
      · exact hsub m (Or.inr (Or.inl hm))
      · exact hsub m (Or.inr (Or.inr hm))

/-- Binding a record to another row reaches it and what is below it. -/
theorem touches_rebound (hf : WellFormed f) (hn : f.HasNode n) (hb : f.Hangs n b) (v : Value) :
    Touches (n :: b.preOrder) f (unbindBelow b (f.rebindNode n v)) := by
  have hnode := touches_rebindNode hf hn v
  have hdeep := touches_unbindBelow b (hf.of_sameShape hnode.shape) (hnode.shape.hangs hb)
  exact (hnode.mono (by simp)).trans (hdeep.mono fun m hm => List.mem_cons_of_mem _ hm)

/-- Records that are not below the joins stay as they are. -/
theorem node_unbindBelow (b : Branches) (f : Forest) (hm : m ∉ b.preOrder) :
    (unbindBelow b f).node m = f.node m := by
  induction b generalizing f with
  | nil => rfl
  | cons e child below next ihBelow ihNext =>
    rw [Branches.mem_preOrder_cons, not_or, not_or] at hm
    obtain ⟨hchild, hbelow, hnext⟩ := hm
    rw [unbindBelow, ihNext _ hnext]
    split
    · rfl
    · rw [ihBelow _ hbelow, node_rebindNode, if_neg fun h => hchild h.1]

theorem sameShape_rebind (f : Forest) (n : NodeId) (key : Value) :
    SameShape f (f.rebind n key) :=
  (sameShape_rebindNode f n key).trans (sameShape_unbindBelow _ _)

theorem node_rebind (hne : m ≠ n) (hm : m ∉ (f.below n).preOrder) (key : Value) :
    (f.rebind n key).node m = f.node m := by
  rw [rebind, node_unbindBelow _ _ hm, node_rebindNode, if_neg fun h => hne h.1]

/-! ## Joins -/

/-- The value of the link of a join. -/
def linkValue (f : Forest) (e : EdgeId) : Value := (f.cell (f.edge e).link).value

/-- The key column of the child of a join. -/
def childKey (f : Forest) (e : EdgeId) : Cell := f.cell (f.node (f.edge e).child).key

/-- Neither the value of the link nor the key of the child changed. -/
def Kept (f g : Forest) (e : EdgeId) : Prop :=
  g.linkValue e = f.linkValue e ∧ g.childKey e = f.childKey e

/-- The child has the value of the link for its key, and none if that is null. -/
def Matched (f : Forest) (e : EdgeId) : Prop :=
  (f.childKey e).assigned = if (f.linkValue e).isNull then none else some (f.linkValue e)

theorem Kept.trans (hfg : Kept f g e) (hgh : Kept g h e) : Kept f h e :=
  ⟨hgh.1.trans hfg.1, hgh.2.trans hfg.2⟩

/-- A join that is kept is as matched as it was. -/
theorem Kept.matched_iff (hk : Kept f g e) : Matched g e ↔ Matched f e := by
  rw [Matched, Matched, hk.1, hk.2]

/-- The joins that are there before a forest grows are kept. -/
theorem Extends.kept (hx : Extends f g) (hf : WellFormed f) (he : f.HasEdge e) : Kept f g e := by
  have hchild := hf.hasChild he
  refine ⟨?_, ?_⟩
  · rw [linkValue, linkValue, hx.edge he, hx.cell (hf.hasLink he)]
  · rw [childKey, childKey, hx.edge he, hx.key hchild, hx.cell (hf.hasCell_key hchild)]

namespace Touches

variable {records : List NodeId}

theorem linkValue (ht : Touches records f g) (hf : WellFormed f) (he : f.HasEdge e)
    (howner : (f.edge e).owner ∉ records) : g.linkValue e = f.linkValue e := by
  rw [Forest.linkValue, Forest.linkValue, ht.shape.edge,
    ht.cell (by rwa [hf.owner_link he])]

theorem childKey (ht : Touches records f g) (hf : WellFormed f) (he : f.HasEdge e)
    (hchild : f.childOf e ∉ records) : g.childKey e = f.childKey e := by
  rw [Forest.childKey, Forest.childKey, ht.shape.edge, ht.shape.key,
    ht.cell (by rwa [hf.owner_key (hf.hasChild he)])]

/-- Joins between other records are kept. -/
theorem kept (ht : Touches records f g) (hf : WellFormed f) (he : f.HasEdge e)
    (howner : (f.edge e).owner ∉ records) (hchild : f.childOf e ∉ records) : Kept f g e :=
  ⟨ht.linkValue hf he howner, ht.childKey hf he hchild⟩

end Touches

/-- The owner of a join in the tree is the record that the tree hangs from or in the tree, and its
child is in the tree. -/
theorem mem_of_mem_allJoins (hf : WellFormed f) (hb : f.Hangs n b) (he : e ∈ b.allJoins) :
    (e ∈ b.joins ∧ (f.edge e).owner = n ∨ (f.edge e).owner ∈ b.preOrder) ∧
      f.childOf e ∈ b.preOrder := by
  induction b generalizing n with
  | nil => exact absurd he List.not_mem_nil
  | cons e' child below next ihBelow ihNext =>
    obtain ⟨he', rfl, hbelowEq, hbelow, hnext⟩ := hb
    rw [Branches.mem_allJoins_cons] at he
    rw [Branches.joins, List.mem_cons, Branches.mem_preOrder_cons, Branches.mem_preOrder_cons]
    rcases he with rfl | he | he
    · exact ⟨Or.inl ⟨Or.inl rfl, hf.owner_of_edge he'⟩, Or.inl rfl⟩
    · obtain ⟨⟨-, howner⟩ | howner, hchild⟩ := ihBelow hbelow he
      · exact ⟨Or.inr (Or.inl howner), Or.inr (Or.inl hchild)⟩
      · exact ⟨Or.inr (Or.inr (Or.inl howner)), Or.inr (Or.inl hchild)⟩
    · obtain ⟨⟨hjoin, howner⟩ | howner, hchild⟩ := ihNext hnext he
      · exact ⟨Or.inl ⟨Or.inr hjoin, howner⟩, Or.inr (Or.inr hchild)⟩
      · exact ⟨Or.inr (Or.inr (Or.inr howner)), Or.inr (Or.inr hchild)⟩

theorem mem_allJoins_of_joins (he : e ∈ b.joins) : e ∈ b.allJoins := by
  induction b with
  | nil => exact he
  | cons e' child below next _ ih =>
    rw [Branches.mem_allJoins_cons]
    exact (List.mem_cons.1 he).imp_right fun he => Or.inr (ih he)

/-- A join that leads into the tree is a join of the tree. -/
theorem mem_allJoins (hf : WellFormed f) (hb : f.Hangs n b) (he : f.HasEdge e)
    (hchild : f.childOf e ∈ b.preOrder) : e ∈ b.allJoins := by
  induction b generalizing n with
  | nil => exact absurd hchild List.not_mem_nil
  | cons e' child below next ihBelow ihNext =>
    obtain ⟨he', rfl, -, hbelow, hnext⟩ := hb
    rw [Branches.mem_preOrder_cons] at hchild
    rw [Branches.mem_allJoins_cons]
    rcases hchild with hchild | hchild | hchild
    · exact Or.inl (hf.edge_unique he (hf.hasEdge he') hchild)
    · exact Or.inr (Or.inl (ihBelow hbelow hchild))
    · exact Or.inr (Or.inr (ihNext hnext hchild))

/-! ### The first join and the later ones -/

section

variable {child : NodeId} (hf : WellFormed f) (hb : f.Hangs n (.cons e child below next))
  (hnodup : (Branches.cons e child below next).joins.Nodup)
include hf hb hnodup

/-- The first join and those below it lead from and to records that are not behind later joins. -/
theorem first_not_mem_next {e' : EdgeId} (he' : e' = e ∨ e' ∈ below.allJoins) :
    (f.edge e').owner ∉ next.preOrder ∧ f.childOf e' ∉ next.preOrder := by
  have hout {m : NodeId} (hm : m ∈ child :: below.preOrder) : m ∉ next.preOrder :=
    not_mem_next_of_first hf hb hnodup hm
  obtain ⟨he, rfl, -, hbelow, hnext⟩ := hb
  rcases he' with rfl | he'
  · rw [hf.owner_of_edge he]
    exact ⟨not_mem_of_hangs hf hnext, hout (List.mem_cons_self ..)⟩
  · obtain ⟨howner, hmem⟩ := mem_of_mem_allJoins hf hbelow he'
    refine ⟨hout (List.mem_cons.2 (howner.imp_left fun h => ?_)),
      hout (List.mem_cons_of_mem _ hmem)⟩
    exact h.2

/-- Later joins lead from and to records that are not at or below the first child. -/
theorem later_not_mem_first {e' : EdgeId} (he' : e' ∈ next.allJoins) :
    (f.edge e').owner ∉ child :: below.preOrder ∧ f.childOf e' ∉ child :: below.preOrder := by
  have hout {m : NodeId} (hm : m ∈ next.preOrder) : m ∉ child :: below.preOrder := fun h =>
    not_mem_next_of_first hf hb hnodup h hm
  obtain ⟨he, rfl, -, hbelow, hnext⟩ := hb
  obtain ⟨⟨-, howner⟩ | howner, hmem⟩ := mem_of_mem_allJoins hf hnext he'
  · refine ⟨?_, hout hmem⟩
    have hlt := index_lt_childOf hf he
    rw [howner, List.mem_cons, not_or]
    exact ⟨fun h => Nat.lt_irrefl _ (h ▸ hlt), fun h =>
      Nat.lt_asymm hlt (lt_of_mem_preOrder hf hbelow h).1⟩
  · exact ⟨hout howner, hout hmem⟩

/-- A change behind later joins keeps the first join and those below it. -/
theorem first_kept (hs : SameShape f g) (ht : Touches next.preOrder g h) {e' : EdgeId}
    (he' : e' = e ∨ e' ∈ below.allJoins) : Kept g h e' := by
  obtain ⟨howner, hchild⟩ := first_not_mem_next hf hb hnodup he'
  have hedge : f.HasEdge e' := hasEdge_of_mem_allJoins hf hb (by
    rw [Branches.mem_allJoins_cons]
    exact he'.imp_right Or.inl)
  refine ht.kept (hf.of_sameShape hs) ((hs.hasEdge e').2 hedge) ?_ ?_
  · rwa [hs.edge]
  · rwa [hs.childOf]

/-- A change at or below the first child keeps later joins. -/
theorem later_kept (ht : Touches (child :: below.preOrder) f g) {e' : EdgeId}
    (he' : e' ∈ next.allJoins) : Kept f g e' := by
  obtain ⟨howner, hchild⟩ := later_not_mem_first hf hb hnodup he'
  exact ht.kept hf (hasEdge_of_mem_allJoins hf hb.later he') howner hchild

end

/-! ## Records that become new -/

/-- What a walk does that unbinds the records behind links which were forgotten: at the top, joins
with assigned links are kept and the others are matched, and so is each join further down, in one of
these two ways. -/
structure Unbound (b : Branches) (f g : Forest) : Prop where
  kept {e : EdgeId} : e ∈ b.joins → (f.cell (f.edge e).link).isDirty = true → Kept f g e
  matched {e : EdgeId} : e ∈ b.joins → (f.cell (f.edge e).link).isDirty = false → Matched g e
  deep {e : EdgeId} : e ∈ b.allJoins → Kept f g e ∨ Matched g e

theorem Consistent.rebindNode (hf : Consistent f) (n : NodeId) (v : Value) :
    Consistent (f.rebindNode n v) := hf.forgets (forgets_rebindNode f n v)

/-- A record that was bound to another row has no column with a value that is not assigned. -/
theorem value_rebindNode_of_clean (hf : Consistent f) (hn : f.HasNode n) {d : CellId}
    (hd : d ∈ (f.node n).cells) (hclean : ((f.rebindNode n v).cell d).isDirty = false) :
    ((f.rebindNode n v).cell d).value = .null := by
  have hassigned : ((f.rebindNode n v).cell d).assigned = none := by
    simpa [Cell.isDirty] using hclean
  rw [Cell.value, hassigned, Option.getD_none]
  cases hk : (f.cell d).isKey with
  | true =>
    exact (hf.rebindNode n v).unstored d (((sameShape_rebindNode f n v).isKey d).trans hk)
  | false =>
    have hne : d ≠ (f.node n).key := fun h => by
      rw [h, isKey_key hf.toWellFormed hn] at hk
      exact Bool.false_ne_true hk.symm
    rw [cell_rebindNode hf.toWellFormed hn, if_neg hne, if_pos hd]
    rfl

theorem linkValue_rebindNode_of_clean (hf : Consistent f) (hn : f.HasNode n) (hb : f.Hangs n b) :
    ∀ e ∈ b.joins, ((f.rebindNode n v).cell ((f.rebindNode n v).edge e).link).isDirty = false →
      (f.rebindNode n v).linkValue e = .null := by
  intro e he hclean
  have hedge := edges_of_joins hb he
  have hmem := hf.link_mem (hf.hasEdge hedge)
  rw [hf.owner_of_edge hedge] at hmem
  rw [linkValue, (sameShape_rebindNode f n v).edge] at *
  exact value_rebindNode_of_clean hf hn hmem hclean

/-- A child that is bound to another row has the key of that row, and none if that is null. -/
theorem assigned_childKey_rebindNode (hf : WellFormed f) (he : f.HasEdge e) (v : Value) :
    ((f.rebindNode (f.childOf e) v).childKey e).assigned = if v.isNull then none else some v := by
  have hs := sameShape_rebindNode f (f.childOf e) v
  rw [childKey, hs.edge, hs.key, childOf, cell_rebindNode hf (hf.hasChild he), if_pos rfl]
  split <;> rfl

/-- The join that leads to a record which was bound to the row of its link is matched. -/
theorem matched_rebound (hf : WellFormed f) (he : f.HasEdge e) (hb : f.Hangs (f.childOf e) b) :
    Matched (unbindBelow b (f.rebindNode (f.childOf e) (f.linkValue e))) e := by
  have hhas : f.HasNode (f.childOf e) := hf.hasChild he
  have hnode := touches_rebindNode hf hhas (f.linkValue e)
  have hf₁ := hf.of_sameShape hnode.shape
  have hdeep := touches_unbindBelow b hf₁ (hnode.shape.hangs hb)
  have howner : (f.edge e).owner ∉ f.childOf e :: b.preOrder := by
    have hlt := hf.owner_lt_child he
    rw [List.mem_cons, not_or]
    exact ⟨fun h => Nat.lt_irrefl _ (h ▸ hlt), fun h =>
      Nat.lt_asymm hlt (lt_of_mem_preOrder hf hb h).1⟩
  have hchild : (f.rebindNode (f.childOf e) (f.linkValue e)).childOf e ∉ b.preOrder := by
    rw [hnode.shape.childOf]
    exact not_mem_of_hangs hf hb
  rw [Matched, (touches_rebound hf hhas hb _).linkValue hf he howner,
    hdeep.childKey hf₁ ((hnode.shape.hasEdge e).2 he) hchild]
  exact assigned_childKey_rebindNode hf he _

/-- Of a record that was bound to another row, the joins through its new key have this key for the
value of their link, and children with the keys that they had. -/
theorem Unbound.through_key {g : Forest} (h : Unbound b (f.rebindNode n v) g)
    (hf : WellFormed f) (hn : f.HasNode n) (hb : f.Hangs n b) (hv : v.isNull = false)
    (he : e ∈ b.joins) (hkey : (f.edge e).link = (f.node n).key) :
    g.linkValue e = v ∧ g.childKey e = f.childKey e := by
  have hnode := touches_rebindNode hf hn v
  have hcell : (f.rebindNode n v).cell (f.edge e).link = (f.cell (f.edge e).link).assign v := by
    rw [cell_rebindNode hf hn, if_pos hkey, hv]
    rfl
  obtain ⟨hlink, hchild⟩ := h.kept he (by rw [hnode.shape.edge, hcell]; rfl)
  refine ⟨?_, hchild.trans (hnode.childKey hf (hf.hasEdge (edges_of_joins hb he)) fun hmem => ?_)⟩
  · rw [hlink, linkValue, hnode.shape.edge, hcell]
    rfl
  · have hlt := index_lt_childOf hf (edges_of_joins hb he)
    rw [List.mem_singleton.1 hmem] at hlt
    exact Nat.lt_irrefl _ hlt

/-- All other joins at or below it are kept or matched. -/
theorem Unbound.joins {g : Forest} (h : Unbound b (f.rebindNode n v) g) (hf : WellFormed f)
    (hn : f.HasNode n) (hb : f.Hangs n b) (he : e ∈ b.allJoins)
    (hother : v.isNull = false → e ∈ b.joins → (f.edge e).link ≠ (f.node n).key) :
    Kept f g e ∨ Matched g e := by
  have hnode := touches_rebindNode hf hn v
  have hedge := hasEdge_of_mem_allJoins hf hb he
  obtain ⟨howner, hchild⟩ := mem_of_mem_allJoins hf hb he
  have hout := not_mem_of_hangs hf hb
  have hchildNe : f.childOf e ∉ [n] := fun h => hout (List.mem_singleton.1 h ▸ hchild)
  rcases howner with ⟨htop, howner⟩ | howner
  · cases hdirty : ((f.rebindNode n v).cell (f.edge e).link).isDirty with
    | false => exact Or.inr (h.matched htop (by rwa [hnode.shape.edge]))
    | true =>
      have hkept := h.kept htop (by rwa [hnode.shape.edge])
      refine Or.inl (Kept.trans ⟨?_, hnode.childKey hf hedge hchildNe⟩ hkept)
      have hmem : (f.edge e).link ∈ (f.node n).cells := howner ▸ hf.link_mem hedge
      -- The link is not the key, so it keeps what was assigned to it.
      have hne : (f.edge e).link ≠ (f.node n).key := by
        intro hkey
        cases hv : v.isNull with
        | false => exact hother hv htop hkey
        | true =>
          rw [cell_rebindNode hf hn, if_pos hkey, if_pos hv] at hdirty
          exact Bool.false_ne_true hdirty
      rw [linkValue, linkValue, hnode.shape.edge]
      rw [cell_rebindNode hf hn, if_neg hne, if_pos hmem] at hdirty ⊢
      obtain ⟨x, hx⟩ := Option.isSome_iff_exists.1 hdirty
      have hx : (f.cell (f.edge e).link).assigned = some x := hx
      rw [Cell.value, Cell.value, Cell.load, hx]
      rfl
  · have hownerNe : (f.edge e).owner ∉ [n] := fun h => hout (List.mem_singleton.1 h ▸ howner)
    have hkept := hnode.kept hf hedge hownerNe hchildNe
    exact (h.deep he).imp_left hkept.trans

/-- The walk comes to the first join and what is below it, and then to the later joins. -/
theorem Unbound.cons {child : NodeId} (hf : WellFormed f)
    (hb : f.Hangs n (.cons e child below next))
    (hnodup : (Branches.cons e child below next).joins.Nodup)
    (hkept : (f.cell (f.edge e).link).isDirty = true → Kept f g e)
    (hmatched : (f.cell (f.edge e).link).isDirty = false → Matched g e)
    (hdeep : ∀ e' ∈ below.allJoins, Kept f g e' ∨ Matched g e')
    (hfirst : Touches (child :: below.preOrder) f g) (hnext : Unbound next g h)
    (hlater : Touches next.preOrder g h) : Unbound (.cons e child below next) f h := by
  have hstays {e' : EdgeId} (he' : e' = e ∨ e' ∈ below.allJoins) : Kept g h e' :=
    first_kept hf hb hnodup hfirst.shape hlater he'
  have hbefore {e' : EdgeId} (he' : e' ∈ next.allJoins) : Kept f g e' :=
    later_kept hf hb hnodup hfirst he'
  have hlink {e' : EdgeId} (he' : e' ∈ next.joins) :
      g.cell (g.edge e').link = f.cell (f.edge e').link := by
    have he := mem_allJoins_of_joins he'
    rw [hfirst.shape.edge, hfirst.cell]
    rw [hf.owner_link (hasEdge_of_mem_allJoins hf hb.later he)]
    exact (later_not_mem_first hf hb hnodup he).1
  refine ⟨fun {e'} he' hdirty => ?_, fun {e'} he' hclean => ?_, fun {e'} he' => ?_⟩
  · rcases List.mem_cons.1 he' with rfl | he'
    · exact (hkept hdirty).trans (hstays (Or.inl rfl))
    · exact (hbefore (mem_allJoins_of_joins he')).trans (hnext.kept he' (by rwa [hlink he']))
  · rcases List.mem_cons.1 he' with rfl | he'
    · exact (hstays (Or.inl rfl)).matched_iff.2 (hmatched hclean)
    · exact hnext.matched he' (by rwa [hlink he'])
  · rw [Branches.mem_allJoins_cons] at he'
    have hgoes {e' : EdgeId} (he' : e' = e ∨ e' ∈ below.allJoins)
        (hfg : Kept f g e' ∨ Matched g e') : Kept f h e' ∨ Matched h e' :=
      hfg.imp (fun hkept => hkept.trans (hstays he')) (hstays he').matched_iff.2
    rcases he' with rfl | he' | he'
    · refine hgoes (Or.inl rfl) ?_
      cases hdirty : (f.cell (f.edge e').link).isDirty with
      | true => exact Or.inl (hkept hdirty)
      | false => exact Or.inr (hmatched hdirty)
    · exact hgoes (Or.inr he') (hdeep e' he')
    · exact (hnext.deep he').imp_left (hbefore he').trans

/-- Unbinding what hangs on forgotten links keeps or matches every join there. -/
theorem unbound_unbindBelow (b : Branches) (hf : Consistent f) (hb : f.Hangs n b)
    (hnodup : b.joins.Nodup) (hclean : ∀ e ∈ b.joins,
      (f.cell (f.edge e).link).isDirty = false → f.linkValue e = .null) :
    Unbound b f (unbindBelow b f) := by
  induction b generalizing f n with
  | nil =>
    exact ⟨fun h => absurd h List.not_mem_nil, fun h => absurd h List.not_mem_nil,
      fun h => absurd h List.not_mem_nil⟩
  | cons e child below next ihBelow ihNext =>
    have hwf := hf.toWellFormed
    obtain ⟨he, hchild, hbelowEq, hbelow, hnext⟩ := hb
    have hnodupNext := (List.nodup_cons.1 hnodup).2
    have hcleanNext : ∀ e' ∈ next.joins,
        (f.cell (f.edge e').link).isDirty = false → f.linkValue e' = .null := fun e' he' =>
      hclean e' (List.mem_cons_of_mem _ he')
    cases hdirty : (f.cell (f.edge e).link).isDirty with
    | true =>
      have hstep : unbindBelow (.cons e child below next) f = unbindBelow next f := by
        rw [unbindBelow, if_pos hdirty]
      rw [hstep]
      exact Unbound.cons (g := f) hwf ⟨he, hchild, hbelowEq, hbelow, hnext⟩ hnodup
        (fun _ => ⟨rfl, rfl⟩) (fun h => absurd (hdirty.symm.trans h) (by decide))
        (fun _ _ => Or.inl ⟨rfl, rfl⟩) (.refl _ f) (ihNext hf hnext hnodupNext hcleanNext)
        (touches_unbindBelow next hwf hnext)
    | false =>
      subst hchild
      have hhas : f.HasNode (f.childOf e) := hwf.hasChild (hwf.hasEdge he)
      have hnull := hclean e (List.mem_cons_self ..) hdirty
      have hf₁ := hf.rebindNode (f.childOf e) .null
      have hunbound := ihBelow hf₁ ((sameShape_rebindNode f _ _).hangs hbelow)
        (hbelowEq ▸ nodup_joins_below hwf _) (linkValue_rebindNode_of_clean hf hhas hbelow)
      have hfirst := touches_rebound hwf hhas hbelow .null
      have hf₂ := hf₁.forgets (forgets_unbindBelow below _)
      have hstep : unbindBelow (.cons e (f.childOf e) below next) f =
          unbindBelow next (unbindBelow below (f.rebindNode (f.childOf e) .null)) := by
        rw [unbindBelow, hdirty]
        rfl
      have hmatched := matched_rebound hwf (hwf.hasEdge he) hbelow
      rw [hnull] at hmatched
      rw [hstep]
      refine Unbound.cons hwf ⟨he, rfl, hbelowEq, hbelow, hnext⟩ hnodup
        (fun h => absurd (hdirty.symm.trans h) (by decide)) (fun _ => hmatched)
        (fun e' he' => hunbound.joins hwf hhas hbelow he' fun h => absurd h (by decide)) hfirst
        (ihNext hf₂ (hfirst.shape.hangs hnext) hnodupNext fun e' he' hd => ?_)
        (touches_unbindBelow next hf₂.toWellFormed (hfirst.shape.hangs hnext))
      have hkept := later_not_mem_first hwf ⟨he, rfl, hbelowEq, hbelow, hnext⟩ hnodup
        (mem_allJoins_of_joins he')
      have hedge' := hwf.hasEdge (edges_of_joins hnext he')
      rw [hfirst.shape.edge, hfirst.cell (by rw [hwf.owner_link hedge']; exact hkept.1)] at hd
      rw [hfirst.linkValue hwf hedge' hkept.1]
      exact hcleanNext e' he' hd

end Forest
end LinkedRows
