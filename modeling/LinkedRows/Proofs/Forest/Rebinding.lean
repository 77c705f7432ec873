/-
# Bound to other rows

Assigning a column changes that column, and then binds records that are joined through it, and
records further down, to other rows one after the other.  All of these are younger than the record
of the column.  `Rebinds` is any number of such bindings: what each of them keeps, an assignment
keeps (`rebinds_assign`), and the records that are no younger than the assigned one are not reached
(`Rebinds.cell`, `Rebinds.node`).
-/

import LinkedRows.Proofs.Forest.Below
import LinkedRows.Proofs.Forest.WellFormed

namespace LinkedRows
namespace Forest

variable {f g h : Forest} {n m : NodeId} {d : CellId} {key : Value}

/-! ## One record -/

/-- Columns that are forgotten hold null, as far as they are not assigned. -/
theorem cell_forget (f : Forest) (cells : List CellId) (d : CellId) :
    (cells.foldl (fun f d => f.modifyCell d (·.load .null)) f).cell d =
      if d ∈ cells then (f.cell d).load .null else f.cell d := by
  induction cells generalizing f with
  | nil => rfl
  | cons d' rest ih =>
    have hstep : (f.modifyCell d' (·.load .null)).cell d =
        if d = d' then (f.cell d).load .null else f.cell d := by
      by_cases hd : d = d'
      · subst hd
        by_cases hhas : f.HasCell d
        · rw [cell_modifyCell_self f hhas, if_pos rfl]
        · rw [cell_modifyCell, if_neg fun hd => hhas hd.2, if_pos rfl, cell_of_not_hasCell f hhas]
          rfl
      · rw [cell_modifyCell_of_ne f hd, if_neg hd]
    rw [List.foldl_cons, ih, hstep]
    by_cases hd : d = d'
    · by_cases hmem : d ∈ rest <;> simp [hd, Cell.load]
    · simp [hd]

theorem node_forget (f : Forest) (cells : List CellId) (m : NodeId) :
    (cells.foldl (fun f d => f.modifyCell d (·.load .null)) f).node m = f.node m := by
  induction cells generalizing f with
  | nil => rfl
  | cons d' rest ih => rw [List.foldl_cons, ih, node_modifyCell]

/-- A record that is bound to another row is neither current nor deleted. -/
theorem node_rebindNode (f : Forest) (n : NodeId) (key : Value) (m : NodeId) :
    (f.rebindNode n key).node m = if m = n ∧ f.HasNode n then
      { f.node n with current := false, deleted := false } else f.node m := by
  unfold rebindNode
  dsimp only
  rw [node_forget, node_modifyCell, node_modifyNode]

/-- It has another key, or none, and what was read for its other columns is forgotten. -/
theorem cell_rebindNode (hf : WellFormed f) (hn : f.HasNode n) (key : Value) (d : CellId) :
    (f.rebindNode n key).cell d =
      if d = (f.node n).key then
        if key.isNull then (f.cell d).discard else (f.cell d).assign key
      else if d ∈ (f.node n).cells then (f.cell d).load .null else f.cell d := by
  unfold rebindNode
  dsimp only
  have hmem : d ∈ (f.node n).cells.filter (· != (f.node n).key) ↔
      d ∈ (f.node n).cells ∧ d ≠ (f.node n).key := by simp
  rw [cell_forget, cell_modifyCell, cell_modifyNode, cell_modifyNode]
  by_cases hkey : d = (f.node n).key
  · rw [if_neg fun hd => (hmem.1 hd).2 hkey, if_pos ⟨hkey, hf.hasCell_key hn⟩, if_pos hkey, hkey]
  · simp [hmem, hkey]

theorem cell_rebindNode_of_owner_ne (hf : WellFormed f) (hn : f.HasNode n)
    (h : (f.cell d).owner ≠ n) : (f.rebindNode n key).cell d = f.cell d := by
  have hmem : d ∉ (f.node n).cells := fun hd => h (hf.owner_of_mem hd)
  rw [cell_rebindNode hf hn, if_neg hmem, if_neg]
  rintro rfl
  exact hmem (hf.key_mem hn)

/-! ## Several records -/

/-- Records younger than a given one are bound to other rows. -/
inductive Rebinds (oldest : NodeId) (f : Forest) : Forest → Prop
  | refl : Rebinds oldest f f
  | node {g : Forest} {n : NodeId} (key : Value) : Rebinds oldest f g → g.HasNode n →
      oldest.index < n.index → Rebinds oldest f (g.rebindNode n key)

namespace Rebinds

variable {oldest : NodeId}

theorem trans (hfg : Rebinds oldest f g) (hgh : Rebinds oldest g h) : Rebinds oldest f h := by
  induction hgh with
  | refl => exact hfg
  | node key _ hn hlt ih => exact ih.node key hn hlt

theorem mono {older : NodeId} (hfg : Rebinds oldest f g) (h : older.index ≤ oldest.index) :
    Rebinds older f g := by
  induction hfg with
  | refl => exact .refl
  | node key _ hn hlt ih => exact ih.node key hn (Nat.lt_of_le_of_lt h hlt)

theorem shape (h : Rebinds oldest f g) : SameShape f g := by
  induction h with
  | refl => exact SameShape.refl f
  | node key _ _ _ ih => exact ih.trans (sameShape_rebindNode _ _ key)

theorem wellFormed (h : Rebinds oldest f g) (hf : WellFormed f) : WellFormed g :=
  hf.of_sameShape h.shape

/-- The columns of older records stay as they are. -/
theorem cell (h : Rebinds oldest f g) (hf : WellFormed f)
    (hd : (f.cell d).owner.index ≤ oldest.index) : g.cell d = f.cell d := by
  induction h with
  | refl => rfl
  | @node g n key hg hn hlt ih =>
    rw [cell_rebindNode_of_owner_ne (hg.wellFormed hf) hn, ih]
    rw [hg.shape.owner]
    rintro rfl
    exact absurd hlt (Nat.not_lt_of_le hd)

/-- Older records stay as they are. -/
theorem node_eq (h : Rebinds oldest f g) (hn : n.index ≤ oldest.index) : g.node n = f.node n := by
  induction h with
  | refl => rfl
  | @node g m key _ _ hlt ih =>
    rw [node_rebindNode, if_neg, ih]
    rintro ⟨rfl, -⟩
    exact absurd hlt (Nat.not_lt_of_le hn)

/-- No record becomes current. -/
theorem current (h : Rebinds oldest f g) (hn : (g.node n).current = true) :
    (f.node n).current = true := by
  induction h with
  | refl => exact hn
  | node key _ _ _ ih =>
    rw [node_rebindNode] at hn
    split at hn
    · cases hn
    · exact ih hn

end Rebinds

theorem rebinds_unbindBelow (b : Branches) (hf : WellFormed f) (hb : f.Hangs n b) :
    Rebinds n f (unbindBelow b f) := by
  induction b generalizing f n with
  | nil => exact .refl
  | cons e child below next ihBelow ihNext =>
    obtain ⟨he, rfl, -, hbelow, hnext⟩ := hb
    rw [unbindBelow]
    split
    · exact ihNext hf hnext
    · have hlt := index_lt_childOf hf he
      have hnode : Rebinds n f (f.rebindNode (f.childOf e) .null) :=
        Rebinds.refl.node .null (hf.hasChild (hf.hasEdge he)) hlt
      have hdeep := hnode.trans
        ((ihBelow (hnode.wellFormed hf) (hnode.shape.hangs hbelow)).mono (Nat.le_of_lt hlt))
      exact hdeep.trans (ihNext (hdeep.wellFormed hf) (hdeep.shape.hangs hnext))

theorem rebinds_rebind (hf : WellFormed f) (hn : f.HasNode n) {oldest : NodeId}
    (hlt : oldest.index < n.index) (key : Value) : Rebinds oldest f (f.rebind n key) := by
  have hnode : Rebinds oldest f (f.rebindNode n key) := Rebinds.refl.node key hn hlt
  refine hnode.trans (Rebinds.mono ?_ (Nat.le_of_lt hlt))
  exact rebinds_unbindBelow _ (hnode.wellFormed hf) (hnode.shape.hangs (hangs_below hf n))

/-- Assigning a column changes it, and binds younger records to other rows. -/
theorem rebinds_assign (hf : WellFormed f) (d : CellId) (v : Value) :
    Rebinds (f.cell d).owner (f.modifyCell d (·.assign v)) (f.assign d v) := by
  have hassign : SameShape f (f.modifyCell d (·.assign v)) := sameShape_modifyCell f d fun _ => rfl
  have hlinked {m : NodeId} (hm : m ∈ f.linkedBy d) :
      f.HasNode m ∧ (f.cell d).owner.index < m.index := by
    obtain ⟨e, he, rfl⟩ := List.mem_map.1 hm
    have he := List.mem_of_mem_filter he
    exact ⟨hf.hasChild (hf.hasEdge he), index_lt_childOf hf he⟩
  have hall (records : List NodeId)
      (hrecords : ∀ m ∈ records, f.HasNode m ∧ (f.cell d).owner.index < m.index) (g : Forest)
      (hg : SameShape f g) :
      Rebinds (f.cell d).owner g (records.foldl (fun f n => f.rebind n v) g) := by
    induction records generalizing g with
    | nil => exact .refl
    | cons m rest ih =>
      obtain ⟨⟨hm, hlt⟩, hrest⟩ := List.forall_mem_cons.1 hrecords
      have hfirst := rebinds_rebind (hf.of_sameShape hg) ((hg.hasNode m).2 hm) hlt v
      exact hfirst.trans (ih hrest _ (hg.trans hfirst.shape))
  unfold assign
  dsimp only
  split
  · exact hall _ (fun m hm => hlinked hm) _ hassign
  · exact .refl

/-- The assigned column holds what was assigned to it, whatever is bound to another row. -/
theorem cell_assign_self (hf : WellFormed f) (hd : f.HasCell d) (v : Value) :
    (f.assign d v).cell d = (f.cell d).assign v := by
  have hs : SameShape f (f.modifyCell d (·.assign v)) := sameShape_modifyCell f d fun _ => rfl
  have howner : ((f.modifyCell d (·.assign v)).cell d).owner.index ≤ (f.cell d).owner.index :=
    Nat.le_of_eq (congrArg NodeId.index (hs.owner d))
  rw [(rebinds_assign hf d v).cell (hf.of_sameShape hs) howner, cell_modifyCell_self f hd]

end Forest
end LinkedRows
