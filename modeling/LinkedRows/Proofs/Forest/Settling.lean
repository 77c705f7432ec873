/-
# Noting what was written

When the row of a record was written, the record holds what it wrote and is no longer current
(`settleNode`); when it was inserted it has a key too, and its link takes that (`attachChild`).

If the rows that the other records stand for are as they were, a forest that was true to the
database before is true to the one after (`TrueTo.settleNode`, `TrueTo.attachChild`).
-/

import LinkedRows.Proofs.Forest.Knowledge

namespace LinkedRows
namespace Forest

variable {db db' : Database} {f : Forest} {root n m : NodeId} {doubt : String → Prop} {e : EdgeId}
  {d : CellId} {key : Value}

/-! ## A row that was updated -/

/-- A record holds what was written to its row, and is no longer current. -/
def settleNode (f : Forest) (n : NodeId) : Forest :=
  (f.settle (f.pendingCells n)).setCurrent n false

theorem settleNode_of_nil (h : f.pendingCells n = []) : f.settleNode n = f.setCurrent n false := by
  rw [settleNode, h]
  rfl

theorem steady_settleNode (hf : WellFormed f) (n : NodeId) : Steady f (f.settleNode n) :=
  (reaches_settle hf n).toSteady.trans (steady_setCurrent _ n false)

theorem cell_settleNode (f : Forest) (n : NodeId) (d : CellId) : (f.settleNode n).cell d =
    if d ∈ f.pendingCells n then (f.cell d).settle else f.cell d := cell_settle f _ d

theorem value_settleNode (f : Forest) (n : NodeId) (d : CellId) :
    ((f.settleNode n).cell d).value = (f.cell d).value := by
  rw [cell_settleNode]
  split <;> rfl

/-- Nothing is assigned that was not before. -/
theorem assigned_of_settleNode {v : Value} (h : ((f.settleNode n).cell d).assigned = some v) :
    (f.cell d).assigned = some v := by
  rw [cell_settleNode] at h
  split at h
  · cases h
  · exact h

theorem cell_key_settleNode (hf : WellFormed f) (hm : f.HasNode m) :
    (f.settleNode n).cell (f.node m).key = f.cell (f.node m).key := by
  rw [cell_settleNode, if_neg]
  intro hmem
  have hk := (mem_pendingCells.1 hmem).2.2
  rw [isKey_key hf hm] at hk
  cases hk

theorem keepsKey_settleNode (hf : WellFormed f) (hm : f.HasNode m) :
    KeepsKey f (f.settleNode n) m :=
  (steady_settleNode hf n).shape.keepsKey (cell_key_settleNode hf hm)

/-- Nothing is left to be written that was not before. -/
theorem pendingCells_of_settleNode (hf : WellFormed f) (h : (f.settleNode n).pendingCells m ≠ []) :
    f.pendingCells m ≠ [] := by
  have hs := (steady_settleNode hf n).shape
  obtain ⟨d, hd⟩ := List.exists_mem_of_ne_nil _ h
  obtain ⟨hmem, hdirty, hk⟩ := mem_pendingCells.1 hd
  rw [hs.cells] at hmem
  rw [hs.isKey] at hk
  obtain ⟨v, hv⟩ := Option.isSome_iff_exists.1 hdirty
  have hdirty := Option.isSome_of_eq_some (assigned_of_settleNode hv)
  exact List.ne_nil_of_mem (mem_pendingCells.2 ⟨hmem, hdirty, hk⟩)

/-- Only the record itself can have become stale. -/
theorem current_settleNode (h : ((f.settleNode n).node m).current = true) :
    m ≠ n ∧ (f.node m).current = true := by
  have hm := hasNode_of_current h
  rw [settleNode, setCurrent, node_modifyNode] at h
  split at h
  · cases h
  · rename_i hne
    rw [node_settle] at h
    refine ⟨?_, h⟩
    rintro rfl
    exact hne ⟨rfl, (sameShape_settle f _).hasNode m |>.2 (hasNode_of_current h)⟩

namespace TrueTo

/-- What is known stays true when the database changes elsewhere. -/
theorem of_truth (h : TrueTo db root doubt f)
    (htruth : ∀ d, f.HasCell d → (f.cell d).isKey = false → f.isNew (f.cell d).owner = false →
      f.truth db' f.keyValue d = f.truth db f.keyValue d)
    (hrow : f.RowFound db f.keyValue root → f.RowFound db' f.keyValue root) :
    TrueTo db' root doubt f := by
  have hnull {d : CellId} (hd : f.HasCell d) (hnew : f.isNew (f.cell d).owner = true) :
      f.keyValue (f.cell d).owner = .null :=
    keyValue_of_isNew h.toWellFormed h.unstored (h.hasOwner hd) hnew
  have hsame (d : CellId) (hd : f.HasCell d) (hk : (f.cell d).isKey = false) :
      f.truth db' f.keyValue d = f.truth db f.keyValue d := by
    cases hnew : f.isNew (f.cell d).owner with
    | true => rw [truth_of_null (hnull hd hnew), truth_of_null (hnull hd hnew)]
    | false => exact htruth d hd hk hnew
  refine of_honest h.toIntact (fun _ => h.bound) (fun d hd hcurrent hk hclean => ?_)
    (fun d hd hsure hk => ?_) (fun _ => h.join) h.avoids fun _ hdoubt => hrow (h.there hdoubt)
  · rw [hsame d hd hk]
    exact h.stored_of_current hd hcurrent hk hclean
  · rw [hsame d hd hk]
    exact h.honest hd hsure hk

/-- What was written is true, and so is what was not touched. -/
theorem settleNode (h : TrueTo db root doubt f) (hroot : f.HasNode root) (n : NodeId)
    (hkept : ∀ d, f.HasCell d → (f.cell d).isKey = false → f.isNew (f.cell d).owner = false →
      d ∉ f.pendingCells n → f.truth db' f.keyValue d = f.truth db f.keyValue d)
    (hwritten : ∀ d ∈ f.pendingCells n, f.truth db' f.keyValue d = (f.cell d).value)
    (hrow : f.RowFound db f.keyValue root → f.RowFound db' f.keyValue root) :
    TrueTo db' root doubt (f.settleNode n) := by
  have hwf := h.toWellFormed
  have hsteady := steady_settleNode hwf n
  have hs := hsteady.shape
  have hkey {m : NodeId} (hm : f.HasNode m) : (f.settleNode n).keyValue m = f.keyValue m :=
    (keepsKey_settleNode hwf hm).keyValue
  have htruth (db : Database) {d : CellId} (hd : f.HasCell d) :
      (f.settleNode n).truth db (f.settleNode n).keyValue d = f.truth db f.keyValue d := by
    rw [truth_of_sameShape hs, truth_congr (hkey (hwf.hasOwner hd))]
  refine of_honest (h.toIntact.steady hsteady) (fun m hcurrent => ?_)
    (fun d hd hcurrent hk hclean => ?_) (fun d hd hsure hk => ?_) (fun e he => ?_)
    (h.avoids.of_sameShape hs) fun name hdoubt => ?_
  · obtain ⟨-, hcurrent⟩ := current_settleNode hcurrent
    exact hsteady.isNew hwf (hasNode_of_current hcurrent) (h.bound hcurrent)
  · have hd := (hs.hasCell d).1 hd
    rw [hs.owner] at hcurrent
    rw [hs.isKey] at hk
    obtain ⟨hne, hcurrent⟩ := current_settleNode hcurrent
    have hout : d ∉ f.pendingCells n := fun hmem =>
      hne (hwf.owner_of_mem (mem_pendingCells.1 hmem).1)
    rw [cell_settleNode, if_neg hout] at hclean ⊢
    rw [htruth db' hd, hkept d hd hk (h.bound hcurrent) hout]
    exact h.stored_of_current hd hcurrent hk hclean
  · have hd := (hs.hasCell d).1 hd
    rw [hs.isKey] at hk
    rw [htruth db' hd, cell_settleNode]
    split
    · rename_i hmem
      exact Or.inr (hwritten d hmem).symm
    · rename_i hout
      cases hnew : f.isNew (f.cell d).owner with
      | true => exact Or.inl (h.stored_of_isNew hd hk hnew)
      | false =>
        rw [hkept d hd hk hnew hout]
        exact h.honest hd ((inDoubt_of_sameShape hs d).not.1 hsure) hk
  · have he := (hs.hasEdge e).1 he
    refine (h.join he).kept (hs.edge e) ⟨?_, ?_⟩ fun hcurrent => (current_settleNode hcurrent).2
    · rw [linkValue, hs.edge, value_settleNode, linkValue]
    · rw [childKey, hs.edge, hs.key, cell_key_settleNode hwf (hwf.hasChild he), childKey]
  · rw [rowFound_of_sameShape hs, RowFound, hkey hroot]
    exact hrow (h.there hdoubt)

/-- The link of a child that is bound holds its key, so it does not follow. -/
theorem followChild_eq (h : TrueTo db root doubt f) (he : f.HasEdge e)
    (hagrees : f.isNew (f.edge e).child = false →
      (f.keyValue (f.edge e).child).agrees (f.keyValue (f.edge e).child) = true)
    (wasNew : Bool) : f.followChild e wasNew = f := by
  unfold followChild
  dsimp only
  rw [if_neg]
  cases hnew : f.isNew (f.edge e).child with
  | true => simp
  | false =>
    have hlink : (f.cell (f.edge e).link).value = f.keyValue (f.edge e).child :=
      (h.linked he hnew).1
    rw [hlink, hagrees hnew]
    simp

end TrueTo

/-! ## A row that was inserted -/

/-- A new record holds what was written to its row, and the key of the row. -/
def insertNode (f : Forest) (n : NodeId) (key : Value) : Forest := (f.settleNode n).setKey n key

/-- It makes no difference in which order that is noted. -/
theorem setCurrent_setKey_settle (f : Forest) (n : NodeId) (key : Value) :
    ((f.settle (f.pendingCells n)).setKey n key).setCurrent n false = f.insertNode n key := by
  rw [insertNode, settleNode, setKey, setKey, (sameShape_setCurrent _ n false).key]
  rfl

theorem steady_insertNode (hf : WellFormed f) (n : NodeId) (key : Value) :
    Steady f (f.insertNode n key) := (steady_settleNode hf n).trans (steady_setKey _ n key)

theorem cell_insertNode_of_ne (hf : WellFormed f) (hd : d ≠ (f.node n).key) (key : Value) :
    (f.insertNode n key).cell d = (f.settleNode n).cell d := by
  rw [insertNode, setKey, cell_modifyCell_of_ne]
  rwa [(steady_settleNode hf n).shape.key]

theorem cell_key_insertNode (hf : WellFormed f) (hn : f.HasNode n) (key : Value) :
    (f.insertNode n key).cell (f.node n).key = (f.cell (f.node n).key).assign key := by
  have hs := (steady_settleNode hf n).shape
  rw [insertNode, setKey, hs.key, cell_modifyCell_self _ ((hs.hasCell _).2 (hf.hasCell_key hn)),
    cell_key_settleNode hf hn]

/-- A new child holds what was written to its row and the key of the row, and its link takes the
key. -/
def attachChild (f : Forest) (e : EdgeId) (key : Value) : Forest :=
  (f.insertNode (f.edge e).child key).modifyCell (f.edge e).link (·.assign key)

theorem steady_attachChild (hf : WellFormed f) (e : EdgeId) (key : Value) :
    Steady f (f.attachChild e key) := (steady_insertNode hf _ key).trans (steady_assignCell _ _ key)

/-- The link takes the key. -/
theorem assigned_link_attachChild (hf : WellFormed f) (he : f.HasEdge e) (key : Value) :
    ((f.attachChild e key).cell (f.edge e).link).assigned = some key := by
  have hs := (steady_insertNode hf (f.edge e).child key).shape
  rw [attachChild, cell_modifyCell_self _ ((hs.hasCell _).2 (hf.hasLink he))]
  rfl

/-- Columns that are neither the link nor the key of the child. -/
theorem cell_attachChild_of_ne (hf : WellFormed f) (hlink : d ≠ (f.edge e).link)
    (hkey : d ≠ (f.node (f.edge e).child).key) (key : Value) :
    (f.attachChild e key).cell d = (f.settleNode (f.edge e).child).cell d := by
  rw [attachChild, cell_modifyCell_of_ne _ hlink, cell_insertNode_of_ne hf hkey]

/-- No column takes anything from storage but what was written. -/
theorem stored_attachChild (f : Forest) (e : EdgeId) (key : Value) (d : CellId) :
    ((f.attachChild e key).cell d).stored = ((f.settleNode (f.edge e).child).cell d).stored := by
  have hassign (g : Forest) (x : CellId) :
      ((g.modifyCell x (·.assign key)).cell d).stored = (g.cell d).stored :=
    cell_modifyCell_proj g Cell.stored x d fun _ => rfl
  rw [attachChild, hassign, insertNode, setKey, hassign]

/-- Links other than that of the child hold what they held, unless they are its key. -/
theorem linkValue_attachChild (hf : WellFormed f) {e' : EdgeId}
    (hlink : (f.edge e').link ≠ (f.edge e).link)
    (hkey : (f.edge e').link ≠ (f.node (f.edge e).child).key) (key : Value) :
    (f.attachChild e key).linkValue e' = f.linkValue e' := by
  rw [linkValue, (steady_attachChild hf e key).shape.edge, cell_attachChild_of_ne hf hlink hkey,
    value_settleNode, linkValue]

/-- A column that is no key is not the key of a record. -/
theorem key_ne_of_isKey (hf : WellFormed f) (hn : f.HasNode n) (hk : (f.cell d).isKey = false) :
    (f.node n).key ≠ d := by
  rintro rfl
  rw [isKey_key hf hn] at hk
  cases hk

/-- The key is all that is assigned, apart from what was assigned before. -/
theorem assigned_of_attachChild (hf : WellFormed f) (he : f.HasEdge e)
    (hk : (f.cell d).isKey = false) {v : Value}
    (h : ((f.attachChild e key).cell d).assigned = some v) :
    d = (f.edge e).link ∧ v = key ∨ (f.cell d).assigned = some v := by
  by_cases hlink : d = (f.edge e).link
  · rw [hlink, assigned_link_attachChild hf he] at h
    exact Or.inl ⟨hlink, (Option.some.inj h).symm⟩
  · rw [cell_attachChild_of_ne hf hlink (key_ne_of_isKey hf (hf.hasChild he) hk).symm] at h
    exact Or.inr (assigned_of_settleNode h)

/-- Only the record that the child hangs from gets something more to write. -/
theorem pendingCells_of_attachChild (hf : WellFormed f) (he : f.HasEdge e)
    (h : (f.attachChild e key).pendingCells m ≠ []) :
    m = (f.edge e).owner ∨ f.pendingCells m ≠ [] := by
  have hs := (steady_attachChild hf e key).shape
  obtain ⟨d, hd⟩ := List.exists_mem_of_ne_nil _ h
  obtain ⟨hmem, hdirty, hk⟩ := mem_pendingCells.1 hd
  rw [hs.cells] at hmem
  rw [hs.isKey] at hk
  obtain ⟨v, hv⟩ := Option.isSome_iff_exists.1 hdirty
  rcases assigned_of_attachChild hf he hk hv with ⟨rfl, -⟩ | hv
  · exact Or.inl ((hf.owner_of_mem hmem).symm.trans (hf.owner_link he))
  · have hdirty := Option.isSome_of_eq_some hv
    exact Or.inr (List.ne_nil_of_mem (mem_pendingCells.2 ⟨hmem, hdirty, hk⟩))

section

variable (hf : WellFormed f) (he : f.HasEdge e) (hk : (f.cell (f.edge e).link).isKey = false)
include hf he hk

/-- The child has the key. -/
theorem keyValue_attachChild (key : Value) :
    (f.attachChild e key).keyValue (f.edge e).child = key ∧
      (f.attachChild e key).isNew (f.edge e).child = false := by
  have hn := hf.hasChild he
  have hcell : (f.attachChild e key).cell (f.node (f.edge e).child).key =
      (f.cell (f.node (f.edge e).child).key).assign key := by
    rw [attachChild, cell_modifyCell_of_ne _ (key_ne_of_isKey hf hn hk), cell_key_insertNode hf hn]
  rw [keyValue, isNew, (steady_attachChild hf e key).shape.key, hcell]
  exact ⟨rfl, rfl⟩

/-- Other records keep their keys. -/
theorem cell_key_attachChild (hm : f.HasNode m) (hne : m ≠ (f.edge e).child) (key : Value) :
    (f.attachChild e key).cell (f.node m).key = f.cell (f.node m).key := by
  rw [cell_attachChild_of_ne hf (key_ne_of_isKey hf hm hk), cell_key_settleNode hf hm]
  intro heq
  have howner := hf.owner_key hm
  rw [heq, hf.owner_key (hf.hasChild he)] at howner
  exact hne howner.symm

theorem keepsKey_attachChild (hm : f.HasNode m) (hne : m ≠ (f.edge e).child) (key : Value) :
    KeepsKey f (f.attachChild e key) m :=
  (steady_attachChild hf e key).shape.keepsKey (cell_key_attachChild hf he hk hm hne key)

/-- A link that holds nothing follows a child that was inserted. -/
theorem followChild_inserted (hnull : f.linkValue e = .null) (hkey : key.isNull = false) :
    (((f.settle (f.pendingCells (f.edge e).child)).setKey (f.edge e).child key).setCurrent
      (f.edge e).child false).followChild e true = f.attachChild e key := by
  have hn := hf.hasChild he
  have hs := (steady_insertNode hf (f.edge e).child key).shape
  have hcell := cell_key_insertNode hf hn key
  have hvalue : (f.insertNode (f.edge e).child key).keyValue (f.edge e).child = key := by
    rw [keyValue, hs.key, hcell]
    rfl
  have hbound : (f.insertNode (f.edge e).child key).isNew (f.edge e).child = false := by
    rw [isNew, hs.key, hcell]
    rfl
  have hlink : ((f.insertNode (f.edge e).child key).cell (f.edge e).link).value = .null := by
    rw [cell_insertNode_of_ne hf (key_ne_of_isKey hf hn hk).symm, value_settleNode]
    exact hnull
  have hagrees : Value.agrees .null key = false := by
    cases key <;> first | rfl | cases hkey
  rw [setCurrent_setKey_settle]
  unfold followChild
  dsimp only
  rw [hs.edge, hvalue, hbound, hlink, hagrees]
  rfl

end

namespace TrueTo

/-- What is known of the joins stays true when a child was inserted. -/
theorem joinTrue_attachChild (h : TrueTo db root doubt f) (he : f.HasEdge e)
    (hnew : f.isNew (f.edge e).child = true) (hk : (f.cell (f.edge e).link).isKey = false)
    (halone : ∀ e', f.HasEdge e' → (f.edge e').link = (f.edge e).link → e' = e) (hkey : key ≠ .null)
    {e' : EdgeId} (he' : f.HasEdge e') : JoinTrue (f.attachChild e key) e' := by
  have hwf := h.toWellFormed
  have hs := (steady_attachChild hwf e key).shape
  obtain ⟨hchild, hbound⟩ := keyValue_attachChild hwf he hk key
  by_cases hsame : e' = e
  · subst hsame
    have hvalue : (f.attachChild e' key).linkValue e' = key := by
      rw [linkValue, hs.edge, Cell.value, assigned_link_attachChild hwf he]
      rfl
    constructor <;> rw [hs.edge]
    · rw [hvalue, hchild]
      exact fun _ => ⟨rfl, hkey⟩
    · exact fun _ _ => hbound
  have hlink : (f.edge e').link ≠ (f.edge e).link := fun hlink => hsame (halone e' he' hlink)
  have hne : (f.edge e').child ≠ (f.edge e).child := by
    intro heq
    have hparent := hwf.parent_child he'
    rw [heq, hwf.parent_child he] at hparent
    exact hsame (Option.some.inj hparent).symm
  have hkey' := keepsKey_attachChild hwf he hk (hwf.hasChild he') hne key
  by_cases hthrough : (f.edge e').link = (f.node (f.edge e).child).key
  · -- A record joined to the child through its key had no row before either.
    have hfresh : f.isNew (f.edge e').child = true := by
      by_contra hold
      obtain ⟨hvalue, hnull⟩ := h.linked he' (Bool.not_eq_true _ ▸ hold)
      refine hnull (hvalue.symm.trans ?_)
      rw [linkValue, hthrough]
      exact keyValue_of_isNew hwf h.unstored (hwf.hasChild he) hnew
    have howner : (f.edge e').owner = (f.edge e).child := by
      rw [← hwf.owner_link he', hthrough, hwf.owner_key (hwf.hasChild he)]
    constructor <;> rw [hs.edge]
    · intro hold
      rw [hkey'.isNew, hfresh] at hold
      cases hold
    · intro hcurrent
      exact absurd howner (current_settleNode hcurrent).1
  · refine (h.join he').kept (hs.edge e') ⟨?_, ?_⟩ fun hcurrent => (current_settleNode hcurrent).2
    · exact linkValue_attachChild hwf hlink hthrough key
    · rw [childKey, hs.edge, hs.key, childKey]
      exact cell_key_attachChild hwf he hk (hwf.hasChild he') hne key

/-- **What was inserted is true.**  The child had no row before, and no other join goes through its
link. -/
theorem attachChild (h : TrueTo db root doubt f) (hroot : f.HasNode root)
    (hrootNe : root ≠ (f.edge e).child) (he : f.HasEdge e)
    (hnew : f.isNew (f.edge e).child = true) (hk : (f.cell (f.edge e).link).isKey = false)
    (halone : ∀ e', f.HasEdge e' → (f.edge e').link = (f.edge e).link → e' = e) (hkey : key ≠ .null)
    (hkept : ∀ d, f.HasCell d → (f.cell d).isKey = false → f.isNew (f.cell d).owner = false →
      f.truth db' f.keyValue d = f.truth db f.keyValue d)
    (hwritten : ∀ d ∈ f.pendingCells (f.edge e).child,
      f.truth db' (fun _ => key) d = (f.cell d).value)
    (hrow : f.RowFound db f.keyValue root → f.RowFound db' f.keyValue root) :
    TrueTo db' root doubt (f.attachChild e key) := by
  have hwf := h.toWellFormed
  have hsteady := steady_attachChild hwf e key
  have hs := hsteady.shape
  obtain ⟨hchild, hbound⟩ := keyValue_attachChild hwf he hk key
  have hkeeps {m : NodeId} (hm : f.HasNode m) (hne : m ≠ (f.edge e).child) :=
    keepsKey_attachChild hwf he hk hm hne key
  have htruth {d : CellId} (hd : f.HasCell d) (hne : (f.cell d).owner ≠ (f.edge e).child) :
      (f.attachChild e key).truth db' (f.attachChild e key).keyValue d =
        f.truth db' f.keyValue d := by
    rw [truth_of_sameShape hs, truth_congr (hkeeps (hwf.hasOwner hd) hne).keyValue]
  have hout {d : CellId} (hne : (f.cell d).owner ≠ (f.edge e).child) :
      d ∉ f.pendingCells (f.edge e).child := fun hmem =>
    hne (hwf.owner_of_mem (mem_pendingCells.1 hmem).1)
  refine of_honest (h.toIntact.steady hsteady) (fun m hcurrent => ?_)
    (fun d hd hcurrent hkd hclean => ?_) (fun d hd hsure hkd => ?_) (fun e' he' => ?_)
    (h.avoids.of_sameShape hs) fun name hdoubt => ?_
  · obtain ⟨-, hcurrent⟩ := current_settleNode hcurrent
    exact hsteady.isNew hwf (hasNode_of_current hcurrent) (h.bound hcurrent)
  · have hd := (hs.hasCell d).1 hd
    rw [hs.owner] at hcurrent
    rw [hs.isKey] at hkd
    obtain ⟨hne, hcurrent⟩ := current_settleNode hcurrent
    have hlink : d ≠ (f.edge e).link := by
      rintro rfl
      rw [Cell.isDirty, assigned_link_attachChild hwf he] at hclean
      cases hclean
    rw [cell_attachChild_of_ne hwf hlink (key_ne_of_isKey hwf (hwf.hasChild he) hkd).symm,
      cell_settleNode, if_neg (hout hne)] at hclean ⊢
    rw [htruth hd hne, hkept d hd hkd (h.bound hcurrent)]
    exact h.stored_of_current hd hcurrent hkd hclean
  · have hd := (hs.hasCell d).1 hd
    rw [hs.isKey] at hkd
    rw [stored_attachChild, cell_settleNode]
    by_cases howner : (f.cell d).owner = (f.edge e).child
    · split
      · rename_i hmem
        have hkeys : f.truth db' (f.attachChild e key).keyValue d = f.truth db' (fun _ => key) d :=
          truth_congr (by rw [howner, hchild])
        rw [truth_of_sameShape hs, hkeys, hwritten d hmem]
        exact Or.inr rfl
      · exact Or.inl (h.stored_of_isNew hd hkd (howner ▸ hnew))
    · rw [if_neg (hout howner), htruth hd howner]
      cases hnewOwner : f.isNew (f.cell d).owner with
      | true => exact Or.inl (h.stored_of_isNew hd hkd hnewOwner)
      | false =>
        rw [hkept d hd hkd hnewOwner]
        exact h.honest hd ((inDoubt_of_sameShape hs d).not.1 hsure) hkd
  · exact h.joinTrue_attachChild he hnew hk halone hkey ((hs.hasEdge e').1 he')
  · rw [rowFound_of_sameShape hs, RowFound, (hkeeps hroot hrootNe).keyValue]
    exact hrow (h.there hdoubt)

end TrueTo
end Forest
end LinkedRows
