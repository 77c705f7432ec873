/-
# What reading and saving keep

Reading and saving rows move values between columns and storage.  The shape of the forest, the flags
of deleted records and what key columns hold in storage stay, and a record that has a key keeps
having one: this is `Steady`, one lemma for each elementary change.

A record that was never read or saved through another forest holds null in storage for its key
(`KeysUnstored`), so its key is null exactly as long as the record is new, or was assigned null.
-/

import LinkedRows.Proofs.Forest.WellFormed
import LinkedRows.Save

namespace LinkedRows
namespace Forest

/-- From the first forest to the second, no record came, went, or became new again. -/
structure Steady (f g : Forest) : Prop where
  shape : SameShape f g
  deleted (n) : (g.node n).deleted = (f.node n).deleted
  keyStored {c} : (f.cell c).isKey = true → (g.cell c).stored = (f.cell c).stored
  keyDirty {c} : (f.cell c).isKey = true → (f.cell c).isDirty = true → (g.cell c).isDirty = true

/-- Storage holds no key that was not assigned. -/
def KeysUnstored (f : Forest) : Prop := ∀ c, (f.cell c).isKey = true → (f.cell c).stored = .null

variable {f g h : Forest}

namespace Steady

@[refl] theorem refl (f : Forest) : Steady f f := ⟨rfl, fun _ => rfl, fun _ => rfl, fun _ h => h⟩

theorem trans (hs : Steady f g) (ht : Steady g h) : Steady f h where
  shape := hs.shape.trans ht.shape
  deleted n := (ht.deleted n).trans (hs.deleted n)
  keyStored hk := (ht.keyStored ((hs.shape.isKey _).trans hk)).trans (hs.keyStored hk)
  keyDirty hk hd := ht.keyDirty ((hs.shape.isKey _).trans hk) (hs.keyDirty hk hd)

theorem wellFormed (hs : Steady f g) (hf : WellFormed f) : WellFormed g := hf.of_sameShape hs.shape

theorem keysUnstored (hs : Steady f g) (hf : KeysUnstored f) : KeysUnstored g := fun c hk => by
  have hk : (f.cell c).isKey = true := (hs.shape.isKey c).symm.trans hk
  rw [hs.keyStored hk, hf c hk]

/-- A record that is not new stays so. -/
theorem isNew (hs : Steady f g) (hf : WellFormed f) {n : NodeId} (hn : f.HasNode n)
    (h : f.isNew n = false) : g.isNew n = false := by
  have hk : (f.cell (f.node n).key).isKey = true := (hf.isKey_of_mem (hf.key_mem hn)).2 rfl
  rw [Forest.isNew, Bool.not_eq_false'] at h ⊢
  rw [hs.shape.key]
  exact hs.keyDirty hk h

/-- A key that is assigned in neither forest is the same in both. -/
theorem cell_of_clean (hs : Steady f g) {c : CellId} (hk : (f.cell c).isKey = true)
    (hf : (f.cell c).isDirty = false) (hg : (g.cell c).isDirty = false) : g.cell c = f.cell c := by
  have hname := hs.shape.name c
  have howner := hs.shape.owner c
  have hkey := hs.shape.isKey c
  have hstored := hs.keyStored hk
  rw [Cell.isDirty, Option.isSome_eq_false_iff, Option.isNone_iff_eq_none] at hf hg
  rw [← hf] at hg
  cases hcf : f.cell c
  cases hcg : g.cell c
  rw [hcf, hcg] at hname howner hkey hstored hg
  cases hname
  cases howner
  cases hkey
  cases hstored
  cases hg
  rfl

/-- A record that is new has been new before. -/
theorem wasNew (hs : Steady f g) (hf : WellFormed f) {n : NodeId} (hn : f.HasNode n)
    (h : g.isNew n = true) : f.isNew n = true := by
  by_contra hbound
  have hkept := hs.isNew hf hn (Bool.not_eq_true _ ▸ hbound)
  exact Bool.false_ne_true (hkept.symm.trans h)

end Steady

/-- From the first forest to the second, steadily, no columns changed but those of some records. -/
structure Reaches (records : List NodeId) (f g : Forest) : Prop extends Steady f g where
  cell {c} : (f.cell c).owner ∉ records → g.cell c = f.cell c

namespace Reaches

variable {records others : List NodeId}

@[refl] theorem refl (records : List NodeId) (f : Forest) : Reaches records f f :=
  ⟨Steady.refl f, fun _ => rfl⟩

theorem trans (hr : Reaches records f g) (ht : Reaches records g h) : Reaches records f h where
  toSteady := hr.toSteady.trans ht.toSteady
  cell hc := by rw [ht.cell (by rwa [hr.shape.owner]), hr.cell hc]

theorem mono (hr : Reaches records f g) (hsub : ∀ n ∈ records, n ∈ others) : Reaches others f g :=
  ⟨hr.toSteady, fun hc => hr.cell fun hmem => hc (hsub _ hmem)⟩

/-- Other records keep their keys. -/
theorem cell_key (hr : Reaches records f g) (hf : WellFormed f) {n : NodeId} (hn : f.HasNode n)
    (h : n ∉ records) : g.cell (g.node n).key = f.cell (f.node n).key := by
  rw [hr.shape.key, hr.cell (by rwa [hf.owner_key hn])]

theorem keyValue (hr : Reaches records f g) (hf : WellFormed f) {n : NodeId} (hn : f.HasNode n)
    (h : n ∉ records) : g.keyValue n = f.keyValue n := by
  rw [Forest.keyValue, Forest.keyValue, hr.cell_key hf hn h]

theorem isNew (hr : Reaches records f g) (hf : WellFormed f) {n : NodeId} (hn : f.HasNode n)
    (h : n ∉ records) : g.isNew n = f.isNew n := by
  rw [Forest.isNew, Forest.isNew, hr.cell_key hf hn h]

end Reaches

/-! ## Keys -/

theorem isKey_key (hf : WellFormed f) {n : NodeId} (hn : f.HasNode n) :
    (f.cell (f.node n).key).isKey = true := (hf.isKey_of_mem (hf.key_mem hn)).2 rfl

/-- A record whose key is not null is not new. -/
theorem isNew_of_keyValue (hf : WellFormed f) (hk : KeysUnstored f) {n : NodeId} (hn : f.HasNode n)
    (h : f.keyValue n ≠ .null) : f.isNew n = false := by
  by_contra hnew
  rw [Bool.not_eq_false, isNew, Bool.not_eq_true', Cell.isDirty, Option.isSome_eq_false_iff,
    Option.isNone_iff_eq_none] at hnew
  refine h ?_
  rw [keyValue, Cell.value, hnew, hk _ (isKey_key hf hn)]
  rfl

theorem keyValue_of_isNew (hf : WellFormed f) (hk : KeysUnstored f) {n : NodeId}
    (hn : f.HasNode n) (h : f.isNew n = true) : f.keyValue n = .null := by
  by_contra hv
  rw [isNew_of_keyValue hf hk hn hv] at h
  exact Bool.false_ne_true h

/-- A column of a record that is not new is not its key if it is not assigned. -/
theorem isKey_eq_false_of_clean (hf : WellFormed f) {n : NodeId} {c : CellId}
    (hc : c ∈ (f.node n).cells) (hn : f.isNew n = false) (hclean : (f.cell c).isDirty = false) :
    (f.cell c).isKey = false := by
  by_contra hk
  rw [Bool.not_eq_false, hf.isKey_of_mem hc] at hk
  rw [isNew, hk, hclean] at hn
  exact absurd hn (by decide)

/-- From the first forest to the second, a record keeps its key, or stays without. -/
structure KeepsKey (f g : Forest) (n : NodeId) : Prop where
  isNew : g.isNew n = f.isNew n
  keyValue : g.keyValue n = f.keyValue n

theorem SameShape.keepsKey {n : NodeId} (hs : SameShape f g)
    (h : g.cell (f.node n).key = f.cell (f.node n).key) : KeepsKey f g n := by
  constructor
  · rw [Forest.isNew, Forest.isNew, hs.key, h]
  · rw [Forest.keyValue, Forest.keyValue, hs.key, h]

theorem KeepsKey.trans {n : NodeId} (hfg : KeepsKey f g n) (hgh : KeepsKey g h n) :
    KeepsKey f h n := ⟨hgh.isNew.trans hfg.isNew, hgh.keyValue.trans hfg.keyValue⟩

/-! ## Bound and stale records -/

section

variable {n : NodeId}

theorem isBound_iff : f.isBound n = true ↔ f.isNew n = false ∧ (f.node n).deleted = false := by
  rw [isBound, Bool.and_eq_true, Bool.not_eq_true', Bool.not_eq_true']

theorem isStale_iff : f.isStale n = true ↔ f.isBound n = true ∧ (f.node n).current = false := by
  rw [isStale, Bool.and_eq_true, Bool.not_eq_true']

theorem isNew_of_isBound (h : f.isBound n = true) : f.isNew n = false := (isBound_iff.1 h).1

theorem isNew_of_isStale (h : f.isStale n = true) : f.isNew n = false :=
  isNew_of_isBound (isStale_iff.1 h).1

theorem isBound_eq_false_of_deleted (h : (f.node n).deleted = true) : f.isBound n = false := by
  rw [isBound, h, Bool.not_true, Bool.and_false]

end

/-! ## Columns of a record -/

theorem steady_load (f : Forest) {cells : List CellId} (values : List Value)
    (hcells : ∀ c ∈ cells, (f.cell c).isKey = false) : Steady f (f.load cells values) where
  shape := sameShape_load f cells values
  deleted n := by rw [node_load]
  keyStored {c} hk := by
    rcases cell_load f cells values c with hc | ⟨hc, -⟩
    · rw [hc]
    · rw [hcells c hc] at hk
      exact absurd hk Bool.false_ne_true
  keyDirty {c} hk hd := by
    rcases cell_load f cells values c with hc | ⟨hc, -⟩
    · rwa [hc]
    · rw [hcells c hc] at hk
      exact absurd hk Bool.false_ne_true

theorem steady_settle (f : Forest) {cells : List CellId}
    (hcells : ∀ c ∈ cells, (f.cell c).isKey = false) : Steady f (f.settle cells) := by
  have hcell {c : CellId} (hk : (f.cell c).isKey = true) : (f.settle cells).cell c = f.cell c := by
    rw [cell_settle, if_neg]
    intro hc
    rw [hcells c hc] at hk
    exact Bool.false_ne_true hk
  exact
    { shape := sameShape_settle f cells
      deleted := fun n => by rw [node_settle]
      keyStored := fun hk => by rw [hcell hk]
      keyDirty := fun hk hd => by rwa [hcell hk] }

theorem steady_assignCell (f : Forest) (c : CellId) (v : Value) :
    Steady f (f.modifyCell c (·.assign v)) where
  shape := sameShape_modifyCell f c fun _ => rfl
  deleted _ := rfl
  keyStored _ := cell_modifyCell_proj f Cell.stored c _ fun _ => rfl
  keyDirty {d} _ hd := by
    rw [cell_modifyCell]
    split
    · rfl
    · exact hd

/-- Assigning a column that is no key leaves keys alone. -/
theorem cell_key_assignCell (hf : WellFormed f) {c : CellId} (hk : (f.cell c).isKey = false)
    {n : NodeId} (hn : f.HasNode n) (v : Value) :
    (f.modifyCell c (·.assign v)).cell (f.node n).key = f.cell (f.node n).key := by
  rw [cell_modifyCell_of_ne]
  rintro rfl
  rw [isKey_key hf hn] at hk
  cases hk

theorem isNew_assignCell (hf : WellFormed f) {c : CellId} (hk : (f.cell c).isKey = false)
    {n : NodeId} (hn : f.HasNode n) (v : Value) :
    (f.modifyCell c (·.assign v)).isNew n = f.isNew n := by
  rw [isNew, isNew, node_modifyCell, cell_key_assignCell hf hk hn]

theorem steady_setKey (f : Forest) (n : NodeId) (key : Value) : Steady f (f.setKey n key) :=
  steady_assignCell f _ key

theorem steady_setCurrent (f : Forest) (n : NodeId) (current : Bool) :
    Steady f (f.setCurrent n current) where
  shape := sameShape_setCurrent f n current
  deleted m := node_modifyNode_proj f Node.deleted n m fun _ => rfl
  keyStored _ := rfl
  keyDirty _ h := h

/-! ## One join -/

theorem steady_seedChild (f : Forest) (e : EdgeId) : Steady f (f.seedChild e) := by
  unfold seedChild
  dsimp only
  split
  · exact steady_setKey f _ _
  · rfl

theorem steady_followChild (f : Forest) (e : EdgeId) (wasNew : Bool) :
    Steady f (f.followChild e wasNew) := by
  unfold followChild
  dsimp only
  split
  · exact steady_assignCell f _ _
  · rfl

@[simp] theorem node_seedChild (f : Forest) (e : EdgeId) (n : NodeId) :
    (f.seedChild e).node n = f.node n := by
  unfold seedChild
  dsimp only
  split <;> rfl

theorem stored_seedChild (f : Forest) (e : EdgeId) (c : CellId) :
    ((f.seedChild e).cell c).stored = (f.cell c).stored := by
  unfold seedChild
  dsimp only
  split
  · exact cell_modifyCell_proj f Cell.stored _ c fun _ => rfl
  · rfl

/-- A child that is not new is not seeded. -/
theorem seedChild_of_bound {e : EdgeId} (h : f.isNew (f.edge e).child = false) :
    f.seedChild e = f := by
  unfold seedChild
  dsimp only
  rw [h, Bool.false_and]
  rfl

theorem seedChild_of_null {e : EdgeId} (h : (f.cell (f.edge e).link).value = .null) :
    f.seedChild e = f := by
  unfold seedChild
  dsimp only
  rw [h, Value.isNull, Bool.not_true, Bool.and_false]
  rfl

/-- A new child of a link that is not null gets its value for a key. -/
theorem seedChild_of_value {e : EdgeId} (h : f.isNew (f.edge e).child = true)
    (hv : (f.cell (f.edge e).link).value ≠ .null) :
    f.seedChild e = f.setKey (f.edge e).child (f.cell (f.edge e).link).value := by
  have hnull : (f.cell (f.edge e).link).value.isNull = false := by
    cases hvalue : (f.cell (f.edge e).link).value <;> first | rfl | exact absurd hvalue hv
  unfold seedChild
  dsimp only
  rw [h, hnull]
  rfl

/-- Seeding a child reaches its key and no other column. -/
theorem cell_seedChild_of_ne {e : EdgeId} {c : CellId} (h : c ≠ (f.node (f.edge e).child).key) :
    (f.seedChild e).cell c = f.cell c := by
  unfold seedChild
  dsimp only
  split
  · exact cell_modifyCell_of_ne f h _
  · rfl

/-- Following a child reaches the link and no other column. -/
theorem cell_followChild_of_ne {e : EdgeId} {wasNew : Bool} {c : CellId}
    (h : c ≠ (f.edge e).link) : (f.followChild e wasNew).cell c = f.cell c := by
  unfold followChild
  dsimp only
  split
  · exact cell_modifyCell_of_ne f h _
  · rfl

theorem reaches_seedChild (hf : WellFormed f) {e : EdgeId} (he : f.HasEdge e) :
    Reaches [(f.edge e).child] f (f.seedChild e) where
  toSteady := steady_seedChild f e
  cell {c} hc := by
    refine cell_seedChild_of_ne ?_
    rintro rfl
    rw [hf.owner_key (hf.hasChild he)] at hc
    exact hc (List.mem_singleton_self _)

/-- Loading columns of a record that are not its key reaches that record alone. -/
theorem reaches_load (hf : WellFormed f) {n : NodeId} {cells : List CellId} (values : List Value)
    (hcells : ∀ c ∈ cells, c ∈ (f.node n).cells ∧ (f.cell c).isKey = false) :
    Reaches [n] f (f.load cells values) where
  toSteady := steady_load f values fun c hc => (hcells c hc).2
  cell {c} hc := by
    rcases cell_load f cells values c with h | ⟨h, -⟩
    · exact h
    · rw [hf.owner_of_mem (hcells c h).1] at hc
      exact absurd (List.mem_singleton_self n) hc

/-! ## Planned writes -/

theorem mem_pendingCells {n : NodeId} {c : CellId} :
    c ∈ f.pendingCells n ↔
      c ∈ (f.node n).cells ∧ (f.cell c).isDirty = true ∧ (f.cell c).isKey = false := by
  rw [pendingCells, List.mem_filter, Bool.and_eq_true, Bool.not_eq_true']

theorem reaches_settle (hf : WellFormed f) (n : NodeId) :
    Reaches [n] f (f.settle (f.pendingCells n)) where
  toSteady := steady_settle f fun c hc => (mem_pendingCells.1 hc).2.2
  cell {c} hc := by
    rw [cell_settle, if_neg]
    intro hmem
    rw [hf.owner_of_mem (mem_pendingCells.1 hmem).1] at hc
    exact hc (List.mem_singleton_self n)

theorem reaches_setKey (hf : WellFormed f) {n : NodeId} (hn : f.HasNode n) (key : Value) :
    Reaches [n] f (f.setKey n key) where
  toSteady := steady_setKey f n key
  cell {c} hc := by
    refine cell_modifyCell_of_ne f ?_ _
    rintro rfl
    rw [hf.owner_key hn] at hc
    exact hc (List.mem_singleton_self n)

theorem keyValue_setKey (hf : WellFormed f) {n : NodeId} (hn : f.HasNode n) (key : Value) :
    (f.setKey n key).keyValue n = key := by
  rw [keyValue, (steady_setKey f n key).shape.key, setKey,
    cell_modifyCell_self f (hf.hasCell_key hn)]
  rfl

/-- A record that was given a key is not new. -/
theorem isNew_setKey (hf : WellFormed f) {n : NodeId} (hn : f.HasNode n) (key : Value) :
    (f.setKey n key).isNew n = false := by
  rw [isNew, (steady_setKey f n key).shape.key, setKey, cell_modifyCell_self f (hf.hasCell_key hn)]
  rfl

/-- A child whose link is not null has a key once it was seeded. -/
theorem isNew_seedChild (hf : WellFormed f) {e : EdgeId} (he : f.HasEdge e)
    (hv : (f.cell (f.edge e).link).value ≠ .null) :
    (f.seedChild e).isNew (f.edge e).child = false := by
  cases hnew : f.isNew (f.edge e).child with
  | false => rw [seedChild_of_bound hnew, hnew]
  | true =>
    rw [seedChild_of_value hnew hv]
    exact isNew_setKey hf (hf.hasChild he) _

theorem reaches_setCurrent (f : Forest) (n : NodeId) (current : Bool) :
    Reaches [] f (f.setCurrent n current) := ⟨steady_setCurrent f n current, fun _ => rfl⟩

/-- A record that was inserted is not new. -/
theorem isNew_inserted (hf : WellFormed f) {n : NodeId} (hn : f.HasNode n) (key : Value) :
    (((f.settle (f.pendingCells n)).setKey n key).setCurrent n false).isNew n = false := by
  have hs := (reaches_settle hf n).toSteady
  have hn := (hs.shape.hasNode n).2 hn
  have hkey := steady_setKey (f.settle (f.pendingCells n)) n key
  exact (steady_setCurrent _ n false).isNew (hkey.wellFormed (hs.wellFormed hf))
    ((hkey.shape.hasNode n).2 hn) (isNew_setKey (hs.wellFormed hf) hn key)

/-- A record that is saved is inserted as long as it is new, and else updated if it has something
assigned. -/
theorem planSave?_eq_some {n : NodeId} {direct : Bool} {write : Write}
    (h : f.planSave? n direct = some write) :
    (∃ fields, f.isNew n = true ∧
      write = .insert n (f.node n).table (f.pendingCells n) fields) ∨
    ∃ fields, f.isNew n = false ∧ f.pendingCells n ≠ [] ∧
      write = .update n (f.node n).table (f.rowKey n) (f.pendingCells n) fields := by
  unfold planSave? at h
  dsimp only at h
  split at h
  · rename_i hnew
    split at h
    · cases h
    · exact Or.inl ⟨_, hnew, (Option.some.inj h).symm⟩
  · rename_i hnew
    split at h
    · cases h
    · rename_i hcells
      refine Or.inr ⟨_, Bool.not_eq_true _ ▸ hnew, ?_, (Option.some.inj h).symm⟩
      simpa using hcells

/-- A record needs no write if it has nothing assigned and is not both new and saved itself. -/
theorem planSave?_eq_none {n : NodeId} {direct : Bool} :
    f.planSave? n direct = none ↔ f.pendingCells n = [] ∧ (f.isNew n = true → direct = false) := by
  unfold planSave?
  cases f.isNew n <;> cases direct <;> simp

end Forest
end LinkedRows
