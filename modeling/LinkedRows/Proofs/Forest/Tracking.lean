/-
# What was read of records

A current record is not read again, so it has to hold what its row holds.  The flag is raised in one
place, after all columns that are not assigned were read; everything that moves a record to another
row or gives it a column has to lower it.  What was read of a record fits the row under its key
(`ReadFrom`) then: all of it, if the record is current, and nothing, if there is no such row.

Growing, reading and assigning keep that (`Tracks`), except for one step.  Assigning a link binds
the records behind it anew, which forgets what was read of them; but assigning the key of a record
that has a row moves the record itself, and neither lowers the flag nor forgets anything
(`Tracks.assign_iff`).
-/

import LinkedRows.Proofs.Forest.Mirror
import LinkedRows.Proofs.Forest.Rebinding

namespace LinkedRows

/-- A column that is not assigned shows what is stored. -/
theorem Cell.value_of_clean {cell : Cell} (h : cell.isDirty = false) :
    cell.value = cell.stored := by
  unfold Cell.isDirty at h
  unfold Cell.value
  cases ha : cell.assigned with
  | none => rfl
  | some v =>
    rw [ha] at h
    cases h

namespace Forest

/-- Each current record that has a row shows what the row under its key holds, in all columns that
are not assigned, and null if there is no such row. -/
def UpToDate (db : Database) (f : Forest) : Prop :=
  ∀ n, f.HasNode n → f.isBound n = true → (f.node n).current = true →
    ∀ d ∈ (f.node n).cells, (f.cell d).isDirty = false →
      (f.cell d).value = db.value ⟨(f.node n).table, f.keyName n, f.keyValue n⟩ (f.cell d).name

/-- What was read of a record is what the row under a key holds: all of it, if the record is
current, and nothing, if there is no such row. -/
structure ReadFrom (db : Database) (f : Forest) (n : NodeId) (key : Value) : Prop where
  current {d} : (f.node n).current = true → d ∈ (f.node n).cells → (f.cell d).isKey = false →
    (f.cell d).isDirty = false → (f.cell d).stored = f.truth db (fun _ => key) d
  absent {d} : ¬f.RowFound db (fun _ => key) n → d ∈ (f.node n).cells →
    (f.cell d).isKey = false → (f.cell d).isDirty = false → (f.cell d).stored = .null

/-- What was read of each record is what the row under its key holds, and only records that have a
key are current. -/
structure Tracks (db : Database) (f : Forest) : Prop extends Intact f where
  bound {n} : (f.node n).current = true → f.isNew n = false
  read {n} : f.HasNode n → f.ReadFrom db n (f.keyValue n)

variable {db : Database} {f g : Forest} {n : NodeId} {key : Value}

/-! ## One record -/

/-- A record of which nothing was read fits any row. -/
theorem readFrom_of_unread (hcurrent : (f.node n).current = false)
    (hstored : ∀ d ∈ (f.node n).cells, (f.cell d).isKey = false → (f.cell d).stored = .null)
    (key : Value) : f.ReadFrom db n key := by
  constructor
  · intro d hcur
    rw [hcurrent] at hcur
    exact absurd hcur Bool.false_ne_true
  · intro d _ hmem hk _
    exact hstored d hmem hk

/-- A change that may load true values and assign columns, and marks no record as current. -/
theorem ReadFrom.of_sameShape (h : f.ReadFrom db n key) (hf : WellFormed f) (hs : SameShape f g)
    (hcurrent : (g.node n).current = true → (f.node n).current = true)
    (hcells : ∀ d ∈ (f.node n).cells, (f.cell d).isKey = false → (g.cell d).isDirty = false →
      (f.cell d).isDirty = false ∧ ((g.cell d).stored = (f.cell d).stored ∨
        (g.cell d).stored = f.truth db (fun _ => key) d)) : g.ReadFrom db n key := by
  constructor
  · intro d hcur hmem hk hclean
    rw [hs.cells] at hmem
    rw [hs.isKey] at hk
    rw [truth_of_sameShape hs]
    obtain ⟨hclean, hstored | hstored⟩ := hcells d hmem hk hclean
    · rw [hstored]
      exact h.current (hcurrent hcur) hmem hk hclean
    · exact hstored
  · intro d hrow hmem hk hclean
    rw [hs.cells] at hmem
    rw [hs.isKey] at hk
    rw [rowFound_of_sameShape hs] at hrow
    obtain ⟨hclean, hstored | hstored⟩ := hcells d hmem hk hclean
    · rw [hstored]
      exact h.absent hrow hmem hk hclean
    · rw [hstored]
      exact truth_of_not_rowFound hf hmem hk hrow

/-- A change that leaves the columns of a record alone, except its key. -/
theorem readFrom_iff_of_cells (hf : WellFormed f) (hs : SameShape f g)
    (hcurrent : (g.node n).current = (f.node n).current)
    (hcells : ∀ d ∈ (f.node n).cells, (f.cell d).isKey = false → g.cell d = f.cell d) :
    g.ReadFrom db n key ↔ f.ReadFrom db n key := by
  constructor
  · intro h
    refine h.of_sameShape (hf.of_sameShape hs) hs.symm (by simp [hcurrent])
      fun d hmem hk hclean => ?_
    rw [hs.cells] at hmem
    rw [hs.isKey] at hk
    rw [hcells d hmem hk]
    exact ⟨hclean, Or.inl rfl⟩
  · intro h
    refine h.of_sameShape hf hs (by simp [hcurrent]) fun d hmem hk hclean => ?_
    rw [hcells d hmem hk] at hclean ⊢
    exact ⟨hclean, Or.inl rfl⟩

/-- A record without a key may be given any: nothing was read of it. -/
theorem Tracks.readFrom_of_isNew (h : Tracks db f) (hn : f.HasNode n) (hnew : f.isNew n = true)
    (key : Value) : f.ReadFrom db n key := by
  have hnull := keyValue_of_isNew h.toWellFormed h.unstored hn hnew
  constructor
  · intro d hcurrent
    rw [h.bound hcurrent] at hnew
    exact absurd hnew Bool.false_ne_true
  · intro d _ hmem hk hclean
    exact (h.read hn).absent (fun hrow => hrow.1 hnull) hmem hk hclean

/-- A record of which all columns that are not assigned hold what the row holds. -/
theorem readFrom_of_current (hf : WellFormed f)
    (hread : ∀ d ∈ (f.node n).cells, (f.cell d).isKey = false → (f.cell d).isDirty = false →
      (f.cell d).stored = f.truth db (fun _ => key) d) : f.ReadFrom db n key := by
  constructor
  · intro d _ hmem hk hclean
    exact hread d hmem hk hclean
  · intro d hrow hmem hk hclean
    rw [hread d hmem hk hclean]
    exact truth_of_not_rowFound hf hmem hk hrow

namespace Tracks

/-- A forest that tracks a database is up to date. -/
theorem upToDate (h : Tracks db f) : UpToDate db f := by
  intro n hn hbound hcurrent d hmem hclean
  have hk := isKey_eq_false_of_clean h.toWellFormed hmem (isNew_of_isBound hbound) hclean
  have htrue := (h.read hn).current hcurrent hmem hk hclean
  rw [truth, place, h.owner_of_mem hmem] at htrue
  rw [Cell.value_of_clean hclean]
  exact htrue

end Tracks

/-! ## Growing -/

/-- Nothing is known of a column that was added. -/
theorem Grows.stored_null (hg : Grows f g) {d : CellId} (hd : ¬f.HasCell d) :
    (g.cell d).stored = .null := by
  induction hg with
  | refl =>
    rw [cell_of_not_hasCell f hd]
    rfl
  | cell =>
    rw [cell_withCell]
    split <;> trivial
  | join =>
    rw [cell_withJoin]
    split <;> trivial

/-- No record becomes current by growth. -/
theorem Grows.wasCurrent (hf : WellFormed f) (hg : Grows f g) (h : (g.node n).current = true) :
    (f.node n).current = true := by
  induction hg with
  | refl => exact h
  | cell _ hn _ ih =>
    rw [node_withCell hn] at h
    split at h
    · exact absurd h Bool.false_ne_true
    · exact ih h
  | join hfg hl _ ih =>
    rw [node_withJoin ((hf.grows hfg).hasOwner hl)] at h
    split at h
    · exact absurd h Bool.false_ne_true
    · split at h
      · exact ih h
      · exact ih h

/-- A record that was there before has the columns that it had, and new ones that hold nothing. -/
theorem ReadFrom.grows (h : f.ReadFrom db n key) (hf : WellFormed f) (hg : Grows f g)
    (hn : f.HasNode n) : g.ReadFrom db n key := by
  have hx := hg.extends hf
  have howner {d : CellId} (hmem : d ∈ (g.node n).cells) : (g.cell d).owner = n :=
    (hf.grows hg).owner_of_mem hmem
  constructor
  · intro d hcurrent hmem hk hclean
    rw [hx.cells_of_current hn hcurrent] at hmem
    have hd := hf.hasCell hmem
    rw [truth_of_extends hf hx (fun _ _ => rfl) hd]
    rw [hx.cell hd] at hk hclean ⊢
    exact h.current (hg.wasCurrent hf hcurrent) hmem hk hclean
  · intro d hrow hmem hk hclean
    rw [rowFound_of_extends hf hx (fun _ _ => rfl) hn] at hrow
    by_cases hd : f.HasCell d
    · have hold := howner hmem
      rw [hx.cell hd] at hold hk hclean ⊢
      exact h.absent hrow (hold ▸ hf.mem_owner hd) hk hclean
    · exact hg.stored_null hd

namespace Tracks

theorem grows (h : Tracks db f) (hg : Grows f g) : Tracks db g where
  toIntact := h.toIntact.grows hg
  bound {n} hcurrent := by
    have hold := hg.wasCurrent h.toWellFormed hcurrent
    rw [(hg.extends h.toWellFormed).isNew h.toWellFormed (hasNode_of_current hold)]
    exact h.bound hold
  read {n} _ := by
    have hx := hg.extends h.toWellFormed
    by_cases hold : f.HasNode n
    · rw [hx.keyValue h.toWellFormed hold]
      exact (h.read hold).grows h.toWellFormed hg hold
    · refine readFrom_of_unread ?_ (fun d hmem _ => hg.stored_null fun hd => hold ?_) _
      · by_contra hcurrent
        rw [Bool.not_eq_false] at hcurrent
        exact hold (hasNode_of_current (hg.wasCurrent h.toWellFormed hcurrent))
      · have howner := (h.toWellFormed.grows hg).owner_of_mem hmem
        rw [hx.cell hd] at howner
        exact howner ▸ h.hasOwner hd

theorem addRoot_empty (table keyName : String) (key : Value) :
    Tracks db (Forest.empty.addRoot table keyName key).2 := by
  have hnode (n : NodeId) :
      ((Forest.empty.addRoot table keyName key).2.node n).current = false := by
    rw [Forest.addRoot, node_addNode]
    split <;> rfl
  have hstored (d : CellId) :
      ((Forest.empty.addRoot table keyName key).2.cell d).stored = .null := by
    rw [Forest.addRoot, cell_addNode]
    split <;> rfl
  refine ⟨Intact.empty.addRoot table keyName key, fun {n} hcurrent => ?_, fun {n} _ => ?_⟩
  · rw [hnode] at hcurrent
    exact absurd hcurrent Bool.false_ne_true
  · exact readFrom_of_unread (hnode n) (fun d _ _ => hstored d) _

/-! ## Changes of one record -/

theorem of_record (h : Tracks db f) (hg : Intact g) (hs : SameShape f g)
    (hcell : ∀ d, (f.cell d).owner ≠ n → g.cell d = f.cell d)
    (hcurrent : ∀ m, m ≠ n → (g.node m).current = (f.node m).current)
    (hbound : (g.node n).current = true → g.isNew n = false)
    (hread : g.ReadFrom db n (g.keyValue n)) : Tracks db g where
  toIntact := hg
  bound {m} hcur := by
    by_cases hmn : m = n
    · subst hmn
      exact hbound hcur
    · rw [hcurrent m hmn] at hcur
      have hm := hasNode_of_current hcur
      rw [isNew, hs.key, hcell _ (by rwa [h.owner_key hm])]
      exact h.bound hcur
  read {m} hm := by
    by_cases hmn : m = n
    · subst hmn
      exact hread
    · have hm := (hs.hasNode m).1 hm
      have hkey : g.keyValue m = f.keyValue m := by
        rw [keyValue, hs.key, hcell _ (by rwa [h.owner_key hm]), keyValue]
      rw [hkey]
      refine (readFrom_iff_of_cells h.toWellFormed hs (hcurrent m hmn) fun d hmem _ => ?_).2
        (h.read hm)
      exact hcell d (by rwa [h.owner_of_mem hmem])

end Tracks

/-! ## Assigning -/

variable {d : CellId}

/-- An assigned column may hold anything. -/
theorem ReadFrom.assignCell (h : f.ReadFrom db n key) (hf : WellFormed f) (d : CellId) (v : Value) :
    (f.modifyCell d (·.assign v)).ReadFrom db n key := by
  refine h.of_sameShape hf (sameShape_modifyCell f d fun _ => rfl) id fun x hmem _ hclean => ?_
  have hx : x ≠ d := by
    rintro rfl
    rw [cell_modifyCell_self f (hf.hasCell hmem)] at hclean
    exact absurd hclean (by simp [Cell.isDirty, Cell.assign])
  rw [cell_modifyCell_of_ne f hx] at hclean ⊢
  exact ⟨hclean, Or.inl rfl⟩

/-- The key of a record is what was assigned to it. -/
theorem keyValue_assign (hf : WellFormed f) (hd : f.HasCell d) (hk : (f.cell d).isKey = true)
    (v : Value) : (f.assign d v).keyValue (f.cell d).owner = v := by
  rw [keyValue, (sameShape_assign f d v).key, (hf.isKey_iff hd).1 hk, cell_assign_self hf hd]
  rfl

theorem isNew_assign_key (hf : WellFormed f) (hd : f.HasCell d) (hk : (f.cell d).isKey = true)
    (v : Value) : (f.assign d v).isNew (f.cell d).owner = false := by
  rw [isNew, (sameShape_assign f d v).key, (hf.isKey_iff hd).1 hk, cell_assign_self hf hd]
  rfl

/-- An assignment does not reach the record of the column itself, but for that column. -/
theorem node_assign_owner (hf : WellFormed f) (d : CellId) (v : Value) :
    (f.assign d v).node (f.cell d).owner = f.node (f.cell d).owner := by
  rw [(rebinds_assign hf d v).node_eq (Nat.le_refl _), node_modifyCell]

/-- Moving a record to another row changes nothing of what was read of it. -/
theorem readFrom_assign_key (hf : WellFormed f) (hk : (f.cell d).isKey = true) (v : Value) :
    (f.assign d v).ReadFrom db (f.cell d).owner key ↔ f.ReadFrom db (f.cell d).owner key := by
  refine readFrom_iff_of_cells hf (sameShape_assign f d v) (by rw [node_assign_owner hf])
    fun x hmem hx => ?_
  have hs : SameShape f (f.modifyCell d (·.assign v)) := sameShape_modifyCell f d fun _ => rfl
  have howner : ((f.modifyCell d (·.assign v)).cell x).owner = (f.cell d).owner := by
    rw [hs.owner, hf.owner_of_mem hmem]
  rw [(rebinds_assign hf d v).cell (hf.of_sameShape hs) (Nat.le_of_eq (by rw [howner])),
    cell_modifyCell_of_ne]
  rintro rfl
  rw [hk] at hx
  exact Bool.false_ne_true hx.symm

namespace Tracks

theorem assignCell (h : Tracks db f) (hd : f.HasCell d) {v : Value}
    (hv : (f.cell d).isKey = true → f.ReadFrom db (f.cell d).owner v) :
    Tracks db (f.modifyCell d (·.assign v)) := by
  have hs := steady_assignCell f d v
  refine h.of_record (n := (f.cell d).owner) (h.toIntact.steady hs) hs.shape (fun x hx => ?_)
    (fun _ _ => rfl) (fun hcurrent => ?_) ?_
  · refine cell_modifyCell_of_ne f ?_ _
    rintro rfl
    exact hx rfl
  · exact hs.isNew h.toWellFormed (h.hasOwner hd) (h.bound hcurrent)
  · refine ReadFrom.assignCell ?_ h.toWellFormed d v
    cases hk : (f.cell d).isKey with
    | true =>
      have hkey : (f.modifyCell d (·.assign v)).keyValue (f.cell d).owner = v := by
        rw [keyValue, node_modifyCell, (h.isKey_iff hd).1 hk, cell_modifyCell_self f hd]
        rfl
      rw [hkey]
      exact hv hk
    | false =>
      rw [keyValue, node_modifyCell, cell_key_assignCell h.toWellFormed hk (h.hasOwner hd)]
      exact h.read (h.hasOwner hd)

/-- A record that is bound to another row is not current, and nothing is known of its columns. -/
theorem rebindNode (h : Tracks db f) (hn : f.HasNode n) (key : Value) :
    Tracks db (f.rebindNode n key) := by
  have hs := sameShape_rebindNode f n key
  have hcurrent : ((f.rebindNode n key).node n).current = false := by
    rw [node_rebindNode, if_pos ⟨rfl, hn⟩]
  refine h.of_record (n := n) (h.toIntact.forgets (forgets_rebindNode f n key)) hs
    (fun d hd => cell_rebindNode_of_owner_ne h.toWellFormed hn hd) (fun m hm => ?_)
    (fun hcur => ?_) (readFrom_of_unread hcurrent (fun d hmem hk => ?_) _)
  · rw [node_rebindNode, if_neg fun hmn => hm hmn.1]
  · rw [hcurrent] at hcur
    exact absurd hcur Bool.false_ne_true
  · rw [hs.cells] at hmem
    rw [hs.isKey] at hk
    have hkey : d ≠ (f.node n).key := by
      rintro rfl
      rw [isKey_key h.toWellFormed hn] at hk
      exact Bool.false_ne_true hk.symm
    rw [cell_rebindNode h.toWellFormed hn, if_neg hkey, if_pos hmem]
    rfl

theorem rebinds {oldest : NodeId} (h : Tracks db f) (hr : Rebinds oldest f g) : Tracks db g := by
  induction hr with
  | refl => exact h
  | node key _ hn _ ih => exact ih.rebindNode hn key

end Tracks

/-- If the column is the key of a record that has one, the row under the new key holds what was read
of the record. -/
def MovesAlike (db : Database) (f : Forest) (d : CellId) (v : Value) : Prop :=
  (f.cell d).isKey = true → f.isNew (f.cell d).owner = false →
    f.ReadFrom db (f.cell d).owner v

/-- **An assignment keeps a forest in line with its database exactly if it moves no record that was
read to a row that does not hold what was read.** -/
theorem Tracks.assign_iff (h : Tracks db f) (hd : f.HasCell d) (v : Value) :
    Tracks db (f.assign d v) ↔ f.MovesAlike db d v := by
  constructor
  · intro hassigned hk _
    have hread := hassigned.read (((sameShape_assign f d v).hasNode _).2 (h.hasOwner hd))
    rw [keyValue_assign h.toWellFormed hd hk] at hread
    exact (readFrom_assign_key h.toWellFormed hk v).1 hread
  · intro hmoves
    refine (h.assignCell hd fun hk => ?_).rebinds (rebinds_assign h.toWellFormed d v)
    cases hnew : f.isNew (f.cell d).owner with
    | true => exact h.readFrom_of_isNew (h.hasOwner hd) hnew v
    | false => exact hmoves hk hnew

/-- If a forest is up to date after a current record was moved, the row under the new key holds what
was read of the record. -/
theorem readFrom_of_upToDate (hf : Intact f) (hd : f.HasCell d) (hk : (f.cell d).isKey = true)
    (hcurrent : (f.node (f.cell d).owner).current = true) {v : Value}
    (h : UpToDate db (f.assign d v)) : f.ReadFrom db (f.cell d).owner v := by
  have hwf := hf.toWellFormed
  have hs := sameShape_assign f d v
  have hn := hwf.hasOwner hd
  have hbound : (f.assign d v).isBound (f.cell d).owner = true := by
    rw [isBound, isNew_assign_key hwf hd hk, (hf.assign d v).undeleted]
    rfl
  rw [← node_assign_owner hwf d v] at hcurrent
  refine (readFrom_assign_key hwf hk v).1
    (readFrom_of_current (hwf.of_sameShape hs) fun x hmem _ hclean => ?_)
  have hvalue := h _ ((hs.hasNode _).2 hn) hbound hcurrent x hmem hclean
  rw [Cell.value_of_clean hclean, keyValue_assign hwf hd hk] at hvalue
  rw [truth, place, (hwf.of_sameShape hs).owner_of_mem hmem]
  exact hvalue

namespace Tracks

/-! ## Reading -/

/-- A seeded child was new, so nothing was read of it. -/
theorem seedChild (h : Tracks db f) {e : EdgeId} (he : f.HasEdge e) :
    Tracks db (f.seedChild e) := by
  by_cases hv : (f.cell (f.edge e).link).value = .null
  · rwa [seedChild_of_null hv]
  cases hnew : f.isNew (f.edge e).child with
  | false => rwa [seedChild_of_bound hnew]
  | true =>
    have hchild := h.hasChild he
    rw [seedChild_of_value hnew hv]
    refine h.assignCell (h.hasCell_key hchild) fun _ => ?_
    rw [h.owner_key hchild]
    exact h.readFrom_of_isNew hchild hnew _

/-- A record is marked as current when its columns hold what its row holds. -/
theorem setCurrent (h : Tracks db f) (hn : f.HasNode n) (hbound : f.isNew n = false)
    (hread : ∀ d ∈ (f.node n).cells, (f.cell d).isKey = false → (f.cell d).isDirty = false →
      (f.cell d).stored = f.truth db (fun _ => f.keyValue n) d) :
    Tracks db (f.setCurrent n true) := by
  have hs := steady_setCurrent f n true
  have hg := h.toIntact.steady hs
  refine h.of_record (n := n) hg hs.shape (fun _ _ => rfl) (fun m hm => ?_)
    (fun _ => hs.isNew h.toWellFormed hn hbound) ?_
  · rw [Forest.setCurrent, node_modifyNode, if_neg fun hmn => hm hmn.1]
  · refine readFrom_of_current hg.toWellFormed fun d hmem hk hclean => ?_
    rw [hs.shape.cells] at hmem
    rw [truth_of_sameShape hs.shape, keyValue, hs.shape.key]
    exact hread d hmem hk hclean

end Tracks

/-- Columns of a record hold what they held, or what the row of the record holds. -/
structure Loads (db : Database) (n : NodeId) (cells : List CellId) (f g : Forest) : Prop where
  steady : Steady f g
  node (m) : g.node m = f.node m
  cell {x} : f.HasCell x → g.cell x = f.cell x ∨
    x ∈ cells ∧ g.cell x = (f.cell x).load (f.truth db (fun _ => f.keyValue n) x)

namespace Loads

variable {cells : List CellId}

theorem refl : Loads db n cells f f := ⟨Steady.refl f, fun _ => rfl, fun _ => Or.inl rfl⟩

theorem isDirty (h : Loads db n cells f g) (hd : f.HasCell d) :
    (g.cell d).isDirty = (f.cell d).isDirty := by
  rcases h.cell hd with hcell | ⟨-, hcell⟩
  · rw [hcell]
  · rw [hcell]
    rfl

theorem keyValue (h : Loads db n cells f g) (hf : WellFormed f)
    (hcells : ∀ d ∈ cells, (f.cell d).isKey = false) {m : NodeId} (hm : f.HasNode m) :
    g.keyValue m = f.keyValue m := by
  rw [Forest.keyValue, h.node, Forest.keyValue]
  rcases h.cell (hf.hasCell_key hm) with hcell | ⟨hmem, -⟩
  · rw [hcell]
  · have hk := hcells _ hmem
    rw [isKey_key hf hm] at hk
    exact absurd hk.symm Bool.false_ne_true

end Loads

/-- Columns that are loaded fit the row as they did. -/
theorem Tracks.loads {cells : List CellId} (h : Tracks db f) (hl : Loads db n cells f g)
    (hn : f.HasNode n)
    (hcells : ∀ d ∈ cells, d ∈ (f.node n).cells ∧ (f.cell d).isKey = false) : Tracks db g := by
  have hs := hl.steady.shape
  refine h.of_record (n := n) (h.toIntact.steady hl.steady) hs (fun d hd => ?_)
    (fun m _ => by rw [hl.node]) (fun hcurrent => ?_) ?_
  · by_cases hhas : f.HasCell d
    · rcases hl.cell hhas with hcell | ⟨hmem, -⟩
      · exact hcell
      · exact absurd (h.owner_of_mem (hcells d hmem).1) hd
    · rw [cell_of_not_hasCell f hhas, cell_of_not_hasCell g fun hg => hhas ((hs.hasCell d).1 hg)]
  · rw [hl.node] at hcurrent
    exact hl.steady.isNew h.toWellFormed hn (h.bound hcurrent)
  · rw [hl.keyValue h.toWellFormed (fun d hd => (hcells d hd).2) hn]
    refine (h.read hn).of_sameShape h.toWellFormed hs (fun hcurrent => hl.node n ▸ hcurrent)
      fun d hmem _ hclean => ?_
    have hd := h.hasCell hmem
    rw [hl.isDirty hd] at hclean
    refine ⟨hclean, ?_⟩
    rcases hl.cell hd with hcell | ⟨-, hcell⟩
    · exact Or.inl (by rw [hcell])
    · exact Or.inr (by rw [hcell]; rfl)

end Forest
end LinkedRows
