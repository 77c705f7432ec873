/-
# Records with a key and new ones

A record is new as long as nothing is assigned to its key, and it is shown with a null key then.  So
being new and having a null key are the same, unless null is what was assigned (`keysTell_iff`).

Null never gets into a key by itself.  A root and a joined record are only given a key that is not
null, a record that loses its row loses its key with it, a link follows its child only if that has a
key, and an insertion without an identifier is a fault.  The keys that reading and writing give are
therefore never null (`Keyed.flushes`), and no statement of theirs looks for a row with a null key.
A record that is asked to assign null to a key column is the one way left, and then the row with the
key null is looked for, which no database has (`set_null_key_updates`).  So the keys tell throughout
a run exactly if the run assigns null to no key column (`Record.keys_tell_throughout_iff`).
-/

import LinkedRows.Proofs.Attempts
import LinkedRows.Proofs.Described
import LinkedRows.Proofs.Flushing
import LinkedRows.Proofs.Forest.Rebinding
import LinkedRows.Proofs.SaveNew
import LinkedRows.Proofs.TableRun

namespace LinkedRows

namespace Forest

/-- Each record is new exactly if its key is null. -/
def KeysTell (f : Forest) : Prop := ∀ n, f.HasNode n → (f.isNew n = true ↔ f.keyValue n = .null)

/-- A consistent forest in which null is assigned to no key. -/
structure Keyed (f : Forest) : Prop extends Consistent f where
  given {d} : (f.cell d).isKey = true → (f.cell d).assigned ≠ some .null

variable {f g : Forest}

theorem Cell.assigned_ne_null_iff (cell : Cell) (h : cell.stored = .null) :
    cell.assigned ≠ some .null ↔ (cell.isDirty = false ↔ cell.value = .null) := by
  unfold Cell.isDirty Cell.value
  cases ha : cell.assigned with
  | none => simp [h]
  | some v => simp

/-- In a consistent forest keys tell which records are new exactly if no key is assigned null. -/
theorem keysTell_iff (hf : Consistent f) : KeysTell f ↔ Keyed f := by
  have hcell {n : NodeId} (hn : f.HasNode n) :
      (f.cell (f.node n).key).assigned ≠ some .null ↔
        (f.isNew n = true ↔ f.keyValue n = .null) := by
    rw [Cell.assigned_ne_null_iff _ (hf.unstored _ (isKey_key hf.toWellFormed hn)), isNew,
      Bool.not_eq_true', keyValue]
  constructor
  · intro h
    refine ⟨hf, fun {d} hk => ?_⟩
    have hd : f.HasCell d := by
      by_contra hd
      rw [cell_of_not_hasCell f hd] at hk
      exact Bool.false_ne_true hk
    have hn := hf.hasOwner hd
    rw [← (hf.isKey_iff hd).1 hk]
    exact (hcell hn).2 (h _ hn)
  · exact fun h n hn => (hcell hn).1 (h.given (isKey_key hf.toWellFormed hn))

namespace Keyed

theorem keysTell (hf : Keyed f) : KeysTell f := (keysTell_iff hf.toConsistent).2 hf

theorem keyValue_ne_null (hf : Keyed f) {n : NodeId} (hn : f.HasNode n)
    (hbound : f.isNew n = false) : f.keyValue n ≠ .null := fun hnull =>
  Bool.false_ne_true (hbound.symm.trans ((hf.keysTell n hn).2 hnull))

/-- A change that keeps the shape, and after which keys still hold only what was assigned to them,
and nothing null. -/
theorem of_sameShape (hf : Keyed f) (hs : SameShape f g)
    (hkeys : ∀ d, (f.cell d).isKey = true →
      (g.cell d).stored = .null ∧ (g.cell d).assigned ≠ some .null) : Keyed g where
  toWellFormed := hf.toWellFormed.of_sameShape hs
  unstored d hk := (hkeys d ((hs.isKey d).symm.trans hk)).1
  given {d} hk := (hkeys d ((hs.isKey d).symm.trans hk)).2

/-- A change of one column. -/
theorem modifyCell (hf : Keyed f) (d : CellId) {change : Cell → Cell}
    (hshape : ∀ cell, (change cell).shape = cell.shape)
    (hkey : (f.cell d).isKey = true → (change (f.cell d)).stored = .null ∧
      (change (f.cell d)).assigned ≠ some .null) : Keyed (f.modifyCell d change) := by
  refine hf.of_sameShape (sameShape_modifyCell f d hshape) fun d' hk => ?_
  rw [cell_modifyCell]
  split
  · rename_i hd
    exact hkey (hd.1 ▸ hk)
  · exact ⟨hf.unstored d' hk, hf.given hk⟩

/-! ## Growing -/

theorem addRoot_empty (table keyName : String) (key : Value) :
    Keyed (Forest.empty.addRoot table keyName key).2 where
  toConsistent := (Intact.empty.addRoot table keyName key).consistent
  given {d} hk := by
    rw [Forest.addRoot, cell_addNode] at hk ⊢
    split
    · cases key <;> simp [newKey, Value.isNull]
    · rename_i hd
      rw [if_neg hd] at hk
      exact absurd hk Bool.false_ne_true

/-- A joined record is given the value of its link, unless that is null. -/
theorem grows (hf : Keyed f) (hg : Grows f g) : Keyed g := by
  induction hg with
  | refl => exact hf
  | @cell g n name hfg hn hname ih =>
    refine ⟨ih.toConsistent.grows (Grows.refl.cell hn hname), fun {d} hk => ?_⟩
    rw [cell_withCell] at hk ⊢
    split
    · exact nofun
    · rename_i hd
      rw [if_neg hd] at hk
      exact ih.given hk
  | @join g link table key hfg hl hlabel ih =>
    refine ⟨ih.toConsistent.grows (Grows.refl.join hl hlabel), fun {d} hk => ?_⟩
    rw [cell_withJoin] at hk ⊢
    split
    · cases (g.cell link).value <;> simp [newKey, Value.isNull]
    · rename_i hd
      rw [if_neg hd] at hk
      exact ih.given hk

/-- A column that is registered with a default is not the key. -/
theorem loadDefault {root : NodeId} (hf : Keyed f) (hr : f.HasNode root) {column : ColumnShape}
    (hname : column.name ≠ f.keyName root) : Keyed (loadDefault root f column) := by
  have hgrows := grows_ensureCell hr column.name
  have hg := hf.grows hgrows
  obtain ⟨hmem, hcolumn⟩ := (findCell?_eq_some_iff hg.toWellFormed).1
    (ensureCell_spec hf.toWellFormed hr column.name)
  refine hg.modifyCell _ (fun _ => rfl) fun hk => absurd ?_ hname
  calc column.name
      = _ := hcolumn.symm
    _ = (f.ensureCell root column.name).2.keyName root := by
        rw [keyName, (hg.isKey_of_mem hmem).1 hk]
    _ = f.keyName root := (hgrows.extends hf.toWellFormed).keyName hf.toWellFormed hr

/-- The columns of a described record come with defaults, its key does not. -/
theorem loadDefaults {root : NodeId} (hf : Keyed f) (hr : f.HasNode root)
    {columns : List ColumnShape} (hnames : ∀ column ∈ columns, column.name ≠ f.keyName root) :
    Keyed (DescribedRecord.loadDefaults root columns f) ∧
      (DescribedRecord.loadDefaults root columns f).HasNode root := by
  induction columns generalizing f with
  | nil => exact ⟨hf, hr⟩
  | cons column rest ih =>
    obtain ⟨hname, hrest⟩ := List.forall_mem_cons.1 hnames
    have hx := (grows_ensureCell hr column.name).extends hf.toWellFormed
    have hs := sameShape_loadCell (f.ensureCell root column.name).2
      (f.ensureCell root column.name).1 column.declared
    refine ih (f := Forest.loadDefault root f column) (hf.loadDefault hr hname)
      ((hs.hasNode root).2 (hx.hasNode hr)) fun column' hmem => ?_
    have hkeyName : (Forest.loadDefault root f column).keyName root = f.keyName root :=
      (hs.keyName root).trans (hx.keyName hf.toWellFormed hr)
    rw [hkeyName]
    exact hrest column' hmem

/-! ## Assigning -/

/-- A record that is bound to another row is given its key, or becomes new. -/
theorem rebindNode (hf : Keyed f) {n : NodeId} (hn : f.HasNode n) (key : Value) :
    Keyed (f.rebindNode n key) := by
  refine hf.of_sameShape (sameShape_rebindNode f n key) fun d hk => ?_
  rw [cell_rebindNode hf.toWellFormed hn]
  split
  · cases key with
    | null => exact ⟨hf.unstored d hk, nofun⟩
    | _ => exact ⟨hf.unstored d hk, by simp [Value.isNull, Cell.assign]⟩
  · split
    · exact ⟨rfl, hf.given hk⟩
    · exact ⟨hf.unstored d hk, hf.given hk⟩

theorem rebinds {oldest : NodeId} (hf : Keyed f) (h : Rebinds oldest f g) : Keyed g := by
  induction h with
  | refl => exact hf
  | node key _ hn _ ih => exact ih.rebindNode hn key

/-- Whatever is assigned, only the assigned column itself can come to hold null for a key. -/
theorem assign (hf : Keyed f) {d : CellId} {v : Value}
    (hv : v = .null → (f.cell d).isKey = false) : Keyed (f.assign d v) := by
  have hassigned : Keyed (f.modifyCell d (·.assign v)) := by
    refine hf.modifyCell d (fun _ => rfl) fun hk => ⟨hf.unstored d hk, fun hnull => ?_⟩
    rw [hv (Option.some.inj hnull)] at hk
    exact Bool.false_ne_true hk
  exact hassigned.rebinds (rebinds_assign hf.toWellFormed d v)

/-! ## Reading and writing -/

theorem load (hf : Keyed f) {cells : List CellId} (values : List Value)
    (hcells : ∀ d ∈ cells, (f.cell d).isKey = false) : Keyed (f.load cells values) := by
  refine hf.of_sameShape (sameShape_load f cells values) fun d hk => ?_
  rcases cell_load f cells values d with hd | ⟨hd, -⟩
  · rw [hd]
    exact ⟨hf.unstored d hk, hf.given hk⟩
  · rw [hcells d hd] at hk
    exact absurd hk Bool.false_ne_true

theorem settle (hf : Keyed f) (n : NodeId) : Keyed (f.settle (f.pendingCells n)) := by
  refine hf.of_sameShape (sameShape_settle f _) fun d hk => ?_
  rw [cell_settle, if_neg]
  · exact ⟨hf.unstored d hk, hf.given hk⟩
  · intro hmem
    rw [(mem_pendingCells.1 hmem).2.2] at hk
    exact Bool.false_ne_true hk

theorem setCurrent (hf : Keyed f) (n : NodeId) (current : Bool) :
    Keyed (f.setCurrent n current) :=
  hf.of_sameShape (sameShape_setCurrent f n current) fun _ hk => ⟨hf.unstored _ hk, hf.given hk⟩

theorem markDeleted (hf : Keyed f) (n : NodeId) : Keyed (f.markDeleted n) :=
  hf.of_sameShape (sameShape_markDeleted f n) fun _ hk => ⟨hf.unstored _ hk, hf.given hk⟩

/-- A column that is assigned something else than null may be a key. -/
theorem assignCell (hf : Keyed f) (d : CellId) {v : Value} (hv : v ≠ .null) :
    Keyed (f.modifyCell d (·.assign v)) :=
  hf.modifyCell d (fun _ => rfl) fun hk => ⟨hf.unstored d hk, fun h => hv (Option.some.inj h)⟩

theorem seedChild (hf : Keyed f) (e : EdgeId) : Keyed (f.seedChild e) := by
  by_cases hv : (f.cell (f.edge e).link).value = .null
  · rwa [seedChild_of_null hv]
  · cases hnew : f.isNew (f.edge e).child with
    | false => rwa [seedChild_of_bound hnew]
    | true =>
      rw [seedChild_of_value hnew hv]
      exact hf.assignCell _ hv

/-- A link follows its child only if the child is not new, and then the child has a key. -/
theorem followChild (hf : Keyed f) {e : EdgeId} (he : f.HasEdge e) (wasNew : Bool) :
    Keyed (f.followChild e wasNew) := by
  unfold Forest.followChild
  dsimp only
  split
  · rename_i h
    simp only [Bool.and_eq_true, Bool.not_eq_true'] at h
    exact hf.assignCell _ (hf.keyValue_ne_null (hf.hasChild he) h.1.1)
  · exact hf

end Keyed
end Forest

open Forest

/-! ## Statements that look for a row -/

/-- The key of the row that a statement looks for. -/
def Statement.rowKey? : Statement → Option RowKey
  | .select _ _ key | .update _ _ key | .delete _ key => some key
  | .insert _ _ => none

/-- A call that makes a statement makes one that looks for no row with a null key. -/
def Exchange.SeeksKey (dialect : Dialect) : Exchange → Prop
  | .query p _ | .execute p _ => ∃ s : Statement, s.prepare dialect = .ok p ∧
      ∀ key ∈ s.rowKey?, key.value ≠ .null
  | .lastIdentifier _ | .describe _ _ => True

/-- The calls after the first log make statements that look for no row with a null key. -/
abbrev SeeksKeys (dialect : Dialect) : List Exchange → List Exchange → Prop :=
  Accounts fun _ x => x.SeeksKey dialect

variable {σ : Type} {c : Connector σ} {w v : World σ Forest}

theorem readCells_seeksKeys {n : NodeId} (cells : List CellId)
    (hkey : w.state.keyValue n ≠ .null) :
    (readCells c n cells).Ensures w fun _ v => SeeksKeys c.dialect w.log v.log :=
  readCells_accounts fun _ p _ hp => ⟨w.state.selection n cells, hp, fun key hmem => by
    obtain rfl : w.state.rowKey n = key := Option.some.inj hmem
    exact hkey⟩

theorem run_seeksKeys {write : Write} (hkey : ∀ key ∈ write.statement.rowKey?, key.value ≠ .null) :
    (write.run c).Ensures w fun _ v => SeeksKeys c.dialect w.log v.log := by
  have hrun : (write.run c).Ensures w fun _ v =>
      Accounts (Due c (fun _ _ => False) fun write' _ => write' = write) w.log v.log :=
    run_accounts rfl
  refine hrun.mono fun _ v h => h.mono fun l x hdue => ?_
  cases x with
  | query p reply =>
    obtain ⟨n, t, hvisit, -⟩ := hdue
    exact hvisit.elim
  | execute p reply =>
    obtain ⟨write', -, rfl, -, hp⟩ := hdue
    exact ⟨write'.statement, hp, hkey⟩
  | lastIdentifier => trivial
  | describe => trivial

/-- **Reading and writing give no record a null key, and look for no row with a null key.** -/
theorem Forest.Keyed.flushes (hf : Keyed w.state) (h : Flushes c w v) :
    Keyed v.state ∧ SeeksKeys c.dialect w.log v.log := by
  induction h with
  | refl => exact ⟨hf, Accounts.refl _⟩
  | @read v n cells _ hn hbound hcells ih =>
    obtain ⟨hv, hlog⟩ := ih
    have hnew := isNew_of_isBound hbound
    refine ⟨?_, hlog.trans (readCells_seeksKeys cells (hv.keyValue_ne_null hn hnew))⟩
    obtain ⟨-, hstate | ⟨values, hstate⟩⟩ := readCells_spec c n cells v <;> rw [hstate]
    · exact hv
    · refine hv.load values fun d hd => ?_
      obtain ⟨hmem, hclean⟩ := hcells d hd
      exact isKey_eq_false_of_clean hv.toWellFormed hmem hnew hclean
  | @seed v e _ _ ih => exact ⟨ih.1.seedChild e, ih.2⟩
  | follow wasNew _ he ih => exact ⟨ih.1.followChild he wasNew, ih.2⟩
  | setCurrent n current _ ih => exact ⟨ih.1.setCurrent n current, ih.2⟩
  | @run v write _ hfits ih =>
    obtain ⟨hv, hlog⟩ := ih
    refine ⟨run_ensures write hv fun u hran => ?_, hlog.trans (run_seeksKeys fun key hmem => ?_)⟩
    · cases hran with
      | @insert n table cells fields p count key hp hexecute hlast hkey =>
        obtain ⟨-, -, -, rfl⟩ := hfits
        have hkey : key ≠ .null := by
          rintro rfl
          exact absurd hkey (by decide)
        exact ((hv.settle n).assignCell _ hkey).setCurrent n false
      | @update n table key cells fields p count =>
        obtain ⟨-, -, -, rfl⟩ := hfits
        exact (hv.settle n).setCurrent n false
      | @delete n => exact hv.markDeleted n
    · cases write with
      | insert => cases hmem
      | update n table key' cells fields =>
        obtain rfl : key' = key := Option.some.inj hmem
        obtain ⟨hn, hbound, rfl, -⟩ := hfits
        exact hv.keyValue_ne_null hn (isNew_of_isBound hbound)
      | delete n table key' =>
        obtain rfl : key' = key := Option.some.inj hmem
        obtain ⟨hn, hbound, rfl⟩ := hfits
        exact hv.keyValue_ne_null hn (isNew_of_isBound hbound)

/-! ## Runs -/

namespace Record

variable {r : Record}

/-- The records that are opened: plain ones, and those of a described table. -/
inductive Opened : Record → Forest → Prop
  | plain (table : String) (keyName : Option String) (key : Option Value) (options : Options) :
      Opened (create table keyName key options).1 (create table keyName key options).2
  | described (schema : Schema) (key : Option Value) (options : Options) :
      Opened (DescribedRecord.ofSchema schema key options).1.record
        (DescribedRecord.ofSchema schema key options).2

theorem Opened.keyed {f : Forest} (h : Opened r f) : Keyed f ∧ f.HasNode r.root := by
  cases h with
  | plain table keyName key options => exact ⟨Keyed.addRoot_empty .., Nat.zero_lt_one⟩
  | described schema key options =>
    have hroot := Keyed.addRoot_empty schema.table (DescribedRecord.keyName schema options)
      (key.getD .null)
    have hr : (Forest.empty.addRoot schema.table (DescribedRecord.keyName schema options)
        (key.getD .null)).2.HasNode ⟨0⟩ := Nat.zero_lt_one
    have hnames : ∀ column ∈ schema.columns.filter fun column =>
        column.name != DescribedRecord.keyName schema options, column.name ≠
          (Forest.empty.addRoot schema.table (DescribedRecord.keyName schema options)
            (key.getD .null)).2.keyName ⟨0⟩ :=
      fun column hmem => bne_iff_ne.1 (List.mem_filter.1 hmem).2
    exact hroot.loadDefaults hr hnames

/-- A value is not null, unless it is assigned to a column that is no key. -/
def KeepsKey (f : Forest) (d : CellId) (x : Value) : Prop := x = .null → (f.cell d).isKey = false

/-- Requests keep the forest of a record keyed, and look for rows with a key alone, as long as they
assign null to no key column. -/
theorem keyed_after {requests : List Request} (hf : Keyed w.state) (hr : w.state.HasNode r.root)
    (h : r.AtSets c KeepsKey requests w) : Keyed (r.after c requests w).state ∧
      SeeksKeys c.dialect w.log (r.after c requests w).log := by
  let I (v : World σ Forest) : Prop :=
    (Keyed v.state ∧ v.state.HasNode r.root) ∧ SeeksKeys c.dialect w.log v.log
  have hI : I (r.after c requests w) := by
    refine h.carries (I := I) (fun {v} q _ hv hset => ?_) ⟨⟨hf, hr⟩, Accounts.refl _⟩
    obtain ⟨⟨hv, hrv⟩, hlog⟩ := hv
    refine ⟨⟨?_, (consistent_serve (c := c) hv.toConsistent hrv q).2⟩, hlog.trans ?_⟩ <;>
      obtain ⟨u, hgrown, hflushes | ⟨path, x, d, rfl, hresolve, hserve⟩⟩ :=
        serve_cases (c := c) hv.toWellFormed hrv q
    · exact ((hv.grows hgrown.grows).flushes hflushes).1
    · rw [hserve]
      exact (hv.grows hgrown.grows).assign (hset.of_set hresolve)
    · rw [← hgrown.log]
      exact ((hv.grows hgrown.grows).flushes hflushes).2
    · rw [hserve, ← hgrown.log]
      exact Accounts.refl _
  exact ⟨hI.1.1, hI.2⟩

theorem consistent_after (requests : List Request) (hf : Consistent w.state)
    (hr : w.state.HasNode r.root) :
    Consistent (r.after c requests w).state ∧ (r.after c requests w).state.HasNode r.root := by
  have hany : r.AtSets c (fun _ _ _ => True) requests w := fun _ _ _ _ _ _ _ => trivial
  let I (v : World σ Forest) : Prop := Consistent v.state ∧ v.state.HasNode r.root
  exact hany.carries (I := I) (fun q _ hv _ => consistent_serve hv.1 hv.2 q) ⟨hf, hr⟩

/-- After null was assigned to a key column, the keys do not tell. -/
theorem not_keysTell_of_set {path : String} {d : CellId} (hf : Consistent w.state)
    (hr : w.state.HasNode r.root) (hresolve : (r.resolve path).perform w = (.ok d, v))
    (hk : (v.state.cell d).isKey = true) : ¬KeysTell (r.serve c w (.set path .null)).state := by
  obtain ⟨hgrown, hfound⟩ := (resolve_spec hf.toWellFormed hr path).of_perform hresolve
  obtain ⟨p, -, hd⟩ := hfound d rfl
  have hv := hf.grows hgrown.grows
  rw [serve_set_ok hresolve]
  intro htell
  have hkeyed := (keysTell_iff (hv.assign d .null)).1 htell
  have hcell := cell_assign_self hv.toWellFormed (hasCell_of_lookupColumn? hv.toWellFormed hd) .null
  refine hkeyed.given (d := d) ?_ ?_ <;> rw [hcell]
  · exact hk
  · rfl

/-- **Throughout a run each record is new exactly if its key is null, unless and until the run
assigns null to a key column.**  In such a run, and in a call of a table that makes none, every
statement that looks for a row looks for one with a key. -/
theorem keys_tell_throughout_iff {f : Forest} (h : Opened r f) (c : Connector σ) (store : σ)
    (requests : List Request) :
    let w : World σ Forest := ⟨store, [], f⟩
    ((∀ served, served <+: requests → KeysTell (r.after c served w).state) ↔
        r.AtSets c KeepsKey requests w) ∧
      (r.AtSets c KeepsKey requests w →
        ∀ x ∈ (r.after c requests w).log, x.SeeksKey c.dialect) ∧
      ∀ {τ : Type} (t : Table) (call : TableCall) (u : World σ τ),
        (t.opened call).1.AtSets c KeepsKey call.requests ⟨u.store, u.log, (t.opened call).2⟩ →
          ∃ calls, (t.afterCall c u call).log = u.log ++ calls ∧
            ∀ x ∈ calls, x.SeeksKey c.dialect := by
  intro w
  obtain ⟨hf, hr⟩ := h.keyed
  refine ⟨⟨fun htell served path x hserved d v hresolve hx => ?_, fun hkeeps served hserved => ?_⟩,
    fun hkeeps x hx => ?_, fun {τ} t call u hkeeps => ?_⟩
  · subst hx
    obtain ⟨hs, hrs⟩ := consistent_after (w := w) (c := c) served hf.toConsistent hr
    by_contra hk
    refine not_keysTell_of_set (c := c) hs hrs hresolve (Bool.not_eq_false _ ▸ hk) ?_
    have hafter := htell _ hserved
    rwa [after, List.foldl_append] at hafter
  · exact (keyed_after (w := w) hf hr (hkeeps.of_prefix hserved)).1.keysTell
  · obtain ⟨calls, hcalls, hseeks⟩ := (keyed_after (w := w) hf hr hkeeps).2.exists_calls
    rw [hcalls, List.nil_append] at hx
    exact hseeks x hx
  · obtain ⟨served, hserved, hafter⟩ := t.call_isRun c call u
    obtain ⟨ht, hrt⟩ := (Opened.plain t.name (call.key?.bind (·.name)) (call.key?.map (·.value))
      t.options).keyed
    have hrun := keyed_after (w := ⟨u.store, u.log, (t.opened call).2⟩) ht hrt
      (hkeeps.of_prefix hserved)
    rw [hafter]
    exact hrun.2.exists_calls

/-! ## A key that is moved, and one that is taken away -/

/-- A joined title is written, and the record is moved to another row before. -/
def moved : List Request :=
  [.register "table1.title", .set "id" (.int 2), .set "table1.title" (.text "Joined"), .save,
    .deleteAll]

theorem keys_tell_throughout_moved :
    let opened := create "table0" none (some (.int 1)) .standard
    let w : World Nat Forest := ⟨1, [], opened.2⟩
    (∀ served, served <+: moved → KeysTell (opened.1.after .counting served w).state) ∧
      (∀ x ∈ (opened.1.after .counting moved w).log, x.SeeksKey .sqlite) ∧
      executed (opened.1.after .counting moved w).log =
        [⟨"INSERT INTO \"table1\" (\"title\") VALUES ('Joined')", []⟩,
          ⟨"UPDATE \"table0\" SET \"table1_id\" = 2 WHERE \"id\" = 2", []⟩,
          ⟨"DELETE FROM \"table1\" WHERE \"id\" = 2", []⟩,
          ⟨"DELETE FROM \"table0\" WHERE \"id\" = 2", []⟩] := by
  intro opened w
  have hkeeps : opened.1.AtSets .counting KeepsKey moved w := by
    rintro served path x hserved d u - rfl
    have hmem : Request.set path .null ∈ moved := hserved.subset (by simp)
    exact absurd hmem (by simp [moved])
  obtain ⟨htell, hseeks, -⟩ := keys_tell_throughout_iff
    (.plain "table0" none (some (.int 1)) .standard) .counting 1 moved
  exact ⟨htell.2 hkeeps, hseeks hkeeps, by decide +kernel⟩

/-- The key of an existing record is taken away, and the record is saved. -/
def keyTaken : List Request :=
  [.register "title", .set "id" .null, .set "title" (.text "X"), .save]

/-- The record has no key but is not new, so a row with the key null is updated. -/
theorem set_null_key_updates :
    let opened := create "table0" none (some (.int 1)) .standard
    let w : World Nat Forest := ⟨1, [], opened.2⟩
    ¬KeysTell (opened.1.after .counting keyTaken w).state ∧
      executed (opened.1.after .counting keyTaken w).log =
        [⟨"UPDATE \"table0\" SET \"title\" = 'X' WHERE \"id\" = NULL", []⟩] := by
  intro opened w
  refine ⟨fun htell => ?_, by decide +kernel⟩
  have hnew := (htell ⟨0⟩ (by decide +kernel)).2 (by decide +kernel)
  exact absurd hnew (by decide +kernel)

end Record
end LinkedRows
