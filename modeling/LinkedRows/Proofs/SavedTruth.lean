/-
# What a save keeps true

A save executes statements and notes in the forest what they wrote.  That leaves what is known true
for the new database, whether the statements succeed or fail, if the following holds of the records
that it may still write to (`Unsaved`): one with a row has a row that no other record stands for,
and one without hangs from a link that holds nothing and that no other join goes through.

One record is saved at a time, and its link follows it (`SoundSave.saveChild`).  So the walk over
all records keeps both (`SoundSave.saveBelow`).
-/

import LinkedRows.Proofs.FailedSaves
import LinkedRows.Proofs.Forest.InStep
import LinkedRows.Proofs.Forest.Settling
import LinkedRows.Proofs.KeptTruth
import LinkedRows.Proofs.MaintainedTables

namespace LinkedRows

open Forest

variable {σ ρ : Type} {c : Connector σ} {db : σ → Database} {keyName : String → String}
  {tables : σ → Tables ρ} {touched : NodeId → Prop} {root : NodeId} {key : Value}
  {doubt : String → Prop}

namespace Forest

variable {dialect : Dialect} {t u : Tables ρ} {f : Forest} {n m : NodeId} {e : EdgeId} {x : ρ}

/-! ## What may still be written -/

/-- A record that may be written to has no row yet. -/
def Inserts (touched : NodeId → Prop) (f : Forest) : Prop :=
  ∃ e, f.HasEdge e ∧ touched (f.edge e).child ∧ f.isNew (f.edge e).child = true

/-- The records that may be written to each have a row of their own, or none.  What was assigned is
what its literal is read as. -/
structure Unsaved (dialect : Dialect) (keyName : String → String) (t : Tables ρ)
    (touched : NodeId → Prop) (f : Forest) : Prop where
  byKeys : ByKeys keyName f
  writes {n : NodeId} : f.HasNode n → f.isNew n = false → dialect.Writes (f.keyValue n)
  known {d : CellId} {v : Value} : (f.cell d).isKey = false → (f.cell d).assigned = some v →
    dialect.known v = v
  pending {n : NodeId} : f.pendingCells n ≠ [] → touched n
  /-- If rows are inserted, none of them can be the one that some record already has a key for. -/
  found {n : NodeId} : f.HasNode n → f.isNew n = false → touched n ∨ f.Inserts touched →
    t.row? (f.node n).table (f.keyValue n) ≠ none
  apart {n m : NodeId} : f.HasNode n → f.HasNode m → n ≠ m → f.isNew n = false →
    f.isNew m = false → touched n →
      t.row? (f.node n).table (f.keyValue n) ≠ t.row? (f.node m).table (f.keyValue m)
  fresh {e : EdgeId} : f.HasEdge e → touched (f.edge e).child → f.isNew (f.edge e).child = true →
    touched (f.edge e).owner ∧ (f.cell (f.edge e).link).isKey = false ∧ f.linkValue e = .null ∧
      ∀ e', f.HasEdge e' → (f.edge e').link = (f.edge e).link → e' = e

/-- The key column is not written. -/
theorem keyName_not_mem_pendingFields (hf : WellFormed f) (h : ByKeys keyName f)
    (hn : f.HasNode n) : keyName (f.node n).table ∉ (f.pendingFields n).map Prod.fst := by
  intro hmem
  obtain ⟨field, hfield, hname⟩ := List.mem_map.1 hmem
  obtain ⟨d, hd, rfl⟩ := List.mem_map.1 hfield
  obtain ⟨hmem, -, hk⟩ := mem_pendingCells.1 hd
  exact name_ne_keyName hf hmem hk (hname.trans (h n hn).symm)

theorem pendingFields_ne_nil (h : f.pendingCells n ≠ []) : f.pendingFields n ≠ [] := by
  rwa [pendingFields, ne_eq, List.map_eq_nil_iff]

namespace Unsaved

/-- What is written is what the literals are read as. -/
theorem known_pending (h : Unsaved dialect keyName t touched f) {d : CellId}
    (hd : d ∈ f.pendingCells n) : dialect.known (f.cell d).value = (f.cell d).value := by
  obtain ⟨-, hdirty, hk⟩ := mem_pendingCells.1 hd
  obtain ⟨v, hv⟩ := Option.isSome_iff_exists.1 hdirty
  rw [Cell.value, hv]
  exact h.known hk hv

/-- Rows stay where they are, and nothing more is assigned. -/
theorem settleNode (h : Unsaved dialect keyName t touched f) (hf : WellFormed f) (n : NodeId)
    (hrows : ∀ table key, u.row? table key = t.row? table key) :
    Unsaved dialect keyName u touched (f.settleNode n) := by
  have hs := (steady_settleNode hf n).shape
  have hkeeps {m : NodeId} (hm : f.HasNode m) := keepsKey_settleNode (n := n) hf hm
  have hinserts (hinserts : (f.settleNode n).Inserts touched) : f.Inserts touched := by
    obtain ⟨e, he, htouched, hnew⟩ := hinserts
    have he := (hs.hasEdge e).1 he
    rw [hs.edge] at htouched hnew
    rw [(hkeeps (hf.hasChild he)).isNew] at hnew
    exact ⟨e, he, htouched, hnew⟩
  exact
    { byKeys := h.byKeys.of_sameShape hs
      writes := fun {m} hm hbound => by
        have hm := (hs.hasNode m).1 hm
        rw [(hkeeps hm).isNew] at hbound
        rw [(hkeeps hm).keyValue]
        exact h.writes hm hbound
      known := fun {d v} hk hv => by
        rw [hs.isKey] at hk
        exact h.known hk (assigned_of_settleNode hv)
      pending := fun hpending => h.pending (pendingCells_of_settleNode hf hpending)
      found := fun {m} hm hbound htouched => by
        have hm := (hs.hasNode m).1 hm
        rw [(hkeeps hm).isNew] at hbound
        rw [hrows, hs.table, (hkeeps hm).keyValue]
        exact h.found hm hbound (htouched.imp_right hinserts)
      apart := fun {m m'} hm hm' hne hbound hbound' htouched => by
        have hm := (hs.hasNode m).1 hm
        have hm' := (hs.hasNode m').1 hm'
        rw [(hkeeps hm).isNew] at hbound
        rw [(hkeeps hm').isNew] at hbound'
        rw [hrows, hrows, hs.table, hs.table, (hkeeps hm).keyValue, (hkeeps hm').keyValue]
        exact h.apart hm hm' hne hbound hbound' htouched
      fresh := fun {e} he htouched hnew => by
        have he := (hs.hasEdge e).1 he
        rw [hs.edge] at htouched hnew ⊢
        rw [(hkeeps (hf.hasChild he)).isNew] at hnew
        obtain ⟨howner, hk, hnull, halone⟩ := h.fresh he htouched hnew
        refine ⟨howner, (hs.isKey _).trans hk, ?_, fun e' he' hlink => ?_⟩
        · rw [linkValue, hs.edge, value_settleNode]
          exact hnull
        · rw [hs.edge] at hlink
          exact halone e' ((hs.hasEdge e').1 he') hlink }

/-- A row that was added is none of those that records have keys for. -/
theorem adds (h : Unsaved dialect keyName t touched f) (hadds : t.Adds x u)
    (hinserts : f.Inserts touched) : Unsaved dialect keyName u touched f := by
  have hrow {n : NodeId} (hn : f.HasNode n) (hbound : f.isNew n = false) :
      u.row? (f.node n).table (f.keyValue n) = t.row? (f.node n).table (f.keyValue n) := by
    obtain ⟨y, hy⟩ := Option.ne_none_iff_exists'.1 (h.found hn hbound (Or.inr hinserts))
    rw [hadds.row hy, hy]
  exact
    { h with
      found := fun hn hbound htouched => by
        rw [hrow hn hbound]
        exact h.found hn hbound htouched
      apart := fun hn hm hne hbound hbound' htouched => by
        rw [hrow hn hbound, hrow hm hbound']
        exact h.apart hn hm hne hbound hbound' htouched }

/-- No record has a key for a row that was added. -/
theorem row?_ne_added (h : Unsaved dialect keyName t touched f) (hadds : t.Adds x u)
    (hinserts : f.Inserts touched) (hn : f.HasNode n) (hbound : f.isNew n = false) :
    u.row? (f.node n).table (f.keyValue n) ≠ some x := by
  obtain ⟨y, hy⟩ := Option.ne_none_iff_exists'.1 (h.found hn hbound (Or.inr hinserts))
  rw [hadds.row hy]
  intro heq
  obtain rfl := Option.some.inj heq
  exact hadds.fresh (Tables.has_of_row hy)

/-- The child that was inserted stands for the row that was added. -/
theorem attachChild (h : Unsaved dialect keyName t touched f) (hf : WellFormed f)
    (hadds : t.Adds x u) (he : f.HasEdge e) (htouched : touched (f.edge e).child)
    (hnew : f.isNew (f.edge e).child = true)
    (hrow : u.row? (f.node (f.edge e).child).table key = some x) (hwrites : dialect.Writes key)
    (hknown : dialect.known key = key) :
    Unsaved dialect keyName u touched (f.attachChild e key) := by
  obtain ⟨howner, hk, -, halone⟩ := h.fresh he htouched hnew
  have hs := (steady_attachChild hf e key).shape
  have hinserts : f.Inserts touched := ⟨e, he, htouched, hnew⟩
  have hu := h.adds hadds hinserts
  obtain ⟨hchild, hbound⟩ := keyValue_attachChild hf he hk key
  have hkeeps {m : NodeId} (hm : f.HasNode m) (hne : m ≠ (f.edge e).child) :=
    keepsKey_attachChild hf he hk hm hne key
  have hold {m : NodeId} (hm : f.HasNode m) (hne : m ≠ (f.edge e).child)
      (hbound : (f.attachChild e key).isNew m = false) : f.isNew m = false := by
    rwa [(hkeeps hm hne).isNew] at hbound
  have hapart {m : NodeId} (hm : f.HasNode m) (hbound : f.isNew m = false) :=
    h.row?_ne_added hadds hinserts hm hbound
  have hrowChild : u.row? (f.node (f.edge e).child).table
      ((f.attachChild e key).keyValue (f.edge e).child) = some x := by
    rw [hchild, hrow]
  exact
    { byKeys := h.byKeys.of_sameShape hs
      writes := fun {m} hm hboundM => by
        have hm := (hs.hasNode m).1 hm
        by_cases hne : m = (f.edge e).child
        · rwa [hne, hchild]
        · rw [(hkeeps hm hne).keyValue]
          exact h.writes hm (hold hm hne hboundM)
      known := fun {d v} hkd hv => by
        rw [hs.isKey] at hkd
        rcases assigned_of_attachChild hf he hkd hv with ⟨-, rfl⟩ | hv
        · exact hknown
        · exact h.known hkd hv
      pending := fun {m} hpending => by
        rcases pendingCells_of_attachChild hf he hpending with rfl | hpending
        · exact howner
        · exact h.pending hpending
      found := fun {m} hm hboundM _ => by
        have hm := (hs.hasNode m).1 hm
        rw [hs.table]
        by_cases hne : m = (f.edge e).child
        · rw [hne, hrowChild]
          exact Option.some_ne_none x
        · rw [(hkeeps hm hne).keyValue]
          exact hu.found hm (hold hm hne hboundM) (Or.inr hinserts)
      apart := fun {m m'} hm hm' hmm hboundM hboundM' htouchedM => by
        have hm := (hs.hasNode m).1 hm
        have hm' := (hs.hasNode m').1 hm'
        rw [hs.table, hs.table]
        by_cases hne : m = (f.edge e).child <;> by_cases hne' : m' = (f.edge e).child
        · exact absurd (hne.trans hne'.symm) hmm
        · rw [hne, hrowChild, (hkeeps hm' hne').keyValue]
          exact (hapart hm' (hold hm' hne' hboundM')).symm
        · rw [hne', hrowChild, (hkeeps hm hne).keyValue]
          exact hapart hm (hold hm hne hboundM)
        · rw [(hkeeps hm hne).keyValue, (hkeeps hm' hne').keyValue]
          exact hu.apart hm hm' hmm (hold hm hne hboundM) (hold hm' hne' hboundM') htouchedM
      fresh := fun {e'} he' htouched' hnew' => by
        have he' := (hs.hasEdge e').1 he'
        rw [hs.edge] at htouched' hnew' ⊢
        have hne : (f.edge e').child ≠ (f.edge e).child := by
          intro heq
          rw [heq, hbound] at hnew'
          cases hnew'
        rw [(hkeeps (hf.hasChild he') hne).isNew] at hnew'
        obtain ⟨howner', hk', hnull', halone'⟩ := h.fresh he' htouched' hnew'
        have hlink : (f.edge e').link ≠ (f.edge e).link := by
          intro heq
          exact hne (congrArg (fun e => (f.edge e).child) (halone e' he' heq))
        refine ⟨howner', (hs.isKey _).trans hk', ?_, fun e'' he'' hlink'' => ?_⟩
        · rwa [linkValue_attachChild hf hlink (key_ne_of_isKey hf (hf.hasChild he) hk').symm]
        · rw [hs.edge] at hlink''
          exact halone' e'' ((hs.hasEdge e'').1 he'') hlink'' }

end Unsaved

end Forest

/-! ## One record -/

/-- While a record is saved, what is known is true, and what is not saved yet can be. -/
structure SoundSave (c : Connector σ) (db : σ → Database) (keyName : String → String)
    (tables : σ → Tables ρ) (touched : NodeId → Prop) (root : NodeId) (key : Value)
    (doubt : String → Prop) (s : σ) (f : Forest) : Prop where
  known : TrueTo (db s) root doubt f
  unsaved : Unsaved c.dialect keyName (tables s) touched f
  root : KeyedRoot root key f

namespace SoundSave

variable {s s' : σ} {f : Forest} {w v : World σ Forest} {n : NodeId} {e : EdgeId} {x : ρ}

/-- The root still has its row if the rows that were found still are. -/
theorem rowFound (hm : Maintains c db keyName tables)
    (h : SoundSave c db keyName tables touched root key doubt s f)
    (hrows : ∀ table key, (tables s).row? table key ≠ none → (tables s').row? table key ≠ none)
    (hrow : f.RowFound (db s) f.keyValue root) : f.RowFound (db s') f.keyValue root := by
  rw [h.unsaved.byKeys.rowFound_iff hm h.root.hasRoot] at hrow ⊢
  exact ⟨hrow.1, hrows _ _ hrow.2⟩

/-- Nothing changes if the tables do not. -/
theorem of_tables (hm : Maintains c db keyName tables)
    (h : SoundSave c db keyName tables touched root key doubt s f)
    (htables : tables s' = tables s) :
    SoundSave c db keyName tables touched root key doubt s' f where
  known := by
    have hwf := h.known.toWellFormed
    refine h.known.of_truth (fun d hd hk _ => ?_) (h.rowFound hm fun _ _ hrow => htables ▸ hrow)
    rw [h.unsaved.byKeys.truth_eq hm hwf hd hk, h.unsaved.byKeys.truth_eq hm hwf hd hk, htables]
  unsaved := htables ▸ h.unsaved
  root := h.root

/-- A row that was added holds nothing that any record knows. -/
theorem truth_of_adds (hm : Maintains c db keyName tables)
    (h : SoundSave c db keyName tables touched root key doubt s f)
    (hadds : (tables s).Adds x (tables s')) (hinserts : f.Inserts touched) {d : CellId}
    (hd : f.HasCell d) (hk : (f.cell d).isKey = false)
    (hbound : f.isNew (f.cell d).owner = false) :
    f.truth (db s') f.keyValue d = f.truth (db s) f.keyValue d := by
  have hwf := h.known.toWellFormed
  rw [h.unsaved.byKeys.truth_eq hm hwf hd hk, h.unsaved.byKeys.truth_eq hm hwf hd hk]
  exact hadds.value (h.unsaved.found (hwf.hasOwner hd) hbound (Or.inr hinserts)) _

theorem adds (hm : Maintains c db keyName tables)
    (h : SoundSave c db keyName tables touched root key doubt s f)
    (hadds : (tables s).Adds x (tables s')) (hinserts : f.Inserts touched) :
    SoundSave c db keyName tables touched root key doubt s' f where
  known := h.known.of_truth
    (fun _ hd hk hbound => h.truth_of_adds hm hadds hinserts hd hk hbound)
    (h.rowFound hm fun _ _ => hadds.row?_ne_none)
  unsaved := h.unsaved.adds hadds hinserts
  root := h.root

/-- A record with nothing to write is marked as stale. -/
theorem settleNode_of_nil (h : SoundSave c db keyName tables touched root key doubt s f)
    (hpending : f.pendingCells n = []) :
    SoundSave c db keyName tables touched root key doubt s (f.settleNode n) where
  known := h.known.settleNode h.root.hasRoot n (fun _ _ _ _ _ => rfl)
    (fun _ hd => absurd hd (hpending ▸ List.not_mem_nil)) id
  unsaved := h.unsaved.settleNode h.known.toWellFormed n fun _ _ => rfl
  root := h.root.of_keepsKey (steady_settleNode h.known.toWellFormed n).shape
    (cell_key_settleNode h.known.toWellFormed h.root.hasRoot)

section

variable (hm : Maintains c db keyName tables) (hkey : key ≠ .null)
include hm hkey

/-- The row of a record was updated. -/
theorem settleNode (h : SoundSave c db keyName tables touched root key doubt s f) (hn : f.HasNode n)
    (hbound : f.isNew n = false) (hpending : f.pendingCells n ≠ [])
    (hrow : (tables s).row? (f.node n).table (f.keyValue n) = some x)
    (hsets : (tables s).Sets x ((f.pendingFields n).map Prod.fst) (tables s'))
    (hwritten : ∀ field ∈ f.pendingFields n,
      (tables s').content x field.1 = c.dialect.known field.2) :
    SoundSave c db keyName tables touched root key doubt s' (f.settleNode n) := by
  have hwf := h.known.toWellFormed
  have htruth {d : CellId} (hd : f.HasCell d) (hk : (f.cell d).isKey = false) (s : σ) :
      f.truth (db s) f.keyValue d = (tables s).value (f.node (f.cell d).owner).table
        (f.keyValue (f.cell d).owner) (f.cell d).name := h.unsaved.byKeys.truth_eq hm hwf hd hk s
  refine ⟨h.known.settleNode h.root.hasRoot n (fun d hd hk hboundD hout => ?_) (fun d hd => ?_)
    (h.rowFound hm fun _ _ => (hsets.row? _ _).trans_ne),
    h.unsaved.settleNode hwf n hsets.row?, ?_⟩
  · rw [htruth hd hk, htruth hd hk]
    refine hsets.value ?_
    by_cases howner : (f.cell d).owner = n
    · refine Or.inr fun hmem => hout ?_
      obtain ⟨field, hfield, hname⟩ := List.mem_map.1 hmem
      obtain ⟨d', hd', rfl⟩ := List.mem_map.1 hfield
      have hsame := hwf.name_inj (mem_pendingCells.1 hd').1 (howner ▸ hwf.mem_owner hd) hname
      exact hsame ▸ hd'
    · refine Or.inl fun hsame => ?_
      refine h.unsaved.apart hn (hwf.hasOwner hd) (Ne.symm howner) hbound hboundD
        (h.unsaved.pending hpending) ?_
      rw [hrow, hsame]
  · obtain ⟨hmem, -, hk⟩ := mem_pendingCells.1 hd
    rw [htruth (hwf.hasCell hmem) hk, hwf.owner_of_mem hmem,
      Tables.value_of_row (h.known.keyValue_ne_null h.root hkey hn hbound)
        ((hsets.row? _ _).trans hrow),
      hwritten _ (List.mem_map.2 ⟨d, hd, rfl⟩), h.unsaved.known_pending hd]
  · exact h.root.of_keepsKey (steady_settleNode hwf n).shape
      (cell_key_settleNode hwf h.root.hasRoot)

/-- A record that has a row, or has nothing to write, is saved. -/
theorem saveNode (h : SoundSave c db keyName tables touched root key doubt w.store w.state)
    (hn : w.state.HasNode n) {direct : Bool} (hold : w.state.isNew n = true →
      w.state.pendingCells n = [] ∧ direct = false) :
    (saveNode c n direct).Ensures w fun _ v =>
      SoundSave c db keyName tables touched root key doubt v.store v.state := by
  have hwf := h.known.toWellFormed
  rw [Action.Ensures]
  rcases hrun : (LinkedRows.saveNode c n direct).perform w with ⟨r, v⟩
  by_cases hpending : w.state.pendingCells n = []
  · rw [LinkedRows.saveNode, Action.perform_state_bind,
      planSave?_eq_none.2 ⟨hpending, fun hnew => (hold hnew).2⟩] at hrun
    obtain ⟨-, rfl⟩ := Prod.mk.inj hrun
    show SoundSave c db keyName tables touched root key doubt w.store (w.state.setCurrent n false)
    rw [← Forest.settleNode_of_nil hpending]
    exact h.settleNode_of_nil hpending
  have hbound : w.state.isNew n = false := by
    by_contra hnew
    exact hpending (hold (Bool.not_eq_false _ ▸ hnew)).1
  have hplan := planSave?_of_pending hpending direct
  rw [hbound] at hplan
  cases r with
  | error e =>
    obtain ⟨write, hwrite, hfails⟩ := saveNode_fails hrun
    obtain rfl := Option.some.inj (hwrite.symm.trans hplan)
    cases run_fails hfails with
    | unprepared => exact h
    | refused _ hexecute => exact h.of_tables hm (hm.fails hexecute)
  | ok =>
    obtain ⟨x, hx⟩ := Option.ne_none_iff_exists'.1
      (h.unsaved.found hn hbound (Or.inl (h.unsaved.pending hpending)))
    obtain ⟨writes, hsaved⟩ := saveNode_ok_iff.1 hrun
    cases hsaved with
    | nothing hnone => cases hnone.symm.trans hplan
    | write hwrite hran =>
      obtain rfl := Option.some.inj (hwrite.symm.trans hplan)
      cases hran with
      | update hp hexecute =>
        rw [rowKey, h.unsaved.byKeys n hn] at hp
        obtain ⟨hsets, hwritten⟩ := hm.update (pendingFields_ne_nil hpending)
          (nodup_names_pendingFields hwf n) (keyName_not_mem_pendingFields hwf h.unsaved.byKeys hn)
            hx hp hexecute
        exact h.settleNode hm hkey hn hbound hpending hx hsets hwritten

omit hkey in
/-- The row of a child was inserted. -/
theorem attachChild (h : SoundSave c db keyName tables touched root key doubt s f)
    (he : f.HasEdge e) (hnew : f.isNew (f.edge e).child = true)
    (hpending : f.pendingCells (f.edge e).child ≠ []) (hadds : (tables s).Adds x (tables s'))
    (hwritten : ∀ field ∈ f.pendingFields (f.edge e).child,
      (tables s').content x field.1 = c.dialect.known field.2)
    {inserted : Value} (hne : inserted ≠ .null)
    (hrow : (tables s').row? (f.node (f.edge e).child).table inserted = some x)
    (hwrites : c.dialect.Writes inserted) (hknown : c.dialect.known inserted = inserted) :
    SoundSave c db keyName tables touched root key doubt s' (f.attachChild e inserted) := by
  have hwf := h.known.toWellFormed
  have htouched := h.unsaved.pending hpending
  have hinserts : f.Inserts touched := ⟨e, he, htouched, hnew⟩
  obtain ⟨-, hk, -, halone⟩ := h.unsaved.fresh he htouched hnew
  have hroot : root ≠ (f.edge e).child := by
    intro hroot
    have hparent := hwf.parent_child he
    rw [← hroot, h.root.isRoot] at hparent
    cases hparent
  refine ⟨h.known.attachChild h.root.hasRoot hroot he hnew hk halone hne
    (fun d hd hkd hbound => h.truth_of_adds hm hadds hinserts hd hkd hbound) (fun d hd => ?_)
    (h.rowFound hm fun _ _ => hadds.row?_ne_none),
    h.unsaved.attachChild hwf hadds he htouched hnew hrow hwrites hknown,
    h.root.of_keepsKey (steady_attachChild hwf e inserted).shape
      (cell_key_attachChild hwf he hk h.root.hasRoot hroot inserted)⟩
  obtain ⟨hmem, -, hkd⟩ := mem_pendingCells.1 hd
  rw [h.unsaved.byKeys.truth_eq hm hwf (hwf.hasCell hmem) hkd, hwf.owner_of_mem hmem,
    Tables.value_of_row hne hrow, hwritten _ (List.mem_map.2 ⟨d, hd, rfl⟩),
    h.unsaved.known_pending hd]

omit hkey in
/-- A new child is inserted, and its link follows it. -/
theorem insertChild (h : SoundSave c db keyName tables touched root key doubt w.store w.state)
    (he : w.state.HasEdge e) (hnew : w.state.isNew (w.state.edge e).child = true)
    (hpending : w.state.pendingCells (w.state.edge e).child ≠ []) :
    (LinkedRows.saveNode c (w.state.edge e).child false).Ensures w fun r v =>
      SoundSave c db keyName tables touched root key doubt v.store
        (match r with | .ok _ => v.state.followChild e true | .error _ => v.state) := by
  have hwf := h.known.toWellFormed
  have hn := hwf.hasChild he
  have htouched := h.unsaved.pending hpending
  have hinserts : w.state.Inserts touched := ⟨e, he, htouched, hnew⟩
  obtain ⟨-, hk, hnull, -⟩ := h.unsaved.fresh he htouched hnew
  have hinsert {p : Prepared} {count : Nat} (hp : (Statement.insert
      (w.state.node (w.state.edge e).child).table (w.state.pendingFields (w.state.edge e).child)
        ).prepare c.dialect = .ok p) (hexecute : (c.execute p w.store).1 = .ok count) :=
    hm.insert (pendingFields_ne_nil hpending) (nodup_names_pendingFields hwf _)
      (keyName_not_mem_pendingFields hwf h.unsaved.byKeys hn) hp hexecute
  have hplan := planSave?_of_pending hpending false
  rw [hnew] at hplan
  rw [Action.Ensures]
  rcases hrun : (LinkedRows.saveNode c (w.state.edge e).child false).perform w with ⟨r, v⟩
  cases r with
  | error e =>
    obtain ⟨write, hwrite, hfails⟩ := saveNode_fails hrun
    obtain rfl := Option.some.inj (hwrite.symm.trans hplan)
    cases run_fails hfails with
    | unprepared => exact h
    | refused _ hexecute => exact h.of_tables hm (hm.fails hexecute)
    | unreported hp hexecute | unidentified hp hexecute =>
      obtain ⟨x, hadds, -⟩ := hinsert hp hexecute
      exact (h.adds hm hadds hinserts).of_tables hm (hm.reports _)
  | ok =>
    obtain ⟨writes, hsaved⟩ := saveNode_ok_iff.1 hrun
    cases hsaved with
    | nothing hnone => cases hnone.symm.trans hplan
    | write hwrite hran =>
      obtain rfl := Option.some.inj (hwrite.symm.trans hplan)
      cases hran with
      | @insert _ _ _ _ p _ inserted hp hexecute hlast hreported =>
        obtain ⟨x, hadds, hwritten, hinserted⟩ := hinsert hp hexecute
        obtain ⟨hrow, hwrites, hknown⟩ := hinserted inserted hlast hreported
        have hne : inserted ≠ .null := by
          rintro rfl
          cases hreported
        have hattached :=
          h.attachChild hm he hnew hpending hadds hwritten hne hrow hwrites hknown
        dsimp only
        rw [followChild_inserted hwf he hk hnull hreported]
        exact hattached.of_tables hm (hm.reports _)

/-- **Saving a child, and letting its link follow it, keeps what is known true.** -/
theorem saveChild (h : SoundSave c db keyName tables touched root key doubt w.store w.state)
    (he : w.state.HasEdge e) {wasNew : Bool}
    (hwas : w.state.isNew (w.state.edge e).child = true → wasNew = true) :
    (LinkedRows.saveNode c (w.state.edge e).child false).Ensures w fun r v =>
      SoundSave c db keyName tables touched root key doubt v.store
        (match r with | .ok _ => v.state.followChild e wasNew | .error _ => v.state) := by
  have hwf := h.known.toWellFormed
  have hn := hwf.hasChild he
  by_cases hinsert : w.state.isNew (w.state.edge e).child = true ∧
      w.state.pendingCells (w.state.edge e).child ≠ []
  · rw [hwas hinsert.1]
    exact h.insertChild hm he hinsert.1 hinsert.2
  · have hold (hnew : w.state.isNew (w.state.edge e).child = true) :
        w.state.pendingCells (w.state.edge e).child = [] ∧ false = false :=
      ⟨not_not.1 fun hpending => hinsert ⟨hnew, hpending⟩, rfl⟩
    rw [Action.Ensures]
    rcases hrun : (LinkedRows.saveNode c (w.state.edge e).child false).perform w with ⟨r, v⟩
    have hv := (h.saveNode hm hkey hn hold).of_perform hrun
    have hs := ((saveNode_steady hwf hn false).of_perform hrun).shape
    cases r with
    | error => exact hv
    | ok =>
      -- The link holds the key of the child already, or the child is still new.
      have hfollow := hv.known.followChild_eq ((hs.hasEdge e).2 he) (fun hbound =>
        (hv.unsaved.writes (hv.known.hasChild ((hs.hasEdge e).2 he)) hbound).agrees) wasNew
      dsimp only
      rwa [hfollow]

/-- Saving what is behind joins keeps what is known true. -/
theorem saveBelow (b : Branches)
    (h : SoundSave c db keyName tables touched root key doubt w.store w.state)
    (hb : w.state.Hangs n b) : (LinkedRows.saveBelow c b).Ensures w fun _ v =>
      SoundSave c db keyName tables touched root key doubt v.store v.state := by
  induction b generalizing n w with
  | nil => exact h
  | cons e child below next ihBelow ihNext =>
    obtain ⟨he, rfl, -, hbelow, hnext⟩ := hb
    have hwf := h.known.toWellFormed
    have hedge := hwf.hasEdge he
    rw [Action.Ensures, perform_saveBelow_kept (h.known.undeleted _)]
    refine Action.Ensures.bind_of_perform (Q := fun _ v =>
      SoundSave c db keyName tables touched root key doubt v.store v.state)
        (fun _ u hbelowRun => ?_) fun _ u hbelowRun => (ihBelow h hbelow).of_perform hbelowRun
    have hu := (ihBelow h hbelow).of_perform hbelowRun
    have hs₁ := (saveBelow_steady below hwf hbelow).of_perform hbelowRun
    have hwf₁ := hu.known.toWellFormed
    have hedge₁ := (hs₁.shape.hasEdge e).2 hedge
    have hwas (hnew : u.state.isNew (u.state.edge e).child = true) :
        w.state.isNew (w.state.childOf e) = true := by
      rw [hs₁.shape.edge] at hnew
      exact hs₁.wasNew hwf (hwf.hasChild hedge) hnew
    have hchild := hu.saveChild hm hkey hedge₁ hwas
    rw [hs₁.shape.edge] at hchild
    have hsteady :=
      saveNode_steady (c := c) hwf₁ ((hs₁.shape.hasNode _).2 (hwf.hasChild hedge)) false
    refine Action.Ensures.bind_of_perform (fun _ t hnodeRun => ?_) fun _ t hnodeRun =>
      hchild.of_perform hnodeRun
    have ht := hchild.of_perform hnodeRun
    have hs₂ := (hs₁.trans (hsteady.of_perform hnodeRun)).trans
      (steady_followChild t.state e (w.state.isNew (w.state.childOf e)))
    rw [Action.Ensures, Action.perform_update_bind]
    exact ihNext ht (hs₂.shape.hangs hnext)

/-- What a save does once links are resolved keeps what is known true. -/
theorem save (h : SoundSave c db keyName tables touched root key doubt w.store w.state) :
    (LinkedRows.saveBelow c (w.state.below root) >>= fun _ =>
      LinkedRows.saveNode c root true).Ensures w fun _ v =>
        SoundSave c db keyName tables touched root key doubt v.store v.state := by
  have hwf := h.known.toWellFormed
  have hbelow := h.saveBelow hm hkey _ (hangs_below hwf root)
  refine Action.Ensures.bind_of_perform (fun _ u hrun => ?_) fun _ u hrun => hbelow.of_perform hrun
  have hu := hbelow.of_perform hrun
  refine hu.saveNode hm hkey hu.root.hasRoot fun hnew => ?_
  rw [isNew_of_keyValue hu.known.toWellFormed hu.known.unstored hu.root.hasRoot
    (by rwa [hu.root.keyed])] at hnew
  cases hnew

end

end SoundSave

end LinkedRows
