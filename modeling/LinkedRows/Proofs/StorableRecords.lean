/-
# Records that can be stored

What a save writes is told by the rows and by what was assigned: records with something assigned,
and those whose links take the keys of rows that are inserted (`Affected`).  They can be stored if
each stands for a row that no other record stands for, and if no two inserted rows give their keys
to one link (`Storable`).  That holds of one of two twins if it holds of the other one.

A forest that is true to a database stays true to it then while a record is saved (`save_true`).
-/

import LinkedRows.Proofs.SavedTruth
import LinkedRows.Proofs.SavingTwins

namespace LinkedRows

open Forest

variable {σ ρ : Type} {c : Connector σ} {keyName : String → String} {key : Value}

namespace Forest

variable {dialect : Dialect} {db : Database} {t : Tables ρ} {f g : Forest} {n : NodeId} {e : EdgeId}

/-! ## What a save writes -/

/-- Saving inserts the row of the child of a join. -/
def AddsRow (db : Database) (f : Forest) (e : EdgeId) : Prop :=
  f.keyAt db (f.edge e).child = .null ∧ f.hasChanges (f.edge e).child = true

/-- Saving writes to the row of a record: something is assigned, or a link of it takes the key of a
row that is inserted. -/
def Affected (db : Database) (f : Forest) (n : NodeId) : Prop :=
  f.pendingCells n ≠ [] ∨ ∃ e, f.HasEdge e ∧ (f.edge e).owner = n ∧ f.AddsRow db e

/-- All that a save writes can be read back, and each record that it writes to has a row of its
own. -/
structure Storable (dialect : Dialect) (keyName : String → String) (db : Database) (t : Tables ρ)
    (f : Forest) : Prop where
  byKeys : ByKeys keyName f
  known {d : CellId} {v : Value} : f.HasCell d → (f.cell d).isKey = false →
    (f.cell d).assigned = some v → dialect.known v = v
  /-- If rows are inserted, none of them can be the one that some record already has a key for. -/
  found {n : NodeId} : f.HasNode n → f.keyAt db n ≠ .null →
    (f.Affected db n ∨ ∃ e, f.HasEdge e ∧ f.AddsRow db e) →
      t.row? (f.node n).table (f.keyAt db n) ≠ none
  apart {n m : NodeId} : f.HasNode n → f.HasNode m → n ≠ m → f.keyAt db n ≠ .null →
    f.keyAt db m ≠ .null → f.Affected db n →
      t.row? (f.node n).table (f.keyAt db n) ≠ t.row? (f.node m).table (f.keyAt db m)
  /-- The link of a row that is inserted is no key, and no other join goes through it. -/
  fresh {e : EdgeId} : f.HasEdge e → f.AddsRow db e →
    (f.edge e).label.link ≠ f.keyName (f.edge e).owner ∧
      ∀ e', f.HasEdge e' → (f.edge e').owner = (f.edge e).owner →
        (f.edge e').label.link = (f.edge e).label.link → e' = e

section

variable [DecidableEq ρ]

instance : Decidable (f.AddsRow db e) :=
  inferInstanceAs (Decidable (f.keyAt db (f.edge e).child = .null ∧ _ = true))

instance : Decidable (f.Affected db n) :=
  inferInstanceAs (Decidable (f.pendingCells n ≠ [] ∨
    ∃ e, f.HasEdge e ∧ (f.edge e).owner = n ∧ f.AddsRow db e))

set_option synthInstance.maxSize 512 in
instance : Decidable (Storable dialect keyName db t f) :=
  decidable_of_iff
    (ByKeys keyName f ∧
      (∀ d, f.HasCell d → (f.cell d).isKey = false → ∀ v ∈ (f.cell d).assigned,
        dialect.known v = v) ∧
      (∀ n, f.HasNode n → f.keyAt db n ≠ .null →
        (f.Affected db n ∨ ∃ e, f.HasEdge e ∧ f.AddsRow db e) →
          t.row? (f.node n).table (f.keyAt db n) ≠ none) ∧
      (∀ n, f.HasNode n → ∀ m, f.HasNode m → n ≠ m → f.keyAt db n ≠ .null →
        f.keyAt db m ≠ .null → f.Affected db n →
          t.row? (f.node n).table (f.keyAt db n) ≠ t.row? (f.node m).table (f.keyAt db m)) ∧
      ∀ e, f.HasEdge e → f.AddsRow db e →
        (f.edge e).label.link ≠ f.keyName (f.edge e).owner ∧
          ∀ e', f.HasEdge e' → (f.edge e').owner = (f.edge e).owner →
            (f.edge e').label.link = (f.edge e).label.link → e' = e)
    ⟨fun ⟨hkeys, hknown, hfound, hapart, hfresh⟩ =>
      ⟨hkeys, fun hd hk hv => hknown _ hd hk _ hv, fun hn => hfound _ hn,
        fun hn hm => hapart _ hn _ hm, fun he => hfresh _ he⟩,
      fun h => ⟨h.byKeys, fun _ hd hk _ hv => h.known hd hk hv, fun _ => h.found,
        fun _ hn _ hm => h.apart hn hm, fun _ => h.fresh⟩⟩

end

theorem Affected.hasChanges (h : f.Affected db n) (hf : Intact f) : f.hasChanges n = true := by
  rcases h with hpending | ⟨e, he, rfl, -, hchanges⟩
  · exact hasChanges_of_pendingCells hf hpending
  · exact hasChanges_owner hf he hchanges

section

variable (h : Twins f g) (hf : Intact f) (hg : Intact g)
  (hkeys : ∀ n, f.HasNode n → g.keyAt db n = f.keyAt db n)
include h hf hg hkeys

theorem Twins.addsRow (he : f.HasEdge e) : g.AddsRow db e ↔ f.AddsRow db e := by
  have hchild := hf.hasChild he
  rw [AddsRow, AddsRow, h.child, hkeys _ hchild, h.hasChanges hf hg hchild]

theorem Twins.affected (n : NodeId) : g.Affected db n ↔ f.Affected db n := by
  rw [Affected, Affected, ne_eq, h.pendingCells_eq_nil_iff hf.toWellFormed hg.toWellFormed]
  refine or_congr_right (exists_congr fun e => ?_)
  rw [h.hasEdge, h.owner]
  exact and_congr_right fun he => and_congr_right fun _ => h.addsRow hf hg hkeys he

theorem Storable.twins (hs : Storable dialect keyName db t f) :
    Storable dialect keyName db t g where
  byKeys n hn := by
    have hn := (h.hasNode n).1 hn
    rw [h.keyName hn, h.table]
    exact hs.byKeys n hn
  known {d v} hd hk hv := by
    have hpending := (pending?_of_cell hg.toWellFormed hd hk).trans hv
    rw [h.pending?] at hpending
    obtain ⟨d', hmem, -, hk', hv'⟩ := (pending?_eq_some_iff hf.toWellFormed).1 hpending
    exact hs.known (hf.hasCell hmem) hk' hv'
  found {n} hn hkey hadds := by
    have hn := (h.hasNode n).1 hn
    rw [hkeys n hn] at hkey ⊢
    rw [h.table]
    refine hs.found hn hkey (hadds.imp (h.affected hf hg hkeys n).1 ?_)
    rintro ⟨e, he, hadds⟩
    have he := (h.hasEdge e).1 he
    exact ⟨e, he, (h.addsRow hf hg hkeys he).1 hadds⟩
  apart {n m} hn hm hne hkey hkey' haffected := by
    have hn := (h.hasNode n).1 hn
    have hm := (h.hasNode m).1 hm
    rw [hkeys n hn] at hkey ⊢
    rw [hkeys m hm] at hkey' ⊢
    rw [h.table, h.table]
    exact hs.apart hn hm hne hkey hkey' ((h.affected hf hg hkeys n).1 haffected)
  fresh {e} he hadds := by
    have he := (h.hasEdge e).1 he
    obtain ⟨hname, halone⟩ := hs.fresh he ((h.addsRow hf hg hkeys he).1 hadds)
    rw [h.label, h.owner, h.keyName (hf.hasEdgeOwner he)]
    refine ⟨hname, fun e' he' howner hlabel => ?_⟩
    rw [h.owner] at howner
    rw [h.label] at hlabel
    exact halone e' ((h.hasEdge e').1 he') howner hlabel

end

/-! ## Once links are resolved -/

/-- Once the keys of the records with changes are known, the records that are affected may be
written to. -/
theorem Storable.unsaved (h : Storable dialect keyName db t f) (hf : Intact f)
    (hlearns : Learns f g) (hg : Mirrors db g (f.keyAt db))
    (hwrites : ∀ n, f.HasNode n → dialect.Writes (f.keyAt db n))
    (hbound : ∀ n, f.HasNode n → f.hasChanges n = true → f.keyAt db n ≠ .null →
      g.isNew n = false) : Unsaved dialect keyName t (f.Affected db) g := by
  have hwf := hf.toWellFormed
  have hs := hlearns.steady.shape
  have hkey {n : NodeId} (hn : f.HasNode n) (hb : g.isNew n = false) :
      g.keyValue n = f.keyAt db n ∧ f.keyAt db n ≠ .null := hg.bound ((hs.hasNode n).2 hn) hb
  have hadds {e : EdgeId} (he : f.HasEdge e) (haffected : f.Affected db (f.edge e).child)
      (hnew : g.isNew (f.edge e).child = true) : f.AddsRow db e := by
    have hchanges := haffected.hasChanges hf
    refine ⟨?_, hchanges⟩
    by_contra hnull
    cases hnew.symm.trans (hbound _ (hwf.hasChild he) hchanges hnull)
  exact
    { byKeys := h.byKeys.of_sameShape hs
      writes := fun {n} hn hb => by
        have hn := (hs.hasNode n).1 hn
        rw [(hkey hn hb).1]
        exact hwrites n hn
      known := fun {d v} hk hv => by
        have hk := (hs.isKey d).symm.trans hk
        rw [hlearns.assigned hwf hk] at hv
        by_cases hd : f.HasCell d
        · exact h.known hd hk hv
        · rw [cell_of_not_hasCell f hd] at hv
          cases hv
      pending := fun {n} hpending => Or.inl ((hlearns.pendingCells_eq_nil_iff hwf n).not.1 hpending)
      found := fun {n} hn hb hmay => by
        have hn := (hs.hasNode n).1 hn
        rw [hs.table, (hkey hn hb).1]
        refine h.found hn (hkey hn hb).2 (hmay.imp_right ?_)
        rintro ⟨e, he, haffected, hnew⟩
        have he := (hs.hasEdge e).1 he
        rw [hs.edge] at haffected hnew
        exact ⟨e, he, hadds he haffected hnew⟩
      apart := fun {n m} hn hm hne hb hb' haffected => by
        have hn := (hs.hasNode n).1 hn
        have hm := (hs.hasNode m).1 hm
        rw [hs.table, hs.table, (hkey hn hb).1, (hkey hm hb').1]
        exact h.apart hn hm hne (hkey hn hb).2 (hkey hm hb').2 haffected
      fresh := fun {e} he haffected hnew => by
        have hedge := (hs.hasEdge e).1 he
        rw [hs.edge] at haffected hnew ⊢
        have hadd := hadds hedge haffected hnew
        obtain ⟨hname, halone⟩ := h.fresh hedge hadd
        refine ⟨Or.inr ⟨e, hedge, rfl, hadd⟩, ?_, ?_, fun e' he' hlink => ?_⟩
        · rw [hs.isKey, Bool.eq_false_iff, ne_eq, isKey_iff_keyName hwf (hwf.hasLink hedge),
            hwf.owner_link hedge]
          intro hkeyName
          refine hname ?_
          rw [hwf.label_eq hedge]
          exact hkeyName.symm
        · by_contra hvalue
          have hlink := hg.key_of_value he hvalue
          rw [hs.edge, hadd.1] at hlink
          exact hvalue (by rwa [linkValue, hs.edge])
        · have he' := (hs.hasEdge e').1 he'
          rw [hs.edge] at hlink
          refine halone e' he' ?_ ?_
          · rw [← hwf.owner_link he', hlink, hwf.owner_link hedge]
          · rw [hwf.label_eq he', hwf.label_eq hedge, hlink] }

end Forest

/-! ## A whole save -/

/-- **A save keeps what is known true.**  That holds whether it succeeds or fails. -/
theorem save_true {db : σ → Database} {tables : σ → Tables ρ} {doubt : String → Prop} {r : Record}
    {w : World σ Forest} (hc : Serves c (db w.store) (· = w.store))
    (hm : Maintains c db keyName tables) (hkey : key ≠ .null)
    (h : TrueTo (db w.store) r.root doubt w.state) (hr : KeyedRoot r.root key w.state)
    (hg : Grounded c.dialect (db w.store) w.state)
    (hs : Storable c.dialect keyName (db w.store) (tables w.store) w.state) :
    (r.save c).Ensures w fun _ v =>
      TrueTo (db v.store) r.root doubt v.state ∧ KeyedRoot r.root key v.state := by
  have hf := h.follows hr hkey hg
  have hwf := h.toWellFormed
  obtain ⟨v, hsave, hfetched, hsame, -, hbound⟩ := save_resolved hc rfl hf hr.toRooted
  have hlearns := hfetched.learns
  have hsound : SoundSave c db keyName tables (w.state.Affected (db w.store)) r.root key doubt
      v.store v.state := by
    rw [hfetched.still]
    exact ⟨h.resolved hr.hasRoot hf hfetched hsame,
      hs.unsaved h.toIntact hlearns hfetched.follows.toMirrors (fun _ hn => hg.writes hn)
        fun n hn hchanges hkeyN => hbound n hn (Or.inl hchanges) hkeyN,
      hr.learns hwf (hf.root hr.hasRoot hr.isRoot) hlearns⟩
  have hroot : (LinkedRows.save c r.root).Ensures w fun _ v =>
      TrueTo (db v.store) r.root doubt v.state ∧ KeyedRoot r.root key v.state := by
    rw [Action.Ensures, hsave, ← hlearns.steady.shape.below]
    have hend := hsound.save hm hkey
    exact ⟨hend.known, hend.root⟩
  exact hroot.bind (fun _ _ hv => hv) fun _ _ hv => hv

end LinkedRows
