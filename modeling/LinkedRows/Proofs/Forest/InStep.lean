/-
# Twins that are saved in step

While two twins are saved, their records are of two kinds.  A record that stood for a row when the
save began is left alone, if nothing changed at it or below it; it may have learned its key in one
of the twins only.  If something changed it has learned its key in both, and keeps it.  A record
that stood for no row has the same key in both at any time, or none: the one it is inserted with
(`InStep`).

A link to a row never changes then: its child has the key that it holds.  A link to no row holds the
same in both twins, and follows its child in both or in neither (`InStep.followChild`).
-/

import LinkedRows.Proofs.Forest.Changes

namespace LinkedRows
namespace Forest

/-- A forest while it is saved: the records that stood for rows, and the links to them. -/
structure Underway (root : NodeId) (keys : NodeId → Value) (changed : NodeId → Prop) (f : Forest) :
    Prop extends Intact f, Rooted f root where
  kept {n} : f.HasNode n → keys n ≠ .null → f.isNew n = false → f.keyValue n = keys n
  bound {n} : f.HasNode n → keys n ≠ .null → changed n → f.isNew n = false
  linked {e} : f.HasEdge e → keys (f.edge e).child ≠ .null → f.isNew (f.edge e).child = false →
    (f.cell (f.edge e).link).value = keys (f.edge e).child
  keyLink {e} : f.HasEdge e → (f.cell (f.edge e).link).isKey = true →
    keys (f.edge e).child = keys (f.edge e).owner
  sameLink {e e'} : f.HasEdge e → f.HasEdge e' → (f.edge e).link = (f.edge e').link →
    keys (f.edge e).child = keys (f.edge e').child

/-- Two forests that are saved in step.  All records with something to write are among those that
changed. -/
structure InStep (root : NodeId) (keys : NodeId → Value) (changed : NodeId → Prop) (f g : Forest) :
    Prop where
  twins : Twins f g
  left : Underway root keys changed f
  right : Underway root keys changed g
  fresh {n} : f.HasNode n → keys n = .null → g.isNew n = f.isNew n ∧ g.keyValue n = f.keyValue n
  freshLink {e} : f.HasEdge e → keys (f.edge e).child = .null →
    (g.cell (g.edge e).link).value = (f.cell (f.edge e).link).value
  freshChanged {n} : f.HasNode n → keys n = .null → f.isNew n = false → changed n
  pending {n} : f.pendingCells n ≠ [] → changed n
  above {e} : f.HasEdge e → changed (f.edge e).child → changed (f.edge e).owner
  agrees {n} : f.HasNode n → (keys n).agrees (keys n) = true

variable {keys : NodeId → Value} {changed : NodeId → Prop} {f g f' g' : Forest}
  {n root : NodeId}

/-! ## What stays -/

/-- A steady change that leaves alone the keys of records that stood for rows, and what their links
hold. -/
structure KeepsOld (keys : NodeId → Value) (f g : Forest) : Prop extends Steady f g where
  key {m} : f.HasNode m → keys m ≠ .null → g.cell (f.node m).key = f.cell (f.node m).key
  link {e} : f.HasEdge e → keys (f.edge e).child ≠ .null →
    (g.cell (f.edge e).link).value = (f.cell (f.edge e).link).value

theorem Underway.keepsOld (hf : Underway root keys changed f) (h : KeepsOld keys f g) :
    Underway root keys changed g := by
  have hs := h.shape
  have hisNew {n : NodeId} (hn : f.HasNode n) (hkey : keys n ≠ .null) :
      g.isNew n = f.isNew n := by
    rw [isNew, isNew, hs.key, h.key hn hkey]
  exact
    { toIntact := hf.toIntact.steady h.toSteady
      toRooted := hf.toRooted.of_sameShape hs
      kept := fun {n} hn hkey hbound => by
        have hn := (hs.hasNode n).1 hn
        rw [hisNew hn hkey] at hbound
        rw [keyValue, hs.key, h.key hn hkey]
        exact hf.kept hn hkey hbound
      bound := fun {n} hn hkey hchanged => by
        have hn := (hs.hasNode n).1 hn
        rw [hisNew hn hkey]
        exact hf.bound hn hkey hchanged
      linked := fun {e} he hkey hbound => by
        have he := (hs.hasEdge e).1 he
        rw [hs.edge] at hkey hbound ⊢
        rw [hisNew (hf.hasChild he) hkey] at hbound
        rw [h.link he hkey]
        exact hf.linked he hkey hbound
      keyLink := fun {e} he hk => by
        rw [hs.edge, hs.isKey] at hk
        rw [hs.edge]
        exact hf.keyLink ((hs.hasEdge e).1 he) hk
      sameLink := fun {e e'} he he' hlink => by
        rw [hs.edge, hs.edge] at hlink ⊢
        exact hf.sameLink ((hs.hasEdge e).1 he) ((hs.hasEdge e').1 he') hlink }

/-- Steps on both sides that keep what is old, and treat alike what is not. -/
theorem InStep.of_keepsOld (h : InStep root keys changed f g) (hf : KeepsOld keys f f')
    (hg : KeepsOld keys g g') (htwins : Twins f' g')
    (hfresh : ∀ n, f.HasNode n → keys n = .null → g'.isNew n = f'.isNew n ∧
      g'.keyValue n = f'.keyValue n ∧ (f'.isNew n = false → changed n))
    (hlink : ∀ e, f.HasEdge e → keys (f.edge e).child = .null →
      (g'.cell (g.edge e).link).value = (f'.cell (f.edge e).link).value)
    (hpending : ∀ n, f'.pendingCells n ≠ [] → changed n) : InStep root keys changed f' g' := by
  have hs := hf.shape
  exact
    { twins := htwins
      left := h.left.keepsOld hf
      right := h.right.keepsOld hg
      fresh := fun {n} hn hkey => by
        obtain ⟨hnew, hvalue, -⟩ := hfresh n ((hs.hasNode n).1 hn) hkey
        exact ⟨hnew, hvalue⟩
      freshLink := fun {e} he hkey => by
        rw [hs.edge] at hkey ⊢
        rw [hg.shape.edge]
        exact hlink e ((hs.hasEdge e).1 he) hkey
      freshChanged := fun {n} hn hkey hbound =>
        (hfresh n ((hs.hasNode n).1 hn) hkey).2.2 hbound
      pending := fun hpend => hpending _ hpend
      above := fun {e} he hchanged => by
        rw [hs.edge] at hchanged ⊢
        exact h.above ((hs.hasEdge e).1 he) hchanged
      agrees := fun hn => h.agrees ((hs.hasNode _).1 hn) }

/-! ## One record -/

theorem InStep.setCurrent (h : InStep root keys changed f g) (n : NodeId) (current : Bool) :
    InStep root keys changed (f.setCurrent n current) (g.setCurrent n current) := by
  have hkeeps (f : Forest) : KeepsOld keys f (f.setCurrent n current) :=
    ⟨steady_setCurrent f n current, fun _ _ => rfl, fun _ _ => rfl⟩
  have hsame (f : Forest) (m : NodeId) : (f.setCurrent n current).isNew m = f.isNew m ∧
      (f.setCurrent n current).keyValue m = f.keyValue m := by
    rw [isNew, isNew, keyValue, keyValue, (sameShape_setCurrent f n current).key]
    exact ⟨rfl, rfl⟩
  refine h.of_keepsOld (hkeeps f) (hkeeps g) ?_ (fun m hm hkey => ?_)
    (fun e he hkey => h.freshLink he hkey) fun m hm => ?_
  · exact h.twins.of_sameShape (hkeeps f).shape (hkeeps g).shape fun m name =>
      (pending?_of_sameShape (hkeeps g).shape (fun _ _ => rfl) m name).trans
        ((h.twins.pending? m name).trans
          (pending?_of_sameShape (hkeeps f).shape (fun _ _ => rfl) m name).symm)
  · rw [(hsame f m).1, (hsame f m).2, (hsame g m).1, (hsame g m).2]
    obtain ⟨hnew, hvalue⟩ := h.fresh hm hkey
    exact ⟨hnew, hvalue, h.freshChanged hm hkey⟩
  · refine h.pending (n := m) ?_
    rwa [pendingCells, (sameShape_setCurrent f n current).cells] at hm

/-- What is pending has reached storage. -/
theorem pending?_settle (hf : WellFormed f) (n m : NodeId) (name : String) :
    (f.settle (f.pendingCells n)).pending? m name = if m = n then none else f.pending? m name := by
  have hs := (reaches_settle hf n).shape
  have hmem (c : CellId) (hc : c ∈ f.pendingCells n) : (f.cell c).owner = n :=
    hf.owner_of_mem (mem_pendingCells.1 hc).1
  ext v
  rw [pending?_eq_some_iff (hf.of_sameShape hs)]
  split
  · rename_i hmn
    subst hmn
    refine ⟨?_, nofun⟩
    rintro ⟨c, hc, -, hk, hv⟩
    rw [hs.cells] at hc
    rw [hs.isKey] at hk
    rw [cell_settle] at hv
    split at hv
    · cases hv
    · rename_i hnot
      exact absurd (mem_pendingCells.2 ⟨hc, by rw [Cell.isDirty, hv]; rfl, hk⟩) hnot
  · rename_i hmn
    rw [pending?_eq_some_iff hf]
    have hcell {c : CellId} (hc : c ∈ (f.node m).cells) :
        (f.settle (f.pendingCells n)).cell c = f.cell c := by
      rw [cell_settle, if_neg]
      intro hpending
      exact hmn ((hf.owner_of_mem hc).symm.trans (hmem c hpending))
    simp only [hs.cells]
    constructor
    · rintro ⟨c, hc, h⟩
      rw [hcell hc] at h
      exact ⟨c, hc, h⟩
    · rintro ⟨c, hc, h⟩
      rw [← hcell hc] at h
      exact ⟨c, hc, h⟩

theorem InStep.settle (h : InStep root keys changed f g) (n : NodeId) :
    InStep root keys changed (f.settle (f.pendingCells n)) (g.settle (g.pendingCells n)) := by
  have hvalue (f : Forest) (c : CellId) :
      ((f.settle (f.pendingCells n)).cell c).value = (f.cell c).value := by
    rw [cell_settle]
    split <;> rfl
  have hkeyCell {f : Forest} (hf : WellFormed f) {m : NodeId} (hm : f.HasNode m) :
      (f.settle (f.pendingCells n)).cell (f.node m).key = f.cell (f.node m).key := by
    rw [cell_settle, if_neg]
    intro hmem
    have hk := (mem_pendingCells.1 hmem).2.2
    rw [isKey_key hf hm] at hk
    cases hk
  have hkeeps {f : Forest} (hf : WellFormed f) : KeepsOld keys f (f.settle (f.pendingCells n)) :=
    ⟨(reaches_settle hf n).toSteady, fun hm _ => hkeyCell hf hm, fun _ _ => hvalue f _⟩
  have hsame {f : Forest} (hf : WellFormed f) {m : NodeId} (hm : f.HasNode m) :
      (f.settle (f.pendingCells n)).isNew m = f.isNew m ∧
        (f.settle (f.pendingCells n)).keyValue m = f.keyValue m := by
    rw [isNew, isNew, keyValue, keyValue, (reaches_settle hf n).shape.key, hkeyCell hf hm]
    exact ⟨rfl, rfl⟩
  have hf := h.left.toWellFormed
  have hg := h.right.toWellFormed
  refine h.of_keepsOld (hkeeps hf) (hkeeps hg) ?_ (fun m hm hkey => ?_) (fun e he hkey => ?_)
    fun m hm => ?_
  · refine h.twins.of_sameShape (reaches_settle hf n).shape (reaches_settle hg n).shape
      fun m name => ?_
    rw [pending?_settle hf, pending?_settle hg, h.twins.pending?]
  · have hm' := (h.twins.hasNode m).2 hm
    rw [(hsame hf hm).1, (hsame hf hm).2, (hsame hg hm').1, (hsame hg hm').2]
    obtain ⟨hnew, hvalue⟩ := h.fresh hm hkey
    exact ⟨hnew, hvalue, h.freshChanged hm hkey⟩
  · rw [hvalue, hvalue]
    exact h.freshLink he hkey
  · refine h.pending (n := m) fun hnil => hm ?_
    rw [pendingCells_eq_nil_iff (hf.of_sameShape (reaches_settle hf n).shape)]
    intro name
    rw [pending?_settle hf, (pendingCells_eq_nil_iff hf).1 hnil]
    split <;> rfl

/-! ## Columns that lead to no row -/

/-- A column that leads to no row is assigned in both: a link, or the key of a record that stood for
no row. -/
theorem InStep.assign (h : InStep root keys changed f g) {c d : CellId} (hcd : SameColumn f g c d)
    (key : Value) (hchanged : changed (f.cell c).owner)
    (hkey : (f.cell c).isKey = true → keys (f.cell c).owner = .null)
    (hlinks : ∀ e, f.HasEdge e → (f.edge e).link = c → keys (f.edge e).child = .null) :
    InStep root keys changed (f.modifyCell c (·.assign key)) (g.modifyCell d (·.assign key)) := by
  have hf := h.left.toWellFormed
  have hg := h.right.toWellFormed
  have hkeeps {f : Forest} (hf : WellFormed f) {c : CellId}
      (hkey : (f.cell c).isKey = true → keys (f.cell c).owner = .null)
      (hlinks : ∀ e, f.HasEdge e → (f.edge e).link = c → keys (f.edge e).child = .null) :
      KeepsOld keys f (f.modifyCell c (·.assign key)) := by
    refine ⟨steady_assignCell f c key, fun {m} hm hold => ?_, fun {e} he hold => ?_⟩
    · refine cell_modifyCell_of_ne f ?_ _
      rintro rfl
      rw [isKey_key hf hm, hf.owner_key hm] at hkey
      exact hold (hkey rfl)
    · rw [cell_modifyCell_of_ne f]
      rintro hlink
      exact hold (hlinks e he hlink)
  have hlink (e : EdgeId) (he : f.HasEdge e) :
      (f.edge e).link = c ↔ (g.edge e).link = d := (h.twins.link hf hg he).eq_iff hcd hf hg
  have hkeyCell (m : NodeId) (hm : f.HasNode m) :
      (f.node m).key = c ↔ (g.node m).key = d := (h.twins.key hf hg hm).eq_iff hcd hf hg
  refine h.of_keepsOld (hkeeps hf hkey hlinks) (hkeeps hg ?_ fun e he hlinkD => ?_)
    (h.twins.assignCell hf hg hcd key) (fun m hm hfresh => ?_) (fun e he hfresh => ?_)
    fun m hm => ?_
  · rw [h.twins.isKey hf hg hcd, hcd.owner]
    exact hkey
  · have he := (h.twins.hasEdge e).1 he
    rw [h.twins.child]
    exact hlinks e he ((hlink e he).2 hlinkD)
  · rw [isNew, isNew, keyValue, keyValue, node_modifyCell, node_modifyCell]
    by_cases hc : (f.node m).key = c
    · rw [hc, (hkeyCell m hm).1 hc, cell_modifyCell_self f hcd.left,
        cell_modifyCell_self g hcd.right]
      refine ⟨rfl, rfl, fun _ => ?_⟩
      rwa [← hc, hf.owner_key hm] at hchanged
    · rw [cell_modifyCell_of_ne f hc, cell_modifyCell_of_ne g fun hd => hc ((hkeyCell m hm).2 hd)]
      obtain ⟨hnew, hvalue⟩ := h.fresh hm hfresh
      exact ⟨hnew, hvalue, h.freshChanged hm hfresh⟩
  · by_cases hc : (f.edge e).link = c
    · rw [hc, (hlink e he).1 hc, cell_modifyCell_self f hcd.left, cell_modifyCell_self g hcd.right]
      rfl
    · rw [cell_modifyCell_of_ne f hc, cell_modifyCell_of_ne g fun hd => hc ((hlink e he).2 hd)]
      exact h.freshLink he hfresh
  · obtain ⟨x, hx⟩ := List.exists_mem_of_ne_nil _ hm
    obtain ⟨hmem, hdirty, hk⟩ := mem_pendingCells.1 hx
    have hs := (steady_assignCell f c key).shape
    rw [node_modifyCell] at hmem
    by_cases hxc : x = c
    · subst hxc
      rwa [hf.owner_of_mem hmem] at hchanged
    · rw [cell_modifyCell_of_ne f hxc] at hdirty hk
      exact h.pending (List.ne_nil_of_mem (mem_pendingCells.2 ⟨hmem, hdirty, hk⟩))

/-- A record that stood for no row gets the same key in both. -/
theorem InStep.setKey (h : InStep root keys changed f g) (hn : f.HasNode n)
    (hfresh : keys n = .null) (hchanged : changed n) (key : Value) :
    InStep root keys changed (f.setKey n key) (g.setKey n key) := by
  have hf := h.left.toWellFormed
  have howner := hf.owner_key hn
  refine h.assign (h.twins.key hf h.right.toWellFormed hn) key (by rwa [howner])
    (fun _ => by rwa [howner]) fun e he hlink => ?_
  have hk : (f.cell (f.edge e).link).isKey = true := by rw [hlink, isKey_key hf hn]
  rw [h.left.keyLink he hk, ← hf.owner_link he, hlink, howner, hfresh]

/-! ## One join -/

/-- A link to a row that was there holds its key, so it does not follow. -/
theorem Underway.followChild_of_old (hf : Underway root keys changed f) {e : EdgeId}
    (he : f.HasEdge e) (hold : keys (f.edge e).child ≠ .null)
    (hagrees : (keys (f.edge e).child).agrees (keys (f.edge e).child) = true) (wasNew : Bool) :
    f.followChild e wasNew = f := by
  unfold followChild
  dsimp only
  rw [if_neg]
  cases hnew : f.isNew (f.edge e).child with
  | true => simp
  | false =>
    rw [hf.kept (hf.hasChild he) hold hnew, hf.linked he hold hnew, hagrees]
    simp

/-- A link to no row is assigned in both or in neither. -/
theorem InStep.isDirty_link (h : InStep root keys changed f g) {e : EdgeId} (he : f.HasEdge e)
    (hfresh : keys (f.edge e).child = .null) :
    (g.cell (g.edge e).link).isDirty = (f.cell (f.edge e).link).isDirty := by
  have hf := h.left.toWellFormed
  have hg := h.right.toWellFormed
  have hlink := h.twins.link hf hg he
  have he' := (h.twins.hasEdge e).2 he
  cases hk : (f.cell (f.edge e).link).isKey with
  | true =>
    -- The link is the key of a record that stood for no row either.
    have hk' := (h.twins.isKey hf hg hlink).trans hk
    have hkey := (hf.isKey_iff hlink.left).1 hk
    have hkey' := (hg.isKey_iff hlink.right).1 hk'
    have howner : keys (f.edge e).owner = .null := (h.left.keyLink he hk).symm.trans hfresh
    obtain ⟨hnew, -⟩ := h.fresh (hf.hasEdgeOwner he) howner
    rw [hf.owner_link he] at hkey
    rw [hg.owner_link he', h.twins.owner] at hkey'
    rw [isNew, isNew, hkey, hkey', Bool.not_inj_iff] at hnew
    exact hnew
  | false => rw [Cell.isDirty, Cell.isDirty, h.twins.assigned hf hg hlink hk]

/-- A link to no row follows its child in both or in neither. -/
theorem InStep.followChild (h : InStep root keys changed f g) {e : EdgeId} (he : f.HasEdge e)
    (wasNew wasNew' : Bool) (hwas : keys (f.edge e).child = .null → wasNew' = wasNew) :
    InStep root keys changed (f.followChild e wasNew) (g.followChild e wasNew') := by
  have hf := h.left.toWellFormed
  have hg := h.right.toWellFormed
  have he' := (h.twins.hasEdge e).2 he
  have hagrees := h.agrees (hf.hasChild he)
  by_cases hfresh : keys (f.edge e).child = .null
  · obtain ⟨hnew, hvalue⟩ := h.fresh (hf.hasChild he) hfresh
    unfold Forest.followChild
    dsimp only
    rw [h.twins.child, hnew, hvalue, h.freshLink he hfresh, h.isDirty_link he hfresh, hwas hfresh]
    split
    · rename_i hfollows
      simp only [Bool.and_eq_true, Bool.not_eq_true'] at hfollows
      have hchanged := h.above he (h.freshChanged (hf.hasChild he) hfresh hfollows.1.1)
      refine h.assign (h.twins.link hf hg he) _ (by rwa [hf.owner_link he]) (fun hk => ?_)
        fun e' he' hlink => ?_
      · rw [hf.owner_link he, ← h.left.keyLink he hk, hfresh]
      · rw [h.left.sameLink he' he hlink, hfresh]
    · exact h
  · rw [h.left.followChild_of_old he hfresh hagrees, h.right.followChild_of_old he']
    · exact h
    · rwa [h.twins.child]
    · rwa [h.twins.child]

/-! ## What is written -/

/-- The names and values that saving a record writes. -/
def pendingFields (f : Forest) (n : NodeId) : List (String × Value) :=
  (f.pendingCells n).map fun c => ((f.cell c).name, (f.cell c).value)

theorem mem_pendingFields (hf : WellFormed f) {name : String} {v : Value} :
    (name, v) ∈ f.pendingFields n ↔ f.pending? n name = some v := by
  rw [pendingFields, List.mem_map, pending?_eq_some_iff hf]
  constructor
  · rintro ⟨c, hc, heq⟩
    obtain ⟨hmem, hdirty, hk⟩ := mem_pendingCells.1 hc
    obtain ⟨hname, hvalue⟩ := Prod.mk.inj heq
    obtain ⟨x, hx⟩ := Option.isSome_iff_exists.1 hdirty
    rw [Cell.value, hx] at hvalue
    exact ⟨c, hmem, hname, hk, hx.trans (congrArg some hvalue)⟩
  · rintro ⟨c, hmem, hname, hk, hv⟩
    refine ⟨c, mem_pendingCells.2 ⟨hmem, by rw [Cell.isDirty, hv]; rfl, hk⟩, ?_⟩
    rw [hname, Cell.value, hv]
    rfl

/-- Each column is written once. -/
theorem nodup_names_pendingFields (hf : WellFormed f) (n : NodeId) :
    ((f.pendingFields n).map Prod.fst).Nodup := by
  rw [pendingFields, List.map_map]
  refine List.Nodup.map_on (fun c hc d hd heq => ?_) ((hf.nodup_cells n).filter _)
  exact hf.name_inj (mem_pendingCells.1 hc).1 (mem_pendingCells.1 hd).1 heq

theorem nodup_pendingFields (hf : WellFormed f) : (f.pendingFields n).Nodup :=
  (nodup_names_pendingFields hf n).of_map

/-- Twins have the same to write, in another order. -/
theorem Twins.pendingFields_perm (h : Twins f g) (hf : WellFormed f) (hg : WellFormed g)
    (n : NodeId) : (f.pendingFields n).Perm (g.pendingFields n) := by
  refine (List.perm_ext_iff_of_nodup (nodup_pendingFields hf) (nodup_pendingFields hg)).2 ?_
  rintro ⟨name, v⟩
  rw [mem_pendingFields hf, mem_pendingFields hg, h.pending?]

/-- A record with something to write is inserted or updated. -/
theorem planSave?_of_pending (hpending : f.pendingCells n ≠ []) (direct : Bool) :
    f.planSave? n direct = some (if f.isNew n
      then .insert n (f.node n).table (f.pendingCells n) (f.pendingFields n)
      else .update n (f.node n).table (f.rowKey n) (f.pendingCells n) (f.pendingFields n)) := by
  have hempty : (f.pendingCells n).isEmpty = false := by simpa using hpending
  unfold planSave?
  dsimp only
  rw [hempty]
  cases f.isNew n <;> rfl

/-- Of the records that changed, the same are new. -/
theorem InStep.isNew_eq (h : InStep root keys changed f g) (hn : f.HasNode n)
    (hchanged : changed n) : g.isNew n = f.isNew n := by
  by_cases hkey : keys n = .null
  · exact (h.fresh hn hkey).1
  · rw [h.left.bound hn hkey hchanged, h.right.bound ((h.twins.hasNode n).2 hn) hkey hchanged]

/-- Records that changed have the same row. -/
theorem InStep.rowKey_eq (h : InStep root keys changed f g) (hn : f.HasNode n)
    (hchanged : changed n) : g.rowKey n = f.rowKey n := by
  have hvalue : g.keyValue n = f.keyValue n := by
    by_cases hkey : keys n = .null
    · exact (h.fresh hn hkey).2
    · have hn' := (h.twins.hasNode n).2 hn
      rw [h.left.kept hn hkey (h.left.bound hn hkey hchanged),
        h.right.kept hn' hkey (h.right.bound hn' hkey hchanged)]
  rw [rowKey, rowKey, h.twins.keyName hn, hvalue]

end Forest
end LinkedRows
