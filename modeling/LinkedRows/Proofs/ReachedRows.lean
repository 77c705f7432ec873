/-
# Edits and the rows they reach

For each record a save attempts one write at most (`Attempts.unique`), and each edit that is gone
after a save that succeeds was carried by the write of its record (`Saved.written`).  A write says
how many rows it touched, and the save goes on without looking at it.  So whether an edit has
reached a row depends on what was reported for this one write (`saved_edit_reaches_row_iff`); an
update of a row that is missing reaches none, and the edit is gone all the same.
-/

import LinkedRows.Proofs.Edits
import LinkedRows.Proofs.Operations
import LinkedRows.Proofs.Turns

namespace LinkedRows

open Forest

variable {σ : Type} {c : Connector σ} {w u u' v : World σ Forest} {n root : NodeId} {b : Branches}
  {d : CellId} {write write' : Write} {count count' : Nat}

/-! ## One write for a record -/

/-- What a save has come to is told by where it started. -/
theorem SavedBelow.unique {writes writes' : List Write} (h : SavedBelow c b w writes u)
    (h' : SavedBelow c b w writes' u') : u = u' := by
  have h := saveBelow_ok_iff.2 ⟨_, h⟩
  have h' := saveBelow_ok_iff.2 ⟨_, h'⟩
  exact (Prod.mk.inj (h.symm.trans h')).2

theorem SavedNode.unique {direct : Bool} {writes writes' : List Write}
    (h : SavedNode c n direct w writes u) (h' : SavedNode c n direct w writes' u') : u = u' := by
  have h := saveNode_ok_iff.2 ⟨_, h⟩
  have h' := saveNode_ok_iff.2 ⟨_, h'⟩
  exact (Prod.mk.inj (h.symm.trans h')).2

theorem AttemptsBelow.unique (h : AttemptsBelow c b w write u)
    (h' : AttemptsBelow c b w write' u') (hf : WellFormed w.state) (hb : w.state.Hangs n b)
    (hjoins : b.joins.Nodup) (hnode : write.node = write'.node) : write = write' ∧ u = u' := by
  induction h generalizing n with
  | deleted hdel _ ih =>
    cases h' with
    | deleted _ h' => exact ih h' hf hb.later (List.nodup_cons.1 hjoins).2 hnode
    | deeper hkept | child hkept | later hkept => exact absurd (hdel.symm.trans hkept) (by decide)
  | @deeper _ child below next _ _ _ hkept h ih =>
    obtain ⟨-, -, hbelowEq, hhang, -⟩ := id hb
    have hmem := h.node_mem
    cases h' with
    | deleted hdel => exact absurd (hdel.symm.trans hkept) (by decide)
    | deeper _ h' => exact ih h' hf hhang (hbelowEq ▸ nodup_joins_below hf child) hnode
    | child _ _ hplan =>
      rw [hnode, node_planSave? hplan] at hmem
      exact absurd hmem (not_mem_of_hangs hf hhang)
    | later _ _ _ h' =>
      have hout := not_mem_next_of_first hf hb hjoins (List.mem_cons_of_mem _ hmem)
      exact absurd (hnode ▸ h'.node_mem) hout
  | @child _ child below next _ _ _ _ hkept hbelow hplan =>
    obtain ⟨-, -, -, hhang, -⟩ := id hb
    have hchild := node_planSave? hplan
    cases h' with
    | deleted hdel => exact absurd (hdel.symm.trans hkept) (by decide)
    | deeper _ h' =>
      rw [hchild] at hnode
      exact absurd (hnode ▸ h'.node_mem) (not_mem_of_hangs hf hhang)
    | child _ hbelow' hplan' =>
      obtain rfl := hbelow.unique hbelow'
      exact ⟨Option.some.inj (hplan.symm.trans hplan'), rfl⟩
    | later _ _ _ h' =>
      have hout := not_mem_next_of_first hf hb hjoins (List.mem_cons_self ..)
      exact absurd (hchild ▸ hnode ▸ h'.node_mem) hout
  | @later _ child below next _ _ _ _ _ _ _ hkept hbelow hnodeSaved h ih =>
    have hs := (hbelow.savedChild hnodeSaved hf hb).steady_follow
    have hmem := h.node_mem
    cases h' with
    | deleted hdel => exact absurd (hdel.symm.trans hkept) (by decide)
    | deeper _ h' =>
      have hout := not_mem_next_of_first hf hb hjoins (List.mem_cons_of_mem _ h'.node_mem)
      exact absurd (hnode ▸ hmem) hout
    | child _ _ hplan' =>
      have hout := not_mem_next_of_first hf hb hjoins (List.mem_cons_self ..)
      exact absurd (node_planSave? hplan' ▸ hnode ▸ hmem) hout
    | later _ hbelow' hnodeSaved' h' =>
      obtain rfl := hbelow.unique hbelow'
      obtain rfl := hnodeSaved.unique hnodeSaved'
      exact ih h' (hs.wellFormed hf) (hs.shape.hangs hb.later) (List.nodup_cons.1 hjoins).2 hnode

/-- A save attempts one write for a record, at one point. -/
theorem Attempts.unique (h : Attempts c root w write u) (h' : Attempts c root w write' u')
    (hf : WellFormed w.state) (hnode : write.node = write'.node) : write = write' ∧ u = u' := by
  have hb := hangs_below hf root
  have hout := not_mem_below hf root
  cases h with
  | deeper _ hread hresolve h =>
    have hs := (consults_before hf hread hresolve).learns.steady
    have hmem := h.node_mem
    cases h' with
    | deeper _ hread' hresolve' h' =>
      obtain rfl := (Prod.mk.inj (hread.symm.trans hread')).2
      obtain rfl := (Prod.mk.inj (hresolve.symm.trans hresolve')).2
      exact h.unique h' (hs.wellFormed hf) (hs.shape.hangs hb) (nodup_joins_below hf root) hnode
    | root _ _ _ _ hplan' =>
      rw [hnode, node_planSave? hplan'] at hmem
      exact absurd hmem hout
  | root _ hread hresolve hbelow hplan =>
    cases h' with
    | deeper _ _ _ h' =>
      rw [node_planSave? hplan] at hnode
      exact absurd (hnode ▸ h'.node_mem) hout
    | root _ hread' hresolve' hbelow' hplan' =>
      obtain rfl := (Prod.mk.inj (hread.symm.trans hread')).2
      obtain rfl := (Prod.mk.inj (hresolve.symm.trans hresolve')).2
      obtain rfl := hbelow.unique hbelow'
      exact ⟨Option.some.inj (hplan.symm.trans hplan'), rfl⟩

/-- One write was executed for a record, and one number of rows was reported for it. -/
theorem ExecutedBy.unique (h : ExecutedBy c (Attempts c root w) write count v)
    (h' : ExecutedBy c (Attempts c root w) write' count' v) (hf : WellFormed w.state)
    (hnode : write.node = write'.node) : write = write' ∧ count = count' := by
  obtain ⟨u, p, hattempt, -, hlog⟩ := h
  obtain ⟨u', p', hattempt', -, hlog'⟩ := h'
  obtain ⟨rfl, rfl⟩ := hattempt.unique hattempt' hf hnode
  have hlog : u.log ++ [.execute p (.ok count)] = u.log ++ [.execute p' (.ok count')] :=
    (List.prefix_of_prefix_length_le hlog hlog' (by simp)).eq_of_length (by simp)
  have hcall := List.cons.inj (List.append_cancel_left hlog)
  exact ⟨rfl, Except.ok.inj (Exchange.execute.inj hcall.1).2⟩

/-! ## What a save has written -/

/-- **Edits that are gone were written.**  After a save that succeeds, a column that was assigned
and is not any more had its value carried by a write of its record, which was executed. -/
theorem Saved.written {writes : List Write} (h : Saved c root w writes v) (hf : WellFormed w.state)
    (hroot : w.state.HasNode root) (hd : w.state.HasCell d) (hk : (w.state.cell d).isKey = false)
    (hdirty : (w.state.cell d).isDirty = true) (hclean : (v.state.cell d).isDirty = false) :
    WrittenBy c (Attempts c root w) d v := by
  cases h with
  | @intro r s t _ _ _ hdel hread hresolve hbelow hnode =>
    have hlearns := (consults_before hf hread hresolve).learns
    have hs := hlearns.steady
    have hfs := hs.wellFormed hf
    have hb := hs.shape.hangs (hangs_below hf root)
    have hjoins := nodup_joins_below hf root
    have ht := (hbelow.reaches hfs hb).2.1
    have hcell := hlearns.cell_of_dirty hdirty
    have hrootT := (ht.shape.hasNode root).2 ((hs.shape.hasNode root).2 hroot)
    have hreach := (hnode.reaches (ht.wellFormed hfs) hrootT).2
    have hmem := hf.mem_owner hd
    by_cases howner : (w.state.cell d).owner = root
    · -- The record itself has its turn last, and what is assigned to it then is written.
      have hheld := hbelow.comes.held_start hfs hb hjoins (d := d) (by rw [hcell, howner])
      have hpending : d ∈ t.state.pendingCells root := by
        refine mem_pendingCells.2 ⟨?_, hheld.isDirty (by rwa [hcell]), ?_⟩
        · rwa [ht.shape.cells, hs.shape.cells, ← howner]
        · rwa [ht.shape.isKey, hcell]
      refine (hnode.written (ht.wellFormed hfs) hrootT hpending).mono ?_ List.prefix_rfl rfl
      rintro write _ ⟨hplan, rfl⟩
      exact .root hdel hread hresolve hbelow hplan
    have hlast : v.state.cell d = t.state.cell d :=
      hreach.cell (by rwa [ht.shape.owner, hcell, List.mem_singleton])
    rw [hlast] at hclean
    by_cases hbehind : (w.state.cell d).owner ∈ (w.state.below root).preOrder
    · rcases hbelow.comes.edited hfs hb hjoins hbehind (by rwa [hs.shape.cells]) (by rwa [hcell])
        (by rwa [hcell]) with hheld | hwritten
      · have hdirty := hheld.isDirty (by rwa [hcell])
        exact absurd (hdirty.symm.trans hclean) (by decide)
      · have hlog := hnode.executes.1
        exact hwritten.mono (fun _ _ => .deeper hdel hread hresolve) hlog hlast
    · have hkept := hbelow.comes.cell_elsewhere hfs hb (by rwa [hcell]) (by rwa [hcell])
      rw [hkept, hcell, hdirty] at hclean
      cases hclean

/-! ## Affected rows -/

/-- The number of rows that an execution reports. -/
def Exchange.rows? : Exchange → Option Nat
  | .execute _ (.ok count) => some count
  | _ => none

theorem ExecutedBy.count_mem {attempts : Write → World σ Forest → Prop}
    (h : ExecutedBy c attempts write count v) : count ∈ v.log.filterMap Exchange.rows? := by
  obtain ⟨u, p, -, -, later, hlog⟩ := h
  rw [← hlog, List.filterMap_append, List.filterMap_append]
  exact List.mem_append_left _ (List.mem_append_right _ (List.mem_singleton_self _))

/-- In a save, a write of its record carried the value of a column and touched a row. -/
def ReachesRow (c : Connector σ) (root : NodeId) (w v : World σ Forest) (d : CellId) : Prop :=
  ∃ write count, ExecutedBy c (Attempts c root w) write count v ∧
    write.node = (v.state.cell d).owner ∧
    (d, (v.state.cell d).name, (v.state.cell d).value) ∈ write.carried ∧ 0 < count

/-- **When a saved edit has reached a row.**  In every state that operations lead to, for every
connector: if a column that is no key was assigned before a save that succeeds and is not
afterwards, then a write of its record that carries its value was executed, the only one of this
record.  The edit has reached a row exactly if this write is reported to have touched one. -/
theorem saved_edit_reaches_row_iff (hf : Operated w.state) (hroot : w.state.HasNode root)
    (h : (save c root).perform w = (.ok (), v)) (hd : w.state.HasCell d)
    (hk : (w.state.cell d).isKey = false) (hdirty : (w.state.cell d).isDirty = true)
    (hclean : (v.state.cell d).isDirty = false) :
    ∃ write count, ExecutedBy c (Attempts c root w) write count v ∧
      write.node = (v.state.cell d).owner ∧
      (d, (v.state.cell d).name, (v.state.cell d).value) ∈ write.carried ∧
      (∀ write' count', ExecutedBy c (Attempts c root w) write' count' v →
        write'.node = write.node → write' = write ∧ count' = count) ∧
      (ReachesRow c root w v d ↔ 0 < count) := by
  have hwf := hf.wellFormed
  obtain ⟨writes, hsaved⟩ := save_ok_iff.1 h
  obtain ⟨-, write, count, hexecuted, hnode, hcarried⟩ :=
    hsaved.written hwf hroot hd hk hdirty hclean
  have honly (write' : Write) (count' : Nat)
      (h' : ExecutedBy c (Attempts c root w) write' count' v) (hnode' : write'.node = write.node) :
      write' = write ∧ count' = count := h'.unique hexecuted hwf hnode'
  refine ⟨write, count, hexecuted, hnode, hcarried, honly, ?_, fun hcount => ?_⟩
  · rintro ⟨write', count', hexecuted', hnode', -, hcount'⟩
    rwa [← (honly write' count' hexecuted' (hnode'.trans hnode.symm)).2]
  · exact ⟨write, count, hexecuted, hnode, hcarried, hcount⟩

namespace Connector

/-- A database that reports given numbers of affected rows, one after the other. -/
def reporting : Connector (List Nat) where
  dialect := .sqlite
  query _ counts := (.ok [], counts)
  execute _ counts := (.ok (counts.headD 0), counts.tail)
  lastIdentifier counts := (.ok (.int 5), counts)
  describe _ counts := (.ok [], counts)

end Connector

/-- A record with a row, whose title is assigned. -/
def Forest.retitled : Forest :=
  let opened := (Forest.empty.addRoot "table0" "id" (.int 7)).2
  ((registerColumn ⟨0⟩ (.column "title")).perform opened).2.assign ⟨1⟩ (.text "A")

theorem Forest.operated_retitled : Operated Forest.retitled :=
  ((Operated.empty.addRoot "table0" "id" (.int 7)).registerColumn (n := ⟨0⟩) (.column "title")
    (by decide)).assign ⟨1⟩ (.text "A")

/-- The row is there, and gets the title. -/
theorem saved_edit_reaches_row_retitled :
    let w : World (List Nat) Forest := ⟨[1], [], Forest.retitled⟩
    ∃ v, (save Connector.reporting ⟨0⟩).perform w = (.ok (), v) ∧
      (w.state.cell ⟨1⟩).assigned = some (.text "A") ∧ (v.state.cell ⟨1⟩).assigned = none ∧
      ReachesRow Connector.reporting ⟨0⟩ w v ⟨1⟩ := by
  intro w
  have hsave : (save Connector.reporting ⟨0⟩).perform w =
      (.ok (), ((save Connector.reporting ⟨0⟩).perform w).2) :=
    Action.perform_eq (by decide +kernel)
  obtain ⟨write, count, hexecuted, -, -, -, hreaches⟩ :=
    saved_edit_reaches_row_iff operated_retitled (by decide +kernel) hsave (d := ⟨1⟩)
      (by decide +kernel) (by decide +kernel) (by decide +kernel) (by decide +kernel)
  have hrows : ((save Connector.reporting ⟨0⟩).perform w).2.log.filterMap Exchange.rows? = [1] := by
    decide +kernel
  have hmem := hexecuted.count_mem
  rw [hrows, List.mem_singleton] at hmem
  exact ⟨_, hsave, by decide +kernel, by decide +kernel, hreaches.2 (hmem ▸ Nat.one_pos)⟩

/-- The row is missing: the update touches none, and the edit is gone all the same. -/
theorem saved_edit_reaches_no_row :
    let w : World (List Nat) Forest := ⟨[0], [], Forest.retitled⟩
    ∃ v, Operated w.state ∧ (save Connector.reporting ⟨0⟩).perform w = (.ok (), v) ∧
      (w.state.cell ⟨1⟩).isKey = false ∧ (w.state.cell ⟨1⟩).assigned = some (.text "A") ∧
      executed v.log = [⟨"UPDATE \"table0\" SET \"title\" = 'A' WHERE \"id\" = 7", []⟩] ∧
      (v.state.cell ⟨1⟩).assigned = none ∧ ¬ReachesRow Connector.reporting ⟨0⟩ w v ⟨1⟩ := by
  intro w
  have hsave : (save Connector.reporting ⟨0⟩).perform w =
      (.ok (), ((save Connector.reporting ⟨0⟩).perform w).2) :=
    Action.perform_eq (by decide +kernel)
  have hrows : ((save Connector.reporting ⟨0⟩).perform w).2.log.filterMap Exchange.rows? = [0] := by
    decide +kernel
  refine ⟨_, operated_retitled, hsave, by decide +kernel, by decide +kernel, by decide +kernel,
    by decide +kernel, ?_⟩
  rintro ⟨write, count, hexecuted, -, -, hcount⟩
  have hmem := hexecuted.count_mem
  rw [hrows, List.mem_singleton] at hmem
  exact absurd hcount (hmem ▸ Nat.lt_irrefl 0)

end LinkedRows
