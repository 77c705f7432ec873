/-
# Deleted records

Deleting the row of a record marks the record as deleted, and it stays in the forest, with all that
is below it.  Every walk of the flushing actions has to pass over such records.

`deleted_records_untouched` says of a whole session that none of its errands is for a record that is
deleted at the time.  A deleted record refuses to be saved, fetched and deleted; if no join leads to
it, it stays deleted for good.  Any other one comes back only when a link to it, or above it, is
given another value.
-/

import LinkedRows.Proofs.SelectionText
import LinkedRows.Proofs.Sessions

namespace LinkedRows

open Forest

variable {σ : Type} {c : Connector σ} {w v u : World σ Forest} {f : Forest} {n m : NodeId}
  {d : CellId} {demand : Demand} {demands : List Demand}

/-! ## Refusals -/

/-- Saving, fetching and deleting a record fail without a call and change nothing. -/
structure Refuses (c : Connector σ) (w : World σ Forest) (n : NodeId) : Prop where
  save : (save c n).perform w = (.error (w.state.notSaved n "save"), w)
  fetch : (fetch c n).perform w = (.error (w.state.notSaved n "fetch"), w)
  delete : (delete c n).perform w = (.error (w.state.notSaved n "delete"), w)
  deleteAll : (deleteAll c n).perform w = (.error (w.state.notSaved n "delete"), w)

theorem refuses_of_deleted (c : Connector σ) (hdel : (w.state.node n).deleted = true) :
    Refuses c w n := by
  have hbound := isBound_eq_false_of_deleted hdel
  constructor
  · rw [LinkedRows.save, Action.perform_state_bind, hdel]
    rfl
  · rw [LinkedRows.fetch, Action.perform_state_bind, hbound]
    rfl
  · rw [LinkedRows.delete, Action.perform_state_bind, hbound]
    rfl
  · rw [LinkedRows.deleteAll, Action.perform_state_bind, hbound]
    rfl

/-! ## Records that come back -/

/-- The record is joined through a column, or it is below a record that is. -/
def Forest.HangsOn (f : Forest) (n : NodeId) (d : CellId) : Prop :=
  ∃ m ∈ f.linkedBy d, n = m ∨ n ∈ (f.below m).preOrder

/-- A record that no join leads to hangs on no column. -/
theorem Forest.not_hangsOn_of_isRoot (hf : WellFormed f) (hn : f.IsRoot n) : ¬f.HangsOn n d := by
  rintro ⟨m, hm, rfl | hbelow⟩
  · obtain ⟨e, he, -, rfl⟩ := mem_linkedIn.1 hm
    exact absurd (hn.2.symm.trans (hf.parent_child (hf.hasEdge he))) nofun
  · obtain ⟨e, hp, -⟩ := parent_of_mem_preOrder hf (hangs_below hf m) hbelow
    exact absurd (hn.2.symm.trans hp) nofun

/-- A demand brings a deleted record back only by changing the value of a link that the record hangs
on. -/
theorem Demand.assigns_of_undeleted (hf : WellFormed w.state) (hfits : demand.Fits w.state)
    (hn : w.state.HasNode n) (hdel : (w.state.node n).deleted = true)
    (hback : ((demand.after c w).state.node n).deleted = false) :
    ∃ f d x, demand.Assigns w f d x ∧ Persists w.state f ∧ WellFormed f ∧
      (f.cell d).value.agrees x = false ∧ f.HangsOn n d := by
  obtain ⟨entries, h⟩ | ⟨u, d, x, hgrown, -, hassigns, h⟩ | ⟨d, change, -, h⟩ :=
    demand.after_cases c hf hfits
  · rw [(h.retains hf).deleted hn hdel] at hback
    cases hback
  · have hx := hgrown.grows.extends hf
    have hkeeps : (u.state.node n).deleted = true := (hx.deleted hn).trans hdel
    rw [h] at hback
    rcases node_assign_cases u.state d x n with hnode | ⟨hchanged, hhangs⟩
    · have hback : ((u.state.assign d x).node n).deleted = false := hback
      rw [hnode, hkeeps] at hback
      cases hback
    · exact ⟨u.state, d, x, hassigns, hx.persists, hf.grows hgrown.grows, hchanged, hhangs⟩
  · rw [h] at hback
    exact absurd (hdel.symm.trans hback) nofun

/-- A deleted record that no join leads to stays deleted. -/
theorem Session.deleted_of_isRoot (h : Session c w demands v) (hf : WellFormed w.state)
    (hn : w.state.IsRoot n) (hdel : (w.state.node n).deleted = true) :
    (v.state.node n).deleted = true := by
  induction h with
  | start => exact hdel
  | step demand h hfits ih =>
    obtain ⟨hpersists, hwf⟩ := h.persists hf
    have hroot := hpersists.isRoot hn
    by_contra hback
    obtain ⟨f, d, x, -, hlater, hf, -, hhangs⟩ :=
      demand.assigns_of_undeleted hwf hfits hroot.1 ih (Bool.not_eq_true _ ▸ hback)
    exact not_hangsOn_of_isRoot hf (hlater.isRoot hroot) hhangs

/-- What a demand calls the connector for is errands for records that are not deleted, neither when
the demand is made nor at the time of the errand. -/
theorem Demand.exists_errands (c : Connector σ) (hf : WellFormed w.state)
    (hfits : demand.Fits w.state) : ∃ entries,
      (entries = [] ∨ Errands c Adjusts w entries (demand.after c w)) ∧
      (demand.after c w).log = w.log ++ entries.flatMap Entry.calls ∧
      ∀ x ∈ entries, (w.state.node x.errand.node).deleted = false ∧
        (x.forest.node x.errand.node).deleted = false := by
  obtain ⟨entries, h⟩ | ⟨u, d, x, hgrown, -, -, h⟩ | ⟨d, change, -, h⟩ :=
    demand.after_cases c hf hfits
  · exact ⟨entries, Or.inr h, h.log_eq, fun x hx =>
      ⟨h.undeleted_start hf x hx, (h.undeleted x hx).2⟩⟩
  · refine ⟨[], Or.inl rfl, ?_, nofun⟩
    rw [h, List.flatMap_nil, List.append_nil]
    exact hgrown.log
  · refine ⟨[], Or.inl rfl, ?_, nofun⟩
    rw [h, List.flatMap_nil, List.append_nil]
    rfl

/-- **A deleted record never reaches storage.**  Every call of a session is made by an errand, and
each errand is for a record that is not deleted at the time, nor when what it is a part of was asked
for.  A deleted record refuses to be saved, fetched and deleted, without a call.  If no join leads
to it, it stays deleted in whatever follows; and a demand that brings another one back assigns a
link that the record hangs on and changes its value. -/
theorem deleted_records_untouched {store : σ}
    (h : Session c ⟨store, [], Forest.empty⟩ demands v) :
    (∃ entries, Errands c Changes ⟨store, [], Forest.empty⟩ entries v ∧
      v.log = entries.flatMap Entry.calls ∧ ∀ x ∈ entries,
        x.forest.HasNode x.errand.node ∧ (x.forest.node x.errand.node).deleted = false) ∧
    (∀ demand : Demand, demand.Fits v.state → ∃ entries,
      (entries = [] ∨ Errands c Adjusts v entries (demand.after c v)) ∧
      (demand.after c v).log = v.log ++ entries.flatMap Entry.calls ∧
      ∀ x ∈ entries, (v.state.node x.errand.node).deleted = false ∧
        (x.forest.node x.errand.node).deleted = false) ∧
    ∀ n, v.state.HasNode n → (v.state.node n).deleted = true →
      Refuses c v n ∧
      (v.state.IsRoot n → ∀ later u, Session c v later u →
        (u.state.node n).deleted = true ∧ Refuses c u n) ∧
      ∀ demand : Demand, demand.Fits v.state →
        ((demand.after c v).state.node n).deleted = false →
          ∃ f d x, demand.Assigns v f d x ∧ (f.cell d).value.agrees x = false ∧ f.HangsOn n d := by
  obtain ⟨-, hf⟩ := h.persists WellFormed.empty
  obtain ⟨entries, hentries⟩ := h.errands WellFormed.empty
  refine ⟨⟨entries, hentries, hentries.log_eq, hentries.undeleted⟩,
    fun demand hfits => demand.exists_errands c hf hfits, fun n hn hdel => ⟨?_, ?_, ?_⟩⟩
  · exact refuses_of_deleted c hdel
  · intro hroot later u hlater
    have hstays := hlater.deleted_of_isRoot hf hroot hdel
    exact ⟨hstays, refuses_of_deleted c hstays⟩
  · intro demand hfits hback
    obtain ⟨f, d, x, hassigns, -, -, hchanged, hhangs⟩ :=
      demand.assigns_of_undeleted hf hfits hn hdel hback
    exact ⟨f, d, x, hassigns, hchanged, hhangs⟩

/-! ### A record and its child -/

/-- The first row links to row 7 of the joined table. -/
def joinedRows : RowsByText
  | "table0", "id", "1" => some fun _ => .int 7
  | "table1", "id", "7" => some fun _ => .text "Seven"
  | _, _, _ => none

/-- A record with a title behind a link is opened, and both rows are deleted. -/
def deletedWithChild : List Demand :=
  let r : Record := ⟨⟨0⟩, .standard⟩
  [.locally (.addRoot "table0" "id" (.int 1)), .request r (.register "table1.title"),
    .request r .deleteAll]

/-- The record stays deleted and refuses to be saved; moving the link brings its child back. -/
theorem deleted_records_untouched_relinked :
    let c := Connector.ofRows .sqlite joinedRows
    let v := deletedWithChild.foldl (Demand.after c) ⟨(), [], Forest.empty⟩
    let relink : Demand := .request ⟨⟨0⟩, .standard⟩ (.set "table1_id" (.int 9))
    Session c ⟨(), [], Forest.empty⟩ deletedWithChild v ∧
      (v.state.node ⟨0⟩).deleted = true ∧ (v.state.node ⟨1⟩).deleted = true ∧
      Refuses c (relink.after c v) ⟨0⟩ ∧ ((relink.after c v).state.node ⟨1⟩).deleted = false ∧
      ∃ f d x, relink.Assigns v f d x ∧ (f.cell d).value.agrees x = false ∧
        f.HangsOn ⟨1⟩ d := by
  intro c v relink
  have hopened := (Session.start (c := c) (w := ⟨(), [], Forest.empty⟩)).step
    (deletedWithChild[0]) (by decide)
  have hregistered := hopened.step (deletedWithChild[1]) (by decide +kernel)
  have hdeleted : Session c ⟨(), [], Forest.empty⟩ deletedWithChild v :=
    hregistered.step (deletedWithChild[2]) (by decide +kernel)
  have hrecord : v.state.IsRoot ⟨0⟩ ∧ (v.state.node ⟨0⟩).deleted = true := by decide +kernel
  have hchild : v.state.HasNode ⟨1⟩ ∧ (v.state.node ⟨1⟩).deleted = true := by decide +kernel
  have hfits : relink.Fits v.state := hrecord.1.1
  have hback : ((relink.after c v).state.node ⟨1⟩).deleted = false := by decide +kernel
  obtain ⟨-, -, hall⟩ := deleted_records_untouched hdeleted
  obtain ⟨-, hstays, -⟩ := hall ⟨0⟩ hrecord.1.1 hrecord.2
  obtain ⟨-, -, hmoved⟩ := hall ⟨1⟩ hchild.1 hchild.2
  have hrefuses := (hstays hrecord.1 _ _ (Session.start.step relink hfits)).2
  exact ⟨hdeleted, hrecord.2, hchild.2, hrefuses, hback, hmoved relink hfits hback⟩

end LinkedRows
