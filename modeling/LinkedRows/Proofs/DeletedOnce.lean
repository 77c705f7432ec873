/-
# Deleting everything at and below a record

All deletions are planned from one forest and then run one after the other, up to the first that is
refused (`runDeletions_spec`).  The forest is the one after a fetch, if something was stale, so the
records that are deleted are those that are bound by then.  They are visited children first, so
whenever a deletion is refused the records below those that were deleted are gone already.

`delete_all_deletes_bound` says so of one call, whether it succeeds or not.  A record that was
deleted is not planned for again, so over any number of calls, each of which goes on from what the
ones before it left, no record is deleted twice (`DeletesOnce`).
-/

import LinkedRows.Proofs.OnlyReads
import LinkedRows.Proofs.RetriedSaves

namespace LinkedRows

open Forest

variable {σ : Type} {c : Connector σ} {w v u : World σ Forest} {f g : Forest} {n m : NodeId}
  {records done later : List NodeId}

/-! ## Deleted records -/

namespace Forest

/-- These rows are gone. -/
def markAllDeleted (f : Forest) (records : List NodeId) : Forest := records.foldl markDeleted f

theorem sameShape_markAllDeleted (f : Forest) (records : List NodeId) :
    SameShape f (f.markAllDeleted records) := sameShape_foldl sameShape_markDeleted f records

@[simp] theorem cell_markAllDeleted (f : Forest) (records : List NodeId) (d : CellId) :
    (f.markAllDeleted records).cell d = f.cell d := by
  induction records generalizing f with
  | nil => rfl
  | cons m records ih => exact ih (f.markDeleted m)

theorem deleted_markAllDeleted (f : Forest) (records : List NodeId)
    (hrecords : ∀ m ∈ records, f.HasNode m) (n : NodeId) :
    ((f.markAllDeleted records).node n).deleted = true ↔
      (f.node n).deleted = true ∨ n ∈ records := by
  induction records generalizing f with
  | nil => exact (or_iff_left List.not_mem_nil).symm
  | cons m records ih =>
    obtain ⟨hm, hrest⟩ := List.forall_mem_cons.1 hrecords
    have hshape := sameShape_markDeleted f m
    have hstep : ((f.markDeleted m).node n).deleted = true ↔
        (f.node n).deleted = true ∨ n = m := by
      rw [markDeleted, node_modifyNode]
      by_cases hn : n = m
      · simp [hn, hm]
      · simp [hn]
    have hlater := ih (f.markDeleted m) fun k hk => (hshape.hasNode k).2 (hrest k hk)
    rw [List.mem_cons, ← or_assoc, ← hstep]
    exact hlater

end Forest

/-! ## Planned deletions -/

/-- The call carries out the deletion of the row of a record. -/
def Exchange.Deletes (c : Connector σ) (f : Forest) (n : NodeId) (x : Exchange) : Prop :=
  ∃ p count, (Statement.delete (f.node n).table (f.rowKey n)).prepare c.dialect = .ok p ∧
    x = .execute p (.ok count)

/-- The call executes a statement and is refused. -/
def Exchange.Refused (x : Exchange) : Prop := ∃ p fault, x = .execute p (.error fault)

/-- A deletion is carried out and marks the record, or it is refused and changes nothing. -/
theorem run_planDelete (c : Connector σ) (f : Forest) (n : NodeId) (w : World σ Forest) :
    ((f.planDelete n).run c).Ensures w fun result v =>
      (result = .ok () → ∃ x, x.Deletes c f n ∧ v.log = w.log ++ [x] ∧
        v.state = w.state.markDeleted n) ∧
      ∀ fault, result = .error fault → v.state = w.state ∧
        (v.log = w.log ∨ ∃ x, x.Refused ∧ v.log = w.log ++ [x]) := by
  rw [Write.run, Action.Ensures, Action.perform_bind, Connector.perform_prepare]
  cases hp : (f.planDelete n).statement.prepare c.dialect with
  | error fault => exact ⟨by simp, fun _ _ => ⟨rfl, Or.inl rfl⟩⟩
  | ok p =>
    dsimp only
    rw [Action.perform_bind, Connector.perform_run]
    cases hrun : (c.execute p w.store).1 with
    | error fault => exact ⟨by simp, fun _ _ => ⟨rfl, Or.inr ⟨_, ⟨p, fault, rfl⟩, rfl⟩⟩⟩
    | ok count => exact ⟨fun _ => ⟨_, ⟨p, count, hp, rfl⟩, rfl, rfl⟩, fun _ h => by cases h⟩

/-- Planned deletions are carried out in order, up to one that is refused. -/
theorem runDeletions_spec (c : Connector σ) (f : Forest) (records : List NodeId)
    (w : World σ Forest) :
    (runWrites c (records.map f.planDelete)).Ensures w fun result v => ∃ done calls refused,
      done <+: records ∧ List.Forall₂ (Exchange.Deletes c f) done calls ∧
      v.state = w.state.markAllDeleted done ∧ v.log = w.log ++ calls ++ refused ∧
      refused.length ≤ 1 ∧ (∀ x ∈ refused, x.Refused) ∧
      (result = .ok () → done = records ∧ refused = []) := by
  induction records generalizing w with
  | nil => exact ⟨[], [], [], List.prefix_rfl, .nil, rfl, by simp [runWrites], by simp,
      by simp, fun _ => ⟨rfl, rfl⟩⟩
  | cons m records ih =>
    rw [List.map_cons, runWrites]
    refine (run_planDelete c f m w).bind (fun _ v hv => ?_) fun fault v hv => ?_
    · obtain ⟨x, hx, hlog, hstate⟩ := hv.1 rfl
      refine (ih v).mono fun result u => ?_
      rintro ⟨done, calls, refused, hdone, hcalls, hstate', hlog', hlength, hrefused, hok⟩
      refine ⟨m :: done, x :: calls, refused, List.cons_prefix_cons.2 ⟨rfl, hdone⟩,
        .cons hx hcalls, ?_, ?_, hlength, hrefused, fun h => ?_⟩
      · rw [hstate', hstate]
        rfl
      · rw [hlog', hlog]
        simp only [List.append_assoc, List.cons_append, List.nil_append]
      · obtain ⟨rfl, hnone⟩ := hok h
        exact ⟨rfl, hnone⟩
    · obtain ⟨hstate, hlog⟩ := hv.2 fault rfl
      obtain ⟨refused, hlog, hlength, hrefused⟩ : ∃ refused, v.log = w.log ++ refused ∧
          refused.length ≤ 1 ∧ ∀ x ∈ refused, x.Refused := by
        rcases hlog with hlog | ⟨x, hx, hlog⟩
        · exact ⟨[], hlog.trans (List.append_nil _).symm, Nat.zero_le 1, by simp⟩
        · exact ⟨[x], hlog, Nat.le_refl 1, List.forall_mem_singleton.2 hx⟩
      exact ⟨[], [], refused, List.nil_prefix, .nil, hstate, by rw [hlog, List.append_nil],
        hlength, hrefused, by simp⟩

/-! ## One call -/

namespace Forest

/-- The records at and below a record whose rows are there to be deleted, children first. -/
def boundPostOrder (f : Forest) (n : NodeId) : List NodeId := (f.postOrder n).filter f.isBound

theorem mem_boundPostOrder :
    m ∈ f.boundPostOrder n ↔ m ∈ n :: (f.below n).preOrder ∧ f.isBound m = true := by
  rw [boundPostOrder, List.mem_filter, mem_postOrder_iff]

theorem nodup_boundPostOrder (hf : WellFormed f) (n : NodeId) : (f.boundPostOrder n).Nodup :=
  (nodup_postOrder hf n).filter _

/-- As far as the order is gone through, a record comes after all bound records below it. -/
theorem sublist_boundPostOrder (hf : WellFormed f) (hdone : done <+: f.boundPostOrder n)
    (hm : m ∈ done) {k : NodeId} (hk : k ∈ (f.below m).preOrder) (hbound : f.isBound k = true) :
    [k, m].Sublist done := by
  have hpairwise := (postOrder_pairwise_root hf n).filter f.isBound
  have hb := hangs_below hf n
  have hmem : k ∈ f.boundPostOrder n := by
    refine mem_boundPostOrder.2 ⟨?_, hbound⟩
    rcases List.mem_cons.1 (mem_boundPostOrder.1 (hdone.subset hm)).1 with rfl | hm
    · exact List.mem_cons_of_mem _ hk
    · exact List.mem_cons_of_mem _ (mem_preOrder_trans hb hm hk)
  obtain ⟨rest, hrest⟩ := hdone
  obtain ⟨before, between, rfl⟩ := List.append_of_mem hm
  rw [← hrest, List.append_assoc, List.cons_append] at hmem
  rw [← boundPostOrder, ← hrest, List.append_assoc, List.cons_append] at hpairwise
  rcases List.mem_append.1 hmem with hmem | hmem
  · exact (List.singleton_sublist.2 hmem).append (List.singleton_sublist.2 (List.mem_cons_self ..))
  rcases List.mem_cons.1 hmem with rfl | hmem
  · exact absurd hk (not_mem_below hf k)
  · exact absurd hk ((List.pairwise_cons.1 (List.pairwise_append.1 hpairwise).2.1).1 k hmem)

end Forest

/-- Before rows are deleted at and below a record, it is fetched if something there is stale. -/
inductive Prefetched (c : Connector σ) (n : NodeId) (w : World σ Forest) :
    Except Fault Unit → World σ Forest → Prop
  | current : (∀ m ∈ n :: (w.state.below n).preOrder, w.state.isStale m = false) →
      Prefetched c n w (.ok ()) w
  | stale {m : NodeId} {result : Except Fault Unit} {u : World σ Forest} :
      m ∈ n :: (w.state.below n).preOrder → w.state.isStale m = true →
      (fetch c n).perform w = (result, u) → Prefetched c n w result u

theorem Prefetched.consults {first : Except Fault Unit} (h : Prefetched c n w first u)
    (hf : WellFormed w.state) : Consults (n :: (w.state.below n).preOrder) w u := by
  cases h with
  | current => exact .refl _ w
  | stale _ _ hfetch => exact (consults_fetch c n hf).of_perform hfetch

/-- Deletions that were planned together: the rows of the records `done` were deleted by these
calls, and at most one call was refused. -/
structure DeletesPlanned (c : Connector σ) (n : NodeId) (u v : World σ Forest)
    (result : Except Fault Nat) (done : List NodeId) (calls refused : List Exchange) : Prop where
  log : v.log = u.log ++ calls ++ refused
  deletes : List.Forall₂ (Exchange.Deletes c u.state) done calls
  refusals : refused.length ≤ 1 ∧ ∀ x ∈ refused, x.Refused
  /-- The deleted records are marked, and nothing else changed. -/
  state : v.state = u.state.markAllDeleted done
  order : done <+: u.state.boundPostOrder n
  complete : ∀ k, result = .ok k →
    k = calls.length ∧ refused = [] ∧ done = u.state.boundPostOrder n

theorem deletesPlanned (c : Connector σ) (n : NodeId) (u : World σ Forest) :
    (Action.state >>= fun g => runWrites c (g.planDeleteAll n) >>= fun _ =>
      pure (g.planDeleteAll n).length : Action σ Forest Nat).Ensures u fun result v =>
        ∃ done calls refused, DeletesPlanned c n u v result done calls refused := by
  rw [Action.Ensures, Action.perform_state_bind]
  refine Action.Ensures.bind
    (Q := fun result v => ∃ done calls refused, DeletesPlanned c n u v result done calls refused)
    (runDeletions_spec c u.state (u.state.boundPostOrder n) u) (fun _ v hv => ?_) fun fault v hv => ?_
  · obtain ⟨done, calls, refused, hdone, hcalls, hstate, hlog, hlength, hrefused, hok⟩ := hv
    obtain ⟨rfl, hnone⟩ := hok rfl
    refine ⟨_, calls, refused, hlog, hcalls, ⟨hlength, hrefused⟩, hstate, hdone, fun k hk => ?_⟩
    obtain rfl := Except.ok.inj hk
    exact ⟨(List.length_map _).trans hcalls.length_eq, hnone, rfl⟩
  · obtain ⟨done, calls, refused, hdone, hcalls, hstate, hlog, hlength, hrefused, -⟩ := hv
    exact ⟨done, calls, refused, hlog, hcalls, ⟨hlength, hrefused⟩, hstate, hdone, by simp⟩

/-- What deleting the rows at and below a record does, where `u` is the world after the fetch that
comes first, if something is stale. -/
structure DeletesBound (c : Connector σ) (n : NodeId) (w u v : World σ Forest)
    (result : Except Fault Nat) (done : List NodeId) (calls refused : List Exchange) : Prop extends
    DeletesPlanned c n u v result done calls refused where
  prefetched : Prefetched c n w (.ok ()) u ∨
    ∃ fault, Prefetched c n w (.error fault) u ∧ result = .error fault ∧ calls = [] ∧ refused = []
  asks : OnlyAsks w.log u.log
  nodup : done.Nodup
  /-- The records were bound then, and not deleted before. -/
  bound : ∀ m ∈ done, m ∈ n :: (w.state.below n).preOrder ∧ u.state.isBound m = true ∧
    (w.state.node m).deleted = false
  childrenFirst : ∀ m ∈ done, ∀ k ∈ (w.state.below m).preOrder, u.state.isBound k = true →
    [k, m].Sublist done
  /-- They are the records that have become deleted. -/
  deleted : ∀ m, (v.state.node m).deleted = true ↔ (w.state.node m).deleted = true ∨ m ∈ done
  /-- A call that succeeds has deleted all that were bound. -/
  all : ∀ k, result = .ok k →
    ∀ m ∈ n :: (w.state.below n).preOrder, u.state.isBound m = true → m ∈ done

theorem DeletesPlanned.bound {result : Except Fault Nat} {calls refused : List Exchange}
    (h : DeletesPlanned c n u v result done calls refused) (hf : WellFormed w.state)
    (hn : w.state.HasNode n) (hu : Prefetched c n w (.ok ()) u) :
    DeletesBound c n w u v result done calls refused := by
  have hconsults := hu.consults hf
  have hs := hconsults.learns.steady
  have hfu := hs.wellFormed hf
  have hmem {m : NodeId} (hm : m ∈ done) :
      m ∈ n :: (w.state.below n).preOrder ∧ u.state.isBound m = true := by
    rw [← hs.shape.below]
    exact mem_boundPostOrder.1 (h.order.subset hm)
  have hnode {m : NodeId} (hm : m ∈ done) : u.state.HasNode m := by
    refine (hs.shape.hasNode m).2 ?_
    rcases List.mem_cons.1 (hmem hm).1 with rfl | hm
    · exact hn
    · exact (lt_of_mem_preOrder hf (hangs_below hf n) hm).2
  exact
    { toDeletesPlanned := h
      prefetched := Or.inl hu
      asks := hconsults.asks
      nodup := (nodup_boundPostOrder hfu n).sublist h.order.sublist
      bound := fun m hm => ⟨(hmem hm).1, (hmem hm).2,
        (hs.deleted m).symm.trans (isBound_iff.1 (hmem hm).2).2⟩
      childrenFirst := fun m hm k hk hbound =>
        sublist_boundPostOrder hfu h.order hm ((hs.shape.below m).symm ▸ hk) hbound
      deleted := fun m => by
        rw [h.state, deleted_markAllDeleted _ _ (fun m hm => hnode hm), hs.deleted]
      all := fun k hk m hm hbound => by
        obtain ⟨-, -, hall⟩ := h.complete k hk
        rw [hall, mem_boundPostOrder, hs.shape.below]
        exact ⟨hm, hbound⟩ }

/-- A call whose fetch fails deletes nothing. -/
theorem Prefetched.deletesNone {fault : Fault} (h : Prefetched c n w (.error fault) u)
    (hf : WellFormed w.state) : DeletesBound c n w u u (.error fault) [] [] [] where
  log := by simp
  deletes := .nil
  refusals := ⟨Nat.zero_le 1, nofun⟩
  state := rfl
  order := List.nil_prefix
  complete := nofun
  prefetched := Or.inr ⟨fault, h, rfl, rfl, rfl⟩
  asks := (h.consults hf).asks
  nodup := List.nodup_nil
  bound := nofun
  childrenFirst := nofun
  deleted m := by simp [(h.consults hf).learns.steady.deleted]
  all := nofun

theorem deletesBound_deleteAll (hf : WellFormed w.state) (hn : w.state.HasNode n)
    (hbound : w.state.isBound n = true) :
    (deleteAll c n).Ensures w fun result v =>
      ∃ u done calls refused, DeletesBound c n w u v result done calls refused := by
  have hpreOrder := preOrder_eq hf hn
  have hplanned {u : World σ Forest} (hu : Prefetched c n w (.ok ()) u) :
      (Action.state >>= fun g => runWrites c (g.planDeleteAll n) >>= fun _ =>
        pure (g.planDeleteAll n).length : Action σ Forest Nat).Ensures u fun result v =>
          ∃ u done calls refused, DeletesBound c n w u v result done calls refused :=
    (deletesPlanned c n u).mono fun _ _ h => by
      obtain ⟨done, calls, refused, h⟩ := h
      exact ⟨u, done, calls, refused, h.bound hf hn hu⟩
  rw [deleteAll, Action.Ensures, Action.perform_state_bind, hbound]
  cases hany : (w.state.preOrder n).any w.state.isStale with
  | false =>
    rw [hpreOrder, List.any_eq_false] at hany
    exact hplanned (.current fun m hm => Bool.not_eq_true _ ▸ hany m hm)
  | true =>
    obtain ⟨m, hm, hstale⟩ := List.any_eq_true.1 hany
    rw [hpreOrder] at hm
    have hfetch {first : Except Fault Unit} {u : World σ Forest}
        (h : (fetchTree c n).perform w = (first, u)) : Prefetched c n w first u :=
      .stale hm hstale ((perform_fetch_of_bound hbound).trans h)
    refine Action.Ensures.bind_of_perform
      (Q := fun result v =>
        ∃ u done calls refused, DeletesBound c n w u v result done calls refused)
      (fun _ u h => hplanned (hfetch h)) fun fault u h => ?_
    exact ⟨u, [], [], [], (hfetch h).deletesNone hf⟩

/-! ## Several calls -/

/-- From the first world to the second, the rows of these records were deleted, of each of them
once, and no other statement was carried out; keys that were known stay. -/
structure DeletesOnce (c : Connector σ) (records : List NodeId) (w v : World σ Forest) : Prop where
  shape : SameShape w.state v.state
  dirty {d : CellId} : (w.state.cell d).isDirty = true → v.state.cell d = w.state.cell d
  deleted : ∀ m, (v.state.node m).deleted = true ↔
    (w.state.node m).deleted = true ∨ m ∈ records
  nodup : records.Nodup
  undeleted : ∀ m ∈ records, (w.state.node m).deleted = false
  keyed : ∀ m ∈ records, v.state.isNew m = false
  calls : ∃ calls, v.log = w.log ++ calls ∧
    List.Forall₂ (Exchange.Deletes c v.state) records (calls.filter Exchange.carriedOut)

/-- A record that has a key keeps it, and with it the statement that deletes its row. -/
theorem Exchange.Deletes.kept {x : Exchange} (h : x.Deletes c f n) (hs : SameShape f g)
    (hdirty : ∀ {d}, (f.cell d).isDirty = true → g.cell d = f.cell d)
    (hkeyed : f.isNew n = false) : x.Deletes c g n := by
  rw [isNew, Bool.not_eq_false'] at hkeyed
  have hkey : g.rowKey n = f.rowKey n := by
    rw [rowKey, rowKey, hs.keyName, keyValue, keyValue, hs.key, hdirty hkeyed]
  rwa [Exchange.Deletes, hs.table, hkey]

namespace DeletesOnce

theorem refl (c : Connector σ) (w : World σ Forest) : DeletesOnce c [] w w where
  shape := .refl _
  dirty _ := rfl
  deleted _ := (or_iff_left List.not_mem_nil).symm
  nodup := List.nodup_nil
  undeleted := nofun
  keyed := nofun
  calls := ⟨[], (List.append_nil _).symm, .nil⟩

theorem isNew (h : DeletesOnce c records w v) {n : NodeId} (hkeyed : w.state.isNew n = false) :
    v.state.isNew n = false := by
  rw [Forest.isNew, Bool.not_eq_false'] at hkeyed ⊢
  rwa [h.shape.key, h.dirty hkeyed]

/-- What was deleted before is not deleted again. -/
theorem trans (h : DeletesOnce c records w v) (h' : DeletesOnce c later v u) :
    DeletesOnce c (records ++ later) w u where
  shape := h.shape.trans h'.shape
  dirty hd := by rw [h'.dirty (by rwa [h.dirty hd]), h.dirty hd]
  deleted m := by rw [h'.deleted, h.deleted, List.mem_append, or_assoc]
  nodup := by
    refine List.nodup_append'.2 ⟨h.nodup, h'.nodup, fun m hm hlater => ?_⟩
    have hgone := (h.deleted m).2 (Or.inr hm)
    rw [h'.undeleted m hlater] at hgone
    cases hgone
  undeleted m hm := by
    rcases List.mem_append.1 hm with hm | hm
    · exact h.undeleted m hm
    · by_contra hdel
      have hgone := (h.deleted m).2 (Or.inl (Bool.not_eq_false _ ▸ hdel))
      rw [h'.undeleted m hm] at hgone
      cases hgone
  keyed m hm := by
    rcases List.mem_append.1 hm with hm | hm
    · exact h'.isNew (h.keyed m hm)
    · exact h'.keyed m hm
  calls := by
    obtain ⟨calls, hlog, hcalls⟩ := h.calls
    obtain ⟨more, hlog', hmore⟩ := h'.calls
    refine ⟨calls ++ more, by rw [hlog', hlog, List.append_assoc], ?_⟩
    rw [List.filter_append]
    refine List.rel_append ?_ hmore
    exact ((List.forall₂_and_left _ _).2 ⟨h.keyed, hcalls⟩).imp fun m x hx =>
      hx.2.kept h'.shape h'.dirty hx.1

end DeletesOnce

theorem carriedOut_deletes {calls : List Exchange}
    (h : List.Forall₂ (Exchange.Deletes c f) records calls) :
    calls.filter Exchange.carriedOut = calls := by
  induction h with
  | nil => rfl
  | cons hx _ ih =>
    obtain ⟨p, count, -, rfl⟩ := hx
    rw [List.filter_cons_of_pos rfl, ih]

/-- One call deletes rows of records that it had not found deleted. -/
theorem DeletesBound.once {result : Except Fault Nat} {calls refused : List Exchange}
    (h : DeletesBound c n w u v result done calls refused) (hf : WellFormed w.state) :
    DeletesOnce c done w v := by
  have hconsults : Consults (n :: (w.state.below n).preOrder) w u := by
    rcases h.prefetched with hu | ⟨_, hu, -⟩ <;> exact hu.consults hf
  have hlearns := hconsults.learns
  have hshape : SameShape u.state v.state := h.state ▸ sameShape_markAllDeleted _ _
  have hcell (d : CellId) : v.state.cell d = u.state.cell d := by
    rw [h.state, cell_markAllDeleted]
  have hkeyed {m : NodeId} (hm : m ∈ done) : u.state.isNew m = false :=
    isNew_of_isBound (h.bound m hm).2.1
  obtain ⟨asked, hlog, hasked⟩ := h.asks
  refine
    { shape := hlearns.steady.shape.trans hshape
      dirty := fun hd => (hcell _).trans (hlearns.cell_of_dirty hd)
      deleted := h.deleted
      nodup := h.nodup
      undeleted := fun m hm => (h.bound m hm).2.2
      keyed := fun m hm => by rw [isNew, hshape.key, hcell]; exact hkeyed hm
      calls := ⟨asked ++ calls ++ refused, ?_, ?_⟩ }
  · rw [h.log, hlog]
    simp only [List.append_assoc]
  · have hnone : asked.filter Exchange.carriedOut = [] := List.filter_eq_nil_iff.2 fun x hx => by
      have hquery := hasked x hx
      cases x with
      | query => exact Bool.false_ne_true
      | _ => cases hquery
    have hrefused : refused.filter Exchange.carriedOut = [] :=
      List.filter_eq_nil_iff.2 fun x hx => by
        obtain ⟨p, fault, rfl⟩ := h.refusals.2 x hx
        exact Bool.false_ne_true
    rw [List.filter_append, List.filter_append, hnone, hrefused, carriedOut_deletes h.deletes,
      List.nil_append, List.append_nil]
    refine ((List.forall₂_and_left _ _).2 ⟨fun m hm => hkeyed hm, h.deletes⟩).imp fun m x hx => ?_
    exact hx.2.kept hshape (fun {d} _ => hcell d) hx.1

/-- The world after everything at and below some records was asked to be deleted, one record after
the other, whether or not that was granted. -/
def afterDeletions (c : Connector σ) (w : World σ Forest) (roots : List NodeId) : World σ Forest :=
  roots.foldl (fun w n => ((deleteAll c n).perform w).2) w

theorem deletesOnce_deleteAll (hf : WellFormed w.state) (hn : w.state.HasNode n) :
    (deleteAll c n).Ensures w fun _ v => ∃ records, DeletesOnce c records w v := by
  cases hbound : w.state.isBound n with
  | true =>
    exact (deletesBound_deleteAll hf hn hbound).mono fun _ _ ⟨_, done, _, _, h⟩ => ⟨done, h.once hf⟩
  | false =>
    rw [deleteAll, Action.Ensures, Action.perform_state_bind, hbound]
    exact ⟨[], .refl c w⟩

theorem deletesOnce_afterDeletions (hf : WellFormed w.state) {roots : List NodeId}
    (hroots : ∀ n ∈ roots, w.state.HasNode n) :
    ∃ records, DeletesOnce c records w (afterDeletions c w roots) := by
  induction roots generalizing w with
  | nil => exact ⟨[], .refl c w⟩
  | cons n roots ih =>
    obtain ⟨hn, hrest⟩ := List.forall_mem_cons.1 hroots
    obtain ⟨records, h⟩ := deletesOnce_deleteAll (c := c) hf hn
    obtain ⟨later, hlater⟩ :=
      ih (hf.of_sameShape h.shape) fun m hm => (h.shape.hasNode m).2 (hrest m hm)
    exact ⟨records ++ later, h.trans hlater⟩

/-- **Deleting everything at and below a record deletes each bound record once, children first.**
A call fetches first if something is stale, and then deletes rows of records that are bound, in an
order in which every record comes after those below it: of all of them if it succeeds, and of some
first ones of them if it fails.  Those are the records that have become deleted.  Over any number of
calls at any records, granted or not, no record is deleted twice. -/
theorem delete_all_deletes_bound (hw : Operated w.state) :
    (∀ n, w.state.HasNode n → w.state.isBound n = true →
      ∀ result v, (deleteAll c n).perform w = (result, v) →
        ∃ u done calls refused, DeletesBound c n w u v result done calls refused) ∧
    ∀ roots : List NodeId, (∀ n ∈ roots, w.state.HasNode n) →
      ∃ records, DeletesOnce c records w (afterDeletions c w roots) :=
  ⟨fun _ hn hbound _ _ h => (deletesBound_deleteAll hw.wellFormed hn hbound).of_perform h,
    fun _ hroots => deletesOnce_afterDeletions hw.wellFormed hroots⟩

/-- The second deletion is refused, so the child is deleted and the record is not; another call
deletes the record alone. -/
theorem delete_all_deletes_bound_stumbling :
    let c := Connector.stumbling
    let w : World Nat Forest := ⟨0, [], titleBehindLink.assign ⟨1⟩ (.int 7)⟩
    let v := ((deleteAll c ⟨0⟩).perform w).2
    let t := afterDeletions c w [⟨0⟩, ⟨0⟩]
    (executed t.log).map Prepared.text = ["DELETE FROM \"table1\" WHERE \"id\" = 7",
        "DELETE FROM \"table0\" WHERE \"id\" = 1", "DELETE FROM \"table0\" WHERE \"id\" = 1"] ∧
      (v.state.node ⟨1⟩).deleted = true ∧ (v.state.node ⟨0⟩).deleted = false ∧
      (t.state.node ⟨0⟩).deleted = true ∧
      (∃ u done calls refused, DeletesBound c ⟨0⟩ w u v ((deleteAll c ⟨0⟩).perform w).1 done calls
        refused) ∧
      ∃ records, DeletesOnce c records w t := by
  intro c w v t
  have hw : Operated w.state := operated_titleBehindLink.assign ⟨1⟩ (.int 7)
  obtain ⟨hone, hall⟩ := delete_all_deletes_bound (c := c) hw
  exact ⟨by decide +kernel, by decide +kernel, by decide +kernel, by decide +kernel,
    hone ⟨0⟩ (by decide) (by decide) _ _ (Action.perform_eq rfl), hall _ (by decide)⟩

end LinkedRows
