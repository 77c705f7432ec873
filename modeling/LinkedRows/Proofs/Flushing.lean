/-
# What flushing does, step by step

Saving, fetching and deleting walk through a forest in different orders, but whatever they do is one
of five steps: read clean columns of a bound record, give a new child the key of its link, let a
link follow its child, mark a record as current or not, and run a planned write.  `Flushes` is
any number of these steps, each under the conditions that it is taken under.  All flushing actions
consist of them, also those that fail half-way (`flushes_save`, `fetches_fetch`, `flushes_delete`,
`flushes_deleteAll`), so what a step keeps they keep.  Fetching takes two steps of its own, which
consist of these (`Fetches`).

A request to a record grows the forest first, if at all, and then either flushes or assigns one
column (`Record.serve_cases`).  `Record.AtSets` is what a run has to see to whenever it assigns a
column, and a property that requests keep under such a condition holds throughout the run
(`Record.AtSets.carries`).
-/

import LinkedRows.Proofs.Forest.KeptOrder
import LinkedRows.Proofs.Operations

namespace LinkedRows

open Forest

variable {σ : Type} {c : Connector σ} {w v u : World σ Forest}

/-- A write is planned from a forest: an insertion for a new record that was not deleted, an update
or a deletion for the row of a bound record. -/
def Write.Fits (f : Forest) : Write → Prop
  | .insert n _ cells _ =>
    f.HasNode n ∧ f.isNew n = true ∧ (f.node n).deleted = false ∧ cells = f.pendingCells n
  | .update n _ key cells _ =>
    f.HasNode n ∧ f.isBound n = true ∧ key = f.rowKey n ∧ cells = f.pendingCells n
  | .delete n _ key => f.HasNode n ∧ f.isBound n = true ∧ key = f.rowKey n

/-- The steps of flushing. -/
inductive Flushes (c : Connector σ) (w : World σ Forest) : World σ Forest → Prop
  | refl : Flushes c w w
  | read {v : World σ Forest} {n : NodeId} {cells : List CellId} : Flushes c w v →
      v.state.HasNode n → v.state.isBound n = true →
      (∀ d ∈ cells, d ∈ (v.state.node n).cells ∧ (v.state.cell d).isDirty = false) →
      Flushes c w ((readCells c n cells).perform v).2
  | seed {v : World σ Forest} {e : EdgeId} : Flushes c w v → v.state.HasEdge e →
      Flushes c w (v.withState (v.state.seedChild e))
  | follow {v : World σ Forest} {e : EdgeId} (wasNew : Bool) : Flushes c w v →
      v.state.HasEdge e → Flushes c w (v.withState (v.state.followChild e wasNew))
  | setCurrent {v : World σ Forest} (n : NodeId) (current : Bool) : Flushes c w v →
      Flushes c w (v.withState (v.state.setCurrent n current))
  | run {v : World σ Forest} {write : Write} : Flushes c w v → write.Fits v.state →
      Flushes c w ((write.run c).perform v).2

namespace Flushes

theorem trans (h : Flushes c w v) (h' : Flushes c v u) : Flushes c w u := by
  induction h' with
  | refl => exact h
  | read _ hn hbound hcells ih => exact ih.read hn hbound hcells
  | seed _ he ih => exact ih.seed he
  | follow wasNew _ he ih => exact ih.follow wasNew he
  | setCurrent n current _ ih => exact ih.setCurrent n current
  | run _ hfits ih => exact ih.run hfits

/-- Flushing keeps the shape of a forest. -/
theorem shape (h : Flushes c w v) : SameShape w.state v.state := by
  induction h with
  | refl => exact SameShape.refl _
  | @read v n cells _ _ _ _ ih =>
    refine ih.trans ?_
    obtain ⟨-, hstate | ⟨values, hstate⟩⟩ := readCells_spec c n cells v <;> rw [hstate]
    exact sameShape_load v.state cells values
  | seed _ _ ih => exact ih.trans (steady_seedChild _ _).shape
  | follow wasNew _ _ ih => exact ih.trans (steady_followChild _ _ wasNew).shape
  | setCurrent n current _ ih => exact ih.trans (sameShape_setCurrent _ n current)
  | @run v write _ _ ih => exact ih.trans (run_sameShape c write v)

theorem wellFormed (h : Flushes c w v) (hf : WellFormed w.state) : WellFormed v.state :=
  hf.of_sameShape h.shape

end Flushes

/-! ## Reading -/

variable {n : NodeId}

theorem flushes_readLinks (hf : WellFormed w.state) (hn : w.state.HasNode n) :
    (readLinks c n).Ensures w fun _ v => Flushes c w v := by
  rw [readLinks, Action.Ensures, Action.perform_state_bind]
  cases hstale : w.state.isStale n with
  | false =>
    rw [unreadLinks, hstale]
    exact .refl
  | true =>
    rw [isStale, Bool.and_eq_true] at hstale
    refine Flushes.refl.read hn hstale.1 fun d hd => ?_
    obtain ⟨hmem, -, hclean⟩ := unreadLinks_spec hf hd
    exact ⟨hmem, hclean⟩

theorem flushes_resolveBelow (b : Branches) {m : NodeId} (hf : WellFormed w.state)
    (hb : w.state.Hangs m b) : (resolveBelow c b).Ensures w fun _ v => Flushes c w v := by
  induction b generalizing m w with
  | nil => exact .refl
  | cons e child below next ihBelow ihNext =>
    obtain ⟨he, rfl, -, hbelow, hnext⟩ := hb
    cases hdel : (w.state.node (w.state.childOf e)).deleted with
    | true =>
      rw [Action.Ensures, perform_resolveBelow_deleted hdel]
      exact ihNext hf hnext
    | false =>
      rw [Action.Ensures, perform_resolveBelow_kept hdel]
      have hseed : Flushes c w (w.withState (w.state.seedChild e)) :=
        Flushes.refl.seed (hf.hasEdge he)
      refine hseed.trans (Action.Ensures.seq Flushes.trans ?_ fun _ r hr => ?_)
      · exact flushes_readLinks (hseed.wellFormed hf)
          ((hseed.shape.hasNode _).2 (hf.hasChild (hf.hasEdge he)))
      have hr := hseed.trans hr
      refine Action.Ensures.seq Flushes.trans ?_ fun _ s hs => ?_
      · exact ihBelow (hr.wellFormed hf) (hr.shape.hangs hbelow)
      have hs := hr.trans hs
      exact ihNext (hs.wellFormed hf) (hs.shape.hangs hnext)

theorem flushes_fetchNode (hn : w.state.HasNode n) (hbound : w.state.isBound n = true) :
    (fetchNode c n).Ensures w fun _ v => Flushes c w v := by
  rw [fetchNode, Action.Ensures, Action.perform_state_bind]
  refine Action.Ensures.seq Flushes.trans ?_ fun _ v _ => Flushes.refl.setCurrent n true
  refine Flushes.refl.read hn hbound fun d hd => ?_
  rwa [cleanCells, List.mem_filter, Bool.not_eq_true'] at hd

/-- The steps of fetching: bound records are fetched, and new children get the keys of their
links. -/
inductive Fetches (c : Connector σ) (w : World σ Forest) : World σ Forest → Prop
  | refl : Fetches c w w
  | node {v : World σ Forest} {n : NodeId} : Fetches c w v → v.state.HasNode n →
      v.state.isBound n = true → Fetches c w ((fetchNode c n).perform v).2
  | seed {v : World σ Forest} {e : EdgeId} : Fetches c w v → v.state.HasEdge e →
      Fetches c w (v.withState (v.state.seedChild e))

namespace Fetches

theorem trans (h : Fetches c w v) (h' : Fetches c v u) : Fetches c w u := by
  induction h' with
  | refl => exact h
  | node _ hn hbound ih => exact ih.node hn hbound
  | seed _ he ih => exact ih.seed he

/-- The steps of fetching are steps of flushing. -/
theorem flushes (h : Fetches c w v) : Flushes c w v := by
  induction h with
  | refl => exact .refl
  | node _ hn hbound ih => exact ih.trans (flushes_fetchNode hn hbound)
  | seed _ he ih => exact ih.seed he

end Fetches

theorem fetches_fetchBelow (b : Branches) {m : NodeId} (hf : WellFormed w.state)
    (hb : w.state.Hangs m b) : (fetchBelow c b).Ensures w fun _ v => Fetches c w v := by
  induction b generalizing m w with
  | nil => exact .refl
  | cons e child below next ihBelow ihNext =>
    obtain ⟨he, rfl, -, hbelow, hnext⟩ := hb
    have hseed : Fetches c w (w.withState (w.state.seedChild e)) :=
      Fetches.refl.seed (hf.hasEdge he)
    have hs := hseed.flushes
    cases hdel : (w.state.node (w.state.childOf e)).deleted with
    | true =>
      rw [Action.Ensures, perform_fetchBelow_deleted hdel]
      exact ihNext hf hnext
    | false =>
      cases hbound : (w.state.seedChild e).isBound (w.state.childOf e) with
      | false =>
        rw [Action.Ensures, perform_fetchBelow_unbound hdel hbound]
        exact hseed.trans (ihNext (hs.wellFormed hf) (hs.shape.hangs hnext))
      | true =>
        rw [Action.Ensures, perform_fetchBelow_bound hdel hbound]
        refine hseed.trans (Action.Ensures.seq Fetches.trans ?_ fun _ r hr => ?_)
        · exact Fetches.refl.node ((hs.shape.hasNode _).2 (hf.hasChild (hf.hasEdge he))) hbound
        have hr := hs.trans hr.flushes
        refine Action.Ensures.seq Fetches.trans ?_ fun _ t ht => ?_
        · exact ihBelow (hr.wellFormed hf) (hr.shape.hangs hbelow)
        have ht := hr.trans ht.flushes
        exact ihNext (ht.wellFormed hf) (ht.shape.hangs hnext)

theorem fetches_fetchTree (hf : WellFormed w.state) (hn : w.state.HasNode n)
    (hbound : w.state.isBound n = true) :
    (fetchTree c n).Ensures w fun _ v => Fetches c w v := by
  rw [fetchTree, Action.Ensures, Action.perform_state_bind]
  refine Action.Ensures.seq Fetches.trans (Fetches.refl.node hn hbound) fun _ r hr => ?_
  have hr := hr.flushes
  exact fetches_fetchBelow _ (hr.wellFormed hf) (hr.shape.hangs (hangs_below hf n))

/-- Fetching consists of these steps. -/
theorem fetches_fetch (hf : WellFormed w.state) (hn : w.state.HasNode n) :
    (fetch c n).Ensures w fun _ v => Fetches c w v := by
  rw [fetch, Action.Ensures, Action.perform_state_bind]
  cases hbound : w.state.isBound n with
  | false => exact .refl
  | true => exact fetches_fetchTree hf hn hbound

/-! ## Saving -/

theorem fits_planSave? {direct : Bool} {write : Write} {f : Forest} (hn : f.HasNode n)
    (hdel : (f.node n).deleted = false) (h : f.planSave? n direct = some write) :
    write.Fits f := by
  obtain ⟨fields, hnew, rfl⟩ | ⟨fields, hnew, -, rfl⟩ := planSave?_eq_some h
  · exact ⟨hn, hnew, hdel, rfl⟩
  · refine ⟨hn, ?_, rfl, rfl⟩
    rw [isBound, hnew, hdel]
    rfl

/-- The steps of saving: flushing that brings no record, takes none, and deletes none. -/
structure Saves (c : Connector σ) (w v : World σ Forest) : Prop where
  flushes : Flushes c w v
  steady : Steady w.state v.state

theorem Saves.trans (h : Saves c w v) (h' : Saves c v u) : Saves c w u :=
  ⟨h.flushes.trans h'.flushes, h.steady.trans h'.steady⟩

theorem saves_saveNode (hf : WellFormed w.state) (hn : w.state.HasNode n)
    (hdel : (w.state.node n).deleted = false) (direct : Bool) :
    (saveNode c n direct).Ensures w fun _ v => Saves c w v := by
  have hsteady := saveNode_steady (c := c) hf hn direct
  have hflushes : (saveNode c n direct).Ensures w fun _ v => Flushes c w v := by
    rw [saveNode, Action.Ensures, Action.perform_state_bind]
    cases hplan : w.state.planSave? n direct with
    | none => exact Flushes.refl.setCurrent n false
    | some write => exact Flushes.refl.run (fits_planSave? hn hdel hplan)
  exact ⟨hflushes, hsteady⟩

theorem saves_saveBelow (b : Branches) {m : NodeId} (hf : WellFormed w.state)
    (hb : w.state.Hangs m b) : (saveBelow c b).Ensures w fun _ v => Saves c w v := by
  induction b generalizing m w with
  | nil => exact ⟨.refl, Steady.refl _⟩
  | cons e child below next ihBelow ihNext =>
    obtain ⟨he, rfl, -, hbelow, hnext⟩ := hb
    have hedge := hf.hasEdge he
    cases hdel : (w.state.node (w.state.childOf e)).deleted with
    | true =>
      rw [Action.Ensures, perform_saveBelow_deleted hdel]
      exact ihNext hf hnext
    | false =>
      rw [Action.Ensures, perform_saveBelow_kept hdel]
      refine Action.Ensures.seq Saves.trans (ihBelow hf hbelow) fun _ r hr => ?_
      refine Action.Ensures.seq Saves.trans ?_ fun _ s hs => ?_
      · exact saves_saveNode (hr.steady.wellFormed hf)
          ((hr.steady.shape.hasNode _).2 (hf.hasChild hedge))
          ((hr.steady.deleted _).trans hdel) false
      have hs := (hr.trans hs).steady
      have hfollow : Saves c s (s.withState
          (s.state.followChild e (w.state.isNew (w.state.childOf e)))) :=
        ⟨Flushes.refl.follow _ ((hs.shape.hasEdge e).2 hedge), steady_followChild _ _ _⟩
      have hwhole := hs.trans hfollow.steady
      rw [Action.Ensures, Action.perform_update_bind]
      exact hfollow.trans (ihNext (hwhole.wellFormed hf) (hwhole.shape.hangs hnext))

/-- Saving consists of the steps of flushing. -/
theorem flushes_save (hf : WellFormed w.state) (hn : w.state.HasNode n) :
    (save c n).Ensures w fun _ v => Flushes c w v := by
  rw [save, Action.Ensures, Action.perform_state_bind]
  have hb := hangs_below hf n
  cases hdel : (w.state.node n).deleted with
  | true => exact .refl
  | false =>
    have hread : (readLinks c n).Ensures w fun _ r => Saves c w r :=
      ⟨flushes_readLinks hf hn, (consults_readLinks c n hf).learns.steady⟩
    have hresolve {r : World σ Forest} (hr : Saves c w r) :
        (resolveBelow c (w.state.below n)).Ensures r fun _ s => Saves c r s :=
      have hfr := hr.steady.wellFormed hf
      have hbr := hr.steady.shape.hangs hb
      ⟨flushes_resolveBelow _ hfr hbr, (consults_resolveBelow c _ hfr hbr).learns.steady⟩
    refine Action.Ensures.mono (Q := fun _ v => Flushes c w v) ?_ fun _ _ h => Saves.flushes h
    refine Action.Ensures.seq Saves.trans hread fun _ r hr => ?_
    refine Action.Ensures.seq Saves.trans (hresolve hr) fun _ s hs => ?_
    have hs := (hr.trans hs).steady
    refine Action.Ensures.seq Saves.trans ?_ fun _ t ht => ?_
    · exact saves_saveBelow _ (hs.wellFormed hf) (hs.shape.hangs hb)
    have ht := hs.trans ht.steady
    exact saves_saveNode (ht.wellFormed hf) ((ht.shape.hasNode n).2 hn)
      ((ht.deleted n).trans hdel) true

/-! ## Deleting -/

theorem fits_planDelete {f : Forest} (hn : f.HasNode n) (hbound : f.isBound n = true) :
    (f.planDelete n).Fits f := ⟨hn, hbound, rfl⟩

/-- Deleting consists of the steps of flushing. -/
theorem flushes_delete (hn : w.state.HasNode n) :
    (delete c n).Ensures w fun _ v => Flushes c w v := by
  rw [delete, Action.Ensures, Action.perform_state_bind]
  cases hbound : w.state.isBound n with
  | false => exact .refl
  | true => exact Flushes.refl.run (fits_planDelete hn hbound)

/-- Deletions that were planned together still fit after one of them. -/
theorem fits_planDelete_run {f : Forest} {m : NodeId} (h : (f.planDelete n).Fits w.state)
    (hne : n ≠ m) (g : Forest) : ((g.planDelete m).run c).Ensures w fun _ v =>
      (f.planDelete n).Fits v.state := by
  refine run_ensures (P := fun f' => (f.planDelete n).Fits f') _ h fun v hran => ?_
  cases hran with
  | delete =>
    have hs := sameShape_markDeleted w.state m
    have hnode : (w.state.markDeleted m).node n = w.state.node n := by
      rw [markDeleted, node_modifyNode, if_neg fun h => hne h.1]
    obtain ⟨hn, hbound, hkey⟩ := h
    refine ⟨(hs.hasNode n).2 hn, ?_, ?_⟩
    · rw [isBound, isNew, hnode]
      exact hbound
    · rw [hkey, rowKey, rowKey, hs.keyName, keyValue, keyValue, hs.key]
      rfl

theorem flushes_runWrites {f : Forest} {records : List NodeId} (hnodup : records.Nodup)
    (hfits : ∀ n ∈ records, (f.planDelete n).Fits w.state) :
    (runWrites c (records.map f.planDelete)).Ensures w fun _ v => Flushes c w v := by
  induction records generalizing w with
  | nil => exact .refl
  | cons m rest ih =>
    obtain ⟨hm, hrest⟩ := List.nodup_cons.1 hnodup
    have hlater : ((f.planDelete m).run c).Ensures w fun _ v => Flushes c w v ∧
        ∀ n ∈ rest, (f.planDelete n).Fits v.state :=
      ⟨Flushes.refl.run (hfits m (List.mem_cons_self ..)), fun n hn =>
        fits_planDelete_run (hfits n (List.mem_cons_of_mem _ hn)) (fun h : n = m => hm (h ▸ hn)) f⟩
    rw [List.map_cons, runWrites]
    exact hlater.bind (fun _ v hv => (ih hrest hv.2).mono fun _ _ h => hv.1.trans h)
      fun _ _ hv => hv.1

/-- Deleting all rows consists of the steps of flushing. -/
theorem flushes_deleteAll (hf : WellFormed w.state) (hn : w.state.HasNode n) :
    (deleteAll c n).Ensures w fun _ v => Flushes c w v := by
  have hplanned (u : World σ Forest) (hu : Flushes c w u) : (Action.state >>= fun g =>
      runWrites c (g.planDeleteAll n) >>= fun _ => pure (g.planDeleteAll n).length :
        Action σ Forest Nat).Ensures u fun _ v => Flushes c u v := by
    rw [Action.Ensures, Action.perform_state_bind]
    refine Action.Ensures.bind (Q := fun _ v => Flushes c u v)
      (flushes_runWrites ((nodup_postOrder (hu.wellFormed hf) n).filter _) fun m hm => ?_)
      (fun _ _ hv => hv) fun _ _ hv => hv
    obtain ⟨hmem, hbound⟩ := List.mem_filter.1 hm
    refine fits_planDelete ?_ hbound
    rcases List.mem_append.1 hmem with hmem | hmem
    · exact (lt_of_mem_preOrder (hu.wellFormed hf) (hangs_below (hu.wellFormed hf) n)
        (Branches.mem_postOrder.1 hmem)).2
    · rw [List.mem_singleton.1 hmem]
      exact (hu.shape.hasNode n).2 hn
  rw [deleteAll, Action.Ensures, Action.perform_state_bind]
  cases hbound : w.state.isBound n with
  | false => exact .refl
  | true =>
    cases (w.state.preOrder n).any w.state.isStale with
    | false => exact hplanned w .refl
    | true =>
      exact Action.Ensures.bind (P := fun _ v => Flushes c w v)
        (Q := fun _ v => Flushes c w v)
        ((fetches_fetchTree hf hn hbound).mono fun _ _ hu => hu.flushes)
        (fun _ u hu => (hplanned u hu).mono fun _ _ hv => hu.trans hv) fun _ _ hv => hv

/-! ## Requests -/

/-- The records on the way down to a record are there. -/
theorem hasNode_of_mem_chain {f : Forest} (hf : WellFormed f) {n m : NodeId} (hn : f.HasNode n)
    (hm : m ∈ f.chain n) : f.HasNode m := by
  rcases mem_of_mem_chain hf hm with rfl | hbelow
  · exact hn
  · have hb := hangs_below hf m
    cases hbranches : f.below m with
    | nil =>
      rw [hbranches] at hbelow
      exact absurd hbelow List.not_mem_nil
    | cons e child below next =>
      rw [hbranches] at hb
      exact hasNode_of_mem_edges hb.mem

namespace Record

variable {r : Record}

theorem serve_set_ok {path : String} {x : Value} {d : CellId}
    (h : (r.resolve path).perform w = (.ok d, u)) :
    r.serve c w (.set path x) = u.withState (u.state.assign d x) := by
  show ((r.set path x).perform w).2 = _
  rw [set, Action.perform_bind_ok h]
  rfl

theorem serve_set_error {path : String} {x : Value} {e : Fault}
    (h : (r.resolve path).perform w = (.error e, u)) : r.serve c w (.set path x) = u := by
  show ((r.set path x).perform w).2 = _
  rw [set, Action.perform_bind_error h]

/-- The column that a path is resolved to is there. -/
theorem hasCell_of_resolve (hf : WellFormed w.state) (hr : w.state.HasNode r.root) {path : String}
    {d : CellId} (h : (r.resolve path).perform w = (.ok d, u)) : Grown w u ∧ u.state.HasCell d := by
  obtain ⟨hgrown, hfound⟩ := (resolve_spec hf hr path).of_perform h
  obtain ⟨p, -, hd⟩ := hfound d rfl
  exact ⟨hgrown, hasCell_of_lookupColumn? (hf.grows hgrown.grows) hd⟩

/-- A reading request makes the forest grow, and then fetches. -/
theorem fetches_serve (hf : WellFormed w.state) (hr : w.state.HasNode r.root) {q : Request}
    (hq : q.isReading = true) : ∃ u, Grown w u ∧ Fetches c u (r.serve c w q) := by
  cases q with
  | register path =>
    obtain ⟨hgrown, -⟩ := register_spec hf hr path
    exact ⟨_, hgrown, .refl⟩
  | registerTable path => exact ⟨_, registerTable_spec hf hr path, .refl⟩
  | get path =>
    obtain ⟨hgrown, -⟩ := resolve_spec hf hr path
    rcases hresolve : (r.resolve path).perform w with ⟨e | d, u⟩ <;> rw [hresolve] at hgrown
    · have hserve : r.serve c w (.get path) = u := by
        show ((r.get c path).perform w).2 = _
        rw [get, Action.perform_bind_error hresolve]
      exact ⟨u, hgrown, hserve ▸ .refl⟩
    · refine ⟨u, hgrown, ?_⟩
      have hfu := hf.grows hgrown.grows
      show Fetches c u ((r.get c path).perform w).2
      rw [get, Action.perform_bind_ok hresolve, Action.perform_state_bind]
      cases hanchor : u.state.staleAnchor? (u.state.cell d).owner with
      | none => exact .refl
      | some anchor =>
        have hd := (hasCell_of_resolve hf hr hresolve).2
        have hn : u.state.HasNode anchor := hasNode_of_mem_chain hfu (hfu.hasOwner hd)
          (List.mem_of_find?_eq_some hanchor)
        exact Action.Ensures.bind (P := fun _ v => Fetches c u v) (Q := fun _ v => Fetches c u v)
          (fetches_fetch hfu hn) (fun _ _ hv => hv) fun _ _ hv => hv
  | fetch => exact ⟨w, Grown.refl w, fetches_fetch hf hr⟩
  | _ => exact absurd hq Bool.false_ne_true

/-- A request makes the forest grow, and then flushes, or assigns the column that was asked for. -/
theorem serve_cases (hf : WellFormed w.state) (hr : w.state.HasNode r.root) (q : Request) :
    ∃ u, Grown w u ∧ (Flushes c u (r.serve c w q) ∨
      ∃ path x d, q = .set path x ∧ (r.resolve path).perform w = (.ok d, u) ∧
        r.serve c w q = u.withState (u.state.assign d x)) := by
  cases hreading : q.isReading with
  | true =>
    obtain ⟨u, hgrown, hfetches⟩ := fetches_serve (c := c) hf hr hreading
    exact ⟨u, hgrown, Or.inl hfetches.flushes⟩
  | false =>
    cases q with
    | set path x =>
      obtain ⟨hgrown, -⟩ := resolve_spec hf hr path
      rcases hresolve : (r.resolve path).perform w with ⟨e | d, u⟩ <;> rw [hresolve] at hgrown
      · exact ⟨u, hgrown, Or.inl (serve_set_error (c := c) hresolve ▸ .refl)⟩
      · exact ⟨u, hgrown, Or.inr ⟨path, x, d, rfl, hresolve, serve_set_ok hresolve⟩⟩
    | save =>
      refine ⟨w, Grown.refl w, Or.inl ?_⟩
      exact Action.Ensures.bind (P := fun _ v => Flushes c w v) (Q := fun _ v => Flushes c w v)
        (flushes_save hf hr) (fun _ _ hv => hv) fun _ _ hv => hv
    | delete => exact ⟨w, Grown.refl w, Or.inl (flushes_delete hr)⟩
    | deleteAll => exact ⟨w, Grown.refl w, Or.inl (flushes_deleteAll hf hr)⟩
    | _ => cases hreading

/-! ## Assigning during a run -/

/-- Whenever a run assigns a column, the forest, the column and its new value have a property. -/
def AtSets (r : Record) (c : Connector σ) (P : Forest → CellId → Value → Prop)
    (requests : List Request) (w : World σ Forest) : Prop :=
  ∀ served path x, served ++ [.set path x] <+: requests →
    ∀ d u, (r.resolve path).perform (r.after c served w) = (.ok d, u) → P u.state d x

theorem after_set {served : List Request} {path : String} {x : Value} {d : CellId}
    (hresolve : (r.resolve path).perform (r.after c served w) = (.ok d, u)) :
    r.after c (served ++ [.set path x]) w = u.withState (u.state.assign d x) := by
  rw [after, List.foldl_append]
  exact serve_set_ok (c := c) hresolve

namespace AtSets

variable {P : Forest → CellId → Value → Prop} {requests rest : List Request} {q : Request}

theorem nil : r.AtSets c P [] w := fun served path x h => by simp at h

theorem cons (hq : ∀ path x, q = .set path x →
      ∀ d u, (r.resolve path).perform w = (.ok d, u) → P u.state d x)
    (hrest : r.AtSets c P rest (r.serve c w q)) : r.AtSets c P (q :: rest) w := by
  intro served path x h d u hresolve
  cases served with
  | nil =>
    obtain ⟨hset, -⟩ := List.cons_prefix_cons.1 h
    exact hq path x hset.symm d u hresolve
  | cons q' served =>
    obtain ⟨rfl, hlater⟩ := List.cons_prefix_cons.1 h
    exact hrest served path x hlater d u hresolve

theorem of_prefix {served : List Request} (h : r.AtSets c P requests w)
    (hserved : served <+: requests) : r.AtSets c P served w :=
  fun first path x hfirst => h first path x (hfirst.trans hserved)

theorem head (h : r.AtSets c P (q :: rest) w) : r.AtSets c P [q] w :=
  h.of_prefix (List.cons_prefix_cons.2 ⟨rfl, List.nil_prefix⟩)

theorem tail (h : r.AtSets c P (q :: rest) w) : r.AtSets c P rest (r.serve c w q) :=
  fun served path x hserved =>
    h (q :: served) path x (List.cons_prefix_cons.2 ⟨rfl, hserved⟩)

/-- The assignment of a run of one request. -/
theorem of_set {path : String} {x : Value} {d : CellId} (h : r.AtSets c P [.set path x] w)
    (hresolve : (r.resolve path).perform w = (.ok d, u)) : P u.state d x :=
  h [] path x (List.prefix_refl _) d u hresolve

/-- What each request of a run keeps under the condition, the run keeps. -/
theorem carries {I : World σ Forest → Prop} (h : r.AtSets c P requests w)
    (hstep : ∀ {w : World σ Forest}, ∀ q ∈ requests, I w → r.AtSets c P [q] w →
      I (r.serve c w q)) (hw : I w) : I (r.after c requests w) := by
  induction requests generalizing w with
  | nil => exact hw
  | cons q rest ih =>
    have hnext := hstep q (List.mem_cons_self ..) hw h.head
    exact ih h.tail (fun q' hq' => hstep q' (List.mem_cons_of_mem _ hq')) hnext

end AtSets
end Record
end LinkedRows
