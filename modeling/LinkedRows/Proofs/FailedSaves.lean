/-
# Saves that fail

A save stops where it comes to a statement that fails: a query for the unread links of a record, or
a write (`ComesTo`).  The fault is that of the statement, which has no text, or the reply to the
call that was made for it; or an insertion was given no identifier (`FailsWith`).  Apart from that a
save fails at once for a record that was deleted.

Nothing is undone then, but no edit is lost either (`failed_save_keeps_edits`): what was assigned is
still assigned, or has been taken over by a record that was inserted, or was written by a statement
that was executed.  One kind of links is left out, the `ClaimedLink`s.  The record where the save
stopped and those above it have not had their turns, so they are new if they were before, unless
resolving links or a record joined through their own key column gave them a key.
-/

import LinkedRows.Proofs.Edits
import LinkedRows.Proofs.Operations
import LinkedRows.Proofs.SaveLinks

namespace LinkedRows

open Forest

variable {σ : Type} {c : Connector σ} {w u t v : World σ Forest} {n m root : NodeId} {b : Branches}
  {d : CellId} {e : Fault} {write : Write}

/-! ## Where a save stops -/

/-- The save of a record comes to a statement for a record: one that reads its unread links, or one
that writes its row. -/
inductive ComesTo (c : Connector σ) (root : NodeId) (w : World σ Forest) : NodeId → Statement →
    World σ Forest → Prop
  | reading {n : NodeId} {t : World σ Forest} : Visits c root w n t →
      t.state.unreadLinks n ≠ [] →
      ComesTo c root w n (t.state.selection n (t.state.unreadLinks n)) t
  | writing {write : Write} {u : World σ Forest} : Attempts c root w write u →
      ComesTo c root w write.node write.statement u

/-- A statement fails: it has no text, or the call that is made for it is answered with the fault;
or it is an insertion, and the identifier cannot be read or there is none.  The forest stays as it
is. -/
inductive FailsWith (c : Connector σ) : Statement → Fault → World σ Forest → World σ Forest → Prop
  | unprepared {s : Statement} {e : Fault} {t : World σ Forest} :
      s.prepare c.dialect = .error e → FailsWith c s e t t
  | unread {table : String} {columns : List String} {key : RowKey} {p : Prepared} {e : Fault}
      {t : World σ Forest} : (Statement.select table columns key).prepare c.dialect = .ok p →
      (c.query p t.store).1 = .error e →
      FailsWith c (.select table columns key) e t
        ⟨(c.query p t.store).2, t.log ++ [.query p (.error e)], t.state⟩
  | refused {s : Statement} {p : Prepared} {e : Fault} {t : World σ Forest} :
      s.prepare c.dialect = .ok p → (c.execute p t.store).1 = .error e →
      FailsWith c s e t ⟨(c.execute p t.store).2, t.log ++ [.execute p (.error e)], t.state⟩
  | unreported {table : String} {fields : List (String × Value)} {p : Prepared} {count : Nat}
      {e : Fault} {t : World σ Forest} : (Statement.insert table fields).prepare c.dialect = .ok p →
      (c.execute p t.store).1 = .ok count →
      (c.lastIdentifier (c.execute p t.store).2).1 = .error e →
      FailsWith c (.insert table fields) e t ⟨(c.lastIdentifier (c.execute p t.store).2).2,
        t.log ++ [.execute p (.ok count), .lastIdentifier (.error e)], t.state⟩
  | unidentified {table : String} {fields : List (String × Value)} {p : Prepared} {count : Nat}
      {key : Value} {t : World σ Forest} :
      (Statement.insert table fields).prepare c.dialect = .ok p →
      (c.execute p t.store).1 = .ok count →
      (c.lastIdentifier (c.execute p t.store).2).1 = .ok key → key.isNull = true →
      FailsWith c (.insert table fields) (Write.noIdentifier p.text) t
        ⟨(c.lastIdentifier (c.execute p t.store).2).2,
          t.log ++ [.execute p (.ok count), .lastIdentifier (.ok key)], t.state⟩

theorem FailsWith.state {s : Statement} (h : FailsWith c s e t v) :
    v.state = t.state ∧ t.log <+: v.log := by
  cases h with
  | unprepared => exact ⟨rfl, List.prefix_rfl⟩
  | _ => exact ⟨rfl, List.prefix_append _ _⟩

theorem readLinks_fails (h : (readLinks c n).perform t = (.error e, v)) :
    t.state.unreadLinks n ≠ [] ∧
      FailsWith c (t.state.selection n (t.state.unreadLinks n)) e t v := by
  rw [readLinks, Action.perform_state_bind] at h
  by_cases hcells : t.state.unreadLinks n = []
  · rw [hcells, readCells_nil] at h
    cases (Prod.mk.inj h).1
  refine ⟨hcells, ?_⟩
  cases hp : (t.state.selection n (t.state.unreadLinks n)).prepare c.dialect with
  | error e' =>
    rw [readCells_of_unprepared hcells hp] at h
    cases h
    exact .unprepared hp
  | ok p =>
    cases hq : (c.query p t.store).1 with
    | error e' =>
      rw [readCells_of_refused hcells hp hq, World.asked, hq] at h
      cases h
      exact .unread hp hq
    | ok rows =>
      rw [readCells_of_answered hcells hp hq] at h
      cases (Prod.mk.inj h).1

theorem run_fails (h : (write.run c).perform u = (.error e, v)) :
    FailsWith c write.statement e u v := by
  rw [Write.run, Action.perform_bind, Connector.perform_prepare] at h
  cases hp : write.statement.prepare c.dialect with
  | error e' =>
    rw [hp] at h
    cases h
    exact .unprepared hp
  | ok p =>
    rw [hp] at h
    dsimp only at h
    rw [Action.perform_bind, Connector.perform_run] at h
    cases hrun : (c.execute p u.store).1 with
    | error e' =>
      rw [hrun] at h
      cases h
      exact .refused hp hrun
    | ok count =>
      rw [hrun] at h
      cases write with
      | update | delete => cases (Prod.mk.inj h).1
      | insert n table cells fields =>
        dsimp only at h
        rw [Action.perform_bind, Connector.perform_lastInserted, List.append_assoc] at h
        cases hkey : (c.lastIdentifier (c.execute p u.store).2).1 with
        | error e' =>
          rw [hkey] at h
          cases h
          exact .unreported hp hrun hkey
        | ok key =>
          rw [hkey] at h
          dsimp only at h
          cases hnull : key.isNull with
          | false =>
            rw [hnull] at h
            cases (Prod.mk.inj h).1
          | true =>
            rw [hnull] at h
            cases h
            exact .unidentified hp hrun hkey hnull

theorem resolveBelow_fails (h : (resolveBelow c b).perform w = (.error e, v)) :
    ∃ n t, VisitsBelow c b w n t ∧ (readLinks c n).perform t = (.error e, v) := by
  induction b generalizing w with
  | nil => cases (Prod.mk.inj h).1
  | cons edge child below next ihBelow ihNext =>
    cases hdel : (w.state.node child).deleted with
    | true =>
      rw [perform_resolveBelow_deleted hdel] at h
      obtain ⟨n, t, hvisit, hfails⟩ := ihNext h
      exact ⟨n, t, .deleted hdel hvisit, hfails⟩
    | false =>
      rw [perform_resolveBelow_kept hdel] at h
      rcases Action.perform_bind_eq_error.1 h with hfails | ⟨_, r, hread, h⟩
      · exact ⟨child, _, .child hdel, hfails⟩
      rcases Action.perform_bind_eq_error.1 h with h | ⟨_, s, hresolve, h⟩
      · obtain ⟨n, t, hvisit, hfails⟩ := ihBelow h
        exact ⟨n, t, .deeper hdel hread hvisit, hfails⟩
      · obtain ⟨n, t, hvisit, hfails⟩ := ihNext h
        exact ⟨n, t, .later hdel hread hresolve hvisit, hfails⟩

theorem saveNode_fails {direct : Bool} (h : (saveNode c n direct).perform w = (.error e, v)) :
    ∃ write, w.state.planSave? n direct = some write ∧
      (write.run c).perform w = (.error e, v) := by
  rw [saveNode, Action.perform_state_bind] at h
  cases hplan : w.state.planSave? n direct with
  | none =>
    rw [hplan] at h
    cases (Prod.mk.inj h).1
  | some write =>
    rw [hplan] at h
    exact ⟨write, rfl, h⟩

theorem saveBelow_fails (h : (saveBelow c b).perform w = (.error e, v)) :
    ∃ write u, AttemptsBelow c b w write u ∧ (write.run c).perform u = (.error e, v) := by
  induction b generalizing w with
  | nil => cases (Prod.mk.inj h).1
  | cons edge child below next ihBelow ihNext =>
    cases hdel : (w.state.node child).deleted with
    | true =>
      rw [perform_saveBelow_deleted hdel] at h
      obtain ⟨write, u, hattempt, hfails⟩ := ihNext h
      exact ⟨write, u, .deleted hdel hattempt, hfails⟩
    | false =>
      rw [perform_saveBelow_kept hdel] at h
      rcases Action.perform_bind_eq_error.1 h with h | ⟨_, u, hbelow, h⟩
      · obtain ⟨write, u, hattempt, hfails⟩ := ihBelow h
        exact ⟨write, u, .deeper hdel hattempt, hfails⟩
      obtain ⟨_, hbelow⟩ := saveBelow_ok_iff.1 hbelow
      rcases Action.perform_bind_eq_error.1 h with h | ⟨_, t, hnode, h⟩
      · obtain ⟨write, hplan, hfails⟩ := saveNode_fails h
        exact ⟨write, u, .child hdel hbelow hplan, hfails⟩
      · rw [Action.perform_update_bind] at h
        obtain ⟨_, hnode⟩ := saveNode_ok_iff.1 hnode
        obtain ⟨write, u, hattempt, hfails⟩ := ihNext h
        exact ⟨write, u, .later hdel hbelow hnode hattempt, hfails⟩

/-- The world when the links of a record and of all below it have been resolved, or could not be. -/
def resolved (c : Connector σ) (root : NodeId) (w : World σ Forest) : World σ Forest :=
  ((readLinks c root >>= fun _ => resolveBelow c (w.state.below root)).perform w).2

/-- How a save fails: the record itself was deleted; links cannot be read; or a write cannot be
run. -/
inductive Stops (c : Connector σ) (root : NodeId) (w : World σ Forest) (e : Fault) :
    World σ Forest → Prop
  | deleted : (w.state.node root).deleted = true → e = w.state.notSaved root "save" →
      Stops c root w e w
  | reading {n : NodeId} {t v : World σ Forest} : (w.state.node root).deleted = false →
      Visits c root w n t → (readLinks c n).perform t = (.error e, v) → v = resolved c root w →
      Stops c root w e v
  | writing {write : Write} {u v : World σ Forest} : Attempts c root w write u →
      (write.run c).perform u = (.error e, v) → Stops c root w e v

theorem save_stops (h : (save c root).perform w = (.error e, v)) : Stops c root w e v := by
  rw [save, Action.perform_state_bind] at h
  cases hdel : (w.state.node root).deleted with
  | true =>
    rw [hdel] at h
    obtain ⟨he, rfl⟩ := Prod.mk.inj h
    exact .deleted hdel (Except.error.inj he).symm
  | false =>
    rw [hdel] at h
    have h : (readLinks c root >>= fun _ => resolveBelow c (w.state.below root) >>= fun _ =>
      saveBelow c (w.state.below root) >>= fun _ => saveNode c root true).perform w =
        (.error e, v) := h
    rcases Action.perform_bind_eq_error.1 h with h | ⟨⟨⟩, r, hread, h⟩
    · exact .reading hdel (.root hdel) h (by rw [resolved, Action.perform_bind_error h])
    rcases Action.perform_bind_eq_error.1 h with h | ⟨⟨⟩, s, hresolve, h⟩
    · obtain ⟨n, t, hvisit, hfails⟩ := resolveBelow_fails h
      refine .reading hdel (.deeper hdel hread hvisit) hfails ?_
      rw [resolved, Action.perform_bind_ok hread, h]
    rcases Action.perform_bind_eq_error.1 h with h | ⟨⟨⟩, t, hbelow, h⟩
    · obtain ⟨write, u, hattempt, hfails⟩ := saveBelow_fails h
      exact .writing (.deeper hdel hread hresolve hattempt) hfails
    · obtain ⟨_, hbelow⟩ := saveBelow_ok_iff.1 hbelow
      obtain ⟨write, hplan, hfails⟩ := saveNode_fails h
      exact .writing (.root hdel hread hresolve hbelow hplan) hfails

/-! ## The record where a save stops, and those above it -/

/-- The record of an attempted write and those above it have not had their turns. -/
theorem AttemptsBelow.keepsKey (h : AttemptsBelow c b w write u) (hf : WellFormed w.state)
    (hb : w.state.Hangs n b) (hjoins : b.joins.Nodup) (hm : m ∈ b.preOrder)
    (hup : write.node = m ∨ write.node ∈ (w.state.below m).preOrder) :
    KeepsKey w.state u.state m ∨ u.state.KeyClaimed m := by
  have hhas := (lt_of_mem_preOrder hf hb hm).2
  have hmn : m ≠ n := by
    rintro rfl
    exact not_mem_of_hangs hf hb hm
  induction h generalizing n with
  | @deleted _ _ _ next _ _ _ _ hlater ih =>
    obtain ⟨-, -, -, -, hnext⟩ := hb
    by_cases hmem : m ∈ next.preOrder
    · exact ih hf hnext (List.nodup_cons.1 hjoins).2 hmem hup hhas hmn
    · exact Or.inl (hlater.comes.keepsKey hf hnext hhas hmn hmem)
  | @deeper _ child below _ _ _ _ _ hdeeper ih =>
    obtain ⟨-, -, hbelowEq, hhang, -⟩ := hb
    have hbelowJoins : below.joins.Nodup := hbelowEq ▸ nodup_joins_below hf child
    by_cases hmem : m ∈ below.preOrder
    · refine ih hf hhang hbelowJoins hmem hup hhas ?_
      rintro rfl
      exact not_mem_of_hangs hf hhang hmem
    by_cases hmc : m = child
    · subst hmc
      exact hdeeper.comes.key_start hf hhas hhang hbelowJoins
    · exact Or.inl (hdeeper.comes.keepsKey hf hhang hhas hmc hmem)
  | @child _ child below next w _ _ _ _ hbelow hplan =>
    obtain ⟨-, -, hbelowEq, hhang, -⟩ := hb
    rw [node_planSave? hplan] at hup
    by_cases hmc : m = child
    · subst hmc
      exact hbelow.comes.key_start hf hhas hhang (hbelowEq ▸ nodup_joins_below hf m)
    · refine Or.inl (hbelow.comes.keepsKey hf hhang hhas hmc fun hmem => ?_)
      -- A record below the child is not above it.
      have hlt := (lt_of_mem_preOrder hf hhang hmem).1
      have hgt := (lt_of_mem_preOrder hf (hangs_below hf m) (hup.resolve_left (Ne.symm hmc))).1
      exact Nat.lt_asymm hlt hgt
  | @later _ child below next w _ _ _ _ _ _ _ hbelow hnode hlater ih =>
    have hsaved := hbelow.savedChild hnode hf hb
    have hs := hsaved.steady_follow
    have hmem : m ∈ next.preOrder := by
      by_contra hnot
      rw [Branches.mem_preOrder_cons] at hm
      obtain ⟨-, -, hbelowEq, hhang, -⟩ := id hb
      have hfirst : ∀ k ∈ child :: below.preOrder, k ∉ next.preOrder := fun k hk =>
        not_mem_next_of_first hf hb hjoins hk
      refine hfirst _ ?_ hlater.node_mem
      have hm : m = child ∨ m ∈ below.preOrder := hm.imp_right fun h => h.resolve_right hnot
      rcases hup with hup | hup
      · rw [hup]
        exact List.mem_cons.2 hm
      · refine List.mem_cons_of_mem _ ?_
        rcases hm with rfl | hm
        · rwa [← hbelowEq]
        · exact mem_preOrder_trans hhang hm hup
    have hearlier := hsaved.keepsKey_earlier hb hjoins hmem
    refine (ih (hs.wellFormed hf) (hs.shape.hangs hb.later) (List.nodup_cons.1 hjoins).2 hmem
      ?_ ((hs.shape.hasNode m).2 hhas) hmn).imp_left hearlier.trans
    rwa [World.withState, hs.shape.below]

/-! ## The save -/

/-- Resolving links asks, and learns, and nothing else, also if it fails. -/
theorem consults_resolved (c : Connector σ) (root : NodeId) (hf : WellFormed w.state) :
    Consults (root :: (w.state.below root).preOrder) w (resolved c root w) := by
  have hread : (readLinks c root).Ensures w fun _ v =>
      Consults (root :: (w.state.below root).preOrder) w v :=
    (consults_readLinks c root hf).mono fun _ _ h => h.mono (by simp)
  refine Action.Ensures.seq Consults.trans hread fun _ r hr => ?_
  have hs := hr.learns.steady
  exact (consults_resolveBelow c _ (hs.wellFormed hf) (hs.shape.hangs (hangs_below hf root))).mono
    fun _ _ h => h.mono fun m hm => List.mem_cons_of_mem _ hm

theorem resolved_eq {r s : World σ Forest} (hread : (readLinks c root).perform w = (.ok (), r))
    (hresolve : (resolveBelow c (w.state.below root)).perform r = (.ok (), s)) :
    resolved c root w = s := by
  rw [resolved, Action.perform_bind_ok hread, hresolve]

/-- When a write is attempted, links have been resolved, and the save has come to a point behind the
joins of its record. -/
structure SaveUnderway (c : Connector σ) (root : NodeId) (w u : World σ Forest) : Prop where
  comes : Comes c (w.state.below root) (resolved c root w) u
  attempts : ∀ write t, AttemptsBelow c (w.state.below root) (resolved c root w) write t →
    Attempts c root w write t

theorem Attempts.underway (h : Attempts c root w write u) : SaveUnderway c root w u := by
  cases h with
  | deeper hdel hread hresolve hattempt =>
    obtain rfl := resolved_eq hread hresolve
    exact ⟨hattempt.comes, fun _ _ => .deeper hdel hread hresolve⟩
  | root hdel hread hresolve hbelow =>
    obtain rfl := resolved_eq hread hresolve
    exact ⟨hbelow.comes, fun _ _ => .deeper hdel hread hresolve⟩

/-- What became of the edit of a column in a save: it is still there; the column is the link of a
record that was inserted, and has its key; or a write of its record carried it and was executed. -/
inductive EditFate (c : Connector σ) (root : NodeId) (w v : World σ Forest) (d : CellId) : Prop
  | kept : v.state.cell d = w.state.cell d → EditFate c root w v d
  | followed {e : EdgeId} : w.state.HasEdge e → (w.state.edge e).link = d →
      InsertedBy c (Attempts c root w) (w.state.childOf e)
        (v.state.keyValue (w.state.childOf e)) v →
      v.state.cell d = (w.state.cell d).assign (v.state.keyValue (w.state.childOf e)) →
      EditFate c root w v d
  | written : WrittenBy c (Attempts c root w) d v → EditFate c root w v d

/-- A column is the link of a new record that got its key not by being inserted, but from a record
joined through its own key column. -/
def ClaimedLink (c : Connector σ) (root : NodeId) (w v : World σ Forest) (d : CellId) : Prop :=
  ∃ e, w.state.HasEdge e ∧ (w.state.edge e).link = d ∧ w.state.isNew (w.state.childOf e) = true ∧
    v.state.KeyClaimed (w.state.childOf e) ∧
      ¬InsertedBy c (Attempts c root w) (w.state.childOf e)
        (v.state.keyValue (w.state.childOf e)) v

namespace SaveUnderway

theorem hangs (c : Connector σ) (root : NodeId) (hf : WellFormed w.state) :
    WellFormed (resolved c root w).state ∧
      (resolved c root w).state.Hangs root (w.state.below root) := by
  have hs := (consults_resolved c root hf).learns.steady
  exact ⟨hs.wellFormed hf, hs.shape.hangs (hangs_below hf root)⟩

/-- A column that is still assigned, or was taken over by a child, has met its fate. -/
theorem editFate_of_held (h : SaveUnderway c root w u) (hf : WellFormed w.state)
    (hdirty : (w.state.cell d).isDirty = true) (hheld : (resolved c root w).state.Held u.state d)
    (howner : (w.state.cell d).owner = root ∨
      (w.state.cell d).owner ∈ (w.state.below root).preOrder)
    (hv : v.state = u.state) (hlog : u.log <+: v.log) (hclaimed : ¬ClaimedLink c root w v d) :
    EditFate c root w v d := by
  obtain ⟨hfs, hb⟩ := hangs c root hf
  have hlearns := (consults_resolved c root hf).learns
  have hs := hlearns.steady
  have hcell := hlearns.cell_of_dirty hdirty
  rcases hheld with hkept | ⟨e, he, hlink, htakes⟩
  · exact .kept (by rw [hv, hkept, hcell])
  rw [hs.shape.hasEdge] at he
  rw [hs.shape.edge] at hlink
  obtain ⟨hbound, htaken, hnew⟩ := htakes
  rw [hs.shape.childOf] at hbound
  rw [hs.shape.edge, hlink, hs.shape.childOf, hcell] at htaken hnew
  have hmem : w.state.childOf e ∈ (w.state.below root).preOrder := by
    have hedge := mem_edges_of_link hf he (congrArg (fun c => (w.state.cell c).owner) hlink)
    rcases howner with howner | howner
    · exact childOf_mem_below hf (howner ▸ hedge)
    · exact childOf_mem_of_mem hf (hangs_below hf root) howner hedge
  rcases h.comes.gained hfs hb (nodup_joins_below hf root) hmem (hnew hdirty) hbound with
    hinserted | hkey
  · exact .followed he hlink (hv ▸ hinserted.mono h.attempts hlog) (by rw [hv, htaken])
  · by_cases hinserted : InsertedBy c (Attempts c root w) (w.state.childOf e)
        (v.state.keyValue (w.state.childOf e)) v
    · exact .followed he hlink hinserted (by rw [hv, htaken])
    · refine absurd ⟨e, he, hlink, ?_, hv ▸ hkey, hinserted⟩ hclaimed
      exact hs.wasNew hf (hf.hasChild he) (hnew hdirty)

/-- Up to an attempted write, edits meet their fates. -/
theorem editFate (h : SaveUnderway c root w u) (hf : WellFormed w.state)
    (hd : w.state.HasCell d) (hk : (w.state.cell d).isKey = false)
    (hdirty : (w.state.cell d).isDirty = true) (hv : v.state = u.state) (hlog : u.log <+: v.log)
    (hclaimed : ¬ClaimedLink c root w v d) : EditFate c root w v d := by
  obtain ⟨hfs, hb⟩ := hangs c root hf
  have hlearns := (consults_resolved c root hf).learns
  have hcell := hlearns.cell_of_dirty hdirty
  have hjoins := nodup_joins_below hf root
  by_cases hroot : (w.state.cell d).owner = root
  · have hheld := h.comes.held_start hfs hb hjoins (d := d) (by rw [hcell, hroot])
    exact h.editFate_of_held hf hdirty hheld (Or.inl hroot) hv hlog hclaimed
  by_cases hmem : (w.state.cell d).owner ∈ (w.state.below root).preOrder
  · have hcells : d ∈ ((resolved c root w).state.node (w.state.cell d).owner).cells := by
      rw [hlearns.steady.shape.cells]
      exact hf.mem_owner hd
    rcases h.comes.edited hfs hb hjoins hmem hcells (by rwa [hcell]) (by rwa [hcell]) with
      hheld | hwritten
    · exact h.editFate_of_held hf hdirty hheld (Or.inr hmem) hv hlog hclaimed
    · exact .written (hwritten.mono h.attempts hlog (by rw [hv]))
  · refine .kept ?_
    rw [hv, h.comes.cell_elsewhere hfs hb (by rwa [hcell]) (by rwa [hcell]), hcell]

end SaveUnderway

/-- The record of an attempted write and those above it are new or not as they were when links had
been resolved, unless they have the key of a record joined through their own key column. -/
theorem Attempts.keepsKey (h : Attempts c root w write u) (hf : WellFormed w.state)
    (hm : m ∈ w.state.chain write.node) (hhas : w.state.HasNode m) :
    KeepsKey (resolved c root w).state u.state m ∨ u.state.KeyClaimed m := by
  have hu := h.underway
  obtain ⟨hfs, hb⟩ := SaveUnderway.hangs c root hf
  have hs := (consults_resolved c root hf).learns.steady
  have hjoins := nodup_joins_below hf root
  have hhasS := (hs.shape.hasNode m).2 hhas
  by_cases hroot : m = root
  · subst hroot
    exact hu.comes.key_start hfs hhasS hb hjoins
  by_cases hmem : m ∈ (w.state.below root).preOrder
  · have hup := mem_of_mem_chain hf hm
    cases h with
    | deeper _ hread hresolve hattempt =>
      obtain rfl := resolved_eq hread hresolve
      refine hattempt.keepsKey hfs hb hjoins hmem ?_
      rwa [hs.shape.below]
    | root _ _ _ _ hplan =>
      -- A record below the one that is saved is not above it.
      rw [node_planSave? hplan] at hup
      have hlt := (lt_of_mem_preOrder hf (hangs_below hf root) hmem).1
      have hgt := (lt_of_mem_preOrder hf (hangs_below hf m)
        (hup.resolve_left (Ne.symm hroot))).1
      exact absurd hgt (Nat.lt_asymm hlt)
  · exact Or.inl (hu.comes.keepsKey hfs hb hhasS hroot hmem)

/-- What a failed save leaves behind. -/
structure LeavesBehind (c : Connector σ) (root : NodeId) (w : World σ Forest) (e : Fault)
    (v : World σ Forest) : Prop where
  /-- No record, column or join is there that was not before, and none is gone. -/
  shape : SameShape w.state v.state
  /-- No record was deleted by it. -/
  deleted : ∀ n, (v.state.node n).deleted = (w.state.node n).deleted
  /-- No edit is lost. -/
  edits : ∀ d, w.state.HasCell d → (w.state.cell d).isKey = false →
    (w.state.cell d).isDirty = true → ¬ClaimedLink c root w v d → EditFate c root w v d
  /-- The fault is that of a statement that the save came to, unless the record itself was deleted.
  The record of the statement and those above it have not become existing ones, but for keys that
  links or records joined through their key columns gave them. -/
  stopped : (w.state.node root).deleted = true ∧ e = w.state.notSaved root "save" ∧ v = w ∨
    ∃ n s t, ComesTo c root w n s t ∧ FailsWith c s e t v ∧ ∀ m ∈ w.state.chain n,
      w.state.HasNode m → v.state.isNew m = (resolved c root w).state.isNew m ∨
        v.state.KeyClaimed m
  /-- Records that were not new are not. -/
  bound : ∀ n, w.state.HasNode n → w.state.isNew n = false → v.state.isNew n = false

/-- **A failed save loses no edit.** -/
theorem failed_save_keeps_edits (hf : Operated w.state) (hroot : w.state.HasNode root)
    (h : (save c root).perform w = (.error e, v)) : LeavesBehind c root w e v := by
  have hwf := hf.wellFormed
  have hsteady : Steady w.state v.state := (save_steady hwf hroot).of_perform h
  have hbound (n : NodeId) (hn : w.state.HasNode n) (hkey : w.state.isNew n = false) :
      v.state.isNew n = false := hsteady.isNew hwf hn hkey
  cases save_stops h with
  | deleted hdel he =>
    exact ⟨hsteady.shape, hsteady.deleted, fun _ _ _ _ _ => .kept rfl, Or.inl ⟨hdel, he, rfl⟩,
      hbound⟩
  | @reading n t _ _ hvisit hread hv =>
    obtain ⟨hlinks, hfails⟩ := readLinks_fails hread
    refine ⟨hsteady.shape, hsteady.deleted, fun d _ _ hdirty _ => .kept ?_,
      Or.inr ⟨n, _, t, .reading hvisit hlinks, hfails, fun m _ _ => Or.inl ?_⟩, hbound⟩
    · rw [hv]
      exact (consults_resolved c root hwf).learns.cell_of_dirty hdirty
    · rw [hv]
  | @writing write u _ hattempt hrun =>
    have hfails := run_fails hrun
    obtain ⟨hstate, hlog⟩ := hfails.state
    refine ⟨hsteady.shape, hsteady.deleted, fun d hd hk hdirty hclaimed => ?_,
      Or.inr ⟨_, _, u, .writing hattempt, hfails, fun m hm hhas => ?_⟩, hbound⟩
    · exact hattempt.underway.editFate hwf hd hk hdirty hstate hlog hclaimed
    · rw [hstate]
      exact (hattempt.keepsKey hwf hm hhas).imp_left KeepsKey.isNew

/-! ## A save that stops half-way -/

namespace Connector

/-- A database that is lost after some statements, and gives all new rows one identifier. -/
def losing (identifier : Value) : Connector Nat where
  dialect := .sqlite
  query _ n := (.ok [], n)
  execute _ n :=
    match n with
    | 0 => (.error (.connection ⟨"lost", none⟩), 0)
    | n + 1 => (.ok 1, n)
  lastIdentifier n := (.ok identifier, n)
  describe _ n := (.ok [], n)

end Connector

/-- Two new records.  The link is assigned null, and the record behind it has a title. -/
def Forest.newPair : Forest :=
  let path : Path := .join "table1" "id" (.column "table1_id") (.column "title")
  let opened := (Forest.empty.addRoot "table0" "id" .null).2
  let registered := ((registerColumn ⟨0⟩ path).perform opened).2
  (registered.assign ⟨1⟩ .null).assign ⟨3⟩ (.text "A")

theorem Forest.operated_newPair : Operated Forest.newPair :=
  have hregistered := (Operated.empty.addRoot "table0" "id" .null).registerColumn (n := ⟨0⟩)
    (.join "table1" "id" (.column "table1_id") (.column "title")) (by decide)
  (hregistered.assign ⟨1⟩ .null).assign ⟨3⟩ (.text "A")

/-- The database is lost when the record behind the link has been inserted: its title was written,
and the link has its key, but is not written. -/
theorem failed_save_keeps_edits_halfway :
    let c := Connector.losing (.int 5)
    let w : World Nat Forest := ⟨1, [], Forest.newPair⟩
    ∃ e v, (save c ⟨0⟩).perform w = (.error e, v) ∧ LeavesBehind c ⟨0⟩ w e v ∧
      executed v.log = [⟨"INSERT INTO \"table1\" (\"title\") VALUES ('A')", []⟩,
        ⟨"INSERT INTO \"table0\" (\"table1_id\") VALUES (5)", []⟩] ∧
      (v.state.cell ⟨3⟩).assigned = none ∧ (v.state.cell ⟨3⟩).stored = .text "A" ∧
      (v.state.cell ⟨1⟩).assigned = some (.int 5) ∧ v.state.isNew ⟨0⟩ = true := by
  intro c w
  have hsave : (save c ⟨0⟩).perform w =
      (.error (.connection ⟨"lost", none⟩), ((save c ⟨0⟩).perform w).2) :=
    Action.perform_eq (by decide +kernel)
  exact ⟨_, _, hsave, failed_save_keeps_edits operated_newPair (by decide +kernel) hsave,
    by decide +kernel, by decide +kernel, by decide +kernel, by decide +kernel, by decide +kernel⟩

/-! ## What else a failed save can do -/

/-- The fault that the reply to a call brought. -/
def Exchange.fault? : Exchange → Option Fault
  | .query _ (.error e) | .execute _ (.error e) | .lastIdentifier (.error e)
  | .describe _ (.error e) => some e
  | _ => none

/-- A record whose row was deleted. -/
def Forest.goneRow : Forest :=
  ((delete (Connector.losing .null) ⟨0⟩).perform
    ⟨1, [], (Forest.empty.addRoot "table0" "id" (.int 7)).2⟩).2.state

/-- A new record joined through its own key column to a record that has a row. -/
def Forest.keyBehind : Forest :=
  let path : Path := .join "table1" "id" (.column "id") (.column "title")
  let opened := (Forest.empty.addRoot "table0" "id" .null).2
  let registered := ((registerColumn ⟨0⟩ path).perform opened).2
  (((registerColumn ⟨0⟩ (.column "name")).perform (registered.assign ⟨1⟩ (.int 7))).2).assign ⟨3⟩
    (.text "A")

/-- A failed save can bring a fault that is neither the connector's nor a statement's: for a record
that was deleted it makes no call, and for a row without identifier all calls were answered.  A
record can take its key from another one that was not inserted but had a row before.  And an
assigned link can be lost to a record that was not inserted. -/
theorem failed_save_exceptions :
    (∃ e v, let w : World Nat Forest := ⟨0, [], Forest.goneRow⟩
      Operated w.state ∧ (save (Connector.losing .null) ⟨0⟩).perform w = (.error e, v) ∧
      v = w ∧ ∀ n s t, ¬ComesTo (Connector.losing .null) ⟨0⟩ w n s t) ∧
    (∃ e v p, let w : World Nat Forest := ⟨1, [], Forest.newPair⟩
      Operated w.state ∧ (save (Connector.losing .null) ⟨0⟩).perform w = (.error e, v) ∧
      e = Write.noIdentifier p ∧ executed v.log = [⟨p, []⟩] ∧
      ∀ x ∈ v.log, x.fault?.isNone = true) ∧
    (∃ e v, let w : World Nat Forest := ⟨0, [], Forest.keyBehind⟩
      Operated w.state ∧ (save (Connector.losing .null) ⟨0⟩).perform w = (.error e, v) ∧
      executed v.log = [⟨"UPDATE \"table0\" SET \"name\" = 'A' WHERE \"id\" = 7", []⟩] ∧
      (resolved (Connector.losing .null) ⟨0⟩ w).state.isNew ⟨0⟩ = true ∧
      v.state.isNew ⟨0⟩ = false) ∧
    ∃ e v, let w : World Nat Forest := ⟨1, [], Forest.unlinked⟩
      Operated w.state ∧ (save (Connector.losing (.int 5)) ⟨0⟩).perform w = (.error e, v) ∧
      executed v.log = [⟨"INSERT INTO \"table2\" (\"title\") VALUES ('A')", []⟩,
        ⟨"UPDATE \"table0\" SET \"table1_id\" = 5 WHERE \"id\" = 7", []⟩] ∧
      (w.state.node (w.state.childOf ⟨0⟩)).table = "table1" ∧ (w.state.edge ⟨0⟩).link = ⟨1⟩ ∧
      (w.state.cell ⟨1⟩).assigned = some .null ∧ (v.state.cell ⟨1⟩).assigned = some (.int 5) := by
  have hnew := Operated.empty.addRoot "table0" "id" .null
  have hopened := Operated.empty.addRoot "table0" "id" (.int 7)
  refine ⟨?_, ?_, ?_, ?_⟩
  · have hdel : (Forest.goneRow.node ⟨0⟩).deleted = true := by decide +kernel
    refine ⟨Forest.goneRow.notSaved ⟨0⟩ "save", _, hopened.delete ⟨0⟩, ?_, rfl, ?_⟩
    · rw [save, Action.perform_state_bind, hdel]
      rfl
    · rintro n s t (hvisit | hattempt)
      · cases hvisit with
        | root hkept | deeper hkept => exact absurd (hdel.symm.trans hkept) (by decide)
      · cases hattempt with
        | deeper hkept | root hkept => exact absurd (hdel.symm.trans hkept) (by decide)
  · refine ⟨_, _, "INSERT INTO \"table1\" (\"title\") VALUES ('A')", operated_newPair,
      Action.perform_eq (r := .error (Write.noIdentifier _)) (by decide +kernel), rfl,
      by decide +kernel, by decide +kernel⟩
  · have hregistered := hnew.registerColumn (n := ⟨0⟩)
      (.join "table1" "id" (.column "id") (.column "title")) (by decide)
    have hnamed := (hregistered.assign ⟨1⟩ (.int 7)).registerColumn (n := ⟨0⟩) (.column "name")
      (by decide +kernel)
    exact ⟨_, _, hnamed.assign ⟨3⟩ (.text "A"),
      Action.perform_eq (r := .error (.connection ⟨"lost", none⟩)) (by decide +kernel),
      by decide +kernel, by decide +kernel, by decide +kernel⟩
  · have hregistered := hopened.registerColumn (n := ⟨0⟩) (.join "table1" "id" (.column "table1_id")
      (.join "table2" "id" (.column "id") (.column "title"))) (by decide)
    exact ⟨_, _, (hregistered.assign ⟨1⟩ .null).assign ⟨4⟩ (.text "A"),
      Action.perform_eq (r := .error (.connection ⟨"lost", none⟩)) (by decide +kernel),
      by decide +kernel, by decide +kernel, by decide +kernel, by decide +kernel, by decide +kernel⟩

end LinkedRows
