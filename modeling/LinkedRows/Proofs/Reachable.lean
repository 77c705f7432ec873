/-
# Reachable states

A record is created and then serves requests, each of which may succeed or fail half-way
(`Record.Reachable`).  Its forest is consistent throughout: it is well formed, and storage is not
known to hold any key (`Reachable.consistent`).  Records may have been deleted, columns assigned and
links relinked in it.

A save is steady also when it fails: a statement that was refused changes nothing of the forest.
-/

import LinkedRows.Proofs.ReadingRun

namespace LinkedRows

open Forest

variable {σ : Type} {c : Connector σ} {w v : World σ Forest}

namespace Forest

variable {f g : Forest}

/-- A well-formed forest whose key columns hold nothing but what was assigned to them. -/
structure Consistent (f : Forest) : Prop extends WellFormed f where
  unstored : KeysUnstored f

theorem Intact.consistent (hf : Intact f) : Consistent f := ⟨hf.toWellFormed, hf.unstored⟩

namespace Consistent

theorem steady (hf : Consistent f) (hs : Steady f g) : Consistent g :=
  ⟨hs.wellFormed hf.toWellFormed, hs.keysUnstored hf.unstored⟩

theorem grows (hf : Consistent f) (hg : Grows f g) : Consistent g := by
  refine ⟨hf.toWellFormed.grows hg, ?_⟩
  induction hg with
  | refl => exact hf.unstored
  | cell _ _ _ ih =>
    intro c
    rw [cell_withCell]
    split
    · exact fun _ => rfl
    · exact ih c
  | join _ _ _ ih =>
    intro c
    rw [cell_withJoin]
    split
    · exact fun _ => rfl
    · exact ih c

theorem forgets (hf : Consistent f) (hg : Forgets f g) : Consistent g := by
  refine ⟨hf.toWellFormed.of_sameShape hg.shape, fun d hk => ?_⟩
  rcases hg.stored d with h | h
  · rw [h, hf.unstored d ((hg.shape.isKey d).symm.trans hk)]
  · exact h

theorem assign (hf : Consistent f) (d : CellId) (x : Value) : Consistent (f.assign d x) :=
  hf.forgets (forgets_assign f d x)

theorem markDeleted (hf : Consistent f) (n : NodeId) : Consistent (f.markDeleted n) :=
  ⟨hf.toWellFormed.of_sameShape (sameShape_markDeleted f n), hf.unstored⟩

end Consistent
end Forest

/-! ## Writes and saves that may fail -/

/-- A write makes no call if its statement has no text.  Else it executes that statement, and then
asks for an identifier at most; if it fails, it leaves the forest as it is. -/
theorem run_spec (c : Connector σ) (write : Write) (w : World σ Forest) :
    (write.run c).Ensures w fun result v => (result = .ok () ∨ v.state = w.state) ∧
      (v.log = w.log ∨ ∃ p later, write.statement.prepare c.dialect = .ok p ∧
        v.log = w.log ++ .execute p (c.execute p w.store).1 :: later ∧
          ∀ x ∈ later, ∃ reply, x = .lastIdentifier reply) := by
  rw [Write.run, Action.Ensures, Action.perform_bind, Connector.perform_prepare]
  cases hp : write.statement.prepare c.dialect with
  | error e => exact ⟨Or.inr rfl, Or.inl rfl⟩
  | ok p =>
    dsimp only
    rw [Action.perform_bind, Connector.perform_run]
    have hnone : ∀ x ∈ ([] : List Exchange), ∃ reply, x = .lastIdentifier reply := fun _ hx =>
      absurd hx List.not_mem_nil
    cases hrun : (c.execute p w.store).1 with
    | error e => exact ⟨Or.inr rfl, Or.inr ⟨p, [], rfl, by rw [hrun], hnone⟩⟩
    | ok count =>
      cases write with
      | update | delete => exact ⟨Or.inl rfl, Or.inr ⟨p, [], rfl, by rw [hrun]; rfl, hnone⟩⟩
      | insert n table cells fields =>
        dsimp only
        rw [Action.perform_bind, Connector.perform_lastInserted]
        have hlog (reply : Except Fault Value) :
            (w.log ++ [.execute p (.ok count)]) ++ [.lastIdentifier reply] =
              w.log ++ .execute p (c.execute p w.store).1 :: [.lastIdentifier reply] := by
          rw [hrun, List.append_assoc]
          rfl
        have hlater (reply : Except Fault Value) :
            ∀ x ∈ [Exchange.lastIdentifier reply], ∃ reply, x = .lastIdentifier reply :=
          fun _ hx => ⟨reply, List.mem_singleton.1 hx⟩
        cases (c.lastIdentifier (c.execute p w.store).2).1 with
        | error e => exact ⟨Or.inr rfl, Or.inr ⟨p, _, rfl, hlog _, hlater _⟩⟩
        | ok key =>
          dsimp only
          cases key.isNull with
          | true => exact ⟨Or.inr rfl, Or.inr ⟨p, _, rfl, hlog _, hlater _⟩⟩
          | false => exact ⟨Or.inl rfl, Or.inr ⟨p, _, rfl, hlog _, hlater _⟩⟩

/-- What holds of the forest if a write has run, and did before, holds if the write fails too. -/
theorem run_ensures (write : Write) {P : Forest → Prop} (hw : P w.state)
    (hran : ∀ v, Ran c w write v → P v.state) : (write.run c).Ensures w fun _ v => P v.state := by
  have hspec := run_spec c write w
  unfold Action.Ensures at hspec ⊢
  rcases h : (write.run c).perform w with ⟨e | ⟨⟩, v⟩ <;> rw [h] at hspec
  · have hstate : v.state = w.state := hspec.1.resolve_left nofun
    show P v.state
    rwa [hstate]
  · exact hran v (run_ok_iff.1 h)

theorem saveNode_steady {n : NodeId} (hf : WellFormed w.state) (hn : w.state.HasNode n)
    (direct : Bool) : (saveNode c n direct).Ensures w fun _ v => Steady w.state v.state := by
  rw [saveNode, Action.Ensures, Action.perform_state_bind]
  cases hplan : w.state.planSave? n direct with
  | none => exact steady_setCurrent w.state n false
  | some write =>
    exact run_ensures write (Steady.refl _) fun v h => (h.reaches hf hn hplan).2.toSteady

theorem saveBelow_steady (b : Branches) {n : NodeId} (hf : WellFormed w.state)
    (hb : w.state.Hangs n b) :
    (saveBelow c b).Ensures w fun _ v => Steady w.state v.state := by
  induction b generalizing n w with
  | nil => exact Steady.refl _
  | cons e child below next ihBelow ihNext =>
    obtain ⟨he, hchild, -, hbelow, hnext⟩ := hb
    cases hdel : (w.state.node child).deleted with
    | true =>
      rw [Action.Ensures, perform_saveBelow_deleted hdel]
      exact ihNext hf hnext
    | false =>
      rw [Action.Ensures, perform_saveBelow_kept hdel]
      have hhas : w.state.HasNode child := hchild ▸ hf.hasChild (hf.hasEdge he)
      refine Action.Ensures.seq (R := fun w v => Steady w.state v.state) Steady.trans
        (ihBelow hf hbelow) fun _ u hu => ?_
      refine Action.Ensures.seq (R := fun w v => Steady w.state v.state) Steady.trans
        (saveNode_steady (hu.wellFormed hf) ((hu.shape.hasNode _).2 hhas) false) fun _ t ht => ?_
      have hs := hu.trans ht
      have hfollow := steady_followChild t.state e (w.state.isNew child)
      have hlater := ihNext (w := t.withState (t.state.followChild e (w.state.isNew child)))
        ((hs.trans hfollow).wellFormed hf) ((hs.trans hfollow).shape.hangs hnext)
      rw [Action.Ensures, Action.perform_update_bind]
      exact hfollow.trans hlater

/-- A save is steady, also if it fails. -/
theorem save_steady {n : NodeId} (hf : WellFormed w.state) (hn : w.state.HasNode n) :
    (save c n).Ensures w fun _ v => Steady w.state v.state := by
  rw [save, Action.Ensures, Action.perform_state_bind]
  cases hdel : (w.state.node n).deleted with
  | true => exact Steady.refl _
  | false =>
    have hb := hangs_below hf n
    refine Action.Ensures.seq (R := fun w v => Steady w.state v.state) Steady.trans
      ((consults_readLinks c n hf).mono fun _ _ h => h.learns.steady) fun _ r hr => ?_
    have hfr := hr.wellFormed hf
    have hresolve := consults_resolveBelow c _ hfr (hr.shape.hangs hb)
    refine Action.Ensures.seq (R := fun w v => Steady w.state v.state) Steady.trans
      (hresolve.mono fun _ _ h => h.learns.steady) fun _ s hs => ?_
    have hrs := hr.trans hs
    refine Action.Ensures.seq (R := fun w v => Steady w.state v.state) Steady.trans
      (saveBelow_steady _ (hrs.wellFormed hf) (hrs.shape.hangs hb)) fun _ t ht => ?_
    have hrst := hrs.trans ht
    exact saveNode_steady (hrst.wellFormed hf) ((hrst.shape.hasNode n).2 hn) true

/-! ## Deleting -/

theorem consults_fetchTree (c : Connector σ) (n : NodeId) (hf : WellFormed w.state)
    (hbound : w.state.isBound n = true) :
    (fetchTree c n).Ensures w fun _ v => Consults (n :: (w.state.below n).preOrder) w v := by
  have h := consults_fetch c n hf
  rw [fetch, Action.Ensures, Action.perform_state_bind, hbound] at h
  exact h

/-- The forest is consistent and has the shape of another one. -/
def ConsistentLike (f g : Forest) : Prop := Consistent g ∧ SameShape f g

theorem runDelete_like {f : Forest} (hw : ConsistentLike f w.state) {write : Write}
    (hdelete : ∃ n table key, write = .delete n table key) :
    (write.run c).Ensures w fun _ v => ConsistentLike f v.state := by
  obtain ⟨n, table, key, rfl⟩ := hdelete
  refine run_ensures _ hw fun v h => ?_
  cases h with
  | delete => exact ⟨hw.1.markDeleted n, hw.2.trans (sameShape_markDeleted _ n)⟩

theorem runWrites_like {f : Forest} (writes : List Write) (hw : ConsistentLike f w.state)
    (hdelete : ∀ write ∈ writes, ∃ n table key, write = .delete n table key) :
    (runWrites c writes).Ensures w fun _ v => ConsistentLike f v.state := by
  induction writes generalizing w with
  | nil => exact hw
  | cons write rest ih =>
    rw [runWrites]
    exact (runDelete_like hw (hdelete _ (List.mem_cons_self ..))).bind
      (fun _ v hv => ih hv fun write hmem => hdelete write (List.mem_cons_of_mem _ hmem))
      fun _ _ hv => hv

theorem delete_like (hf : Consistent w.state) (n : NodeId) :
    (delete c n).Ensures w fun _ v => ConsistentLike w.state v.state := by
  rw [delete, Action.Ensures, Action.perform_state_bind]
  cases w.state.isBound n with
  | false => exact ⟨hf, SameShape.refl _⟩
  | true => exact runDelete_like ⟨hf, SameShape.refl _⟩ ⟨_, _, _, rfl⟩

/-- What deleting all rows does once all of them are known. -/
theorem deletePlanned_like {f : Forest} (hw : ConsistentLike f w.state) (n : NodeId) :
    (Action.state >>= fun g => runWrites c (g.planDeleteAll n) >>= fun _ =>
      pure (g.planDeleteAll n).length : Action σ Forest Nat).Ensures w
        fun _ v => ConsistentLike f v.state := by
  rw [Action.Ensures, Action.perform_state_bind]
  refine Action.Ensures.bind (Q := fun _ v => ConsistentLike f v.state)
    (runWrites_like _ hw fun write h => ?_) (fun _ _ hv => hv) fun _ _ hv => hv
  obtain ⟨m, -, rfl⟩ := List.mem_map.1 h
  exact ⟨_, _, _, rfl⟩

theorem deleteAll_like (hf : Consistent w.state) (n : NodeId) :
    (deleteAll c n).Ensures w fun _ v => ConsistentLike w.state v.state := by
  rw [deleteAll, Action.Ensures, Action.perform_state_bind]
  cases hbound : w.state.isBound n with
  | false => exact ⟨hf, SameShape.refl _⟩
  | true =>
    cases hstale : (w.state.preOrder n).any w.state.isStale with
    | false => exact deletePlanned_like ⟨hf, SameShape.refl _⟩ n
    | true =>
      refine Action.Ensures.bind (P := fun _ v => ConsistentLike w.state v.state)
        (Q := fun _ v => ConsistentLike w.state v.state)
        ((consults_fetchTree c n hf.toWellFormed hbound).mono fun _ _ h => ?_)
        (fun _ v hv => deletePlanned_like hv n) fun _ _ hv => hv
      exact ⟨hf.steady h.learns.steady, h.learns.steady.shape⟩

/-! ## Every request -/

namespace Record

/-- The worlds of a record that was created and then served requests, while the database may have
changed in between. -/
inductive Reachable (c : Connector σ) : Record → World σ Forest → Prop
  | create (store : σ) (table : String) (keyName : Option String) (key : Option Value)
      (options : Options) : Reachable c (create table keyName key options).1
        ⟨store, [], (create table keyName key options).2⟩
  | serve {r : Record} {w : World σ Forest} (q : Request) : Reachable c r w →
      Reachable c r (r.serve c w q)
  | elsewhere {r : Record} {w : World σ Forest} (store : σ) : Reachable c r w →
      Reachable c r { w with store := store }

variable {r : Record}

/-- Requests keep the forest of a record consistent and its root in it. -/
theorem consistent_serve (hf : Consistent w.state) (hr : w.state.HasNode r.root) (q : Request) :
    Consistent (r.serve c w q).state ∧ (r.serve c w q).state.HasNode r.root := by
  have hwf := hf.toWellFormed
  have hgrown {v : World σ Forest} (h : Grown w v) :
      Consistent v.state ∧ v.state.HasNode r.root :=
    ⟨hf.grows h.grows, (h.grows.extends hwf).hasNode hr⟩
  have hlike {v : World σ Forest} (h : ConsistentLike w.state v.state) :
      Consistent v.state ∧ v.state.HasNode r.root := ⟨h.1, (h.2.hasNode _).2 hr⟩
  have hbrowses (hq : q.isReading = true) :
      Consistent (r.serve c w q).state ∧ (r.serve c w q).state.HasNode r.root := by
    obtain ⟨u, hgrow, -, hlearns⟩ := browses_serve (c := c) hwf hr hq
    obtain ⟨hfu, hru⟩ := hgrown hgrow
    exact ⟨hfu.steady hlearns.steady, (hlearns.steady.shape.hasNode _).2 hru⟩
  cases q with
  | register | registerTable | get | fetch => exact hbrowses rfl
  | set path x =>
    obtain ⟨hgrow, -⟩ := resolve_spec hwf hr path
    have hserve : r.serve c w (.set path x) = ((r.set path x).perform w).2 := rfl
    rw [hserve, set]
    rcases hresolve : (r.resolve path).perform w with ⟨e | d, u⟩ <;> rw [hresolve] at hgrow
    · rw [Action.perform_bind_error hresolve]
      exact hgrown hgrow
    · rw [Action.perform_bind_ok hresolve]
      obtain ⟨hfu, hru⟩ := hgrown hgrow
      exact ⟨hfu.assign d x, ((sameShape_assign u.state d x).hasNode _).2 hru⟩
  | save =>
    have hs : Steady w.state ((r.save c).perform w).2.state := by
      refine Action.Ensures.bind (Q := fun _ v => Steady w.state v.state)
        (save_steady hwf hr) (fun _ _ hv => hv) fun _ _ hv => hv
    exact ⟨hf.steady hs, (hs.shape.hasNode _).2 hr⟩
  | delete => exact hlike (delete_like hf r.root)
  | deleteAll => exact hlike (deleteAll_like hf r.root)

/-- **In every reachable state the forest is consistent**, and has the record in it. -/
theorem Reachable.consistent (h : Reachable c r w) :
    Consistent w.state ∧ w.state.HasNode r.root := by
  induction h with
  | create store table keyName key options =>
    obtain ⟨hf, hr⟩ := untouched_create table keyName key options
    exact ⟨hf.toIntact.consistent, hr⟩
  | serve q _ ih => exact consistent_serve ih.1 ih.2 q
  | elsewhere store _ ih => exact ih

theorem Reachable.after (h : Reachable c r w) (requests : List Request) :
    Reachable c r (r.after c requests w) := by
  induction requests generalizing w with
  | nil => exact h
  | cons q rest ih => exact ih (.serve q h)

/-- No join leads to the record itself: it is the oldest one. -/
theorem Reachable.parent_root (h : Reachable c r w) : (w.state.node r.root).parent = none := by
  obtain ⟨hf, -⟩ := h.consistent
  have hroot : r.root = ⟨0⟩ := by
    induction h with
    | create => rfl
    | serve _ h ih => exact ih h.consistent.1
    | elsewhere _ h ih => exact ih h.consistent.1
  cases hp : (w.state.node r.root).parent with
  | none => rfl
  | some e =>
    obtain ⟨he, hchild⟩ := hf.edge_of_parent hp
    have hlt := hf.owner_lt_child he
    rw [hchild, hroot] at hlt
    exact absurd hlt (Nat.not_lt_zero _)

end Record
end LinkedRows
