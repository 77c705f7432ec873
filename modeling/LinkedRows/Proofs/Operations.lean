/-
# All states of a forest

A forest is built and used through its operations: adding records, registering paths, adding single
columns and joins, assigning and dropping values, and reading, saving and deleting rows from any of
its records through any connector, whether that succeeds or not.  `Operated` are the forests that
this leads to.  Whatever holds of the empty forest and is kept by a new root, by growth and by
changes that keep the shape holds of all of them (`Operated.induction`), so they are well formed
(`Operated.wellFormed`).  The states of a record that serves requests are among them
(`Record.Reachable.operated`).
-/

import LinkedRows.Proofs.Reachable

namespace LinkedRows

namespace Forest

/-- The forests that operations lead to. -/
inductive Operated : Forest → Prop
  | empty : Operated Forest.empty
  | addRoot {f : Forest} (table keyName : String) (key : Value) :
      Operated f → Operated (f.addRoot table keyName key).2
  | ensureCell {f : Forest} {n : NodeId} (name : String) : Operated f → f.HasNode n →
      Operated (f.ensureCell n name).2
  | ensureJoin {f : Forest} {link : CellId} (table key : String) : Operated f → f.HasCell link →
      Operated (f.ensureJoin link table key).2
  | registerColumn {f : Forest} {n : NodeId} (p : Path) : Operated f → f.HasNode n →
      Operated ((registerColumn n p).perform f).2
  | registerTable {f : Forest} {n : NodeId} (p : Path) : Operated f → f.HasNode n →
      Operated ((registerTable n p).perform f).2
  | assign {f : Forest} (d : CellId) (v : Value) : Operated f → Operated (f.assign d v)
  /-- Gives a column other values and leaves alone what hangs on it. -/
  | change {f : Forest} (d : CellId) {change : Cell → Cell} :
      (∀ cell, (change cell).shape = cell.shape) → Operated f → Operated (f.modifyCell d change)
  | run {σ : Type} {c : Connector σ} {w : World σ Forest} (write : Write) :
      Operated w.state → Operated ((write.run c).perform w).2.state
  | save {σ : Type} {c : Connector σ} {w : World σ Forest} {n : NodeId} : Operated w.state →
      w.state.HasNode n → Operated ((save c n).perform w).2.state
  | fetch {σ : Type} {c : Connector σ} {w : World σ Forest} (n : NodeId) : Operated w.state →
      Operated ((fetch c n).perform w).2.state
  | delete {σ : Type} {c : Connector σ} {w : World σ Forest} (n : NodeId) : Operated w.state →
      Operated ((delete c n).perform w).2.state
  | deleteAll {σ : Type} {c : Connector σ} {w : World σ Forest} (n : NodeId) : Operated w.state →
      Operated ((deleteAll c n).perform w).2.state

end Forest

open Forest

variable {σ : Type} {c : Connector σ} {w v : World σ Forest}

/-! ## Writes keep the shape -/

theorem Ran.sameShape {write : Write} (h : Ran c w write v) : SameShape w.state v.state := by
  cases h with
  | @insert n _ cells _ _ _ key =>
    exact ((sameShape_settle _ cells).trans (sameShape_setKey _ n key)).trans
      (sameShape_setCurrent _ n false)
  | @update n _ _ cells => exact (sameShape_settle _ cells).trans (sameShape_setCurrent _ n false)
  | @delete n => exact sameShape_markDeleted _ n

theorem run_sameShape (c : Connector σ) (write : Write) (w : World σ Forest) :
    (write.run c).Ensures w fun _ v => SameShape w.state v.state :=
  run_ensures write (SameShape.refl _) fun _ h => h.sameShape

theorem runWrites_sameShape (c : Connector σ) (writes : List Write) (w : World σ Forest) :
    (runWrites c writes).Ensures w fun _ v => SameShape w.state v.state := by
  induction writes generalizing w with
  | nil => exact SameShape.refl _
  | cons write rest ih =>
    rw [runWrites]
    exact Action.Ensures.seq (R := fun w v => SameShape w.state v.state) SameShape.trans
      (run_sameShape c write w) fun _ v _ => ih v

theorem delete_sameShape (c : Connector σ) (n : NodeId) (w : World σ Forest) :
    (delete c n).Ensures w fun _ v => SameShape w.state v.state := by
  rw [delete, Action.Ensures, Action.perform_state_bind]
  cases w.state.isBound n with
  | false => exact SameShape.refl _
  | true => exact run_sameShape c _ w

theorem deleteAll_sameShape (hf : WellFormed w.state) (c : Connector σ) (n : NodeId) :
    (deleteAll c n).Ensures w fun _ v => SameShape w.state v.state := by
  have hwrites (u : World σ Forest) : (Action.state >>= fun g =>
      runWrites c (g.planDeleteAll n) >>= fun _ => pure (g.planDeleteAll n).length :
        Action σ Forest Nat).Ensures u fun _ v => SameShape u.state v.state := by
    rw [Action.Ensures, Action.perform_state_bind]
    exact Action.Ensures.bind (Q := fun _ v => SameShape u.state v.state)
      (runWrites_sameShape c _ u) (fun _ _ hv => hv) fun _ _ hv => hv
  rw [deleteAll, Action.Ensures, Action.perform_state_bind]
  cases hbound : w.state.isBound n with
  | false => exact SameShape.refl _
  | true =>
    cases (w.state.preOrder n).any w.state.isStale with
    | false => exact hwrites w
    | true =>
      exact Action.Ensures.bind (P := fun _ v => SameShape w.state v.state)
        (Q := fun _ v => SameShape w.state v.state)
        ((consults_fetchTree c n hf hbound).mono fun _ _ h => h.learns.steady.shape)
        (fun _ u hu => (hwrites u).mono fun _ _ hv => hu.trans hv) fun _ _ hv => hv

/-! ## Operations keep forests well formed -/

/-- **An operation adds a root, grows a forest by columns and joins, or keeps its shape.**  What
each of these keeps holds of all forests that operations lead to, and all of them are well
formed. -/
theorem Forest.Operated.induction {P : Forest → Prop} (empty : P Forest.empty)
    (addRoot : ∀ {f} (table keyName key), WellFormed f → P f → P (f.addRoot table keyName key).2)
    (grows : ∀ {f g}, WellFormed f → P f → Grows f g → P g)
    (sameShape : ∀ {f g}, P f → SameShape f g → P g) {f : Forest} (h : Operated f) :
    WellFormed f ∧ P f := by
  have hroot {f : Forest} (hf : WellFormed f ∧ P f) (table keyName key) :
      WellFormed (f.addRoot table keyName key).2 ∧ P (f.addRoot table keyName key).2 :=
    ⟨hf.1.addRoot table keyName key, addRoot table keyName key hf.1 hf.2⟩
  have hgrown {f g : Forest} (hf : WellFormed f ∧ P f) (hg : Grows f g) : WellFormed g ∧ P g :=
    ⟨hf.1.grows hg, grows hf.1 hf.2 hg⟩
  have hshaped {f g : Forest} (hf : WellFormed f ∧ P f) (hs : SameShape f g) :
      WellFormed g ∧ P g := ⟨hf.1.of_sameShape hs, sameShape hf.2 hs⟩
  induction h with
  | empty => exact ⟨WellFormed.empty, empty⟩
  | addRoot table keyName key _ ih => exact hroot ih table keyName key
  | ensureCell name _ hn ih => exact hgrown ih (grows_ensureCell hn name)
  | ensureJoin table key _ hl ih => exact hgrown ih (grows_ensureJoin hl table key)
  | registerColumn p _ hn ih => exact hgrown ih (registerColumn_spec ih.1 p hn).1
  | registerTable p _ hn ih => exact hgrown ih (grows_registerTable ih.1 p hn)
  | assign d v _ ih => exact hshaped ih (sameShape_assign _ d v)
  | change d hchange _ ih => exact hshaped ih (sameShape_modifyCell _ d hchange)
  | run write _ ih => exact hshaped ih (run_sameShape _ write _)
  | save _ hn ih => exact hshaped ih (save_steady ih.1 hn).shape
  | fetch n _ ih => exact hshaped ih (consults_fetch _ n ih.1).learns.steady.shape
  | delete n _ ih => exact hshaped ih (delete_sameShape _ n _)
  | deleteAll n _ ih => exact hshaped ih (deleteAll_sameShape ih.1 _ n)

theorem Forest.Operated.wellFormed {f : Forest} (h : Operated f) : WellFormed f :=
  (h.induction (P := fun _ => True) trivial (fun _ _ _ _ _ => trivial) (fun _ _ _ => trivial)
    fun _ _ => trivial).1

/-! ## Records that serve requests -/

namespace Record

variable {r : Record}

theorem operated_register (hf : Operated w.state) (hr : w.state.HasNode r.root) (path : String) :
    (r.register path).Ensures w fun _ v => Operated v.state := by
  rw [register, Action.Ensures]
  cases r.columnPath path with
  | error e => exact hf
  | ok p => exact hf.registerColumn p hr

theorem operated_registerTable (hf : Operated w.state) (hr : w.state.HasNode r.root)
    (path : String) : (r.registerTable path).Ensures w fun _ v => Operated v.state := by
  rw [registerTable, Action.Ensures]
  cases Path.readTable r.options.naming path with
  | error e => exact hf
  | ok p => exact hf.registerTable p hr

theorem operated_resolve (hf : Operated w.state) (hr : w.state.HasNode r.root) (path : String) :
    (r.resolve path).Ensures w fun _ v => Operated v.state := by
  rw [resolve, Action.Ensures]
  cases r.columnPath path with
  | error e => exact hf
  | ok p =>
    rw [Action.perform_bind_ok (Action.perform_ofExcept _ w), Action.perform_state_bind]
    cases w.state.lookupColumn? r.root p with
    | some d => exact hf
    | none =>
      cases r.options.registerOnAccess with
      | true => exact hf.registerColumn p hr
      | false => exact hf

theorem operated_get (hf : Operated w.state) (hr : w.state.HasNode r.root) (path : String) :
    (r.get c path).Ensures w fun _ v => Operated v.state := by
  refine Action.Ensures.bind (Q := fun _ v => Operated v.state) (operated_resolve hf hr path)
    (fun d u hu => ?_) fun _ _ hv => hv
  rw [Action.Ensures, Action.perform_state_bind]
  cases u.state.staleAnchor? (u.state.cell d).owner with
  | none => exact hu
  | some anchor =>
    exact Action.Ensures.bind (P := fun _ v => Operated v.state)
      (Q := fun _ v => Operated v.state) (hu.fetch anchor) (fun _ _ hv => hv) fun _ _ hv => hv

/-- **The states of a record that serves requests are states that operations lead to.** -/
theorem Reachable.operated (h : Reachable c r w) : Operated w.state := by
  induction h with
  | create store table keyName key options => exact Operated.empty.addRoot table _ _
  | @serve r w q h ih =>
    obtain ⟨-, hr⟩ := h.consistent
    cases q with
    | register path => exact operated_register ih hr path
    | registerTable path => exact operated_registerTable ih hr path
    | get path => exact operated_get ih hr path
    | set path x =>
      exact Action.Ensures.bind (Q := fun _ v => Operated v.state) (operated_resolve ih hr path)
        (fun d u hu => hu.assign d x) fun _ _ hv => hv
    | save =>
      exact Action.Ensures.bind (P := fun _ v => Operated v.state)
        (Q := fun _ v => Operated v.state) (ih.save hr) (fun _ _ hv => hv) fun _ _ hv => hv
    | fetch => exact ih.fetch r.root
    | delete => exact ih.delete r.root
    | deleteAll => exact ih.deleteAll r.root
  | elsewhere store _ ih => exact ih

end Record
end LinkedRows
