/-
# Saving twins

Two records whose forests are twins and follow the same database are saved in step: the same records
are inserted and updated in the same order, with statements that are alike, and both saves succeed
or fail at the same statement (`save_twins`).  Before that each of them reads what it has to, which
may be more in one than in the other.
-/

import LinkedRows.Proofs.Alike
import LinkedRows.Proofs.Forest.InStep
import LinkedRows.Proofs.Resolving
import LinkedRows.Proofs.Saving
import LinkedRows.Proofs.TwinReading

namespace LinkedRows

open Forest

variable {σ : Type} {c : Connector σ} {db : σ → Database} {w w' v v' : World σ Forest}

/-- Both actions succeed, with results and worlds in a relation, or both fail, in worlds in another
one. -/
inductive EndAlike {α β : Type} (P : α → β → World σ Forest → World σ Forest → Prop)
    (Q : World σ Forest → World σ Forest → Prop) :
    Except Fault α × World σ Forest → Except Fault β × World σ Forest → Prop
  | ok {a : α} {b : β} {v v' : World σ Forest} : P a b v v' → EndAlike P Q (.ok a, v) (.ok b, v')
  | error {e e' : Fault} {v v' : World σ Forest} : Q v v' →
      EndAlike P Q (.error e, v) (.error e', v')

theorem EndAlike.bind {α β α' β' : Type} {a : Action σ Forest α} {b : Action σ Forest β}
    {k : α → Action σ Forest α'} {l : β → Action σ Forest β'}
    {P : α → β → World σ Forest → World σ Forest → Prop}
    {P' : α' → β' → World σ Forest → World σ Forest → Prop}
    {Q : World σ Forest → World σ Forest → Prop}
    (h : EndAlike P Q (a.perform w) (b.perform w'))
    (hk : ∀ x y v v', P x y v v' → EndAlike P' Q ((k x).perform v) ((l y).perform v')) :
    EndAlike P' Q ((a >>= k).perform w) ((b >>= l).perform w') := by
  rw [Action.perform_bind, Action.perform_bind]
  rcases ha : a.perform w with ⟨x, v⟩
  rcases hb : b.perform w' with ⟨y, v'⟩
  rw [ha, hb] at h
  cases h with
  | ok hp => exact hk _ _ _ _ hp
  | error hq => exact EndAlike.error hq

theorem EndAlike.mono {α β : Type} {P P' : α → β → World σ Forest → World σ Forest → Prop}
    {Q Q' : World σ Forest → World σ Forest → Prop} {x : Except Fault α × World σ Forest}
    {y : Except Fault β × World σ Forest} (h : EndAlike P Q x y)
    (hP : ∀ a b v v', P a b v v' → P' a b v v') (hQ : ∀ v v', Q v v' → Q' v v') :
    EndAlike P' Q' x y := by
  cases h with
  | ok h => exact EndAlike.ok (hP _ _ _ _ h)
  | error h => exact EndAlike.error (hQ _ _ h)

/-! ## Worlds in which the same was written -/

/-- The stores are the same, and alike statements were executed. -/
structure Abreast (c : Connector σ) (w w' : World σ Forest) : Prop where
  store : w'.store = w.store
  written : List.Forall₂ (Prepared.Alike c.dialect) (executed w.log) (executed w'.log)

/-- Two worlds while the records in them are saved in step. -/
structure Paced (c : Connector σ) (root : NodeId) (keys : NodeId → Value)
    (changed : NodeId → Prop) (w w' : World σ Forest) : Prop extends Abreast c w w' where
  inStep : InStep root keys changed w.state w'.state

variable {root n : NodeId} {keys : NodeId → Value} {changed : NodeId → Prop}

theorem Paced.update (h : Paced c root keys changed w w') {f g : Forest}
    (hstep : InStep root keys changed f g) :
    Paced c root keys changed (w.withState f) (w'.withState g) :=
  ⟨⟨h.store, h.written⟩, hstep⟩

/-- Alike statements are prepared in both or in neither. -/
theorem prepare_alike (h : Paced c root keys changed w w') {s s' : Statement}
    (hs : Statement.Alike s s') :
    EndAlike (fun p p' v v' => v = w ∧ v' = w' ∧ Prepared.Alike c.dialect p p')
      (Paced c root keys changed) ((c.prepare s).perform w) ((c.prepare s').perform w') := by
  rw [Connector.perform_prepare, Connector.perform_prepare]
  cases hp : s.prepare c.dialect with
  | ok p =>
    obtain ⟨p', hp'⟩ := hs.exists_prepare ⟨p, hp⟩
    rw [hp']
    exact EndAlike.ok ⟨rfl, rfl, s, s', hs, hp, hp'⟩
  | error e =>
    cases hp' : s'.prepare c.dialect with
    | ok p' =>
      obtain ⟨p, hok⟩ := hs.symm.exists_prepare ⟨p', hp'⟩
      cases hp.symm.trans hok
    | error e' => exact EndAlike.error h

/-- Alike statements have the same reply. -/
theorem run_alike (hc : Stores c db) (h : Paced c root keys changed w w') {p p' : Prepared}
    (hp : Prepared.Alike c.dialect p p') :
    EndAlike (fun _ _ v v' => v.state = w.state ∧ v'.state = w'.state ∧
      Paced c root keys changed v v') (Paced c root keys changed)
        ((c.run p).perform w) ((c.run p').perform w') := by
  have hpaced : Paced c root keys changed ((c.run p).perform w).2 ((c.run p').perform w').2 := by
    rw [Connector.perform_run, Connector.perform_run, h.store, hc.alike _ hp]
    refine ⟨⟨rfl, ?_⟩, h.inStep⟩
    rw [executed_append, executed_append]
    exact List.rel_append h.written (.cons hp .nil)
  rw [Connector.perform_run, Connector.perform_run, h.store, hc.alike _ hp] at hpaced ⊢
  cases hreply : (c.execute p w.store).1 with
  | ok count =>
    rw [hreply] at hpaced
    exact EndAlike.ok ⟨rfl, rfl, hpaced⟩
  | error e =>
    rw [hreply] at hpaced
    exact EndAlike.error hpaced

/-- The identifier of the last insertion is the same. -/
theorem lastInserted_same (h : Paced c root keys changed w w') :
    EndAlike (fun key key' v v' => key' = key ∧ v.state = w.state ∧ v'.state = w'.state ∧
      Paced c root keys changed v v') (Paced c root keys changed)
        (c.lastInserted.perform w) (c.lastInserted.perform w') := by
  have hpaced : Paced c root keys changed (c.lastInserted.perform w).2
      (c.lastInserted.perform w').2 := by
    rw [Connector.perform_lastInserted, Connector.perform_lastInserted, h.store]
    refine ⟨⟨rfl, ?_⟩, h.inStep⟩
    rw [executed_append, executed_append]
    exact List.rel_append h.written .nil
  rw [Connector.perform_lastInserted, Connector.perform_lastInserted, h.store] at hpaced ⊢
  cases hreply : (c.lastIdentifier w.store).1 with
  | ok key =>
    rw [hreply] at hpaced
    exact EndAlike.ok ⟨rfl, rfl, rfl, hpaced⟩
  | error e =>
    rw [hreply] at hpaced
    exact EndAlike.error hpaced

/-! ## One record -/

theorem insert_paced (hc : Stores c db) (h : Paced c root keys changed w w')
    (hn : w.state.HasNode n) (hfresh : keys n = .null) (hchanged : changed n) {table : String}
    {fields fields' : List (String × Value)} (hnodup : (fields.map Prod.fst).Nodup)
    (hperm : fields.Perm fields') :
    EndAlike (fun _ _ v v' => SameShape w.state v.state ∧ Paced c root keys changed v v')
      (Paced c root keys changed)
        ((Write.run c (.insert n table (w.state.pendingCells n) fields)).perform w)
        ((Write.run c (.insert n table (w'.state.pendingCells n) fields')).perform w') := by
  rw [Write.run, Write.run]
  refine (prepare_alike h (Statement.Alike.insert hnodup hperm)).bind ?_
  rintro p p' _ _ ⟨rfl, rfl, hp⟩
  refine (run_alike hc h hp).bind ?_
  rintro _ _ u u' ⟨hu, hu', hpaced⟩
  refine (lastInserted_same hpaced).bind ?_
  rintro _ key t t' ⟨rfl, ht, ht', hpaced⟩
  rw [hu] at ht
  rw [hu'] at ht'
  cases hnull : key.isNull with
  | true => exact EndAlike.error hpaced
  | false =>
    have hstep := hpaced.inStep
    rw [ht, ht'] at hstep
    have hsettled := hstep.settle n
    have hs := (reaches_settle hstep.left.toWellFormed n).shape
    have hhas := (hs.hasNode n).2 hn
    have hshape := hs.trans ((sameShape_setKey _ n key).trans (sameShape_setCurrent _ n false))
    have hkeyed := (hsettled.setKey hhas hfresh hchanged key).setCurrent n false
    rw [← ht, ← ht'] at hkeyed
    dsimp only
    rw [← ht] at hshape ⊢
    rw [← ht']
    exact EndAlike.ok ⟨hshape, hpaced.update hkeyed⟩

theorem update_paced (hc : Stores c db) (h : Paced c root keys changed w w') {table : String}
    {key : RowKey} {fields fields' : List (String × Value)} (hnodup : (fields.map Prod.fst).Nodup)
    (hperm : fields.Perm fields') :
    EndAlike (fun _ _ v v' => SameShape w.state v.state ∧ Paced c root keys changed v v')
      (Paced c root keys changed)
        ((Write.run c (.update n table key (w.state.pendingCells n) fields)).perform w)
        ((Write.run c (.update n table key (w'.state.pendingCells n) fields')).perform w') := by
  rw [Write.run, Write.run]
  refine (prepare_alike h (Statement.Alike.update hnodup hperm)).bind ?_
  rintro p p' _ _ ⟨rfl, rfl, hp⟩
  refine (run_alike hc h hp).bind ?_
  rintro _ _ u u' ⟨hu, hu', hpaced⟩
  have hstep := (hpaced.inStep.settle n).setCurrent n false
  have hshape := (reaches_settle hpaced.inStep.left.toWellFormed n).shape.trans
    (sameShape_setCurrent _ n false)
  rw [← hu, ← hu']
  exact EndAlike.ok ⟨hshape, hpaced.update hstep⟩

/-- One record is saved in both. -/
theorem saveNode_paced (hc : Stores c db) (h : Paced c root keys changed w w')
    (hn : w.state.HasNode n) {direct : Bool}
    (hdirect : direct = true → keys n ≠ .null ∧ changed n) :
    EndAlike (fun _ _ v v' => SameShape w.state v.state ∧ Paced c root keys changed v v')
      (Paced c root keys changed) ((saveNode c n direct).perform w)
        ((saveNode c n direct).perform w') := by
  have hstep := h.inStep
  have hf := hstep.left.toWellFormed
  have hg := hstep.right.toWellFormed
  have hn' := (hstep.twins.hasNode n).2 hn
  have hnil := hstep.twins.pendingCells_eq_nil_iff hf hg n
  rw [saveNode, Action.perform_state_bind, Action.perform_state_bind]
  by_cases hpending : w.state.pendingCells n = []
  · have hplan {f : Forest} (hf : Underway root keys changed f) (hn : f.HasNode n)
        (hpending : f.pendingCells n = []) : f.planSave? n direct = none := by
      refine planSave?_eq_none.2 ⟨hpending, fun hnew => ?_⟩
      by_contra hdir
      obtain ⟨hkey, hchanged⟩ := hdirect (Bool.not_eq_false _ ▸ hdir)
      rw [hf.bound hn hkey hchanged] at hnew
      cases hnew
    rw [hplan hstep.left hn hpending, hplan hstep.right hn' (hnil.2 hpending)]
    exact EndAlike.ok ⟨sameShape_setCurrent _ n false, h.update (hstep.setCurrent n false)⟩
  · have hchanged := hstep.pending hpending
    have hnodup := nodup_names_pendingFields hf n
    have hperm := hstep.twins.pendingFields_perm hf hg n
    rw [planSave?_of_pending hpending, planSave?_of_pending (mt hnil.1 hpending),
      hstep.isNew_eq hn hchanged, hstep.rowKey_eq hn hchanged, hstep.twins.table]
    cases hnew : w.state.isNew n with
    | true =>
      have hfresh : keys n = .null := by
        by_contra hkey
        rw [hstep.left.bound hn hkey hchanged] at hnew
        cases hnew
      exact insert_paced hc h hn hfresh hchanged hnodup hperm
    | false => exact update_paced hc h hnodup hperm

/-! ## What is behind joins -/

theorem saveBelow_paced (hc : Stores c db) (b : Branches)
    (h : Paced c root keys changed w w') (hb : w.state.Hangs n b) :
    EndAlike (fun _ _ v v' => SameShape w.state v.state ∧ Paced c root keys changed v v')
      (Paced c root keys changed) ((saveBelow c b).perform w) ((saveBelow c b).perform w') := by
  induction b generalizing n w w' with
  | nil => exact EndAlike.ok ⟨SameShape.refl _, h⟩
  | cons e child below next ihBelow ihNext =>
    obtain ⟨he, rfl, -, hbelow, hnext⟩ := hb
    have hstep := h.inStep
    have hf := hstep.left.toWellFormed
    have hedge := hf.hasEdge he
    have hhas : w.state.HasNode (w.state.childOf e) := hf.hasChild hedge
    rw [perform_saveBelow_kept (hstep.left.undeleted _),
      perform_saveBelow_kept (hstep.right.undeleted _)]
    refine (ihBelow h hbelow).bind ?_
    rintro ⟨⟩ ⟨⟩ u u' ⟨hs₁, h₁⟩
    have hdirect : false = true → keys (w.state.childOf e) ≠ .null ∧ changed (w.state.childOf e) :=
      fun h => absurd h Bool.false_ne_true
    refine (saveNode_paced hc h₁ ((hs₁.hasNode _).2 hhas) hdirect).bind ?_
    rintro ⟨⟩ ⟨⟩ t t' ⟨hs₂, h₂⟩
    have hs := hs₁.trans hs₂
    rw [Action.perform_update_bind, Action.perform_update_bind]
    have hfollow := h₂.inStep.followChild ((hs.hasEdge e).2 hedge)
      (w.state.isNew (w.state.childOf e)) (w'.state.isNew (w.state.childOf e)) fun hfresh => by
        rw [hs.edge] at hfresh
        exact (hstep.fresh hhas hfresh).1
    have hs₃ := hs.trans (steady_followChild t.state e (w.state.isNew (w.state.childOf e))).shape
    refine (ihNext (h₂.update hfollow) (hs₃.hangs hnext)).mono ?_ fun _ _ h => h
    exact fun _ _ _ _ ⟨hs₄, h₃⟩ => ⟨hs₃.trans hs₄, h₃⟩

/-! ## A whole save -/

/-- Twins that follow the same database are in step, if those records that changed and stand for a
row have learned their keys. -/
theorem Forest.InStep.of_follows {db : Database} {f g : Forest} (h : Twins f g)
    (hf : Follows c db f keys) (hg : Follows c db g keys) (hr : Rooted f root)
    (hr' : Rooted g root)
    (hbound : ∀ n, f.HasNode n → keys n ≠ .null → changed n →
      f.isNew n = false ∧ g.isNew n = false)
    (hpending : ∀ n, f.pendingCells n ≠ [] → changed n)
    (habove : ∀ e, f.HasEdge e → changed (f.edge e).child → changed (f.edge e).owner) :
    InStep root keys changed f g := by
  have hunderway {f : Forest} (hf : Follows c db f keys) (hr : Rooted f root)
      (hbound : ∀ n, f.HasNode n → keys n ≠ .null → changed n → f.isNew n = false) :
      Underway root keys changed f :=
    { toIntact := hf.toIntact
      toRooted := hr
      kept := fun hn _ hbound => (hf.bound hn hbound).1
      bound := fun hn hkey hchanged => hbound _ hn hkey hchanged
      linked := fun he _ hbound => hf.toMirrors.key_of_value he (hf.linked he hbound)
      keyLink := fun {e} he hk => by
        have hkey := (hf.isKey_iff (hf.hasLink he)).1 hk
        rw [hf.child he, ← hkey, effective_key hf.toWellFormed (hf.hasOwner (hf.hasLink he)),
          hf.owner_link he]
      sameLink := fun {e e'} he he' hlink => by rw [hf.child he, hf.child he', hlink] }
  have hnew {f : Forest} (hf : Follows c db f keys) {n : NodeId} (hn : f.HasNode n)
      (hkey : keys n = .null) : f.isNew n = true := by
    by_contra hbound
    exact (hf.bound hn (Bool.not_eq_true _ ▸ hbound)).2 hkey
  have hnull {f : Forest} (hf : Follows c db f keys) {e : EdgeId} (he : f.HasEdge e)
      (hkey : keys (f.edge e).child = .null) : (f.cell (f.edge e).link).value = .null := by
    rcases hf.toMirrors.value_eq (hf.hasLink he) (hf.link he) with h | h
    · exact h
    · rw [h, ← hf.child he, hkey]
  exact
    { twins := h
      left := hunderway hf hr fun n hn hkey hchanged => (hbound n hn hkey hchanged).1
      right := hunderway hg hr' fun n hn hkey hchanged =>
        (hbound n ((h.hasNode n).1 hn) hkey hchanged).2
      fresh := fun {n} hn hkey => by
        have hn' := (h.hasNode n).2 hn
        have hnewF := hnew hf hn hkey
        have hnewG := hnew hg hn' hkey
        rw [hnewF, hnewG, keyValue_of_isNew hf.toWellFormed hf.unstored hn hnewF,
          keyValue_of_isNew hg.toWellFormed hg.unstored hn' hnewG]
        exact ⟨rfl, rfl⟩
      freshLink := fun {e} he hkey => by
        rw [hnull hf he hkey, hnull hg ((h.hasEdge e).2 he) (by rwa [h.child])]
      freshChanged := fun hn hkey hbound => by
        rw [hnew hf hn hkey] at hbound
        cases hbound
      pending := fun hpend => hpending _ hpend
      above := fun he hchanged => habove _ he hchanged
      agrees := fun {n} hn => (hf.writes hn).agrees }

/-- A save first reads what it has to, which executes nothing. -/
theorem save_resolved {still : σ → Prop} {db : Database} (hserves : Serves c db still)
    (hstill : still w.store) (hf : Follows c db w.state keys) (hr : Rooted w.state root) :
    ∃ v, (save c root).perform w =
        (saveBelow c (w.state.below root) >>= fun _ => saveNode c root true).perform v ∧
      Fetched c db still keys w v ∧ SameNodes w v ∧ executed v.log = executed w.log ∧
        ∀ n, w.state.HasNode n → w.state.hasChanges n = true ∨ n = root → keys n ≠ .null →
          v.state.isNew n = false := by
  have hwf := hf.toWellFormed
  have hbound := hf.root hr.hasRoot hr.isRoot
  obtain ⟨u, v, hread, hresolve, hfetched, hsame, hlearned⟩ :=
    resolve_bound hserves hstill hf hr.hasRoot hbound
  have hreads := (consults_readLinks c root hwf).of_perform hread
  have hs := hreads.learns.steady
  have hresolves := (consults_resolveBelow c (w.state.below root) (hs.wellFormed hwf)
    (hs.shape.hangs (hangs_below hwf root))).of_perform hresolve
  refine ⟨v, ?_, hfetched, hsame, (hreads.asks.trans hresolves.asks).executed_eq,
    fun n hn h hkey => ?_⟩
  · rw [save, Action.perform_state_bind, hf.undeleted]
    exact (Action.perform_bind_ok hread _).trans (Action.perform_bind_ok hresolve _)
  · rcases h with hchanges | rfl
    · exact hlearned n (hr.mem_below hwf hn) hchanges hkey
    · exact hfetched.learns.steady.isNew hwf hn hbound

/-- Two worlds with twins, in which the same was written. -/
structure Beside (c : Connector σ) (root : NodeId) (w w' : World σ Forest) : Prop
    extends Abreast c w w' where
  twins : Twins w.state w'.state
  left : Intact w.state
  right : Intact w'.state
  rooted : Rooted w.state root

theorem Paced.beside (h : Paced c root keys changed w w') : Beside c root w w' :=
  ⟨h.toAbreast, h.inStep.twins, h.inStep.left.toIntact, h.inStep.right.toIntact,
    h.inStep.left.toRooted⟩

/-- **Twins are saved alike.**  If both follow the same database with the same keys, the statements
that are executed for them are alike, and the saves both succeed with the same key, or both fail. -/
theorem save_twins (hc : Stores c db) (r : Record) (h : Beside c r.root w w')
    (hf : Follows c (db w.store) w.state keys) (hf' : Follows c (db w.store) w'.state keys) :
    EndAlike (fun key key' v v' => key' = key ∧ Beside c r.root v v') (Beside c r.root)
      ((r.save c).perform w) ((r.save c).perform w') := by
  have hwf := hf.toWellFormed
  have hr' := h.rooted.twins h.twins
  have hserves := hc.serves w.store
  obtain ⟨v, hsave, hfetched, -, hlog, hbound⟩ := save_resolved hserves rfl hf h.rooted
  obtain ⟨v', hsave', hfetched', -, hlog', hbound'⟩ := save_resolved hserves h.store hf' hr'
  have hs := hfetched.learns.steady.shape
  have htwins := h.twins.learns hwf hf'.toWellFormed hfetched.learns hfetched'.learns
  have hr := h.rooted.of_sameShape hs
  have hstep : InStep r.root keys (fun n => w.state.hasChanges n = true ∨ n = r.root) v.state
      v'.state := by
    refine InStep.of_follows htwins hfetched.follows hfetched'.follows hr (hr.twins htwins)
      (fun n hn hkey hchanged => ?_) (fun n hpending => ?_) fun e he hchanged => ?_
    · have hn := (hs.hasNode n).1 hn
      refine ⟨hbound n hn hchanged hkey, hbound' n ((h.twins.hasNode n).2 hn) ?_ hkey⟩
      rwa [h.twins.hasChanges h.left h.right hn]
    · have hn := hasNode_of_pendingCells hpending
      rw [← hfetched.learns.hasChanges h.left.toWellFormed ((hs.hasNode n).1 hn)]
      exact Or.inl (hasChanges_of_pendingCells hfetched.follows.toIntact hpending)
    · have he := (hs.hasEdge e).1 he
      rw [hs.edge] at hchanged ⊢
      rcases hchanged with hchanges | hroot
      · exact Or.inl (hasChanges_owner h.left he hchanges)
      · have hparent := hwf.parent_child he
        rw [hroot, h.rooted.isRoot] at hparent
        cases hparent
  have hpaced : Paced c r.root keys (fun n => w.state.hasChanges n = true ∨ n = r.root) v v' :=
    ⟨⟨hfetched'.still.trans hfetched.still.symm, by rw [hlog, hlog']; exact h.written⟩, hstep⟩
  have hkey := (hfetched.follows.bound hr.hasRoot (hfetched.follows.root hr.hasRoot hr.isRoot)).2
  have hbelow := saveBelow_paced hc (w.state.below r.root) hpaced
    (hs.hangs (hangs_below hwf r.root))
  have hwhole : EndAlike (fun _ _ u u' => Paced c r.root keys
      (fun n => w.state.hasChanges n = true ∨ n = r.root) u u') (Beside c r.root)
      ((LinkedRows.save c r.root).perform w) ((LinkedRows.save c r.root).perform w') := by
    rw [hsave, hsave', h.twins.below]
    refine (hbelow.bind fun _ _ u u' ⟨hshape, hpaced⟩ => ?_).mono (fun _ _ _ _ hP => hP)
      fun _ _ => Paced.beside
    exact (saveNode_paced hc hpaced ((hshape.hasNode _).2 hr.hasRoot) fun _ =>
      ⟨hkey, Or.inr rfl⟩).mono (fun _ _ _ _ hP => hP.2) fun _ _ hQ => hQ
  rw [Record.save]
  refine hwhole.bind ?_
  rintro ⟨⟩ ⟨⟩ u u' hpaced
  have hend := hpaced.inStep
  have hroot := hend.left.hasRoot
  refine EndAlike.ok ⟨?_, hpaced.beside⟩
  rw [hend.left.kept hroot hkey (hend.left.bound hroot hkey (Or.inr rfl)),
    hend.right.kept hend.right.hasRoot hkey
      (hend.right.bound hend.right.hasRoot hkey (Or.inr rfl))]

end LinkedRows
