/-
# Saves that succeed

What a save does when it returns no fault, as relations between the world before, the writes that
ran, in order, and the world after: `Ran` for one write, `SavedNode` for one record, `SavedBelow`
for what is behind joins and `Saved` for a record with all below it.  Each is exactly the success of
the action it describes (`run_ok_iff`, `saveNode_ok_iff`, `saveBelow_ok_iff`, `save_ok_iff`), so
inductions over a save go by the constructors of the relations.

The writes are the calls in the log that execute something (`Saved.executes`).
-/

import LinkedRows.Proofs.Reading

namespace LinkedRows

open Forest

variable {σ : Type} {c : Connector σ} {w v : World σ Forest}

/-! ## One write -/

/-- A write has run: the calls it made were answered, and the forest holds what storage holds. -/
inductive Ran (c : Connector σ) (w : World σ Forest) : Write → World σ Forest → Prop
  | insert {n : NodeId} {table : String} {cells : List CellId} {fields : List (String × Value)}
      {p : Prepared} {count : Nat} {key : Value} :
      (Statement.insert table fields).prepare c.dialect = .ok p →
      (c.execute p w.store).1 = .ok count →
      (c.lastIdentifier (c.execute p w.store).2).1 = .ok key → key.isNull = false →
      Ran c w (.insert n table cells fields)
        ⟨(c.lastIdentifier (c.execute p w.store).2).2,
          w.log ++ [.execute p (.ok count), .lastIdentifier (.ok key)],
          ((w.state.settle cells).setKey n key).setCurrent n false⟩
  | update {n : NodeId} {table : String} {key : RowKey} {cells : List CellId}
      {fields : List (String × Value)} {p : Prepared} {count : Nat} :
      (Statement.update table fields key).prepare c.dialect = .ok p →
      (c.execute p w.store).1 = .ok count →
      Ran c w (.update n table key cells fields)
        ⟨(c.execute p w.store).2, w.log ++ [.execute p (.ok count)],
          (w.state.settle cells).setCurrent n false⟩
  | delete {n : NodeId} {table : String} {key : RowKey} {p : Prepared} {count : Nat} :
      (Statement.delete table key).prepare c.dialect = .ok p →
      (c.execute p w.store).1 = .ok count →
      Ran c w (.delete n table key)
        ⟨(c.execute p w.store).2, w.log ++ [.execute p (.ok count)], w.state.markDeleted n⟩

theorem run_ok_iff {write : Write} :
    (write.run c).perform w = (.ok (), v) ↔ Ran c w write v := by
  constructor
  · intro h
    rw [Write.run, Action.perform_bind_eq_ok] at h
    obtain ⟨p, u, hprepare, h⟩ := h
    rw [Connector.perform_prepare] at hprepare
    obtain ⟨hp, rfl⟩ := Prod.mk.inj hprepare
    rw [Action.perform_bind_eq_ok] at h
    obtain ⟨count, u, hexecute, h⟩ := h
    rw [Connector.perform_run] at hexecute
    obtain ⟨hrun, rfl⟩ := Prod.mk.inj hexecute
    rw [hrun] at h
    cases write with
    | insert n table cells fields =>
      dsimp only at h
      rw [Action.perform_bind_eq_ok] at h
      obtain ⟨key, u, hlast, h⟩ := h
      rw [Connector.perform_lastInserted] at hlast
      obtain ⟨hkey, rfl⟩ := Prod.mk.inj hlast
      rw [hkey] at h
      cases hnull : key.isNull with
      | true =>
        rw [hnull] at h
        cases (Prod.mk.inj h).1
      | false =>
        rw [hnull] at h
        obtain ⟨-, rfl⟩ := Prod.mk.inj h
        rw [List.append_assoc]
        exact Ran.insert hp hrun hkey hnull
    | update n table key cells fields =>
      obtain ⟨-, rfl⟩ := Prod.mk.inj h
      exact Ran.update hp hrun
    | delete n table key =>
      obtain ⟨-, rfl⟩ := Prod.mk.inj h
      exact Ran.delete hp hrun
  · intro h
    cases h with
    | insert hp hrun hkey hnull =>
      simp [Write.run, Write.statement, Action.perform_bind, hp, hrun, hkey, hnull]
    | update hp hrun => simp [Write.run, Write.statement, Action.perform_bind, hp, hrun]
    | delete hp hrun => simp [Write.run, Write.statement, Action.perform_bind, hp, hrun]

/-! ## One record -/

/-- One record is saved: by its planned write, or by nothing if it needs none. -/
inductive SavedNode (c : Connector σ) (n : NodeId) (direct : Bool) (w : World σ Forest) :
    List Write → World σ Forest → Prop
  | nothing : w.state.planSave? n direct = none →
      SavedNode c n direct w [] (w.withState (w.state.setCurrent n false))
  | write {write : Write} {v : World σ Forest} : w.state.planSave? n direct = some write →
      Ran c w write v → SavedNode c n direct w [write] v

theorem saveNode_ok_iff {n : NodeId} {direct : Bool} :
    (saveNode c n direct).perform w = (.ok (), v) ↔ ∃ writes, SavedNode c n direct w writes v := by
  rw [saveNode, Action.perform_state_bind]
  cases hplan : w.state.planSave? n direct with
  | none =>
    constructor
    · intro h
      obtain ⟨-, rfl⟩ := Prod.mk.inj h
      exact ⟨[], SavedNode.nothing hplan⟩
    · rintro ⟨writes, h⟩
      cases h with
      | nothing => rfl
      | write h => cases hplan.symm.trans h
  | some write =>
    dsimp only
    rw [run_ok_iff]
    constructor
    · exact fun h => ⟨[write], SavedNode.write hplan h⟩
    · rintro ⟨writes, h⟩
      cases h with
      | nothing h => cases hplan.symm.trans h
      | write h hran =>
        obtain rfl := Option.some.inj (hplan.symm.trans h)
        exact hran

/-! ## What is behind joins -/

/-- What is behind joins is saved, children first; each link follows its child. -/
inductive SavedBelow (c : Connector σ) : Branches → World σ Forest → List Write →
    World σ Forest → Prop
  | nil {w : World σ Forest} : SavedBelow c .nil w [] w
  | deleted {e : EdgeId} {child : NodeId} {below next : Branches} {w v : World σ Forest}
      {writes : List Write} : (w.state.node child).deleted = true →
      SavedBelow c next w writes v → SavedBelow c (.cons e child below next) w writes v
  | kept {e : EdgeId} {child : NodeId} {below next : Branches} {w u t v : World σ Forest}
      {deeper own later : List Write} : (w.state.node child).deleted = false →
      SavedBelow c below w deeper u → SavedNode c child false u own t →
      SavedBelow c next (t.withState (t.state.followChild e (w.state.isNew child))) later v →
      SavedBelow c (.cons e child below next) w (deeper ++ own ++ later) v

theorem perform_saveBelow_deleted {e : EdgeId} {child : NodeId} {below next : Branches}
    (h : (w.state.node child).deleted = true) :
    (saveBelow c (.cons e child below next)).perform w = (saveBelow c next).perform w := by
  rw [saveBelow, Action.perform_state_bind, h]
  rfl

theorem perform_saveBelow_kept {e : EdgeId} {child : NodeId} {below next : Branches}
    (h : (w.state.node child).deleted = false) :
    (saveBelow c (.cons e child below next)).perform w =
      (saveBelow c below >>= fun _ => saveNode c child false >>= fun _ =>
        Action.update (fun f => f.followChild e (w.state.isNew child)) >>= fun _ =>
          saveBelow c next).perform w := by
  rw [saveBelow, Action.perform_state_bind, h]
  exact Action.perform_state_bind _ w

theorem saveBelow_ok_iff {b : Branches} :
    (saveBelow c b).perform w = (.ok (), v) ↔ ∃ writes, SavedBelow c b w writes v := by
  induction b generalizing w v with
  | nil =>
    constructor
    · intro h
      obtain ⟨-, rfl⟩ := Prod.mk.inj h
      exact ⟨[], SavedBelow.nil⟩
    · rintro ⟨writes, h⟩
      cases h
      rfl
  | cons e child below next ihBelow ihNext =>
    cases hdel : (w.state.node child).deleted with
    | true =>
      rw [perform_saveBelow_deleted hdel, ihNext]
      constructor
      · rintro ⟨writes, h⟩
        exact ⟨writes, SavedBelow.deleted hdel h⟩
      · rintro ⟨writes, h⟩
        cases h with
        | deleted _ h => exact ⟨writes, h⟩
        | kept h => cases hdel.symm.trans h
    | false =>
      rw [perform_saveBelow_kept hdel, Action.perform_bind_eq_ok]
      constructor
      · rintro ⟨⟨⟩, u, hbelow, h⟩
        rw [Action.perform_bind_eq_ok] at h
        obtain ⟨⟨⟩, t, hnode, h⟩ := h
        rw [Action.perform_update_bind] at h
        obtain ⟨deeper, hbelow⟩ := ihBelow.1 hbelow
        obtain ⟨own, hnode⟩ := saveNode_ok_iff.1 hnode
        obtain ⟨later, hnext⟩ := ihNext.1 h
        exact ⟨_, SavedBelow.kept hdel hbelow hnode hnext⟩
      · rintro ⟨writes, h⟩
        cases h with
        | deleted h => cases hdel.symm.trans h
        | kept _ hbelow hnode hnext =>
          refine ⟨(), _, ihBelow.2 ⟨_, hbelow⟩, ?_⟩
          rw [Action.perform_bind_ok (saveNode_ok_iff.2 ⟨_, hnode⟩), Action.perform_update_bind]
          exact ihNext.2 ⟨_, hnext⟩

/-! ## A record with all below it -/

/-- A record is saved with all below it. -/
inductive Saved (c : Connector σ) (n : NodeId) (w : World σ Forest) :
    List Write → World σ Forest → Prop
  | intro {r s t v : World σ Forest} {below own : List Write} :
      (w.state.node n).deleted = false → (readLinks c n).perform w = (.ok (), r) →
      (resolveBelow c (w.state.below n)).perform r = (.ok (), s) →
      SavedBelow c (w.state.below n) s below t → SavedNode c n true t own v →
      Saved c n w (below ++ own) v

theorem save_ok_iff {n : NodeId} :
    (save c n).perform w = (.ok (), v) ↔ ∃ writes, Saved c n w writes v := by
  rw [save, Action.perform_state_bind]
  cases hdel : (w.state.node n).deleted with
  | true =>
    constructor
    · intro h
      cases (Prod.mk.inj h).1
    · rintro ⟨writes, h⟩
      cases h with
      | intro h => cases hdel.symm.trans h
  | false =>
    show (readLinks c n >>= fun _ => resolveBelow c (w.state.below n) >>= fun _ =>
      saveBelow c (w.state.below n) >>= fun _ => saveNode c n true).perform w = _ ↔ _
    constructor
    · intro h
      obtain ⟨⟨⟩, r, hread, h⟩ := Action.perform_bind_eq_ok.1 h
      obtain ⟨⟨⟩, s, hresolve, h⟩ := Action.perform_bind_eq_ok.1 h
      obtain ⟨⟨⟩, t, hbelow, hnode⟩ := Action.perform_bind_eq_ok.1 h
      obtain ⟨below, hbelow⟩ := saveBelow_ok_iff.1 hbelow
      obtain ⟨own, hnode⟩ := saveNode_ok_iff.1 hnode
      exact ⟨_, Saved.intro hdel hread hresolve hbelow hnode⟩
    · rintro ⟨writes, h⟩
      cases h with
      | intro _ hread hresolve hbelow hnode =>
        rw [Action.perform_bind_ok hread, Action.perform_bind_ok hresolve,
          Action.perform_bind_ok (saveBelow_ok_iff.2 ⟨_, hbelow⟩)]
        exact saveNode_ok_iff.2 ⟨_, hnode⟩

/-! ## The log of a save -/

/-- The statements that were executed, in order. -/
def executed (log : List Exchange) : List Prepared :=
  log.filterMap fun
    | .execute p _ => some p
    | _ => none

@[simp] theorem executed_append (l₁ l₂ : List Exchange) :
    executed (l₁ ++ l₂) = executed l₁ ++ executed l₂ := List.filterMap_append ..

theorem OnlyAsks.executed_eq {old new : List Exchange} (h : OnlyAsks old new) :
    executed new = executed old := by
  obtain ⟨asked, rfl, hasked⟩ := h
  have hnone : executed asked = [] := by
    refine List.filterMap_eq_nil_iff.2 fun x hx => ?_
    cases x with
    | query => rfl
    | _ => exact absurd (hasked _ hx) Bool.false_ne_true
  rw [executed_append, hnone, List.append_nil]

/-- The second log goes on from the first one, and the statements executed meanwhile are those of
the writes. -/
def Executes (c : Connector σ) (writes : List Write) (old new : List Exchange) : Prop :=
  old <+: new ∧ ∃ statements, executed new = executed old ++ statements ∧
    writes.map (fun write => write.statement.prepare c.dialect) = statements.map .ok

namespace Executes

variable {writes later : List Write} {l₁ l₂ l₃ : List Exchange}

theorem trans (h₁ : Executes c writes l₁ l₂) (h₂ : Executes c later l₂ l₃) :
    Executes c (writes ++ later) l₁ l₃ := by
  obtain ⟨hprefix₁, statements₁, hexecuted₁, hwrites₁⟩ := h₁
  obtain ⟨hprefix₂, statements₂, hexecuted₂, hwrites₂⟩ := h₂
  refine ⟨hprefix₁.trans hprefix₂, statements₁ ++ statements₂, ?_, ?_⟩
  · rw [hexecuted₂, hexecuted₁, List.append_assoc]
  · rw [List.map_append, List.map_append, hwrites₁, hwrites₂]

theorem of_onlyAsks (h : OnlyAsks l₁ l₂) : Executes c [] l₁ l₂ := by
  refine ⟨?_, [], by rw [h.executed_eq, List.append_nil], rfl⟩
  obtain ⟨asked, rfl, -⟩ := h
  exact List.prefix_append _ _

/-- Nothing was written exactly if nothing was executed. -/
theorem eq_nil_iff (h : Executes c writes l₁ l₂) : writes = [] ↔ executed l₂ = executed l₁ := by
  obtain ⟨-, statements, hexecuted, hwrites⟩ := h
  have hlen := congrArg List.length hwrites
  rw [List.length_map, List.length_map] at hlen
  rw [hexecuted, List.append_right_eq_self, ← List.length_eq_zero_iff, hlen,
    List.length_eq_zero_iff]

end Executes

theorem Ran.executes {write : Write} (h : Ran c w write v) :
    Executes c [write] w.log v.log := by
  cases h with
  | @insert _ _ _ _ p _ _ hp =>
    exact ⟨List.prefix_append _ _, [p], by rw [executed_append]; rfl,
      congrArg (fun x => [x]) hp⟩
  | @update _ _ _ _ _ p _ hp =>
    exact ⟨List.prefix_append _ _, [p], by rw [executed_append]; rfl,
      congrArg (fun x => [x]) hp⟩
  | @delete _ _ _ p _ hp =>
    exact ⟨List.prefix_append _ _, [p], by rw [executed_append]; rfl,
      congrArg (fun x => [x]) hp⟩

theorem SavedNode.executes {n : NodeId} {direct : Bool} {writes : List Write}
    (h : SavedNode c n direct w writes v) : Executes c writes w.log v.log := by
  cases h with
  | nothing => exact Executes.of_onlyAsks (OnlyAsks.refl _)
  | write _ h => exact h.executes

theorem SavedBelow.executes {b : Branches} {writes : List Write}
    (h : SavedBelow c b w writes v) : Executes c writes w.log v.log := by
  induction h with
  | nil => exact Executes.of_onlyAsks (OnlyAsks.refl _)
  | deleted _ _ ih => exact ih
  | kept _ _ hnode _ ihBelow ihNext => exact (ihBelow.trans hnode.executes).trans ihNext

/-- The statements that a save executes are those of its writes, in order. -/
theorem Saved.executes {n : NodeId} {writes : List Write} (hf : WellFormed w.state)
    (h : Saved c n w writes v) : Executes c writes w.log v.log := by
  cases h with
  | intro _ hread hresolve hbelow hnode =>
    have hr := (consults_readLinks c n hf).of_perform hread
    have hs := (consults_resolveBelow c _ (hr.learns.steady.wellFormed hf)
      (hr.reaches.shape.hangs (hangs_below hf n))).of_perform hresolve
    have h := (Executes.of_onlyAsks (hr.asks.trans hs.asks)).trans hbelow.executes
    exact h.trans hnode.executes

/-! ## What a save reaches -/

/-- A planned write reaches the record that it is planned for. -/
theorem Ran.reaches {n : NodeId} {direct : Bool} {write : Write} (hf : WellFormed w.state)
    (hn : w.state.HasNode n) (hplan : w.state.planSave? n direct = some write)
    (h : Ran c w write v) : write.node = n ∧ Reaches [n] w.state v.state := by
  have hsettle := reaches_settle hf n
  rcases planSave?_eq_some hplan with ⟨fields, -, rfl⟩ | ⟨fields, -, -, rfl⟩
  · cases h with
    | @insert _ _ _ _ _ _ key =>
      refine ⟨rfl, (hsettle.trans ?_).trans ((reaches_setCurrent _ n false).mono (by simp))⟩
      exact reaches_setKey (hsettle.toSteady.wellFormed hf) ((hsettle.shape.hasNode n).2 hn) key
  · cases h with
    | update => exact ⟨rfl, hsettle.trans ((reaches_setCurrent _ n false).mono (by simp))⟩

/-- An inserted record has the identifier that was reported for its key. -/
theorem Ran.inserted {n : NodeId} {table : String} {fields : List (String × Value)}
    (hf : WellFormed w.state) (hn : w.state.HasNode n)
    (h : Ran c w (.insert n table (w.state.pendingCells n) fields) v) :
    ∃ p count, (Statement.insert table fields).prepare c.dialect = .ok p ∧ v.log = w.log ++
        [.execute p (.ok count), .lastIdentifier (.ok (v.state.keyValue n))] ∧
      v.state.keyValue n ≠ .null ∧ v.state.isNew n = false := by
  cases h with
  | @insert _ _ _ _ p count key hp _ _ hnull =>
    have hs := (reaches_settle hf n).toSteady
    have hcell : ((((w.state.settle (w.state.pendingCells n)).setKey n key).setCurrent n
        false).cell (w.state.node n).key) =
          ((w.state.settle (w.state.pendingCells n)).cell (w.state.node n).key).assign key := by
      rw [setCurrent, cell_modifyNode, setKey, hs.shape.key,
        cell_modifyCell_self _ ((hs.shape.hasCell _).2 (hf.hasCell_key hn))]
    have hshape :=
      (hs.shape.trans (sameShape_setKey _ n key)).trans (sameShape_setCurrent _ n false)
    have hvalue : (((w.state.settle (w.state.pendingCells n)).setKey n key).setCurrent n
        false).keyValue n = key := by
      rw [keyValue, hshape.key, hcell]
      rfl
    refine ⟨p, count, hp, by rw [hvalue], ?_, ?_⟩
    · rw [hvalue]
      rintro rfl
      cases hnull
    · rw [isNew, hshape.key, hcell]
      rfl

/-- Saving one record runs writes for that record alone, and reaches it alone. -/
theorem SavedNode.reaches {n : NodeId} {direct : Bool} {writes : List Write}
    (hf : WellFormed w.state) (hn : w.state.HasNode n) (h : SavedNode c n direct w writes v) :
    (∀ write ∈ writes, write.node = n) ∧ Reaches [n] w.state v.state := by
  cases h with
  | nothing =>
    exact ⟨fun _ h => absurd h List.not_mem_nil, (reaches_setCurrent _ n false).mono (by simp)⟩
  | write hplan hran =>
    obtain ⟨hnode, hreach⟩ := hran.reaches hf hn hplan
    exact ⟨fun write h => by rwa [List.mem_singleton.1 h], hreach⟩

/-- Saving what is behind joins runs writes for the records there alone, and changes no columns but
theirs and the links at the top. -/
theorem SavedBelow.reaches {b : Branches} {writes : List Write} {n : NodeId}
    (h : SavedBelow c b w writes v) (hf : WellFormed w.state) (hb : w.state.Hangs n b) :
    (∀ write ∈ writes, write.node ∈ b.preOrder) ∧ Steady w.state v.state ∧
      ∀ d, (w.state.cell d).owner ∉ b.preOrder → (∀ e ∈ b.joins, (w.state.edge e).link ≠ d) →
        v.state.cell d = w.state.cell d := by
  induction h generalizing n with
  | nil => exact ⟨fun _ h => absurd h List.not_mem_nil, Steady.refl _, fun _ _ _ => rfl⟩
  | deleted _ _ ih =>
    obtain ⟨-, -, -, -, hnext⟩ := hb
    obtain ⟨hwrites, hs, hcell⟩ := ih hf hnext
    refine ⟨fun write h => ?_, hs, fun d hd hlink => ?_⟩
    · exact Branches.mem_preOrder_cons.2 (Or.inr (Or.inr (hwrites write h)))
    · exact hcell d (fun h => hd (Branches.mem_preOrder_cons.2 (Or.inr (Or.inr h))))
        fun e he => hlink e (List.mem_cons_of_mem _ he)
  | @kept e child below next w u t v deeper own later _ _ hnode _ ihBelow ihNext =>
    obtain ⟨he, hchild, -, hbelow, hnext⟩ := hb
    have hhas : w.state.HasNode child := hchild ▸ hf.hasChild (hf.hasEdge he)
    obtain ⟨hwrites₁, hs₁, hcell₁⟩ := ihBelow hf hbelow
    obtain ⟨hwrites₂, hr₂⟩ := hnode.reaches (hs₁.wellFormed hf) ((hs₁.shape.hasNode _).2 hhas)
    have hs₂ := hs₁.trans hr₂.toSteady
    have hs₃ := hs₂.trans (steady_followChild t.state e (w.state.isNew child))
    obtain ⟨hwrites₄, hs₄, hcell₄⟩ := ihNext (hs₃.wellFormed hf) (hs₃.shape.hangs hnext)
    refine ⟨fun write h => ?_, hs₃.trans hs₄, fun d hd hlink => ?_⟩
    · rw [Branches.mem_preOrder_cons]
      rw [List.mem_append, List.mem_append] at h
      rcases h with (h | h) | h
      · exact Or.inr (Or.inl (hwrites₁ write h))
      · exact Or.inl (hwrites₂ write h)
      · exact Or.inr (Or.inr (hwrites₄ write h))
    · rw [Branches.mem_preOrder_cons, not_or, not_or] at hd
      obtain ⟨hdChild, hdBelow, hdNext⟩ := hd
      have hdLink : d ≠ (t.state.edge e).link := by
        rw [hs₂.shape.edge]
        exact (hlink e (List.mem_cons_self ..)).symm
      -- The links at the top of `below` are columns of the child.
      have hdDeeper : ∀ e' ∈ below.joins, (w.state.edge e').link ≠ d := by
        rintro e' he' rfl
        have he' := edges_of_joins hbelow he'
        rw [hf.owner_link (hf.hasEdge he'), hf.owner_of_edge he'] at hdChild
        exact hdChild rfl
      have h₁ := hcell₁ d hdBelow hdDeeper
      have h₂ : t.state.cell d = u.state.cell d :=
        hr₂.cell (by rwa [hs₁.shape.owner, List.mem_singleton])
      have h₃ : (t.state.followChild e (w.state.isNew child)).cell d = t.state.cell d :=
        cell_followChild_of_ne hdLink
      have h₄ := hcell₄ d (by rwa [World.withState, hs₃.shape.owner]) fun e' he' => by
        rw [World.withState, hs₃.shape.edge]
        exact hlink e' (List.mem_cons_of_mem _ he')
      exact h₄.trans (h₃.trans (h₂.trans h₁))

/-- Saving a child with all below it is steady, and so is letting the link follow it. -/
theorem SavedBelow.steady_child {b : Branches} {e : EdgeId} {child n : NodeId}
    {deeper own : List Write} {u t : World σ Forest} (hbelow : SavedBelow c b w deeper u)
    (hnode : SavedNode c child false u own t) (hf : WellFormed w.state)
    (he : e ∈ (w.state.node n).edges) (hchild : w.state.childOf e = child)
    (hhang : w.state.Hangs child b) : Steady w.state u.state ∧ Steady w.state t.state ∧
      Steady w.state (t.state.followChild e (w.state.isNew child)) := by
  have hhas : w.state.HasNode child := hchild ▸ hf.hasChild (hf.hasEdge he)
  have hu := (hbelow.reaches hf hhang).2.1
  have ht := hu.trans
    (hnode.reaches (hu.wellFormed hf) ((hu.shape.hasNode _).2 hhas)).2.toSteady
  exact ⟨hu, ht, ht.trans (steady_followChild t.state e (w.state.isNew child))⟩

end LinkedRows
