/-
# The turns of a save

A save comes to one record after the other.  A `Turn` is the moment when it has come to one: the
world just before the record is saved, and just after.  `TurnsBelow` and `Turns` are the turns of a
save that succeeds, in order, as relations that follow its recursion; `TurnsBelow` is exactly the
success of what it describes.

The turns go through the kept records in the order of `keptOrder` (`TurnsBelow.nodes`), and what is
written are the writes that were planned at each turn (`TurnsBelow.saved`), so all that is known of
the writes of a save is known of its turns.
-/

import LinkedRows.Proofs.Forest.KeptOrder
import LinkedRows.Proofs.Saving

namespace LinkedRows

open Forest

variable {σ : Type} {c : Connector σ} {w v : World σ Forest}

/-- A record has its turn in a save. -/
structure Turn (σ : Type) where
  node : NodeId
  before : World σ Forest
  after : World σ Forest

/-- The write that is planned at a turn, if there is one. -/
def Turn.write? (t : Turn σ) (direct : Bool) : Option Write :=
  t.before.state.planSave? t.node direct

/-! ## One turn -/

theorem savedNode_of_perform {n : NodeId} {direct : Bool}
    (h : (saveNode c n direct).perform w = (.ok (), v)) :
    SavedNode c n direct w (w.state.planSave? n direct).toList v := by
  obtain ⟨writes, hsaved⟩ := saveNode_ok_iff.1 h
  cases hplan : w.state.planSave? n direct with
  | none =>
    cases hsaved with
    | nothing => exact .nothing hplan
    | write hwrite => cases hplan.symm.trans hwrite
  | some write =>
    cases hsaved with
    | nothing hnone => cases hplan.symm.trans hnone
    | write hwrite hran =>
      obtain rfl := Option.some.inj (hplan.symm.trans hwrite)
      exact .write hplan hran

/-! ## What is behind joins -/

/-- The turns when what is behind joins is saved, those below a child before the child's own. -/
inductive TurnsBelow (c : Connector σ) : Branches → World σ Forest → List (Turn σ) →
    World σ Forest → Prop
  | nil {w : World σ Forest} : TurnsBelow c .nil w [] w
  | deleted {e : EdgeId} {child : NodeId} {below next : Branches} {w v : World σ Forest}
      {turns : List (Turn σ)} : (w.state.node child).deleted = true →
      TurnsBelow c next w turns v → TurnsBelow c (.cons e child below next) w turns v
  | kept {e : EdgeId} {child : NodeId} {below next : Branches} {w u t v : World σ Forest}
      {deeper later : List (Turn σ)} : (w.state.node child).deleted = false →
      TurnsBelow c below w deeper u → (saveNode c child false).perform u = (.ok (), t) →
      TurnsBelow c next (t.withState (t.state.followChild e (w.state.isNew child))) later v →
      TurnsBelow c (.cons e child below next) w (deeper ++ ⟨child, u, t⟩ :: later) v

theorem saveBelow_ok_iff_turns {b : Branches} :
    (saveBelow c b).perform w = (.ok (), v) ↔ ∃ turns, TurnsBelow c b w turns v := by
  constructor
  · intro h
    obtain ⟨writes, h⟩ := saveBelow_ok_iff.1 h
    induction h with
    | nil => exact ⟨[], .nil⟩
    | deleted hdel hnext ih =>
      obtain ⟨turns, h⟩ := ih (saveBelow_ok_iff.2 ⟨_, hnext⟩)
      exact ⟨turns, .deleted hdel h⟩
    | kept hdel hbelow hnode hnext ihBelow ihNext =>
      obtain ⟨deeper, hdeeper⟩ := ihBelow (saveBelow_ok_iff.2 ⟨_, hbelow⟩)
      obtain ⟨later, hlater⟩ := ihNext (saveBelow_ok_iff.2 ⟨_, hnext⟩)
      exact ⟨_, .kept hdel hdeeper (saveNode_ok_iff.2 ⟨_, hnode⟩) hlater⟩
  · rintro ⟨turns, h⟩
    induction h with
    | nil => rfl
    | deleted hdel _ ih => rwa [perform_saveBelow_deleted hdel]
    | kept hdel _ hnode _ ihBelow ihNext =>
      rw [perform_saveBelow_kept hdel, Action.perform_bind_ok ihBelow,
        Action.perform_bind_ok hnode, Action.perform_update_bind]
      exact ihNext

/-- What is written behind joins are the writes planned at the turns. -/
theorem TurnsBelow.saved {b : Branches} {turns : List (Turn σ)} (h : TurnsBelow c b w turns v) :
    SavedBelow c b w (turns.filterMap (·.write? false)) v := by
  induction h with
  | nil => exact .nil
  | deleted hdel _ ih => exact .deleted hdel ih
  | @kept e child below next w u t v deeper later hdel _ hnode _ ihBelow ihNext =>
    have howner : (⟨child, u, t⟩ :: later : List (Turn σ)).filterMap (·.write? false) =
        (u.state.planSave? child false).toList ++ later.filterMap (·.write? false) := by
      rw [List.filterMap_cons, Turn.write?]
      cases u.state.planSave? child false <;> rfl
    rw [List.filterMap_append, howner, ← List.append_assoc]
    exact .kept hdel ihBelow (savedNode_of_perform hnode) ihNext

/-- The turns are those of the kept records behind the joins. -/
theorem TurnsBelow.nodes {b : Branches} {turns : List (Turn σ)} {n : NodeId}
    (h : TurnsBelow c b w turns v) (hf : WellFormed w.state) (hb : w.state.Hangs n b) :
    turns.map Turn.node = w.state.keptOrder b := by
  induction h generalizing n with
  | nil => rfl
  | deleted hdel _ ih =>
    obtain ⟨-, -, -, -, hnext⟩ := hb
    rw [keptOrder_deleted hdel]
    exact ih hf hnext
  | @kept e child below next w u t v deeper later hdel hbelow hnode _ ihBelow ihNext =>
    obtain ⟨he, hchild, -, hhang, hnext⟩ := hb
    obtain ⟨-, -, hs⟩ := hbelow.saved.steady_child (savedNode_of_perform hnode) hf he hchild hhang
    rw [keptOrder_kept hdel, List.map_append, List.map_cons, ihBelow hf hhang,
      ihNext (hs.wellFormed hf) (hs.shape.hangs hnext)]
    exact congrArg (fun later => w.state.keptOrder below ++ child :: later) (hs.keptOrder next)

/-! ## A record with all below it -/

/-- Before its first turn a save has asked, and learned, and nothing else. -/
theorem consults_before {n : NodeId} {r s : World σ Forest} (hf : WellFormed w.state)
    (hread : (readLinks c n).perform w = (.ok (), r))
    (hresolve : (resolveBelow c (w.state.below n)).perform r = (.ok (), s)) :
    Consults (n :: (w.state.below n).preOrder) w s := by
  have hr := (consults_readLinks c n hf).of_perform hread
  have hs := (consults_resolveBelow c _ (hr.learns.steady.wellFormed hf)
    (hr.reaches.shape.hangs (hangs_below hf n))).of_perform hresolve
  exact (hr.mono fun m hm => List.mem_singleton.1 hm ▸ List.mem_cons_self ..).trans
    (hs.mono fun m hm => List.mem_cons_of_mem _ hm)

/-- The turns when a record is saved with all below it, its own at the end. -/
inductive Turns (c : Connector σ) (n : NodeId) (w : World σ Forest) :
    List (Turn σ) → World σ Forest → Prop
  | intro {r s t v : World σ Forest} {below : List (Turn σ)} :
      (w.state.node n).deleted = false → (readLinks c n).perform w = (.ok (), r) →
      (resolveBelow c (w.state.below n)).perform r = (.ok (), s) →
      TurnsBelow c (w.state.below n) s below t → (saveNode c n true).perform t = (.ok (), v) →
      Turns c n w (below ++ [⟨n, t, v⟩]) v

theorem save_ok_iff_turns {n : NodeId} :
    (save c n).perform w = (.ok (), v) ↔ ∃ turns, Turns c n w turns v := by
  rw [save_ok_iff]
  constructor
  · rintro ⟨writes, h⟩
    cases h with
    | intro hdel hread hresolve hbelow hnode =>
      obtain ⟨turns, hturns⟩ := saveBelow_ok_iff_turns.1 (saveBelow_ok_iff.2 ⟨_, hbelow⟩)
      exact ⟨_, .intro hdel hread hresolve hturns (saveNode_ok_iff.2 ⟨_, hnode⟩)⟩
  · rintro ⟨turns, h⟩
    cases h with
    | intro hdel hread hresolve hbelow hnode =>
      exact ⟨_, .intro hdel hread hresolve hbelow.saved (savedNode_of_perform hnode)⟩

end LinkedRows
