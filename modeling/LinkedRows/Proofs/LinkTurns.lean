/-
# A link during a save

While a save goes through its turns, the link of a join changes at two of them only.  After the
turn of the child the link follows it, or stays, by three flags: whether the child was new when the
walk came to it, whether it is new afterwards, and whether the link was assigned (`Cell.follow`).
At the turn of the owner the link is written.  Neither the link nor the key of the child changes in
between, or before or after (`FollowedUp`); this needs that no other join of the owner goes through
the link, since that one would make it follow another child.

The induction is on the walk.  A join at its top has the turn of its child only, the owner's is
still to come (`TurnsBelow.followed`); a join further down has both (`TurnsBelow.followedUp`).
-/

import LinkedRows.Proofs.SavePoints
import LinkedRows.Proofs.Turns

namespace LinkedRows

open Forest

namespace Forest

/-- No other join of the owner goes through the link of a join. -/
def Unshared (f : Forest) (e : EdgeId) : Prop :=
  ∀ e' ∈ (f.node (f.edge e).owner).edges, (f.edge e').link = (f.edge e).link → e' = e

instance (f : Forest) (e : EdgeId) : Decidable (f.Unshared e) :=
  inferInstanceAs (Decidable (∀ e' ∈ _, _ → _))

end Forest

variable {σ : Type} {c : Connector σ} {w u t v : World σ Forest} {n child : NodeId}
  {b below next : Branches} {e : EdgeId}

/-! ## The turns of a join -/

/-- The child of a join had its turn, and the link has followed it. -/
structure Followed (c : Connector σ) (f : Forest) (e : EdgeId) (turn : Turn σ) (g : Forest) :
    Prop where
  node : turn.node = f.childOf e
  steady : Steady f turn.before.state
  performed : (saveNode c turn.node false).perform turn.before = (.ok (), turn.after)
  link : g.cell (f.edge e).link = (f.cell (f.edge e).link).follow (f.isNew (f.childOf e))
    (turn.after.state.isNew (f.childOf e)) (turn.after.state.keyValue (f.childOf e))
  key : g.cell (f.node (f.childOf e)).key = turn.after.state.cell (f.node (f.childOf e)).key

/-- Both ends of a join had their turns, the child first, and nothing has changed since. -/
structure FollowedUp (c : Connector σ) (f : Forest) (e : EdgeId) (turn owner : Turn σ)
    (g : Forest) : Prop where
  child : Followed c f e turn owner.before.state
  node : owner.node = (f.edge e).owner
  steady : Steady f owner.before.state
  performed : ∃ direct, (saveNode c owner.node direct).perform owner.before = (.ok (), owner.after)
  link : g.cell (f.edge e).link = owner.after.state.cell (f.edge e).link
  key : g.cell (f.node (f.childOf e)).key = turn.after.state.cell (f.node (f.childOf e)).key

section

variable {f f' g g' : Forest} {turn owner : Turn σ}

/-- The start can be moved back over what leaves the link and the child's key alone. -/
theorem Followed.of_start (h : Followed c f' e turn g) (hs : Steady f f')
    (hlink : f'.cell (f.edge e).link = f.cell (f.edge e).link)
    (hkey : f'.cell (f.node (f.childOf e)).key = f.cell (f.node (f.childOf e)).key) :
    Followed c f e turn g := by
  have hnew : f'.isNew (f.childOf e) = f.isNew (f.childOf e) := by
    rw [isNew, isNew, hs.shape.key, hkey]
  have h₁ := h.link
  have h₂ := h.key
  rw [hs.shape.childOf, hs.shape.edge, hnew, hlink] at h₁
  rw [hs.shape.childOf, hs.shape.key] at h₂
  exact ⟨h.node.trans (hs.shape.childOf e), hs.trans h.steady, h.performed, h₁, h₂⟩

theorem FollowedUp.of_start (h : FollowedUp c f' e turn owner g) (hs : Steady f f')
    (hlink : f'.cell (f.edge e).link = f.cell (f.edge e).link)
    (hkey : f'.cell (f.node (f.childOf e)).key = f.cell (f.node (f.childOf e)).key) :
    FollowedUp c f e turn owner g := by
  have h₁ := h.link
  have h₂ := h.key
  rw [hs.shape.edge] at h₁
  rw [hs.shape.childOf, hs.shape.key] at h₂
  exact ⟨h.child.of_start hs hlink hkey, h.node.trans (by rw [hs.shape.edge]),
    hs.trans h.steady, h.performed, h₁, h₂⟩

/-- The end can be moved on over what leaves the link and the child's key alone. -/
theorem FollowedUp.of_end (h : FollowedUp c f e turn owner g)
    (hlink : g'.cell (f.edge e).link = g.cell (f.edge e).link)
    (hkey : g'.cell (f.node (f.childOf e)).key = g.cell (f.node (f.childOf e)).key) :
    FollowedUp c f e turn owner g' :=
  ⟨h.child, h.node, h.steady, h.performed, hlink.trans h.link, hkey.trans h.key⟩

end

/-! ## The walk -/

theorem childOf_mem_preOrder {f : Forest} (hb : f.Hangs n b) (he : e ∈ f.keptJoins b) :
    f.childOf e ∈ b.preOrder :=
  Branches.mem_postOrder.1 ((keptOrder_sublist f b).subset ((mem_keptOrder hb).2 ⟨e, he, rfl⟩))

/-- A kept join is at the top, or its owner is behind a join. -/
theorem mem_joins_or_owner {f : Forest} (hf : WellFormed f) (hb : f.Hangs n b)
    (he : e ∈ f.keptJoins b) : e ∈ b.joins ∨ (f.edge e).owner ∈ b.preOrder := by
  obtain ⟨e', hparent, h⟩ := parent_of_mem_preOrder hf hb (childOf_mem_preOrder hb he)
  rw [childOf, hf.parent_child (kept_spec hf hb he).1] at hparent
  obtain rfl := Option.some.inj hparent
  exact h

/-- The parts of a walk that has saved a kept child. -/
theorem TurnsBelow.savedChild {deeper : List (Turn σ)} (hf : WellFormed w.state)
    (hb : w.state.Hangs n (.cons e child below next)) (hbelow : TurnsBelow c below w deeper u)
    (hnode : (saveNode c child false).perform u = (.ok (), t)) :
    SavedChild c n e child below w u t :=
  hbelow.saved.savedChild (savedNode_of_perform hnode) hf hb

/-- **At the top of a walk.**  The child of a kept join has its turn in the walk, and the link has
followed it when the walk ends, if no other join at the top goes through the link. -/
theorem TurnsBelow.followed {turns : List (Turn σ)} (h : TurnsBelow c b w turns v)
    (hf : WellFormed w.state) (hb : w.state.Hangs n b) (hjoins : b.joins.Nodup) (he : e ∈ b.joins)
    (hdel : (w.state.node (w.state.childOf e)).deleted = false)
    (hown : ∀ e' ∈ b.joins, (w.state.edge e').link = (w.state.edge e).link → e' = e) :
    ∃ turn ∈ turns, Followed c w.state e turn v.state := by
  induction h generalizing n with
  | nil => exact absurd he List.not_mem_nil
  | deleted hdel' _ ih =>
    obtain ⟨-, hchild, -, -, hnext⟩ := hb
    rcases List.mem_cons.1 he with rfl | he
    · rw [hchild, hdel'] at hdel
      cases hdel
    · exact ih hf hnext (List.nodup_cons.1 hjoins).2 he hdel
        fun e' he' => hown e' (List.mem_cons_of_mem _ he')
  | @kept e₀ child below next w u t v deeper later _ hbelow hnode hlater _ ihNext =>
    have hsaved := hbelow.savedChild hf hb hnode
    obtain ⟨hs₁, hs₂, hs₃⟩ := hsaved.steady
    have hedge : w.state.HasEdge e := hf.hasEdge (edges_of_joins hb he)
    have hkeyOwner := hf.owner_key (hf.hasChild hedge)
    have hlinkOwner : (w.state.cell (w.state.edge e).link).owner = n :=
      (hf.owner_link hedge).trans (hf.owner_of_edge (edges_of_joins hb he))
    obtain ⟨-, hchild, -, -, hnext⟩ := id hb
    obtain ⟨hout, hjoinsNext⟩ := List.nodup_cons.1 hjoins
    rcases List.mem_cons.1 he with rfl | he
    · subst hchild
      refine ⟨_, List.mem_append_right _ (List.mem_cons_self ..), rfl, hs₁, hnode, ?_, ?_⟩
      · -- The later joins go through other links.
        have hn := not_mem_of_hangs hf hnext
        rw [← hsaved.cell_link]
        refine (hlater.saved.reaches (hs₃.wellFormed hf) (hs₃.shape.hangs hnext)).2.2 _ ?_ ?_
        · rwa [World.withState, hs₃.shape.owner, hlinkOwner]
        · intro e' he' hlink
          rw [World.withState, hs₃.shape.edge] at hlink
          exact hout (hown e' (List.mem_cons_of_mem _ he') hlink ▸ he')
      · exact hsaved.cell_later hb hjoins hlater.saved.comes (Or.inl hkeyOwner)
    · have hmem : w.state.childOf e ∈ next.preOrder :=
        childOf_mem_preOrder hnext (mem_keptJoins_of_joins hnext he hdel)
      have hne : (w.state.edge e).link ≠ (w.state.edge e₀).link := fun hlink =>
        hout (hown e₀ (List.mem_cons_self ..) hlink.symm ▸ he)
      obtain ⟨turn, hturn, hfollowed⟩ := ihNext (hs₃.wellFormed hf) (hs₃.shape.hangs hnext)
        hjoinsNext he (by
          show ((t.state.followChild e₀ _).node ((t.state.followChild e₀ _).childOf e)).deleted = _
          rwa [hs₃.shape.childOf, hs₃.deleted]) fun e' he' hlink => by
            rw [World.withState, hs₃.shape.edge, hs₃.shape.edge] at hlink
            exact hown e' (List.mem_cons_of_mem _ he') hlink
      refine ⟨turn, List.mem_append_right _ (List.mem_cons_of_mem _ hturn),
        hfollowed.of_start hs₃ ?_ (hsaved.cell_earlier hb hjoins (hkeyOwner.symm ▸ hmem))⟩
      exact (hsaved.cell_follow hne).trans (hsaved.cell_before (hlinkOwner ▸ hsaved.owner_out.1)
        (hlinkOwner ▸ hsaved.owner_out.2))

/-- **Further down.**  Of a kept join whose link no other join goes through, the child has its turn
in the walk and the owner a later one. -/
theorem TurnsBelow.followedUp {turns : List (Turn σ)} (h : TurnsBelow c b w turns v)
    (hf : WellFormed w.state) (hb : w.state.Hangs n b) (hjoins : b.joins.Nodup)
    (he : e ∈ w.state.keptJoins b) (hdeep : e ∉ b.joins) (hown : w.state.Unshared e) :
    ∃ turn owner, [turn, owner].Sublist turns ∧ FollowedUp c w.state e turn owner v.state := by
  induction h generalizing n with
  | nil => exact absurd he List.not_mem_nil
  | deleted hdel _ ih =>
    obtain ⟨-, -, -, -, hnext⟩ := hb
    rw [keptJoins_deleted hdel] at he
    exact ih hf hnext (List.nodup_cons.1 hjoins).2 he (fun h => hdeep (List.mem_cons_of_mem _ h))
      hown
  | @kept e₀ child below next w u t v deeper later hdel hbelow hnode hlater ihBelow ihNext =>
    have hsaved := hbelow.savedChild hf hb hnode
    obtain ⟨hs₁, hs₂, hs₃⟩ := hsaved.steady
    obtain ⟨hedge, hkept, -⟩ := kept_spec hf hb he
    have hkeyOwner := hf.owner_key (hf.hasChild hedge)
    have hlinkOwner := hf.owner_link hedge
    have hlater' {d : CellId} := hsaved.cell_later (d := d) hb hjoins hlater.saved.comes
    obtain ⟨-, rfl, hbelowEq, hhang, hnext⟩ := id hb
    have hjoinsBelow : below.joins = (w.state.node (w.state.childOf e₀)).edges :=
      hbelowEq ▸ joins_below hf _
    rw [mem_keptJoins_kept hdel] at he
    rcases he with rfl | he | he
    · exact absurd (List.mem_cons_self ..) hdeep
    · have hmem := childOf_mem_preOrder hhang he
      have hne : w.state.childOf e ≠ w.state.childOf e₀ := fun h =>
        not_mem_of_hangs hf hhang (h ▸ hmem)
      have hkey : v.state.cell (w.state.node (w.state.childOf e)).key =
          u.state.cell (w.state.node (w.state.childOf e)).key :=
        (hlater' (Or.inr (hkeyOwner.symm ▸ hmem))).trans (hsaved.cell_own (hkeyOwner.symm ▸ hne))
      rcases mem_joins_or_owner hf hhang he with htop | howner
      · -- The owner is the child itself, whose turn comes after what is below it.
        have howner := hf.owner_of_edge (edges_of_joins hhang htop)
        obtain ⟨turn, hturn, hfollowed⟩ := hbelow.followed hf hhang
          (hbelowEq ▸ nodup_joins_below hf _) htop hkept fun e' he' => hown e' (by
            rwa [howner, ← hjoinsBelow])
        refine ⟨turn, ⟨_, u, t⟩, (List.singleton_sublist.2 hturn).append
          ((List.nil_sublist later).cons_cons _), hfollowed, howner.symm, hs₁, ⟨false, hnode⟩,
          hlater' (Or.inl (hlinkOwner.trans howner)), hkey.trans hfollowed.key⟩
      · have hdeep' : e ∉ below.joins := fun htop => by
          rw [hf.owner_of_edge (edges_of_joins hhang htop)] at howner
          exact not_mem_of_hangs hf hhang howner
        obtain ⟨turn, owner, hturns, hfollowed⟩ := ihBelow hf hhang
          (hbelowEq ▸ nodup_joins_below hf _) he hdeep' hown
        have hne : (w.state.edge e).owner ≠ w.state.childOf e₀ := fun h =>
          not_mem_of_hangs hf hhang (h ▸ howner)
        exact ⟨turn, owner, hturns.trans (List.sublist_append_left _ _), hfollowed.of_end
          ((hlater' (Or.inr (hlinkOwner.symm ▸ howner))).trans
            (hsaved.cell_own (hlinkOwner.symm ▸ hne))) hkey⟩
    · have hdeep' : e ∉ next.joins := fun htop => hdeep (List.mem_cons_of_mem _ htop)
      have hmem := childOf_mem_preOrder hnext he
      have howner := (mem_joins_or_owner hf hnext he).resolve_left hdeep'
      obtain ⟨turn, owner, hturns, hfollowed⟩ := ihNext (hs₃.wellFormed hf)
        (hs₃.shape.hangs hnext) (List.nodup_cons.1 hjoins).2
        (by rwa [World.withState, hs₃.keptJoins]) hdeep' fun e' he' hlink => by
          rw [World.withState, hs₃.shape.edge, hs₃.shape.edges] at he'
          rw [World.withState, hs₃.shape.edge, hs₃.shape.edge] at hlink
          exact hown e' he' hlink
      exact ⟨turn, owner,
        (hturns.trans (List.sublist_cons_self _ _)).trans (List.sublist_append_right _ _),
        hfollowed.of_start hs₃ (hsaved.cell_earlier hb hjoins (hlinkOwner.symm ▸ howner))
          (hsaved.cell_earlier hb hjoins (hkeyOwner.symm ▸ hmem))⟩

end LinkedRows
