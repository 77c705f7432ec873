/-
# Where links point after a save

Three sources compete for the link of a join in a save: what the caller assigned, what reading
found, and the key of the child.  `save_links` says which one wins for a link that is no key and
that no other join goes through.

* The child is inserted: the link takes the identifier that was reported, and the later statement
  for the owner carries it.
* The link was assigned when the save began: it keeps what was assigned.  There is one exception
  (`Adopts`): a null link to a new child takes the key of the child also if the child is not
  inserted, but finds a key of its own during the save.  It can find one through a join that goes
  through its own key column, when the record behind that join is saved.
* Otherwise the link has the key of the child, if the child has a row.

In the exception an assigned link is lost although no row was inserted for it
(`save_loses_assigned_link`).
-/

import LinkedRows.Proofs.LinkTurns
import LinkedRows.Proofs.ReadBeforeInsert
import LinkedRows.Proofs.SaveOrder

namespace LinkedRows

open Forest

variable {σ : Type} {c : Connector σ} {w v : World σ Forest} {n : NodeId} {e : EdgeId}

/-! ## Links that follow -/

namespace Cell

variable {link : Cell} {wasNew isNew : Bool} {key : Value}

theorem follow_of_isNew : link.follow wasNew true key = link := if_neg (by simp)

theorem follow_of_assigned (h : link.isDirty = true) : link.follow false isNew key = link :=
  if_neg (by simp [h])

/-- A null link takes the key of a child that was new. -/
theorem follow_of_null (h : link.value = .null) (hkey : key ≠ .null) :
    link.follow true false key = link.assign key := by
  have hagrees : link.value.agrees key = false := by
    rw [h, ← Bool.not_eq_true, Value.null_agrees]
    exact hkey
  exact if_pos (by simp [hagrees])

theorem value_follow_of_null (h : link.value = .null) :
    (link.follow true false key).value = key := by
  by_cases hkey : key = .null
  · subst hkey
    unfold follow
    split
    · rfl
    · exact h
  · rw [follow_of_null h hkey]
    rfl

/-- A link that is not assigned has the key of its child then, or agreed with it before. -/
theorem value_follow_of_clean (h : link.isDirty = false) :
    (link.follow wasNew false key).value = key ∨
      (link.follow wasNew false key).value.agrees key = true := by
  unfold follow
  split
  · exact Or.inl rfl
  · rename_i hnot
    refine Or.inr ?_
    simpa [h] using hnot

end Cell

/-! ## What reading leaves of links -/

namespace Forest

variable {f g : Forest}

/-- A new record behind a link that is assigned null is still new when links were read. -/
theorem Learns.isNew_of_null (h : Learns f g) (hf : WellFormed f) (he : f.HasEdge e)
    (hk : (f.cell (f.edge e).link).isKey = false)
    (hdirty : (f.cell (f.edge e).link).isDirty = true)
    (hnull : (f.cell (f.edge e).link).value = .null)
    (hnew : f.isNew (f.edge e).child = true) : g.isNew (f.edge e).child = true := by
  induction h with
  | refl => exact hnew
  | @load g m cells values hg hcells ih =>
    rw [isNew, node_load]
    rcases cell_load g cells values (g.node (f.edge e).child).key with h | ⟨-, x, h⟩ <;> rw [h]
    · exact ih
    · exact ih
  | @seed g e' hg he' ih =>
    have hwf := hg.steady.wellFormed hf
    have hs := hg.steady.shape
    have hedge : g.HasEdge e := (hs.hasEdge e).2 he
    by_cases hchild : (g.edge e').child = (g.edge e).child
    · -- The only join to the child goes through the link.
      obtain rfl := hwf.edge_unique he' hedge hchild
      have hassigned := hg.assigned hf hk
      have hvalue : (g.cell (g.edge e').link).value = .null := by
        rw [hs.edge]
        rw [Cell.isDirty, ← hassigned] at hdirty
        obtain ⟨x, hx⟩ := Option.isSome_iff_exists.1 hdirty
        rw [Cell.value, ← hassigned, hx] at hnull
        rw [Cell.value, hx]
        exact hnull
      rw [seedChild_of_null hvalue]
      exact ih
    · have hreach := reaches_seedChild hwf he'
      rw [hs.edge e] at hchild
      rw [hreach.isNew hwf ((hs.hasNode _).2 (hf.hasChild he)) (by simpa using Ne.symm hchild)]
      exact ih
  | @setCurrent g m current _ ih =>
    rw [isNew, (sameShape_setCurrent g m current).key]
    exact ih

end Forest

/-- The link to a kept child that is still new when all links were resolved is null. -/
theorem link_null_of_kept {b : Branches} (hf : WellFormed w.state) (hb : w.state.Hangs n b)
    (hjoins : b.joins.Nodup) (hresolve : (resolveBelow c b).perform w = (.ok (), v))
    (he : e ∈ w.state.keptJoins b) (hnew : v.state.isNew (w.state.edge e).child = true) :
    (v.state.cell (w.state.edge e).link).value = .null := by
  induction b generalizing n w v with
  | nil => exact absurd he List.not_mem_nil
  | cons e' child below next ihBelow ihNext =>
    have hall := (consults_resolveBelow c _ hf hb).of_perform hresolve
    have hout {m : NodeId} (hm : m ∈ below.preOrder) : m ∉ next.preOrder :=
      not_mem_next_of_below hf hb hjoins hm
    have houtChild := child_not_mem_next hf hb hjoins
    obtain ⟨he', hchild, hbelow, hhang, hnext⟩ := id hb
    cases hdel : (w.state.node child).deleted with
    | true =>
      rw [perform_resolveBelow_deleted hdel] at hresolve
      rw [keptJoins_deleted hdel] at he
      exact ihNext hf hnext (List.nodup_cons.1 hjoins).2 hresolve he hnew
    | false =>
      obtain ⟨hedge, hkept, -⟩ := kept_spec hf hb he
      have hresolveAll := hresolve
      rw [perform_resolveBelow_kept hdel] at hresolve
      obtain ⟨⟨⟩, r, hread, hresolve⟩ := Action.perform_bind_eq_ok.1 hresolve
      obtain ⟨⟨⟩, s, hbelowRun, hlater⟩ := Action.perform_bind_eq_ok.1 hresolve
      have hwr := entered_readChild hf (hf.hasEdge he') hchild hread
      have hws := hwr.resolve hf (hf.hasEdge he') hhang hbelowRun
      have hsr := hwr.learns.steady
      have hss := hws.learns.steady
      have hfs := hss.wellFormed hf
      have hsv := (consults_resolveBelow c next hfs (hss.shape.hangs hnext)).of_perform hlater
      rw [mem_keptJoins_kept hdel] at he
      rcases he with rfl | he | he
      · have howner := hf.owner_of_edge he'
        rw [hall.cell]
        · exact link_null_of_isNew hf hb hresolveAll (List.mem_cons_self ..) hkept hnew
        · rw [hf.owner_link hedge, howner]
          exact not_mem_of_hangs hf hb
      · -- What is behind the later joins has other columns.
        have hnewBelow := hsv.learns.steady.wasNew hfs
          ((hss.shape.hasNode _).2 (hf.hasChild hedge)) hnew
        have hlink := ihBelow (hsr.wellFormed hf) (hsr.shape.hangs hhang)
          (hbelow ▸ nodup_joins_below hf child) hbelowRun (hsr.keptJoins ▸ he)
          (by rwa [hsr.shape.edge])
        rw [hsr.shape.edge] at hlink
        rw [hsv.cell, hlink]
        rw [hss.shape.owner, hf.owner_link hedge]
        rcases mem_joins_or_owner hf hhang he with htop | howner
        · rwa [hf.owner_of_edge (edges_of_joins hhang htop)]
        · exact hout howner
      · have hlink := ihNext hfs (hss.shape.hangs hnext) (List.nodup_cons.1 hjoins).2 hlater
          (hss.keptJoins ▸ he) (by rwa [hss.shape.edge])
        rwa [hss.shape.edge] at hlink

/-! ## The turns of a join in a save -/

/-- In a save, the child of a kept join has its turn and the owner a later one.  The walk starts
when links were read, and a link to a child that is new then is null. -/
theorem Turns.followedUp {turns : List (Turn σ)} (h : Turns c n w turns v)
    (hf : WellFormed w.state) (hn : w.state.HasNode n)
    (he : e ∈ w.state.keptJoins (w.state.below n)) (hown : w.state.Unshared e) :
    ∃ (s : World σ Forest) (turn owner : Turn σ), [turn, owner].Sublist turns ∧
      FollowedUp c s.state e turn owner v.state ∧ Learns w.state s.state ∧
      (s.state.isNew (w.state.childOf e) = true →
        (s.state.cell (w.state.edge e).link).value = .null) := by
  cases h with
  | @intro r s t _ below hdel hread hresolve hbelow hnode =>
    have hb := hangs_below hf n
    have hjoins := nodup_joins_below hf n
    have hr := (consults_readLinks c n hf).of_perform hread
    have hsr := hr.learns.steady
    have hs := (consults_resolveBelow c _ (hsr.wellFormed hf)
      (hsr.shape.hangs hb)).of_perform hresolve
    have hlearns := hr.learns.trans hs.learns
    have hss := hlearns.steady
    have hfs := hss.wellFormed hf
    obtain ⟨hedge, hkept, -⟩ := kept_spec hf hb he
    have hnull : s.state.isNew (w.state.childOf e) = true →
        (s.state.cell (w.state.edge e).link).value = .null := fun hnew => by
      have hlink := link_null_of_kept (hsr.wellFormed hf) (hsr.shape.hangs hb) hjoins hresolve
        (hsr.keptJoins ▸ he) (by rwa [hsr.shape.edge])
      rwa [hsr.shape.edge] at hlink
    have hst := hss.trans (hbelow.saved.reaches hfs (hss.shape.hangs hb)).2.1
    have hreach := ((savedNode_of_perform hnode).reaches (hst.wellFormed hf)
      ((hst.shape.hasNode n).2 hn)).2
    have hstay {d : CellId} (hd : (w.state.cell d).owner ≠ n) :
        v.state.cell d = t.state.cell d :=
      hreach.cell (by rwa [hst.shape.owner, List.mem_singleton])
    have hkeyOwner := hf.owner_key (hf.hasChild hedge)
    have hlinkOwner := hf.owner_link hedge
    have hne {m : NodeId} (hm : m ∈ (w.state.below n).preOrder) : m ≠ n := fun h =>
      not_mem_below hf n (h ▸ hm)
    have hkey : v.state.cell (s.state.node (s.state.childOf e)).key =
        t.state.cell (s.state.node (s.state.childOf e)).key := by
      rw [hss.shape.childOf, hss.shape.key]
      exact hstay (hkeyOwner.symm ▸ hne (childOf_mem_preOrder hb he))
    by_cases htop : e ∈ (w.state.below n).joins
    · have howner := hf.owner_of_edge (edges_of_joins hb htop)
      obtain ⟨turn, hturn, hfollowed⟩ := hbelow.followed hfs (hss.shape.hangs hb) hjoins htop
        (by rwa [hss.shape.childOf, hss.deleted]) fun e' he' hlink => by
          rw [hss.shape.edge, hss.shape.edge] at hlink
          exact hown e' (by rwa [howner, ← joins_below hf]) hlink
      exact ⟨s, turn, ⟨n, t, v⟩, (List.singleton_sublist.2 hturn).append (List.Sublist.refl _),
        ⟨hfollowed, by rw [hss.shape.edge, howner], (hbelow.saved.reaches hfs
          (hss.shape.hangs hb)).2.1, ⟨true, hnode⟩, rfl, hkey.trans hfollowed.key⟩, hlearns, hnull⟩
    · obtain ⟨turn, owner, hturns, hfollowed⟩ := hbelow.followedUp hfs (hss.shape.hangs hb) hjoins
        (by rwa [hss.keptJoins]) htop fun e' he' hlink => by
          rw [hss.shape.edge, hss.shape.edges] at he'
          rw [hss.shape.edge, hss.shape.edge] at hlink
          exact hown e' he' hlink
      have howner := (mem_joins_or_owner hf hb he).resolve_left htop
      refine ⟨s, turn, owner, hturns.trans (List.sublist_append_left _ _),
        hfollowed.of_end ?_ hkey, hlearns, hnull⟩
      rw [hss.shape.edge]
      exact hstay (hlinkOwner.symm ▸ hne howner)

/-! ## Insertions -/

/-- The columns that a statement writes, with their values. -/
def Statement.fields : Statement → List (String × Value)
  | .insert _ fields | .update _ fields _ => fields
  | .select .. | .delete .. => []

/-- Does a record that is saved with `root` get an insertion at its turn? -/
def Turn.inserts (root : NodeId) (turn : Turn σ) : Bool :=
  match turn.statement? root with
  | some (.insert _ _) => true
  | _ => false

theorem Turn.isNew_of_inserts {root : NodeId} {turn : Turn σ} (h : turn.inserts root = true) :
    turn.before.state.isNew turn.node = true := by
  unfold inserts statement? at h
  dsimp only at h
  by_contra hnew
  rw [if_neg hnew] at h
  split at h
  · rename_i heq
    split at heq <;> cases heq
  · cases h

/-- What is assigned at a turn is in the statement. -/
theorem Turn.exists_statement {root : NodeId} {turn : Turn σ} {field : String × Value}
    (h : field ∈ turn.before.state.assignedFields turn.node) :
    ∃ statement, turn.statement? root = some statement ∧ field ∈ statement.fields := by
  have hne : turn.before.state.assignedFields turn.node ≠ [] := List.ne_nil_of_mem h
  unfold statement?
  dsimp only
  by_cases hnew : turn.before.state.isNew turn.node = true
  · rw [if_pos hnew, if_neg fun hnil => hne hnil.1]
    exact ⟨_, rfl, h⟩
  · rw [if_neg hnew, if_neg hne]
    exact ⟨_, rfl, h⟩

theorem Followed.steady_after {f g : Forest} {turn : Turn σ} (hf : WellFormed f)
    (he : f.HasEdge e) (h : Followed c f e turn g) : Steady f turn.after.state := by
  have hhas : turn.before.state.HasNode turn.node := by
    rw [h.node]
    exact (h.steady.shape.hasNode _).2 (hf.hasChild he)
  exact h.steady.trans
    ((savedNode_of_perform h.performed).reaches (h.steady.wellFormed hf) hhas).2.toSteady

theorem Followed.inserted {f g : Forest} {turn : Turn σ} {root : NodeId} (hf : WellFormed f)
    (he : f.HasEdge e) (hroot : f.childOf e ≠ root) (h : Followed c f e turn g)
    (hins : turn.inserts root = true) :
    ∃ p count, turn.after.log = turn.before.log ++ [.execute p (.ok count),
        .lastIdentifier (.ok (turn.after.state.keyValue (f.childOf e)))] ∧
      turn.after.state.keyValue (f.childOf e) ≠ .null ∧
      turn.after.state.isNew (f.childOf e) = false := by
  have hwf := h.steady.wellFormed hf
  have hhas := (h.steady.shape.hasNode _).2 (hf.hasChild he)
  have hsaved := savedNode_of_perform h.performed
  rw [h.node] at hsaved
  cases hplan : turn.before.state.planSave? (f.childOf e) false with
  | none =>
    rw [Turn.inserts, Turn.statement?_eq, Turn.write?, h.node, beq_false_of_ne hroot, hplan] at hins
    cases hins
  | some write =>
    rw [hplan] at hsaved
    rcases planSave?_eq_some hplan with ⟨fields, -, rfl⟩ | ⟨fields, hbound, -, rfl⟩
    · cases hsaved with
      | write _ hran =>
        obtain ⟨p, count, -, hinserted⟩ := hran.inserted hwf hhas
        exact ⟨p, count, hinserted⟩
    · have hnew := Turn.isNew_of_inserts hins
      rw [h.node] at hnew
      exact absurd (hnew.symm.trans hbound) (by decide)

/-! ## The end of a save -/

section

variable {f g : Forest} {turn owner : Turn σ}

/-- The child has the key that it had after its turn. -/
theorem FollowedUp.key_child_after (hf : WellFormed f) (he : f.HasEdge e)
    (h : FollowedUp c f e turn owner g) (hg : SameShape f g) :
    g.keyValue (f.childOf e) = turn.after.state.keyValue (f.childOf e) ∧
      g.isNew (f.childOf e) = turn.after.state.isNew (f.childOf e) := by
  rw [keyValue, keyValue, isNew, isNew, hg.key, (h.child.steady_after hf he).shape.key, h.key]
  exact ⟨rfl, rfl⟩

/-- The turn of the owner moves the link to storage. -/
theorem FollowedUp.value_link (hf : WellFormed f) (he : f.HasEdge e)
    (hk : (f.cell (f.edge e).link).isKey = false) (h : FollowedUp c f e turn owner g) :
    (g.cell (f.edge e).link).value = (owner.before.state.cell (f.edge e).link).value := by
  obtain ⟨direct, hperformed⟩ := h.performed
  rw [h.link]
  refine (savedNode_of_perform hperformed).value fun hlink => ?_
  have howner := (h.steady.shape.hasNode _).2 (hf.hasEdgeOwner he)
  have hkey := isKey_key (h.steady.wellFormed hf) howner
  rw [← h.node, ← hlink, h.steady.shape.isKey, hk] at hkey
  cases hkey

/-- The statement for the owner carries what is assigned to the link. -/
theorem FollowedUp.link_carried (root : NodeId) (key : Value) (hf : WellFormed f) (he : f.HasEdge e)
    (hk : (f.cell (f.edge e).link).isKey = false) (h : FollowedUp c f e turn owner g)
    (hassigned : (owner.before.state.cell (f.edge e).link).assigned = some key) :
    ∃ statement, owner.statement? root = some statement ∧
      ((f.cell (f.edge e).link).name, key) ∈ statement.fields := by
  have hshape := h.steady.shape
  refine Turn.exists_statement (List.mem_map.2 ⟨(f.edge e).link, ?_, ?_⟩)
  · rw [← pendingCells, mem_pendingCells, h.node, hshape.cells, hshape.isKey, Cell.isDirty,
      hassigned]
    exact ⟨hf.link_mem he, rfl, hk⟩
  · rw [hshape.name, Cell.value, hassigned]
    rfl

end

/-! ## The save -/

namespace Forest

/-- A link of its own: it is no key, and no other join of the owner goes through it. -/
structure OwnLink (f : Forest) (e : EdgeId) : Prop where
  notKey : (f.cell (f.edge e).link).isKey = false
  unshared : f.Unshared e

/-- From the first forest to the second, a new record whose link is null has found a key. -/
structure Adopts (f g : Forest) (e : EdgeId) : Prop where
  null : (f.cell (f.edge e).link).value = .null
  wasNew : f.isNew (f.childOf e) = true
  isBound : g.isNew (f.childOf e) = false

end Forest

/-- Both ends of a join had their turns, and the link is where it belongs. -/
structure Linked (n : NodeId) (w v : World σ Forest) (e : EdgeId) (turn owner : Turn σ) :
    Prop where
  childTurn : turn.node = w.state.childOf e
  ownerTurn : owner.node = (w.state.edge e).owner
  /-- The link of an inserted record takes the identifier that was reported for it, and the
  statement for the owner carries it. -/
  inserted : turn.inserts n = true → ∃ p count key,
    turn.after.log = turn.before.log ++ [.execute p (.ok count), .lastIdentifier (.ok key)] ∧
      v.state.keyValue (w.state.childOf e) = key ∧
      (v.state.cell (w.state.edge e).link).value = key ∧
      ∃ statement, owner.statement? n = some statement ∧
        ((w.state.cell (w.state.edge e).link).name, key) ∈ statement.fields
  /-- A link that was assigned keeps what was assigned. -/
  assigned : turn.inserts n = false → (w.state.cell (w.state.edge e).link).isDirty = true →
    ¬w.state.Adopts v.state e → (v.state.cell (w.state.edge e).link).value =
      (w.state.cell (w.state.edge e).link).value
  /-- Unless it was assigned null, and the new child has found a key. -/
  adopted : turn.inserts n = false → (w.state.cell (w.state.edge e).link).isDirty = true →
    w.state.Adopts v.state e → (v.state.cell (w.state.edge e).link).value =
      v.state.keyValue (w.state.childOf e)
  /-- Any other link has the key of the child. -/
  clean : (w.state.cell (w.state.edge e).link).isDirty = false →
    v.state.isBound (w.state.childOf e) = true →
      (v.state.cell (w.state.edge e).link).value = v.state.keyValue (w.state.childOf e) ∨
        (v.state.cell (w.state.edge e).link).value.agrees
          (v.state.keyValue (w.state.childOf e)) = true

/-- From the flags of the walk to those before and after the save. -/
theorem FollowedUp.linked {s : World σ Forest} {turn owner : Turn σ} (hf : WellFormed w.state)
    (he : w.state.HasEdge e) (hroot : w.state.childOf e ≠ n) (hown : w.state.OwnLink e)
    (h : FollowedUp c s.state e turn owner v.state) (hlearns : Learns w.state s.state)
    (hnull : s.state.isNew (w.state.childOf e) = true →
      (s.state.cell (w.state.edge e).link).value = .null) (hv : SameShape w.state v.state) :
    Linked n w v e turn owner := by
  have hs := hlearns.steady
  have hfs := hs.wellFormed hf
  have hes := (hs.shape.hasEdge e).2 he
  have hnotKey : (s.state.cell (s.state.edge e).link).isKey = false := by
    rw [hs.shape.edge, hs.shape.isKey, hown.notKey]
  have hbelow : s.state.childOf e ≠ n := by rwa [hs.shape.childOf]
  obtain ⟨hkeyValue, hisNew⟩ := h.key_child_after hfs hes (Eq.trans hv hs.shape.symm)
  have hvalue := h.value_link hfs hes hnotKey
  have hinserted := h.child.inserted hfs hes hbelow
  have hcarried key := h.link_carried n key hfs hes hnotKey
  have hfollow := h.child.link
  have hturn := h.child.node
  have hnode := h.node
  rw [hs.shape.childOf] at hkeyValue hisNew hinserted hturn
  rw [hs.shape.edge] at hvalue hnode hcarried
  rw [hs.shape.edge, hs.shape.childOf] at hfollow
  have hassigned := hlearns.assigned hf hown.notKey
  have hdirty : (s.state.cell (w.state.edge e).link).isDirty =
      (w.state.cell (w.state.edge e).link).isDirty := by
    rw [Cell.isDirty, Cell.isDirty, hassigned]
  have hsame (hd : (w.state.cell (w.state.edge e).link).isDirty = true) :
      (s.state.cell (w.state.edge e).link).value =
        (w.state.cell (w.state.edge e).link).value := by
    obtain ⟨x, hx⟩ := Option.isSome_iff_exists.1 hd
    rw [Cell.value, Cell.value, hassigned, hx]
    rfl
  refine ⟨hturn, hnode, fun hins => ?_, fun _ hd hnot => ?_, fun _ hd hadopts => ?_,
    fun hclean hbound => ?_⟩
  · obtain ⟨p, count, hlog, hkeyNull, hbound⟩ := hinserted hins
    have hnew : s.state.isNew (w.state.childOf e) = true :=
      h.child.steady.wasNew hfs ((hs.shape.hasNode _).2 (hf.hasChild he))
        (hturn ▸ Turn.isNew_of_inserts hins)
    rw [hnew, hbound, Cell.follow_of_null (hnull hnew) hkeyNull] at hfollow
    refine ⟨p, count, _, hlog, hkeyValue, ?_, ?_⟩
    · rw [hvalue, hfollow]
      rfl
    · rw [← hs.shape.name]
      refine hcarried _ ?_
      rw [hfollow]
      rfl
  · rw [hvalue, hfollow, ← hsame hd]
    cases hbound : turn.after.state.isNew (w.state.childOf e) with
    | true => rw [Cell.follow_of_isNew]
    | false =>
      cases hnew : s.state.isNew (w.state.childOf e) with
      | false => rw [Cell.follow_of_assigned (hdirty.trans hd)]
      | true =>
        exact absurd ⟨(hsame hd).symm.trans (hnull hnew), hs.wasNew hf (hf.hasChild he) hnew,
          hisNew.trans hbound⟩ hnot
  · have hnew := hlearns.isNew_of_null hf he hown.notKey hd hadopts.null hadopts.wasNew
    rw [hvalue, hfollow, hkeyValue, ← hisNew, hadopts.isBound, childOf, hnew,
      Cell.value_follow_of_null ((hsame hd).trans hadopts.null)]
  · have hbound : turn.after.state.isNew (w.state.childOf e) = false := by
      rw [isBound, Bool.and_eq_true, Bool.not_eq_true', hisNew] at hbound
      exact hbound.1
    rw [hvalue, hfollow, hkeyValue, hbound]
    exact Cell.value_follow_of_clean (hdirty.trans hclean)

/-- **Where links point after a save.**  In every state that operations lead to, for every
connector: when a save succeeds, every kept join with a link of its own had the turns of its child
and then of its owner, and its link is where it belongs. -/
theorem save_links (hf : Operated w.state) (hn : w.state.HasNode n)
    (h : (save c n).perform w = (.ok (), v)) :
    ∃ turns, Turns c n w turns v ∧ ∀ e ∈ w.state.keptJoins (w.state.below n), w.state.OwnLink e →
      ∃ turn owner, [turn, owner].Sublist turns ∧ Linked n w v e turn owner := by
  have hwf := hf.wellFormed
  obtain ⟨turns, hturns⟩ := save_ok_iff_turns.1 h
  obtain ⟨writes, hsaved, -⟩ := hturns.saved hwf
  refine ⟨turns, hturns, fun e he hown => ?_⟩
  have hb := hangs_below hwf n
  obtain ⟨s, turn, owner, hsub, hfollowed, hlearns, hnull⟩ :=
    hturns.followedUp hwf hn he hown.unshared
  refine ⟨turn, owner, hsub, hfollowed.linked hwf (kept_spec hwf hb he).1 (fun hroot => ?_) hown
    hlearns hnull (hsaved.flushed hwf hn).1.shape⟩
  have hmem := childOf_mem_preOrder hb he
  rw [hroot] at hmem
  exact not_mem_below hwf n hmem

theorem save_links_titled :
    let w : World Nat Forest := ⟨0, [], Forest.titled⟩
    ∃ v turns turn owner, (save Connector.counting ⟨0⟩).perform w = (.ok (), v) ∧
      Turns Connector.counting ⟨0⟩ w turns v ∧ [turn, owner].Sublist turns ∧
      Linked ⟨0⟩ w v ⟨0⟩ turn owner ∧ (v.state.cell (w.state.edge ⟨0⟩).link).value = .int 1 ∧
      v.state.keyValue (w.state.childOf ⟨0⟩) = .int 1 := by
  intro w
  have hsave : (save Connector.counting ⟨0⟩).perform w =
      (.ok (), ((save Connector.counting ⟨0⟩).perform w).2) := Action.perform_eq (by decide +kernel)
  have hopened := Operated.empty.addRoot "table0" "id" (.int 7)
  have hregistered := hopened.registerColumn (n := ⟨0⟩)
    (.join "table1" "id" (.column "table1_id") (.column "title")) (by decide)
  have hf : Operated w.state := hregistered.assign ⟨3⟩ (.text "A")
  obtain ⟨turns, hturns, hlinks⟩ := save_links hf (by decide +kernel) hsave
  obtain ⟨turn, owner, hsub, hlinked⟩ :=
    hlinks ⟨0⟩ (by decide +kernel) ⟨by decide +kernel, by decide +kernel⟩
  exact ⟨_, turns, turn, owner, hsave, hturns, hsub, hlinked, by decide +kernel, by decide +kernel⟩

/-- A record with a row, joined to a new record that is joined on through its own key.  The first
link is assigned null, the record behind the second one has a title. -/
def Forest.unlinked : Forest :=
  let path : Path := .join "table1" "id" (.column "table1_id")
    (.join "table2" "id" (.column "id") (.column "title"))
  let opened := (Forest.empty.addRoot "table0" "id" (.int 7)).2
  (((registerColumn ⟨0⟩ path).perform opened).2.assign ⟨1⟩ .null).assign ⟨4⟩ (.text "A")

/-- An assigned link is lost, though the record that it leads to was not inserted. -/
theorem save_loses_assigned_link :
    let w : World Nat Forest := ⟨0, [], Forest.unlinked⟩
    let e : EdgeId := ⟨0⟩
    ∃ v, Operated w.state ∧ (save Connector.counting ⟨0⟩).perform w = (.ok (), v) ∧
      e ∈ w.state.keptJoins (w.state.below ⟨0⟩) ∧ w.state.OwnLink e ∧
      (w.state.cell (w.state.edge e).link).assigned = some .null ∧
      (w.state.node (w.state.childOf e)).table = "table1" ∧
      executed v.log = [⟨"INSERT INTO \"table2\" (\"title\") VALUES ('A')", []⟩,
        ⟨"UPDATE \"table0\" SET \"table1_id\" = 1 WHERE \"id\" = 7", []⟩] ∧
      (v.state.cell (w.state.edge e).link).value = .int 1 := by
  intro w e
  have hsave : (save Connector.counting ⟨0⟩).perform w =
      (.ok (), ((save Connector.counting ⟨0⟩).perform w).2) := Action.perform_eq (by decide +kernel)
  have hopened := Operated.empty.addRoot "table0" "id" (.int 7)
  have hregistered := hopened.registerColumn (n := ⟨0⟩) (.join "table1" "id" (.column "table1_id")
    (.join "table2" "id" (.column "id") (.column "title"))) (by decide)
  have hf : Operated w.state := (hregistered.assign ⟨1⟩ .null).assign ⟨4⟩ (.text "A")
  exact ⟨_, hf, hsave, by decide +kernel, ⟨by decide +kernel, by decide +kernel⟩,
    by decide +kernel, by decide +kernel, by decide +kernel, by decide +kernel⟩

end LinkedRows
