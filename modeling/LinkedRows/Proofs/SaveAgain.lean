/-
# Saving twice

A save that succeeds leaves nothing assigned at any record that it went through, and none of them
current (`Saved.flushed`).  Saving again is silent, then, unless the second walk finds something to
do at a join: a new child that can take a key from its link by now, an unread link before a child
with changes, or a link that does not hold the key of its child (`Rests`).  The first save can leave
each of these behind: where two joins share a link the later one has the last word, an assigned link
does not follow a child that has a key already, and what is behind a deleted record counts as a
change that no save will ever write.

`save_again_iff` says that this is all: a save that is repeated at once makes no call and changes
nothing exactly if every kept join rests.
-/

import LinkedRows.Proofs.Forest.Kept
import LinkedRows.Proofs.Reachable
import LinkedRows.Proofs.SaveNew

namespace LinkedRows

namespace Forest

/-- Nothing is left to do at a join.  A new child has no key to take, and its link is not to be
read; a child that has a key agrees with its link, unless that was assigned. -/
def Rests (f : Forest) (e : EdgeId) : Prop :=
  (f.isNew (f.edge e).child = true → (f.cell (f.edge e).link).value = .null ∧
    (f.isStale (f.edge e).owner = true → (f.cell (f.edge e).link).isDirty = false →
      f.hasChanges (f.edge e).child = false)) ∧
  f.Agrees e

instance (f : Forest) (e : EdgeId) : Decidable (f.Agrees e) :=
  inferInstanceAs (Decidable (_ ∨ _ ∨ _))

instance (f : Forest) (e : EdgeId) : Decidable (f.Rests e) :=
  inferInstanceAs (Decidable ((_ → _ ∧ (_ → _ → _)) ∧ _))

/-- Every join that a walk from a record goes through rests. -/
def AtRest (f : Forest) (n : NodeId) : Prop := ∀ e ∈ f.keptJoins (f.below n), f.Rests e

instance (f : Forest) (n : NodeId) : Decidable (f.AtRest n) :=
  inferInstanceAs (Decidable (∀ e ∈ _, _))

/-- A record has nothing assigned but its key, and is not current. -/
structure Flushed (f : Forest) (n : NodeId) : Prop where
  pending : f.pendingCells n = []
  notCurrent : (f.node n).current = false

variable {f g : Forest} {n : NodeId} {e : EdgeId}

theorem modifyNode_eq_self {change : Node → Node} (h : change (f.node n) = f.node n) :
    f.modifyNode n change = f := by
  have hnodes : f.nodes.modify n.index change = f.nodes := by
    refine List.ext_getElem? fun i => ?_
    rw [List.getElem?_modify]
    by_cases hi : n.index = i
    · subst hi
      rw [node] at h
      cases hn : f.nodes[n.index]? with
      | none => rfl
      | some m =>
        rw [hn] at h
        simpa using h
    · cases f.nodes[i]? <;> simp [hi]
  rw [modifyNode, hnodes]

/-- A record that is not current is marked in vain. -/
theorem setCurrent_of_notCurrent (h : (f.node n).current = false) : f.setCurrent n false = f := by
  refine modifyNode_eq_self ?_
  cases hn : f.node n
  rw [hn] at h
  cases h
  rfl

/-- A link that does not agree with its child takes its key. -/
theorem followChild_of_not_agrees (h : ¬f.Agrees e) :
    f.followChild e (f.isNew (f.edge e).child) =
      f.modifyCell (f.edge e).link (·.assign (f.keyValue (f.edge e).child)) := by
  unfold Agrees at h
  rw [not_or, not_or, Bool.not_eq_true, Bool.not_eq_true, Bool.not_eq_true] at h
  obtain ⟨hnew, hclean, hagrees⟩ := h
  unfold followChild
  dsimp only
  rw [if_pos (by simp [hnew, hclean, hagrees])]

/-- A link that follows its child becomes assigned, and no column becomes clean. -/
theorem isDirty_followChild {d : CellId} (e : EdgeId) (wasNew : Bool)
    (h : (f.cell d).isDirty = true) : ((f.followChild e wasNew).cell d).isDirty = true := by
  unfold followChild
  dsimp only
  split
  · rw [cell_modifyCell]
    split
    · rfl
    · exact h
  · exact h

end Forest

open Forest

variable {σ : Type} {c : Connector σ} {w v : World σ Forest} {n : NodeId} {writes : List Write}

/-! ## What a save leaves behind -/

/-- Of the columns that are no keys, one that is assigned after a record was saved was assigned
before, and belongs to another record. -/
theorem SavedNode.dirty {direct : Bool} (hf : WellFormed w.state) (hn : w.state.HasNode n)
    (h : SavedNode c n direct w writes v) {d : CellId} (hk : (w.state.cell d).isKey = false)
    (hd : (v.state.cell d).isDirty = true) :
    (w.state.cell d).isDirty = true ∧ (w.state.cell d).owner ≠ n := by
  have hsettled : ((w.state.settle (w.state.pendingCells n)).cell d).isDirty = true →
      (w.state.cell d).isDirty = true ∧ (w.state.cell d).owner ≠ n := by
    intro hd
    rw [cell_settle] at hd
    split at hd
    · cases hd
    · rename_i hmem
      refine ⟨hd, fun howner => hmem ?_⟩
      have hhas : w.state.HasCell d := by
        by_contra hnot
        rw [cell_of_not_hasCell _ hnot] at hd
        cases hd
      exact mem_pendingCells.2 ⟨howner ▸ hf.mem_owner hhas, hd, hk⟩
  cases h with
  | nothing hplan =>
    have hnil := (planSave?_eq_none.1 hplan).1
    refine hsettled ?_
    rw [hnil]
    exact hd
  | write hplan hran =>
    rcases planSave?_eq_some hplan with ⟨fields, -, rfl⟩ | ⟨fields, -, -, rfl⟩
    · cases hran with
      | insert =>
        refine hsettled ?_
        rw [setCurrent, cell_modifyNode, setKey, cell_modifyCell_of_ne] at hd
        · exact hd
        · rintro rfl
          rw [node_settle, isKey_key hf hn] at hk
          cases hk
    · cases hran with
      | update => exact hsettled hd

/-- Saving a record makes no record current, and that record is not current afterwards. -/
theorem SavedNode.notCurrent {direct : Bool} (h : SavedNode c n direct w writes v) {m : NodeId}
    (hm : (v.state.node m).current = true) : (w.state.node m).current = true ∧ m ≠ n := by
  have hmark (f : Forest) (hf : f.node m = w.state.node m)
      (hcurrent : ((f.setCurrent n false).node m).current = true) :
      (w.state.node m).current = true ∧ m ≠ n := by
    rw [setCurrent, node_modifyNode] at hcurrent
    split at hcurrent
    · cases hcurrent
    · rename_i hne
      rw [hf] at hcurrent
      refine ⟨hcurrent, ?_⟩
      rintro rfl
      have hnot : ¬f.HasNode m := fun hhas => hne ⟨rfl, hhas⟩
      rw [← hf, node_of_not_hasNode f hnot] at hcurrent
      cases hcurrent
  cases h with
  | nothing => exact hmark _ rfl hm
  | write hplan hran =>
    rcases planSave?_eq_some hplan with ⟨fields, -, rfl⟩ | ⟨fields, -, -, rfl⟩
    · cases hran with
      | insert => exact hmark _ (node_settle ..) hm
    · cases hran with
      | update => exact hmark _ (node_settle ..) hm

/-- After what is behind joins was saved, a column that is no key is assigned only if it was before
and its record was not saved, or if it is a link at the top. -/
theorem SavedBelow.dirty {b : Branches} (h : SavedBelow c b w writes v) (hf : WellFormed w.state)
    (hb : w.state.Hangs n b) {d : CellId} (hk : (w.state.cell d).isKey = false)
    (hd : (v.state.cell d).isDirty = true) :
    ((w.state.cell d).isDirty = true ∧
      ∀ e ∈ w.state.keptJoins b, (w.state.cell d).owner ≠ w.state.childOf e) ∨
    ∃ e ∈ b.joins, (w.state.edge e).link = d := by
  induction h generalizing n with
  | nil => exact Or.inl ⟨hd, fun e he => absurd he List.not_mem_nil⟩
  | deleted hdel _ ih =>
    obtain ⟨-, -, -, -, hnext⟩ := hb
    rw [keptJoins_deleted hdel]
    exact (ih hf hnext hk hd).imp_right fun ⟨e, he, hlink⟩ => ⟨e, List.mem_cons_of_mem _ he, hlink⟩
  | @kept e child below next w u t v _ _ _ hdel hbelow hnode hlater ihBelow ihNext =>
    obtain ⟨he, rfl, -, hhang, hnext⟩ := hb
    obtain ⟨hs₁, hs₂, hs₃⟩ := hbelow.steady_child hnode hf he rfl hhang
    have hlaterDirty := ihNext (hs₃.wellFormed hf) (hs₃.shape.hangs hnext)
      ((hs₃.shape.isKey d).trans hk) hd
    simp only [World.withState, hs₃.shape.owner, hs₃.shape.childOf, hs₃.shape.edge,
      hs₃.keptJoins] at hlaterDirty
    rcases hlaterDirty with ⟨hd, houtNext⟩ | ⟨e', he', hlink⟩
    · by_cases hlink : d = (w.state.edge e).link
      · exact Or.inr ⟨e, List.mem_cons_self .., hlink.symm⟩
      · rw [cell_followChild_of_ne (by rwa [hs₂.shape.edge])] at hd
        obtain ⟨hd, hout⟩ := hnode.dirty (hs₁.wellFormed hf)
          ((hs₁.shape.hasNode _).2 (hf.hasChild (hf.hasEdge he))) ((hs₁.shape.isKey d).trans hk) hd
        rw [hs₁.shape.owner] at hout
        rcases ihBelow hf hhang hk hd with ⟨hd, houtBelow⟩ | ⟨e', he', rfl⟩
        · refine Or.inl ⟨hd, fun e' he' => ?_⟩
          rw [mem_keptJoins_kept hdel] at he'
          rcases he' with rfl | he' | he'
          · exact hout
          · exact houtBelow e' he'
          · exact houtNext e' he'
        · -- A link at the top of what is below belongs to the child, which has been saved.
          have he' := edges_of_joins hhang he'
          exact absurd ((hf.owner_link (hf.hasEdge he')).trans (hf.owner_of_edge he')) hout
    · exact Or.inr ⟨e', List.mem_cons_of_mem _ he', hlink⟩

/-- Saving what is behind joins makes no record current, and none that was saved is afterwards. -/
theorem SavedBelow.notCurrent {b : Branches} (h : SavedBelow c b w writes v)
    (hf : WellFormed w.state) (hb : w.state.Hangs n b) {m : NodeId}
    (hm : (v.state.node m).current = true) : (w.state.node m).current = true ∧
      ∀ e ∈ w.state.keptJoins b, m ≠ w.state.childOf e := by
  induction h generalizing n with
  | nil => exact ⟨hm, fun e he => absurd he List.not_mem_nil⟩
  | deleted hdel _ ih =>
    obtain ⟨-, -, -, -, hnext⟩ := hb
    rw [keptJoins_deleted hdel]
    exact ih hf hnext hm
  | @kept e child below next w u t v _ _ _ hdel hbelow hnode hlater ihBelow ihNext =>
    obtain ⟨he, rfl, -, hhang, hnext⟩ := hb
    obtain ⟨-, -, hs₃⟩ := hbelow.steady_child hnode hf he rfl hhang
    have hlaterCurrent := ihNext (hs₃.wellFormed hf) (hs₃.shape.hangs hnext) hm
    simp only [World.withState, hs₃.shape.childOf, hs₃.keptJoins] at hlaterCurrent
    obtain ⟨hm, houtNext⟩ := hlaterCurrent
    have hfollow : (t.state.followChild e (w.state.isNew (w.state.childOf e))).node m =
        t.state.node m := by
      unfold followChild
      dsimp only
      split <;> rfl
    rw [hfollow] at hm
    obtain ⟨hm, hout⟩ := hnode.notCurrent hm
    obtain ⟨hm, houtBelow⟩ := ihBelow hf hhang hm
    refine ⟨hm, fun e' he' => ?_⟩
    rw [mem_keptJoins_kept hdel] at he'
    rcases he' with rfl | he' | he'
    · exact hout
    · exact houtBelow e' he'
    · exact houtNext e' he'

/-- A record that is saved itself has a row afterwards. -/
theorem SavedNode.isNew_of_direct (hf : WellFormed w.state) (hn : w.state.HasNode n)
    (h : SavedNode c n true w writes v) : v.state.isNew n = false := by
  cases h with
  | nothing hplan =>
    have hbound : w.state.isNew n = false := by
      by_contra hnew
      exact absurd ((planSave?_eq_none.1 hplan).2 (Bool.not_eq_false _ ▸ hnew)) (by decide)
    exact (steady_setCurrent w.state n false).isNew hf hn hbound
  | write hplan hran =>
    have hsteady := (hran.reaches hf hn hplan).2.toSteady
    rcases planSave?_eq_some hplan with ⟨fields, -, rfl⟩ | ⟨fields, hbound, -, rfl⟩
    · cases hran with
      | insert => exact isNew_inserted hf hn _
    · exact hsteady.isNew hf hn hbound

/-- The phases of a save: it asks, saves what is behind the joins and then the record. -/
theorem Saved.phases (hf : WellFormed w.state) (hn : w.state.HasNode n)
    (h : Saved c n w writes v) : (w.state.node n).deleted = false ∧ ∃ s t below own,
      Steady w.state s.state ∧ SavedBelow c (w.state.below n) s below t ∧
      Steady w.state t.state ∧ SavedNode c n true t own v ∧ Steady w.state v.state := by
  cases h with
  | @intro r s t _ below own hdel hread hresolve hbelow hnode =>
    have hb := hangs_below hf n
    have hr := (consults_readLinks c n hf).of_perform hread
    have hs₁ := hr.learns.steady
    have hs := (consults_resolveBelow c _ (hs₁.wellFormed hf)
      (hs₁.shape.hangs hb)).of_perform hresolve
    have hs₂ : Steady w.state s.state := hs₁.trans hs.learns.steady
    have hs₃ := hs₂.trans (hbelow.reaches (hs₂.wellFormed hf) (hs₂.shape.hangs hb)).2.1
    have hs₄ := (hnode.reaches (hs₃.wellFormed hf) ((hs₃.shape.hasNode n).2 hn)).2.toSteady
    exact ⟨hdel, s, t, below, own, hs₂, hbelow, hs₃, hnode, hs₃.trans hs₄⟩

/-- **What a save leaves behind.**  The saved record has a row, and neither it nor any record that
the save went through has anything assigned but its key, or is current. -/
theorem Saved.flushed (hf : WellFormed w.state) (hn : w.state.HasNode n)
    (h : Saved c n w writes v) : Steady w.state v.state ∧ v.state.isNew n = false ∧
      ∀ m, v.state.Passed n m → v.state.Flushed m := by
  obtain ⟨-, s, t, below, own, hs₂, hbelow, hs₃, hnode, hs₄⟩ := h.phases hf hn
  have hb := hangs_below hf n
  have hfs := hs₂.wellFormed hf
  have hbs := hs₂.shape.hangs hb
  have hft := hs₃.wellFormed hf
  have hnt := (hs₃.shape.hasNode n).2 hn
  refine ⟨hs₄, hnode.isNew_of_direct hft hnt, fun m hm => ⟨?_, ?_⟩⟩
  · refine List.eq_nil_iff_forall_not_mem.2 fun d hd => ?_
    obtain ⟨hmem, hdirty, hk⟩ := mem_pendingCells.1 hd
    have hmem : d ∈ (w.state.node m).cells := hs₄.shape.cells m ▸ hmem
    have hk : (w.state.cell d).isKey = false := (hs₄.shape.isKey d).symm.trans hk
    obtain ⟨hd, hroot⟩ := hnode.dirty hft hnt ((hs₃.shape.isKey d).trans hk) hdirty
    rw [hs₃.shape.owner, hf.owner_of_mem hmem] at hroot
    rcases hbelow.dirty hfs hbs ((hs₂.shape.isKey d).trans hk) hd with ⟨-, hout⟩ | ⟨e, he, rfl⟩
    · rw [hs₂.shape.owner, hf.owner_of_mem hmem, hs₂.keptJoins] at hout
      rcases (hs₄.passed_iff n m).1 hm with rfl | ⟨e, he, rfl⟩
      · exact hroot rfl
      · exact hout e he (hs₂.shape.childOf e).symm
    · -- A link at the top belongs to the record itself, which was saved last.
      have he := edges_of_joins hb he
      rw [hs₂.shape.edge] at hmem
      exact hroot ((hf.owner_of_mem hmem).symm.trans
        ((hf.owner_link (hf.hasEdge he)).trans (hf.owner_of_edge he)))
  · refine Bool.not_eq_true _ ▸ fun hcurrent => ?_
    obtain ⟨hcurrent, hroot⟩ := hnode.notCurrent hcurrent
    obtain ⟨-, hout⟩ := hbelow.notCurrent hfs hbs hcurrent
    rcases (hs₄.passed_iff n m).1 hm with rfl | ⟨e, he, rfl⟩
    · exact hroot rfl
    · exact hout e (by rwa [hs₂.keptJoins]) (hs₂.shape.childOf e).symm

/-! ## Where every join rests -/

theorem unreadLinks_of_rests {f : Forest} (hf : WellFormed f) {m : NodeId}
    (h : ∀ e ∈ (f.node m).edges, (f.node (f.edge e).child).deleted = false → f.Rests e) :
    f.unreadLinks m = [] := by
  refine List.eq_nil_iff_forall_not_mem.2 fun d hd => ?_
  obtain ⟨hstale, e, he, rfl, hnew, hdel, hclean, hchanges⟩ := mem_unreadLinks_iff.1 hd
  have hquiet := ((h e he hdel).1 hnew).2 (by rwa [hf.owner_of_edge he]) hclean
  rw [hchanges] at hquiet
  cases hquiet

theorem seedChild_of_rests {f : Forest} {e : EdgeId} (h : f.Rests e) : f.seedChild e = f := by
  cases hnew : f.isNew (f.edge e).child with
  | false => exact seedChild_of_bound hnew
  | true => exact seedChild_of_null (h.1 hnew).1

theorem readLinks_of_unread_nil (h : w.state.unreadLinks n = []) :
    (readLinks c n).perform w = (.ok (), w) := by
  rw [readLinks, Action.perform_state_bind, h]
  rfl

/-- Where the joins rest, resolving does nothing. -/
theorem resolveBelow_of_rests (b : Branches) (hf : WellFormed w.state) (hb : w.state.Hangs n b)
    (h : ∀ e ∈ w.state.keptJoins b, w.state.Rests e) :
    (resolveBelow c b).perform w = (.ok (), w) := by
  induction b generalizing n with
  | nil => rfl
  | cons e child below next ihBelow ihNext =>
    obtain ⟨he, rfl, rfl, hhang, hnext⟩ := hb
    cases hdel : (w.state.node (w.state.childOf e)).deleted with
    | true =>
      rw [keptJoins_deleted hdel] at h
      rw [perform_resolveBelow_deleted hdel]
      exact ihNext hnext h
    | false =>
      rw [keptJoins_kept hdel, List.cons_append] at h
      obtain ⟨hself, h⟩ := List.forall_mem_cons.1 h
      have hbelow := fun e' he' => h e' (List.mem_append_left _ he')
      have hunread : w.state.unreadLinks (w.state.childOf e) = [] :=
        unreadLinks_of_rests hf fun e' he' hdel' => hbelow e' (mem_keptJoins_below hf he' hdel')
      rw [perform_resolveBelow_kept hdel, seedChild_of_rests hself]
      show (readLinks c (w.state.childOf e) >>= fun _ => _).perform w = _
      rw [Action.perform_bind_ok (readLinks_of_unread_nil hunread),
        Action.perform_bind_ok (ihBelow hhang hbelow)]
      exact ihNext hnext fun e' he' => h e' (List.mem_append_right _ he')

/-- A flushed record is saved by nothing. -/
theorem savedNode_of_flushed {direct : Bool} (h : w.state.Flushed n)
    (hdirect : w.state.isNew n = true → direct = false) : SavedNode c n direct w [] w := by
  have hsaved : SavedNode c n direct w [] (w.withState (w.state.setCurrent n false)) :=
    .nothing (planSave?_eq_none.2 ⟨h.pending, hdirect⟩)
  rwa [setCurrent_of_notCurrent h.notCurrent] at hsaved

theorem savedBelow_of_rests (b : Branches) (hb : w.state.Hangs n b)
    (h : ∀ e ∈ w.state.keptJoins b, w.state.Rests e ∧ w.state.Flushed (w.state.childOf e)) :
    SavedBelow c b w [] w := by
  induction b generalizing n with
  | nil => exact .nil
  | cons e child below next ihBelow ihNext =>
    obtain ⟨-, rfl, -, hhang, hnext⟩ := hb
    cases hdel : (w.state.node (w.state.childOf e)).deleted with
    | true =>
      rw [keptJoins_deleted hdel] at h
      exact .deleted hdel (ihNext hnext h)
    | false =>
      rw [keptJoins_kept hdel, List.cons_append] at h
      obtain ⟨⟨hrests, hflushed⟩, h⟩ := List.forall_mem_cons.1 h
      refine .kept hdel (ihBelow hhang fun e' he' => h e' (List.mem_append_left _ he'))
        (savedNode_of_flushed hflushed fun _ => rfl) ?_
      have hfollow : w.state.followChild e (w.state.isNew (w.state.childOf e)) = w.state :=
        followChild_of_agrees hrests.2
      rw [hfollow]
      exact ihNext hnext fun e' he' => h e' (List.mem_append_right _ he')

/-! ## Saves that change nothing -/

/-- Reading columns that adds nothing to the log read nothing. -/
theorem readCells_silent {cells : List CellId} (h : (readCells c n cells).perform w = (.ok (), v))
    (hlog : v.log = w.log) : cells = [] ∧ v = w := by
  by_cases hcells : cells = []
  · subst hcells
    rw [readCells_nil] at h
    exact ⟨rfl, (Prod.mk.inj h).2.symm⟩
  have hasked {p : Prepared} {g : Forest} (hv : (w.asked c p).withState g = v) : False := by
    rw [← hv] at hlog
    exact absurd hlog (by simp [World.asked, World.withState])
  cases hp : (w.state.selection n cells).prepare c.dialect with
  | error e =>
    rw [readCells_of_unprepared hcells hp] at h
    cases (Prod.mk.inj h).1
  | ok p =>
    cases hq : (c.query p w.store).1 with
    | error e =>
      rw [readCells_of_refused hcells hp hq] at h
      cases (Prod.mk.inj h).1
    | ok rows =>
      rw [readCells_of_answered hcells hp hq] at h
      exact (hasked (Prod.mk.inj h).2).elim

theorem readLinks_silent (h : (readLinks c n).perform w = (.ok (), v)) (hlog : v.log = w.log) :
    w.state.unreadLinks n = [] ∧ v = w := by
  rw [readLinks, Action.perform_state_bind] at h
  exact readCells_silent h hlog

theorem log_antisymm {l₁ l₂ : List Exchange} (h : l₁ <+: l₂) (h' : l₂ <+: l₁) : l₁ = l₂ :=
  h.eq_of_length (Nat.le_antisymm h.length_le h'.length_le)

/-- Resolving that makes no call and gives no record a key does nothing: each new child has a null
link, and no link is unread. -/
theorem resolveBelow_silent (b : Branches) (hf : WellFormed w.state) (hb : w.state.Hangs n b)
    (h : (resolveBelow c b).perform w = (.ok (), v)) (hlog : v.log = w.log)
    (hnew : ∀ m, w.state.HasNode m → w.state.isNew m = true → v.state.isNew m = true) :
    v = w ∧ ∀ e ∈ w.state.keptJoins b, (w.state.isNew (w.state.edge e).child = true →
        (w.state.cell (w.state.edge e).link).value = .null) ∧
      w.state.unreadLinks (w.state.edge e).child = [] := by
  induction b generalizing n v with
  | nil => exact ⟨(Prod.mk.inj h).2.symm, fun e he => absurd he List.not_mem_nil⟩
  | cons e child below next ihBelow ihNext =>
    obtain ⟨he, rfl, rfl, hhang, hnext⟩ := hb
    cases hdel : (w.state.node (w.state.childOf e)).deleted with
    | true =>
      rw [perform_resolveBelow_deleted hdel] at h
      rw [keptJoins_deleted hdel]
      exact ihNext hnext h hlog hnew
    | false =>
      have hedge := hf.hasEdge he
      rw [perform_resolveBelow_kept hdel] at h
      obtain ⟨⟨⟩, r, hread, h⟩ := Action.perform_bind_eq_ok.1 h
      obtain ⟨⟨⟩, u, hdeeper, hlater⟩ := Action.perform_bind_eq_ok.1 h
      have hs₀ : Steady w.state (w.withState (w.state.seedChild e)).state := steady_seedChild ..
      have hr := (consults_readLinks c (w.state.childOf e) (hs₀.wellFormed hf)).of_perform hread
      have hs₁ := hs₀.trans hr.learns.steady
      have hu := (consults_resolveBelow c _ (hs₁.wellFormed hf)
        (hs₁.shape.hangs hhang)).of_perform hdeeper
      have hs₂ := hs₁.trans hu.learns.steady
      have hv := (consults_resolveBelow c _ (hs₂.wellFormed hf)
        (hs₂.shape.hangs hnext)).of_perform hlater
      have hlast : u.log <+: w.log := hlog ▸ hv.asks.goesOn
      have hlogr : r.log = w.log := log_antisymm (hu.asks.goesOn.trans hlast) hr.asks.goesOn
      -- A child that took a key would have it in the end.
      have hback {g : Forest} (hg : WellFormed g) (hgs : SameShape w.state g)
          (hgv : Steady g v.state) {m : NodeId} (hm : w.state.HasNode m)
          (h : w.state.isNew m = true) : g.isNew m = true :=
        hgv.wasNew hg ((hgs.hasNode m).2 hm) (hnew m hm h)
      have hnull : w.state.isNew (w.state.edge e).child = true →
          (w.state.cell (w.state.edge e).link).value = .null := by
        intro hchild
        by_contra hvalue
        have hseeded := isNew_seedChild hf hedge hvalue
        have hstill := hback (hs₀.wellFormed hf) hs₀.shape
          (hr.learns.steady.trans (hu.learns.steady.trans hv.learns.steady))
          (hf.hasChild hedge) hchild
        exact absurd (hseeded.symm.trans hstill) Bool.false_ne_true
      have hseed : w.state.seedChild e = w.state := by
        cases hchild : w.state.isNew (w.state.edge e).child with
        | false => exact seedChild_of_bound hchild
        | true => exact seedChild_of_null (hnull hchild)
      have hself : w.withState (w.state.seedChild e) = w := by rw [hseed]; rfl
      rw [hself] at hread
      obtain ⟨hunread, rfl⟩ := readLinks_silent hread hlogr
      obtain ⟨rfl, hbelow⟩ := ihBelow hhang hdeeper (log_antisymm hlast hu.asks.goesOn)
        fun m hm h => hback (hs₂.wellFormed hf) hs₂.shape hv.learns.steady hm h
      obtain ⟨rfl, hnexts⟩ := ihNext hnext hlater hlog hnew
      refine ⟨rfl, fun e' he' => ?_⟩
      rw [mem_keptJoins_kept hdel] at he'
      rcases he' with rfl | he' | he'
      · exact ⟨hnull, hunread⟩
      · exact hbelow e' he'
      · exact hnexts e' he'

/-- Saving without a write leaves assigned columns assigned. -/
theorem SavedBelow.stillDirty {b : Branches} (h : SavedBelow c b w writes v) (hnil : writes = [])
    {d : CellId} (hd : (w.state.cell d).isDirty = true) : (v.state.cell d).isDirty = true := by
  induction h with
  | nil => exact hd
  | deleted _ _ ih => exact ih hnil hd
  | @kept e child _ _ w u t _ _ _ _ _ _ hnode _ ihBelow ihNext =>
    rw [List.append_eq_nil_iff, List.append_eq_nil_iff] at hnil
    obtain ⟨⟨rfl, rfl⟩, rfl⟩ := hnil
    obtain ⟨-, rfl⟩ := hnode.of_nil
    exact ihNext rfl (isDirty_followChild e _ (ihBelow rfl hd))

/-- Saving without a write that assigns no column changes no column: each link agrees with its
child. -/
theorem SavedBelow.silent {b : Branches} (h : SavedBelow c b w writes v) (hnil : writes = [])
    (hf : WellFormed w.state) (hb : w.state.Hangs n b)
    (hclean : ∀ d, (v.state.cell d).isDirty = true → (w.state.cell d).isDirty = true) :
    (∀ d, v.state.cell d = w.state.cell d) ∧ ∀ e ∈ w.state.keptJoins b, w.state.Agrees e := by
  induction h generalizing n with
  | nil => exact ⟨fun _ => rfl, fun e he => absurd he List.not_mem_nil⟩
  | deleted hdel _ ih =>
    obtain ⟨-, -, -, -, hnext⟩ := hb
    rw [keptJoins_deleted hdel]
    exact ih hnil hf hnext hclean
  | @kept e child below next w u t v deeper own later hdel hbelow hnode hlater ihBelow ihNext =>
    obtain ⟨he, rfl, -, hhang, hnext⟩ := hb
    rw [List.append_eq_nil_iff, List.append_eq_nil_iff] at hnil
    obtain ⟨⟨rfl, rfl⟩, rfl⟩ := hnil
    have hedge := hf.hasEdge he
    obtain ⟨-, rfl⟩ := hnode.of_nil
    have hs₁ := (hbelow.reaches hf hhang).2.1
    have hs₂ := hs₁.trans (steady_setCurrent u.state (w.state.childOf e) false)
    have hafter {d : CellId} (hd : (u.state.cell d).isDirty = true) :
        (w.state.cell d).isDirty = true :=
      hclean d (hlater.stillDirty rfl (isDirty_followChild e _ hd))
    obtain ⟨hcell, hagree⟩ := ihBelow rfl hf hhang fun d hd => hafter hd
    let g := u.state.setCurrent (w.state.childOf e) false
    have hsame : SameShape g w.state := hs₂.shape.symm
    have hnew : g.isNew (g.edge e).child = w.state.isNew (w.state.childOf e) := by
      rw [isNew, isNew, hs₂.shape.edge, hs₂.shape.key]
      exact congrArg (fun x : Cell => !x.isDirty) (hcell _)
    have hself : g.Agrees e := by
      by_contra hnot
      have hlink := hlater.stillDirty rfl (d := (g.edge e).link) (by
        show ((g.followChild e (w.state.isNew (w.state.childOf e))).cell _).isDirty = true
        rw [← hnew, followChild_of_not_agrees hnot,
          cell_modifyCell_self _ ((hs₂.wellFormed hf).hasLink ((hs₂.shape.hasEdge e).2 hedge))]
        rfl)
      refine hnot (Or.inr (Or.inl ?_))
      exact (congrArg Cell.isDirty (hcell _)).trans (hclean _ hlink)
    have hfollow : g.followChild e (w.state.isNew (w.state.childOf e)) = g := by
      rw [← hnew, followChild_of_agrees hself]
    rw [show (u.withState g).state = g from rfl, hfollow] at ihNext
    obtain ⟨hcellNext, hagreeNext⟩ := ihNext rfl (hs₂.wellFormed hf) (hs₂.shape.hangs hnext)
      fun d hd => (congrArg Cell.isDirty (hcell d)).trans (hclean d hd)
    refine ⟨fun d => (hcellNext d).trans (hcell d), fun e' he' => ?_⟩
    rw [mem_keptJoins_kept hdel] at he'
    rcases he' with rfl | he' | he'
    · exact hself.of_cells hsame fun d => (hcell d).symm
    · exact hagree e' he'
    · have hnextAgrees : g.Agrees e' := hagreeNext e' (by
        show e' ∈ g.keptJoins next
        rwa [hs₂.keptJoins])
      exact hnextAgrees.of_cells hsame fun d => (hcell d).symm

/-! ## The second save -/

/-- Of a flushed record with a row, the save makes no call and changes nothing exactly if every kept
join rests. -/
theorem save_silent_iff (hf : WellFormed w.state) (hn : w.state.HasNode n)
    (hdel : (w.state.node n).deleted = false) (hbound : w.state.isNew n = false)
    (hflushed : ∀ m, w.state.Passed n m → w.state.Flushed m) :
    (save c n).perform w = (.ok (), w) ↔ w.state.AtRest n := by
  have hb := hangs_below hf n
  constructor
  · intro h
    obtain ⟨writes, hsaved⟩ := save_ok_iff.1 h
    have hnil : writes = [] := (hsaved.executes hf).eq_nil_iff.2 rfl
    cases hsaved with
    | @intro r s t _ below own _ hread hresolve hbelow hnode =>
      rw [List.append_eq_nil_iff] at hnil
      obtain ⟨rfl, rfl⟩ := hnil
      have hr := (consults_readLinks c n hf).of_perform hread
      have hs₁ := hr.learns.steady
      have hs := (consults_resolveBelow c _ (hs₁.wellFormed hf)
        (hs₁.shape.hangs hb)).of_perform hresolve
      have hlog := hbelow.executes.1.trans hnode.executes.1
      obtain ⟨hunread, hread⟩ := readLinks_silent hread
        (log_antisymm (hs.asks.goesOn.trans hlog) hr.asks.goesOn)
      obtain rfl := hread.symm
      have hst := (hbelow.reaches (hs.learns.steady.wellFormed hf)
        (hs.learns.steady.shape.hangs hb)).2.1
      have hs₂ := hs.learns.steady.trans hst
      have hback := hst.trans (hnode.reaches (hs₂.wellFormed hf)
        ((hs₂.shape.hasNode n).2 hn)).2.toSteady
      obtain ⟨hresolve, hresolved⟩ := resolveBelow_silent _ hf hb hresolve
        (log_antisymm hlog hs.asks.goesOn) fun m hm hnew =>
          hback.wasNew (hs.learns.steady.wellFormed hf)
            ((hs.learns.steady.shape.hasNode m).2 hm) hnew
      obtain rfl := hresolve.symm
      obtain ⟨-, hmarked⟩ := hnode.of_nil
      have hagree := (hbelow.silent rfl hf hb fun d hd => by
        rwa [congrArg (fun x : World σ Forest => x.state.cell d) hmarked]).2
      intro e he
      refine ⟨fun hnew => ⟨(hresolved e he).1 hnew, fun hstale hclean => ?_⟩, hagree e he⟩
      obtain ⟨hedge, hkept, howner⟩ := kept_spec hf hb he
      by_contra hchanges
      have hmem : (w.state.edge e).link ∈ w.state.unreadLinks (w.state.edge e).owner :=
        mem_unreadLinks_iff.2 ⟨hstale, e, hf.mem_edges hedge, rfl, hnew, hkept, hclean,
          Bool.not_eq_false _ ▸ hchanges⟩
      have hnone : w.state.unreadLinks (w.state.edge e).owner = [] := by
        rcases howner with howner | ⟨e', he', howner⟩
        · rw [howner, hunread]
        · rw [← howner]
          exact (hresolved e' he').2
      rw [hnone] at hmem
      exact absurd hmem List.not_mem_nil
  · intro h
    have hunread : w.state.unreadLinks n = [] := unreadLinks_of_rests hf fun e he hdel =>
      h e (mem_keptJoins_below hf he hdel)
    have hbelow := savedBelow_of_rests (c := c) _ hb fun e he =>
      ⟨h e he, hflushed _ (Or.inr ⟨e, he, rfl⟩)⟩
    have hnode : SavedNode c n true w [] w := savedNode_of_flushed (hflushed n (Or.inl rfl))
      fun hnew => absurd (hnew.symm.trans hbound) (by decide)
    exact save_ok_iff.2 ⟨[] ++ [], .intro hdel (readLinks_of_unread_nil hunread)
      (resolveBelow_of_rests _ hf hb h) hbelow hnode⟩

namespace Record

variable {r : Record}

theorem save_ok_record_iff {key : Value} : (r.save c).perform w = (.ok key, v) ↔
    (LinkedRows.save c r.root).perform w = (.ok (), v) ∧ key = v.state.keyValue r.root := by
  rw [save, Action.perform_bind_eq_ok]
  constructor
  · rintro ⟨⟨⟩, u, hsave, h⟩
    obtain ⟨hkey, rfl⟩ := Prod.mk.inj h
    exact ⟨hsave, (Except.ok.inj hkey).symm⟩
  · rintro ⟨hsave, rfl⟩
    exact ⟨(), v, hsave, rfl⟩

/-- **A save that is repeated at once is silent exactly if every kept join rests.**  In every
reachable state, for every connector: if a save succeeds, the next one has the same result, makes no
call and changes nothing if and only if, after the first one, no join on the ways down that meet no
deleted record leads to a new child that could take a key from its link, or whose unread link hides
changes, or to a child whose key the link does not hold. -/
theorem save_again_iff (hreach : Reachable c r w) {key : Value}
    (h : (r.save c).perform w = (.ok key, v)) :
    (r.save c).perform v = (.ok key, v) ↔ v.state.AtRest r.root := by
  obtain ⟨hf, hn⟩ := hreach.consistent
  obtain ⟨hsave, rfl⟩ := save_ok_record_iff.1 h
  obtain ⟨writes, hsaved⟩ := save_ok_iff.1 hsave
  have hwf := hf.toWellFormed
  obtain ⟨hs, hbound, hflushed⟩ := hsaved.flushed hwf hn
  have hdel : (v.state.node r.root).deleted = false := by
    rw [hs.deleted]
    exact (hsaved.phases hwf hn).1
  rw [save_ok_record_iff, and_iff_left rfl]
  exact save_silent_iff (hs.wellFormed hwf) ((hs.shape.hasNode _).2 hn) hdel hbound hflushed

/-! ## Links of their own and a shared one -/

/-- A new record is joined to two others, and both of these get a title. -/
def titleBoth (first second : String) : List Request :=
  [.register first, .register second, .set first (.text "A"), .set second (.text "B")]

/-- With a link for each joined record, the second save is silent. -/
theorem save_again_own_links :
    let opened := Record.create "table0" none none .standard
    let c := Connector.counting
    let w := opened.1.after c (titleBoth "table1.title" "table2.title") ⟨0, [], opened.2⟩
    ∃ v, (opened.1.save c).perform w = (.ok (.int 3), v) ∧
      (opened.1.save c).perform v = (.ok (.int 3), v) ∧ executed v.log =
        [⟨"INSERT INTO \"table1\" (\"title\") VALUES ('A')", []⟩,
          ⟨"INSERT INTO \"table2\" (\"title\") VALUES ('B')", []⟩,
          ⟨"INSERT INTO \"table0\" (\"table1_id\", \"table2_id\") VALUES (1, 2)", []⟩] := by
  intro opened c w
  have hreach : Reachable c opened.1 w :=
    (Reachable.create 0 "table0" none none .standard).after
      (titleBoth "table1.title" "table2.title")
  have hsave : (opened.1.save c).perform w = (.ok (.int 3), ((opened.1.save c).perform w).2) :=
    Action.perform_eq (by decide +kernel)
  exact ⟨_, hsave, (save_again_iff hreach hsave).2 (by decide +kernel), by decide +kernel⟩

/-- With one link for both joined records, the second save gives it to the first of them again. -/
theorem save_again_shared_link :
    let opened := Record.create "table0" none none .standard
    let c := Connector.counting
    let w := opened.1.after c (titleBoth "table1[link].title" "table2[link].title")
      ⟨0, [], opened.2⟩
    ∃ v, Reachable c opened.1 w ∧ (opened.1.save c).perform w = (.ok (.int 3), v) ∧
      executed ((opened.1.save c).perform v).2.log = executed v.log ++
        [⟨"UPDATE \"table0\" SET \"link\" = 1 WHERE \"id\" = 3", []⟩] := by
  intro opened c w
  have hreach : Reachable c opened.1 w := (Reachable.create 0 "table0" none none .standard).after
    (titleBoth "table1[link].title" "table2[link].title")
  have hsave : (opened.1.save c).perform w = (.ok (.int 3), ((opened.1.save c).perform w).2) :=
    Action.perform_eq (by decide +kernel)
  exact ⟨_, hreach, hsave, by decide +kernel⟩

end Record
end LinkedRows
