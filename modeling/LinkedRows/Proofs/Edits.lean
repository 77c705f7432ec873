/-
# What becomes of edits

An assigned column that is no key has one of three fates while a save goes on.  It stays assigned
with its value; it is the link of a child that was new, and takes the key that the child got; or a
write of its record carries its value, the write is executed, and it is assigned no more
(`Comes.edited`).  A new record gets a key by being inserted, or from a record that is joined
through its own key column (`Comes.gained`).  Both hold at every point of a save, so of saves that
fail as well as of those that succeed.
-/

import LinkedRows.Proofs.Attempts
import LinkedRows.Proofs.SavePoints

namespace LinkedRows

open Forest

/-- The columns that a write carries, with their names and values. -/
def Write.carried : Write → List (CellId × String × Value)
  | .insert _ _ cells fields | .update _ _ _ cells fields => cells.zip fields
  | .delete _ _ _ => []

namespace Forest

variable {f g : Forest} {n : NodeId} {d : CellId}

/-- A record has the key of a record that is joined through its own key column. -/
def KeyClaimed (f : Forest) (n : NodeId) : Prop :=
  ∃ e ∈ (f.node n).edges, (f.edge e).link = (f.node n).key ∧ f.isNew (f.childOf e) = false ∧
    f.keyValue n = f.keyValue (f.childOf e)

theorem KeyClaimed.of_keeps (h : f.KeyClaimed n) (hs : SameShape f g) (hn : KeepsKey f g n)
    (hchild : ∀ e ∈ (f.node n).edges, KeepsKey f g (f.childOf e)) : g.KeyClaimed n := by
  obtain ⟨e, he, hlink, hbound, hkey⟩ := h
  refine ⟨e, by rwa [hs.edges], by rwa [hs.edge, hs.key], ?_, ?_⟩
  · rw [hs.childOf, (hchild e he).isNew, hbound]
  · rw [hs.childOf, hn.keyValue, (hchild e he).keyValue, hkey]

/-- From the first forest to the second, a column keeps its edit, or is a link and has taken the key
of the child. -/
def Held (f g : Forest) (d : CellId) : Prop :=
  g.cell d = f.cell d ∨ ∃ e, f.HasEdge e ∧ (f.edge e).link = d ∧ LinkTakes f g e

theorem LinkTakes.of_end {h : Forest} {e : EdgeId} (ht : LinkTakes f g e)
    (hkey : KeepsKey g h (f.childOf e))
    (hlink : h.cell (f.edge e).link = g.cell (f.edge e).link) : LinkTakes f h e :=
  ⟨hkey.isNew.trans ht.bound, by rw [hlink, ht.cell, hkey.keyValue], ht.wasNew⟩

theorem Held.isDirty (h : f.Held g d) (hd : (f.cell d).isDirty = true) :
    (g.cell d).isDirty = true := by
  rcases h with h | ⟨e, -, rfl, ht⟩
  · rwa [h]
  · rw [ht.cell]
    rfl

theorem Held.of_end {h : Forest} (hh : f.Held g d) (hcell : h.cell d = g.cell d)
    (hkey : ∀ e, f.HasEdge e → (f.edge e).link = d → KeepsKey g h (f.childOf e)) : f.Held h d := by
  rcases hh with hh | ⟨e, he, rfl, ht⟩
  · exact Or.inl (hcell.trans hh)
  · exact Or.inr ⟨e, he, rfl, ht.of_end (hkey e he rfl) hcell⟩

theorem Held.of_start {h : Forest} (hh : g.Held h d) (hs : SameShape f g)
    (hcell : g.cell d = f.cell d)
    (hnew : ∀ e, f.HasEdge e → (f.edge e).link = d →
      g.isNew (f.childOf e) = f.isNew (f.childOf e)) :
    f.Held h d := by
  rcases hh with hh | ⟨e, he, hlink, ht⟩
  · exact Or.inl (hh.trans hcell)
  · rw [hs.edge] at hlink
    rw [hs.hasEdge] at he
    subst hlink
    exact Or.inr ⟨e, he, rfl, ht.of_start hs (hnew e he rfl) (Or.inl hcell)⟩

/-- A join through a column is a join of the record that owns it. -/
theorem mem_edges_of_link (hf : WellFormed f) {e : EdgeId} (he : f.HasEdge e)
    (howner : (f.cell (f.edge e).link).owner = n) : e ∈ (f.node n).edges := by
  rw [← howner, hf.owner_link he]
  exact hf.mem_edges he

/-- A planned write carries the columns that are assigned. -/
theorem mem_carried_planSave? {direct : Bool} {write : Write}
    (h : f.planSave? n direct = some write) (hd : d ∈ f.pendingCells n) :
    (d, (f.cell d).name, (f.cell d).value) ∈ write.carried := by
  have hzip : (d, (f.cell d).name, (f.cell d).value) ∈ (f.pendingCells n).zip
      ((f.pendingCells n).map fun c => ((f.cell c).name, (f.cell c).value)) := by
    rw [← List.map_prod_left_eq_zip]
    exact List.mem_map_of_mem hd
  unfold planSave? at h
  dsimp only at h
  split at h <;> split at h
  · cases h
  · obtain rfl := Option.some.inj h
    exact hzip
  · cases h
  · obtain rfl := Option.some.inj h
    exact hzip

end Forest

variable {σ : Type} {c : Connector σ} {w u t v : World σ Forest} {n m child : NodeId}
  {b below next : Branches} {e : EdgeId} {d : CellId}
  {attempts attempts' : Write → World σ Forest → Prop} {write : Write} {count : Nat} {key : Value}

/-! ## Executed writes -/

/-- One of the writes that were attempted was executed, and touched as many rows as was reported. -/
def ExecutedBy (c : Connector σ) (attempts : Write → World σ Forest → Prop) (write : Write)
    (count : Nat) (v : World σ Forest) : Prop :=
  ∃ u p, attempts write u ∧ write.statement.prepare c.dialect = .ok p ∧
    u.log ++ [.execute p (.ok count)] <+: v.log

/-- One of the writes that were attempted inserted a record, and its identifier was reported. -/
def InsertedBy (c : Connector σ) (attempts : Write → World σ Forest → Prop) (n : NodeId)
    (key : Value) (v : World σ Forest) : Prop :=
  ∃ table cells fields u p count, attempts (.insert n table cells fields) u ∧
    (Statement.insert table fields).prepare c.dialect = .ok p ∧
    u.log ++ [.execute p (.ok count), .lastIdentifier (.ok key)] <+: v.log

/-- A write of its record has carried the value of a column, which is assigned no more. -/
def WrittenBy (c : Connector σ) (attempts : Write → World σ Forest → Prop) (d : CellId)
    (v : World σ Forest) : Prop :=
  (v.state.cell d).isDirty = false ∧ ∃ write count, ExecutedBy c attempts write count v ∧
    write.node = (v.state.cell d).owner ∧
      (d, (v.state.cell d).name, (v.state.cell d).value) ∈ write.carried

theorem ExecutedBy.mono (h : ExecutedBy c attempts write count v)
    (hattempts : ∀ write u, attempts write u → attempts' write u) (hlog : v.log <+: u.log) :
    ExecutedBy c attempts' write count u := by
  obtain ⟨t, p, hattempt, hp, hcall⟩ := h
  exact ⟨t, p, hattempts _ _ hattempt, hp, hcall.trans hlog⟩

theorem InsertedBy.mono (h : InsertedBy c attempts n key v)
    (hattempts : ∀ write u, attempts write u → attempts' write u) (hlog : v.log <+: u.log) :
    InsertedBy c attempts' n key u := by
  obtain ⟨table, cells, fields, t, p, count, hattempt, hp, hcall⟩ := h
  exact ⟨table, cells, fields, t, p, count, hattempts _ _ hattempt, hp, hcall.trans hlog⟩

theorem WrittenBy.mono (h : WrittenBy c attempts d v)
    (hattempts : ∀ write u, attempts write u → attempts' write u) (hlog : v.log <+: u.log)
    (hcell : u.state.cell d = v.state.cell d) : WrittenBy c attempts' d u := by
  obtain ⟨hclean, write, count, hexecuted, hcarried⟩ := h
  rw [← hcell] at hclean hcarried
  exact ⟨hclean, write, count, hexecuted.mono hattempts hlog, hcarried⟩

/-! ## Points where writes are attempted -/

theorem AttemptsBelow.comes (h : AttemptsBelow c b w write u) : Comes c b w u := by
  induction h with
  | deleted hdel _ ih => exact .deleted hdel ih
  | deeper hdel _ ih => exact .deeper hdel ih
  | child hdel hbelow => exact .deeper hdel hbelow.comes
  | later hdel hbelow hnode _ ih => exact .later hdel hbelow hnode ih

theorem node_planSave? {f : Forest} {direct : Bool} (h : f.planSave? n direct = some write) :
    write.node = n := by
  rcases planSave?_eq_some h with ⟨_, -, rfl⟩ | ⟨_, -, -, rfl⟩ <;> rfl

/-- The writes that are attempted are for records behind the joins. -/
theorem AttemptsBelow.node_mem (h : AttemptsBelow c b w write u) : write.node ∈ b.preOrder := by
  induction h with
  | deleted _ _ ih => exact Branches.mem_preOrder_cons.2 (Or.inr (Or.inr ih))
  | deeper _ _ ih => exact Branches.mem_preOrder_cons.2 (Or.inr (Or.inl ih))
  | child _ _ hplan =>
    rw [node_planSave? hplan]
    exact List.mem_cons_self ..
  | later _ _ _ _ ih => exact Branches.mem_preOrder_cons.2 (Or.inr (Or.inr ih))

/-! ## One record -/

/-- A new record that has its turn is inserted, or stays new. -/
theorem SavedNode.gained {direct : Bool} {writes : List Write} (hf : WellFormed w.state)
    (hn : w.state.HasNode n) (h : SavedNode c n direct w writes v) (hnew : w.state.isNew n = true)
    (hbound : v.state.isNew n = false) :
    InsertedBy c (fun write u => w.state.planSave? n direct = some write ∧ u = w) n
      (v.state.keyValue n) v := by
  cases h with
  | nothing =>
    have hkept := (reaches_setCurrent w.state n false).isNew hf hn List.not_mem_nil
    exact absurd (hnew.symm.trans (hkept.symm.trans hbound)) (by decide)
  | write hplan hran =>
    rcases planSave?_eq_some hplan with ⟨fields, -, rfl⟩ | ⟨fields, hnot, -, -⟩
    · obtain ⟨p, count, hp, hlog, -⟩ := hran.inserted hf hn
      exact ⟨_, _, fields, w, p, count, ⟨hplan, rfl⟩, hp, hlog ▸ List.prefix_rfl⟩
    · exact absurd (hnew.symm.trans hnot) (by decide)

/-- A record that is not new keeps its key when it has its turn. -/
theorem SavedNode.keepsKey {direct : Bool} {writes : List Write} (hf : WellFormed w.state)
    (hn : w.state.HasNode n) (h : SavedNode c n direct w writes v)
    (hbound : w.state.isNew n = false) : KeepsKey w.state v.state n := by
  refine (h.reaches hf hn).2.shape.keepsKey ?_
  cases h with
  | nothing => rfl
  | write hplan hran =>
    rcases planSave?_eq_some hplan with ⟨fields, hnew, -⟩ | ⟨fields, -, -, rfl⟩
    · exact absurd (hnew.symm.trans hbound) (by decide)
    · cases hran with
      | update =>
        rw [setCurrent, cell_modifyNode, cell_settle, if_neg]
        intro hmem
        exact absurd ((mem_pendingCells.1 hmem).2.2.symm.trans (isKey_key hf hn)) (by decide)

/-- What is assigned to a record is written at its turn. -/
theorem SavedNode.written {direct : Bool} {writes : List Write} (hf : WellFormed w.state)
    (hn : w.state.HasNode n) (h : SavedNode c n direct w writes v)
    (hd : d ∈ w.state.pendingCells n) :
    WrittenBy c (fun write u => w.state.planSave? n direct = some write ∧ u = w) d v := by
  obtain ⟨hmem, -, hk⟩ := mem_pendingCells.1 hd
  have hs := (h.reaches hf hn).2.shape
  cases h with
  | nothing hplan =>
    rw [(planSave?_eq_none.1 hplan).1] at hd
    exact absurd hd List.not_mem_nil
  | @write write v hplan hran =>
    have hcarried := mem_carried_planSave? hplan hd
    have hsettled : ((w.state.settle (w.state.pendingCells n)).cell d) =
        (w.state.cell d).settle := by rw [cell_settle, if_pos hd]
    have hexecuted : v.state.cell d = (w.state.cell d).settle ∧ write.node = n ∧
        ∃ p count, write.statement.prepare c.dialect = .ok p ∧
          w.log ++ [.execute p (.ok count)] <+: v.log := by
      rcases planSave?_eq_some hplan with ⟨fields, -, rfl⟩ | ⟨fields, -, -, rfl⟩
      · cases hran with
        | @insert _ _ _ _ p count _ hp =>
          refine ⟨?_, rfl, p, count, hp, ?_⟩
          · have hne : d ≠ (w.state.node n).key := by
              rintro rfl
              exact absurd (hk.symm.trans (isKey_key hf hn)) (by decide)
            rwa [setCurrent, cell_modifyNode, setKey, node_settle, cell_modifyCell_of_ne _ hne]
          · rw [List.prefix_append_right_inj]
            exact ⟨_, rfl⟩
      · cases hran with
        | @update _ _ _ _ _ p count hp => exact ⟨hsettled, rfl, p, count, hp, List.prefix_rfl⟩
    obtain ⟨hcell, hnode, p, count, hp, hlog⟩ := hexecuted
    refine ⟨by rw [hcell]; rfl, write, count, ⟨w, p, ⟨hplan, rfl⟩, hp, hlog⟩, ?_, ?_⟩
    · rw [hnode, hs.owner, hf.owner_of_mem hmem]
    · rw [hcell]
      exact hcarried

/-! ## New records -/

/-- Up to any point, records elsewhere keep their keys. -/
theorem Comes.keepsKey (h : Comes c b w u) (hf : WellFormed w.state) (hb : w.state.Hangs n b)
    (hhas : w.state.HasNode m) (hmn : m ≠ n) (hmem : m ∉ b.preOrder) :
    KeepsKey w.state u.state m :=
  (h.reaches hf hb).2.1.shape.keepsKey
    (h.cell_elsewhere hf hb (by rwa [hf.owner_key hhas]) (by rwa [hf.owner_key hhas]))

/-- The record that joins start at has a key of its own as before, or that of a record joined
through its key column. -/
theorem Comes.key_start (h : Comes c b w u) (hf : WellFormed w.state) (hn : w.state.HasNode n)
    (hb : w.state.Hangs n b) (hjoins : b.joins.Nodup) :
    KeepsKey w.state u.state n ∨ u.state.KeyClaimed n := by
  have hs := (h.reaches hf hb).2.1.shape
  rcases h.cell_start hf hb hjoins (hf.owner_key hn) with hcell | ⟨e, he, hlink, htakes⟩
  · exact Or.inl (hs.keepsKey hcell)
  · have hcell := htakes.cell
    rw [hlink] at hcell
    refine Or.inr ⟨e, ?_, ?_, ?_, ?_⟩
    · rw [hs.edges]
      exact edges_of_joins hb he
    · rw [hs.edge, hs.key, hlink]
    · rw [hs.childOf, htakes.bound]
    · rw [hs.childOf, keyValue, hs.key, hcell]
      rfl

/-- **How a new record gets a key.**  A record behind the joins that was new and is not any more was
inserted, or has the key of a record that is joined through its own key column. -/
theorem Comes.gained (h : Comes c b w u) (hf : WellFormed w.state) (hb : w.state.Hangs n b)
    (hjoins : b.joins.Nodup) (hm : m ∈ b.preOrder) (hnew : w.state.isNew m = true)
    (hbound : u.state.isNew m = false) :
    InsertedBy c (AttemptsBelow c b w) m (u.state.keyValue m) u ∨ u.state.KeyClaimed m := by
  induction b generalizing n w u with
  | nil => exact absurd hm List.not_mem_nil
  | cons e child below next ihBelow ihNext =>
    have hhas := (lt_of_mem_preOrder hf hb hm).2
    have hmn : m ≠ n := by
      rintro rfl
      exact not_mem_of_hangs hf hb hm
    -- A record that keeps its key has not become an existing one.
    have hkept (h : KeepsKey w.state u.state m) : False := by
      rw [h.isNew, hnew] at hbound
      cases hbound
    obtain ⟨he, hchild, hbelowEq, hhang, hnext⟩ := id hb
    have hbelowJoins : below.joins.Nodup := hbelowEq ▸ nodup_joins_below hf child
    cases h with
    | start => exact (hkept ⟨rfl, rfl⟩).elim
    | deleted hdel hlater =>
      by_cases hmem : m ∈ next.preOrder
      · refine (ihNext hlater hf hnext (List.nodup_cons.1 hjoins).2 hmem hnew hbound).imp_left ?_
        exact fun h => h.mono (fun _ _ => .deleted hdel) List.prefix_rfl
      · exact (hkept (hlater.keepsKey hf hnext hhas hmn hmem)).elim
    | deeper hdel hdeeper =>
      by_cases hmem : m ∈ below.preOrder
      · refine (ihBelow hdeeper hf hhang hbelowJoins hmem hnew hbound).imp_left ?_
        exact fun h => h.mono (fun _ _ => .deeper hdel) List.prefix_rfl
      by_cases hmc : m = child
      · subst hmc
        exact Or.inr ((hdeeper.key_start hf hhas hhang hbelowJoins).resolve_left hkept)
      · exact (hkept (hdeeper.keepsKey hf hhang hhas hmc hmem)).elim
    | @later _ _ _ _ _ s t _ _ _ hdel hbelow hnode hlater =>
      have hsaved := hbelow.savedChild hnode hf hb
      obtain ⟨hs, -, hfollow⟩ := hsaved.steady
      obtain ⟨hlogOwn, hlog, hshape⟩ := hsaved.goesOn hb hlater
      have hafter {k : NodeId} (hk : k ∈ below.preOrder) : KeepsKey s.state u.state k :=
        hsaved.keepsKey_below hb hjoins hlater hk
      have hclaimed (h : s.state.KeyClaimed m) (hkeeps : KeepsKey s.state u.state m)
          (hchildren : ∀ e' ∈ (w.state.node m).edges, w.state.childOf e' ∈ below.preOrder) :
          u.state.KeyClaimed m := by
        refine h.of_keeps (Eq.trans hshape hs.shape.symm) hkeeps fun e' he' => hafter ?_
        rw [hs.shape.edges] at he'
        rw [hs.shape.childOf]
        exact hchildren e' he'
      rw [Branches.mem_preOrder_cons] at hm
      rcases hm with rfl | hmem | hmem
      · have hown := hsaved.keepsKey_later hb hjoins hlater (Or.inl rfl)
        have hhasS := (hs.shape.hasNode m).2 hhas
        cases hturn : s.state.isNew m with
        | true =>
          have hgained := hnode.gained (hs.wellFormed hf) hhasS hturn (hown.isNew.symm.trans hbound)
          rw [← hown.keyValue] at hgained
          refine Or.inl (hgained.mono ?_ hlog)
          rintro write _ ⟨hplan, rfl⟩
          exact .child hdel hbelow hplan
        | false =>
          refine Or.inr (hclaimed ?_ ((hnode.keepsKey (hs.wellFormed hf) hhasS hturn).trans hown)
            fun e' he' => hbelowEq ▸ childOf_mem_below hf he')
          refine (hbelow.comes.key_start hf hhas hhang hbelowJoins).resolve_left fun h => ?_
          exact absurd (h.isNew.symm.trans hturn) (by rw [hnew]; decide)
      · have hkeeps := hafter hmem
        refine (ihBelow hbelow.comes hf hhang hbelowJoins hmem hnew
          (hkeeps.isNew.symm.trans hbound)).imp (fun h => ?_) fun h => ?_
        · rw [hkeeps.keyValue]
          exact h.mono (fun _ _ => .deeper hdel) (hlogOwn.trans hlog)
        · exact hclaimed h hkeeps fun e' he' => childOf_mem_of_mem hf hhang hmem he'
      · refine (ihNext hlater (hfollow.wellFormed hf) (hfollow.shape.hangs hnext)
          (List.nodup_cons.1 hjoins).2 hmem ?_ hbound).imp_left fun h => ?_
        · exact (hsaved.keepsKey_earlier hb hjoins hmem).isNew.trans hnew
        · exact h.mono (fun _ _ => .later hdel hbelow hnode) List.prefix_rfl

/-! ## Assigned columns -/

/-- A column of the record that joins start at is held. -/
theorem Comes.held_start (h : Comes c b w u) (hf : WellFormed w.state) (hb : w.state.Hangs n b)
    (hjoins : b.joins.Nodup) (hd : (w.state.cell d).owner = n) : w.state.Held u.state d := by
  refine (h.cell_start hf hb hjoins hd).imp_right ?_
  rintro ⟨e, he, hlink, htakes⟩
  exact ⟨e, hf.hasEdge (edges_of_joins hb he), hlink, htakes⟩

/-- **What becomes of an edit.**  An assigned column of a record behind the joins, which is no key,
keeps its edit or takes the key of a child that was new; or a write that was executed has carried
it. -/
theorem Comes.edited (h : Comes c b w u) (hf : WellFormed w.state) (hb : w.state.Hangs n b)
    (hjoins : b.joins.Nodup) (hm : m ∈ b.preOrder) (hd : d ∈ (w.state.node m).cells)
    (hk : (w.state.cell d).isKey = false) (hdirty : (w.state.cell d).isDirty = true) :
    w.state.Held u.state d ∨ WrittenBy c (AttemptsBelow c b w) d u := by
  induction b generalizing n w u with
  | nil => exact absurd hm List.not_mem_nil
  | cons e child below next ihBelow ihNext =>
    have howner := hf.owner_of_mem hd
    have hmn : m ≠ n := by
      rintro rfl
      exact not_mem_of_hangs hf hb hm
    obtain ⟨he, hchild, hbelowEq, hhang, hnext⟩ := id hb
    have hbelowJoins : below.joins.Nodup := hbelowEq ▸ nodup_joins_below hf child
    cases h with
    | start => exact Or.inl (Or.inl rfl)
    | deleted hdel hlater =>
      by_cases hmem : m ∈ next.preOrder
      · refine (ihNext hlater hf hnext (List.nodup_cons.1 hjoins).2 hmem hd hk hdirty).imp_right ?_
        exact fun h => h.mono (fun _ _ => .deleted hdel) List.prefix_rfl rfl
      · exact Or.inl (Or.inl (hlater.cell_elsewhere hf hnext (howner ▸ hmn) (howner ▸ hmem)))
    | deeper hdel hdeeper =>
      by_cases hmem : m ∈ below.preOrder
      · refine (ihBelow hdeeper hf hhang hbelowJoins hmem hd hk hdirty).imp_right ?_
        exact fun h => h.mono (fun _ _ => .deeper hdel) List.prefix_rfl rfl
      left
      by_cases hmc : m = child
      · exact hdeeper.held_start hf hhang hbelowJoins (howner.trans hmc)
      · exact Or.inl (hdeeper.cell_elsewhere hf hhang (howner ▸ hmc) (howner ▸ hmem))
    | @later _ _ _ _ _ s t _ _ _ hdel hbelow hnode hlater =>
      have hsaved := hbelow.savedChild hnode hf hb
      obtain ⟨hs, -, hfollow⟩ := hsaved.steady
      obtain ⟨hlogOwn, hlog, hshape⟩ := hsaved.goesOn hb hlater
      rw [Branches.mem_preOrder_cons] at hm
      rcases hm with rfl | hmem | hmem
      · -- At its own turn, after all that can change it, the column is written.
        have hheld := hbelow.comes.held_start hf hhang hbelowJoins howner
        have hwritten := hnode.written (hs.wellFormed hf)
          ((hs.shape.hasNode m).2 (hasNode_of_mem_cells hd)) (d := d)
          (mem_pendingCells.2 ⟨by rwa [hs.shape.cells], hheld.isDirty hdirty, by
            rwa [hs.shape.isKey]⟩)
        refine Or.inr (hwritten.mono ?_ hlog
          (hsaved.cell_later hb hjoins hlater (Or.inl howner)))
        rintro write _ ⟨hplan, rfl⟩
        exact .child hdel hbelow hplan
      · have hcell := hsaved.cell_below hb hjoins hlater (howner ▸ hmem)
        refine (ihBelow hbelow.comes hf hhang hbelowJoins hmem hd hk hdirty).imp (fun h => ?_)
          fun h => h.mono (fun _ _ => .deeper hdel) (hlogOwn.trans hlog) hcell
        refine h.of_end hcell fun e' he' hlink => hsaved.keepsKey_below hb hjoins hlater ?_
        exact childOf_mem_of_mem hf hhang hmem (mem_edges_of_link hf he' (hlink ▸ howner))
      · have hcell := hsaved.cell_earlier hb hjoins (d := d) (howner ▸ hmem)
        refine (ihNext hlater (hfollow.wellFormed hf) (hfollow.shape.hangs hnext)
          (List.nodup_cons.1 hjoins).2 hmem ?_ ?_ ?_).imp (fun h => ?_)
          fun h => h.mono (fun _ _ => .later hdel hbelow hnode) List.prefix_rfl rfl
        · rwa [World.withState, hfollow.shape.cells]
        · rwa [World.withState, hcell]
        · rwa [World.withState, hcell]
        · refine h.of_start hfollow.shape hcell fun e' he' hlink =>
            (hsaved.keepsKey_earlier hb hjoins ?_).isNew
          exact childOf_mem_of_mem hf hnext hmem (mem_edges_of_link hf he' (hlink ▸ howner))

end LinkedRows
