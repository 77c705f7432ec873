/-
# Saving a line

A line whose links were followed as far as the rows go is saved from its end.  Records behind the
last row are inserted, each under a key that the link before it then takes; so the link of the last
row, or of nobody, is what joins the new rows to the old ones.  Records that stand for rows write
their column if it is assigned, and else nothing.

`save_line` says what the tables hold afterwards, from any record of the line on: the chain leads
from the row of the record to the value at its end.  The induction goes up the line.  What it needs
is that a row written further up is not one of those that the chain leads over further down, which
holds because the rows that were met are different, and inserted rows are none of the old ones.
-/

import LinkedRows.Proofs.Alike
import LinkedRows.Proofs.LineReading
import LinkedRows.Proofs.SaveNew

namespace LinkedRows

open Forest Tables

variable {σ ρ : Type} {c : Connector σ} {keyName : String → String} {tables : σ → Tables ρ}
  {s t : Tables ρ} {w v : World σ Forest} {f g : Forest} {n : NodeId} {d : CellId} {e : EdgeId}
  {label : Label} {joins rest : List Label} {leaf name : String} {value key : Value}
  {x y : ρ} {x? : Option ρ} {met : List ρ}

/-! ## One record -/

namespace Forest

/-- The write of a record whose one column is assigned. -/
theorem Single.planSave? (hs : f.Single n d name) (hf : WellFormed f)
    (hassigned : (f.cell d).assigned = some value) (direct : Bool) :
    f.planSave? n direct = some (if f.isNew n then
      .insert n (f.node n).table [d] [(name, value)]
      else .update n (f.node n).table (f.rowKey n) [d] [(name, value)]) := by
  have hdirty : (f.cell d).isDirty = true := by rw [Cell.isDirty, hassigned]; rfl
  have hvalue : (f.cell d).value = value := by rw [Cell.value, hassigned]; rfl
  unfold Forest.planSave?
  dsimp only
  rw [hs.pendingCells_of_dirty hf hdirty, List.map_singleton, hs.name, hvalue]
  cases f.isNew n <;> rfl

/-- Writing the column of a record leaves its key alone. -/
theorem Single.keyValue_settle (hs : f.Single n d name) (hf : WellFormed f) :
    ((f.settle [d]).setCurrent n false).keyValue n = f.keyValue n := by
  have hne : (f.node n).key ∉ [d] := fun h => by
    have hk := hs.isKey
    rw [← List.mem_singleton.1 h, isKey_key hf hs.hasNode] at hk
    cases hk
  have hshape : SameShape f ((f.settle [d]).setCurrent n false) :=
    (sameShape_settle f [d]).trans (sameShape_setCurrent _ n false)
  rw [keyValue, keyValue, hshape.key, setCurrent, cell_modifyNode, cell_settle, if_neg hne]

/-- Assigning a column that is no key leaves the key of a record alone. -/
theorem keyValue_assignCell (hf : WellFormed f) (hk : (f.cell d).isKey = false)
    (hn : f.HasNode n) (v : Value) : (f.modifyCell d (·.assign v)).keyValue n = f.keyValue n := by
  rw [keyValue, node_modifyCell, cell_key_assignCell hf hk hn, keyValue]

theorem stands_assignCell (hf : WellFormed f) (hk : (f.cell d).isKey = false) (hn : f.HasNode n)
    (v : Value) (hx : Stands t f n x?) : Stands t (f.modifyCell d (·.assign v)) n x? := by
  have hnew := isNew_assignCell hf hk hn v
  cases x? with
  | none => exact hnew.trans hx
  | some x =>
    refine ⟨hnew.trans hx.1, ?_⟩
    rw [node_modifyCell, keyValue_assignCell hf hk hn]
    exact hx.2

end Forest

/-- After a record was saved, it stands for a row: for the one that it stood for, and has kept its
key, or for a new one.  No other row was changed. -/
structure Houses (tables : σ → Tables ρ) (n : NodeId) (x? : Option ρ) (w v : World σ Forest)
    (x : ρ) : Prop where
  stands : Stands (tables v.store) v.state n (some x)
  keyValue : w.state.isNew n = false → v.state.keyValue n = w.state.keyValue n
  keeps : Keeps x?.toList (tables w.store) (tables v.store)
  known : (tables w.store).Has x → x ∈ x?.toList

theorem writes_field {dialect : Dialect} (name : String) (h : dialect.Writes value) :
    ∀ field ∈ [(name, value)], dialect.Writes field.2 := by
  intro field hfield
  rw [List.mem_singleton.1 hfield]
  exact h

/-- A new record is inserted with its one column. -/
theorem saveNode_single_new (hc : Faithful c keyName tables) (hf : Intact w.state)
    (hs : w.state.Single n d name) (hassigned : (w.state.cell d).assigned = some value)
    (hvalue : c.dialect.Writes value) (hname : name ≠ keyName (w.state.node n).table)
    (hnew : w.state.isNew n = true) (direct : Bool) :
    ∃ v x, (saveNode c n direct).perform w = (.ok (), v) ∧ Houses tables n none w v x ∧
      (tables v.store).content x name = c.dialect.known value := by
  have hwf := hf.toWellFormed
  have hplan := hs.planSave? hwf hassigned direct
  rw [hnew, if_pos rfl] at hplan
  obtain ⟨p, hp⟩ := Statement.exists_prepare_insert_iff.2 (writes_field name hvalue)
  obtain ⟨count, key, x, t, hcount, hkey, rfl, hkeeps, hadded, hrow, hcontent⟩ :=
    hc.insert (List.cons_ne_nil (name, value) []) (List.nodup_singleton name)
      (fun h => hname (List.mem_singleton.1 h).symm) hp
  have hsaved := SavedNode.write hplan (.insert hp hcount hkey (hc.isNull hrow))
  have hreach := (hsaved.reaches hwf hs.hasNode).2
  have hsettle := sameShape_settle w.state [d]
  have hwfSettle := hwf.of_sameShape hsettle
  have hn := (hsettle.hasNode n).2 hs.hasNode
  have hkeyValue : (((w.state.settle [d]).setKey n key).setCurrent n false).keyValue n = key := by
    rw [(reaches_setCurrent _ n false).keyValue
      (hwfSettle.of_sameShape (sameShape_setKey _ n key))
      (((sameShape_setKey _ n key).hasNode n).2 hn) List.not_mem_nil]
    exact keyValue_setKey hwfSettle hn key
  refine ⟨_, x, saveNode_ok_iff.2 ⟨_, hsaved⟩, ⟨⟨?_, ?_⟩, fun h => ?_, hkeeps,
    fun h => absurd h hadded⟩, hcontent _ (List.mem_singleton_self _)⟩
  · have hafter := hf.steady hreach.toSteady
    refine isNew_of_keyValue hafter.toWellFormed hafter.unstored
      ((hreach.shape.hasNode n).2 hs.hasNode) ?_
    rw [hkeyValue]
    exact (hc.named hrow).1
  · rw [hkeyValue, hreach.shape.table]
    exact hrow
  · exact absurd (hnew.symm.trans h) (by decide)

/-- A record with a row writes its one column there. -/
theorem saveNode_single_bound (hc : Faithful c keyName tables) (hf : Intact w.state)
    (hs : w.state.Single n d name) (hassigned : (w.state.cell d).assigned = some value)
    (hvalue : c.dialect.Writes value) (hplace : w.state.InPlace keyName leaf n joins)
    (hname : name ≠ keyName (w.state.node n).table)
    (hx : Stands (tables w.store) w.state n (some x)) (direct : Bool) :
    ∃ v, (saveNode c n direct).perform w = (.ok (), v) ∧ Houses tables n (some x) w v x ∧
      (tables v.store).content x name = c.dialect.known value := by
  have hwf := hf.toWellFormed
  have hplan := hs.planSave? hwf hassigned direct
  obtain ⟨hbound, hrow⟩ := hx
  rw [hbound, if_neg Bool.false_ne_true, rowKey, hplace.1] at hplan
  have hkey : c.dialect.Writes
      (RowKey.mk (keyName (w.state.node n).table) (w.state.keyValue n)).value :=
    (hc.named hrow).2
  obtain ⟨p, hp⟩ := Statement.exists_prepare_update_iff.2 ⟨writes_field name hvalue, hkey⟩
  obtain ⟨count, hcount, hkeeps, hcontent⟩ :=
    hc.update (List.cons_ne_nil (name, value) []) (List.nodup_singleton name)
      (fun h => hname (List.mem_singleton.1 h).symm) hrow hp
  have hsaved := SavedNode.write hplan (.update hp hcount)
  have hreach := (hsaved.reaches hwf hs.hasNode).2
  have hsame := hs.keyValue_settle hwf
  refine ⟨_, saveNode_ok_iff.2 ⟨_, hsaved⟩,
    ⟨⟨hreach.toSteady.isNew hwf hs.hasNode hbound, ?_⟩, fun _ => hsame, hkeeps,
      fun _ => List.mem_singleton_self x⟩, hcontent _ (List.mem_singleton_self _)⟩
  rw [hsame, hreach.shape.table]
  exact hkeeps.row hrow

/-- **A record writes its one column** to its row, or to a new one. -/
theorem saveNode_single (hc : Faithful c keyName tables) (hf : Intact w.state)
    (hs : w.state.Single n d name) (hassigned : (w.state.cell d).assigned = some value)
    (hvalue : c.dialect.Writes value) (hplace : w.state.InPlace keyName leaf n joins)
    (hname : name ≠ keyName (w.state.node n).table)
    (hx : Stands (tables w.store) w.state n x?) (direct : Bool) :
    ∃ v x, (saveNode c n direct).perform w = (.ok (), v) ∧ Houses tables n x? w v x ∧
      (tables v.store).content x name = c.dialect.known value := by
  cases x? with
  | none => exact saveNode_single_new hc hf hs hassigned hvalue hname hx direct
  | some x =>
    obtain ⟨v, hsave⟩ := saveNode_single_bound hc hf hs hassigned hvalue hplace hname hx direct
    exact ⟨v, x, hsave⟩

/-- A record with a row and nothing to write stays there. -/
theorem saveNode_clean (tables : σ → Tables ρ) (hf : WellFormed w.state)
    (hs : w.state.Single n d name) (hclean : (w.state.cell d).assigned = none)
    (hx : Stands (tables w.store) w.state n (some x)) (c : Connector σ) (direct : Bool) :
    ∃ v, (saveNode c n direct).perform w = (.ok (), v) ∧ v.store = w.store ∧
      Houses tables n (some x) w v x := by
  have hplan : w.state.planSave? n direct = none := by
    refine planSave?_eq_none.2 ⟨hs.pendingCells_of_clean ?_, fun h => ?_⟩
    · rw [Cell.isDirty, hclean]
      rfl
    · exact absurd (h.symm.trans hx.1) (by decide)
  have hsaved : SavedNode c n direct w [] (w.withState (w.state.setCurrent n false)) :=
    .nothing hplan
  have hreach := reaches_setCurrent w.state n false
  have hkey := hreach.keyValue hf hs.hasNode List.not_mem_nil
  refine ⟨_, saveNode_ok_iff.2 ⟨_, hsaved⟩, rfl, ⟨hreach.toSteady.isNew hf hs.hasNode hx.1, ?_⟩,
    fun _ => hkey, Keeps.refl _ _, fun _ => List.mem_singleton_self x⟩
  rw [World.withState, hkey, hreach.shape.table]
  exact hx.2

/-! ## From a record on -/

/-- A save of what is behind a record, and of the record itself. -/
def saveFrom (c : Connector σ) (n : NodeId) (b : Branches) (direct : Bool) : Action σ Forest Unit :=
  saveBelow c b >>= fun _ => saveNode c n direct

/-- Saving from a record on reaches that record and those below it. -/
theorem reaches_saveFrom {direct : Bool} (hf : WellFormed w.state) (hn : w.state.HasNode n)
    (h : (saveFrom c n (w.state.below n) direct).perform w = (.ok (), v)) :
    Reaches (n :: (w.state.below n).preOrder) w.state v.state := by
  obtain ⟨⟨⟩, u, hbelow, hnode⟩ := Action.perform_bind_eq_ok.1 h
  obtain ⟨writes, hbelow⟩ := saveBelow_ok_iff.1 hbelow
  obtain ⟨own, hnode⟩ := saveNode_ok_iff.1 hnode
  have hb := hangs_below hf n
  obtain ⟨-, hs, hcell⟩ := hbelow.reaches hf hb
  have hreach := (hnode.reaches (hs.wellFormed hf) ((hs.shape.hasNode n).2 hn)).2
  refine Reaches.trans ⟨hs, fun {d} hd => ?_⟩ (hreach.mono (by simp))
  rw [List.mem_cons, not_or] at hd
  refine hcell d hd.2 ?_
  rintro e he rfl
  have he := edges_of_joins hb he
  exact hd.1 ((hf.owner_link (hf.hasEdge he)).trans (hf.owner_of_edge he))

/-- Saving from a record with one join goes on with its child, lets the link follow, and ends with
the record. -/
theorem perform_saveFrom_join {u : World σ Forest} {child : NodeId} {below : Branches}
    {direct : Bool} (hdel : (w.state.node child).deleted = false)
    (hchild : (saveFrom c child below false).perform w = (.ok (), u))
    (hnode : (saveNode c n direct).perform
      (u.withState (u.state.followChild e (w.state.isNew child))) = (.ok (), v)) :
    (saveFrom c n (.cons e child below .nil) direct).perform w = (.ok (), v) := by
  obtain ⟨⟨⟩, t, hbelow, hown⟩ := Action.perform_bind_eq_ok.1 hchild
  have hjoin : (saveBelow c (.cons e child below .nil)).perform w =
      (.ok (), u.withState (u.state.followChild e (w.state.isNew child))) := by
    rw [perform_saveBelow_kept hdel, Action.perform_bind_ok hbelow, Action.perform_bind_ok hown,
      Action.perform_update_bind]
    rfl
  rw [saveFrom, Action.perform_bind_ok hjoin, hnode]

/-- A link that is null follows a child that was new and has a key now. -/
theorem Forest.followChild_of_new (hassigned : (f.cell (f.edge e).link).assigned = none)
    (hstored : (f.cell (f.edge e).link).stored = .null) (hbound : f.isNew (f.childOf e) = false)
    (hkey : f.keyValue (f.childOf e) ≠ .null) : f.followChild e true =
      f.modifyCell (f.edge e).link (·.assign (f.keyValue (f.childOf e))) := by
  have hlink : (f.cell (f.edge e).link).value = .null := by
    rw [Cell.value, hassigned, hstored]
    rfl
  have hagrees : Value.null.agrees (f.keyValue (f.childOf e)) = false := by
    rw [← Bool.not_eq_true, Value.null_agrees]
    exact hkey
  rw [childOf] at hbound hagrees
  unfold followChild
  dsimp only
  rw [hbound, hlink, hagrees]
  rfl

/-- A link that holds the key of its child stays. -/
theorem Forest.followChild_of_holds
    (hvalue : (f.cell (f.edge e).link).value = f.keyValue (f.childOf e))
    (hself : (f.keyValue (f.childOf e)).agrees (f.keyValue (f.childOf e)) = true) (wasNew : Bool) :
    f.followChild e wasNew = f := by
  rw [childOf] at hvalue hself
  unfold followChild
  dsimp only
  rw [hvalue, hself, Bool.not_true, Bool.and_false]
  rfl

/-- Once the child of a link stands for a row, the link is null if the child was new, or else holds
the key of the child, read from the row of its record. -/
def Forest.Trails (t : Tables ρ) (f : Forest) (e : EdgeId) (link : String) (x? : Option ρ)
    (wasNew : Bool) : Prop :=
  wasNew = true ∧ (f.cell (f.edge e).link).stored = .null ∨
    wasNew = false ∧ ∃ x, x? = some x ∧
      (f.cell (f.edge e).link).stored = f.keyValue (f.childOf e) ∧
      t.content x link = f.keyValue (f.childOf e)

/-- **A record whose child has a row leads to that row once it is saved**: the link takes the key of
a child that was new, or holds what it was read from. -/
theorem saveNode_link (hc : Faithful c keyName tables) (hf : Intact w.state)
    (hl : w.state.Link n e label) (hplace : w.state.InPlace keyName leaf n (label :: rest))
    (hassigned : (w.state.cell (w.state.edge e).link).assigned = none)
    (hx : Stands (tables w.store) w.state n x?)
    (hy : Stands (tables w.store) w.state (w.state.childOf e) (some y)) {wasNew : Bool}
    (htrails : w.state.Trails (tables w.store) e label.link x? wasNew) (direct : Bool) :
    ∃ v x, (saveNode c n direct).perform (w.withState (w.state.followChild e wasNew)) =
        (.ok (), v) ∧ Houses tables n x? w v x ∧
      (tables v.store).row? label.table ((tables v.store).content x label.link) = some y := by
  have hwf := hf.toWellFormed
  obtain ⟨hbound, hyRow⟩ := hy
  rw [(hl.place hwf).1] at hyRow
  obtain ⟨hne, hwrites⟩ := hc.named hyRow
  rcases htrails with ⟨rfl, hstored⟩ | ⟨rfl, x, rfl, hstored, hcontent⟩
  · have hs := steady_assignCell w.state (w.state.edge e).link
      (w.state.keyValue (w.state.childOf e))
    rw [followChild_of_new hassigned hstored hbound hne]
    obtain ⟨v, x, hsave, hhouses, hcontent⟩ := saveNode_single hc
      (w := w.withState (w.state.modifyCell (w.state.edge e).link
        (·.assign (w.state.keyValue (w.state.childOf e))))) (hf.steady hs)
      (hl.toSingle.of_sameShape hs.shape)
      (by rw [World.withState, cell_modifyCell_self _ (hl.hasCell hwf)]; rfl) hwrites
      (hplace.of_sameShape hs.shape) (by rw [World.withState, hs.shape.table]; exact hplace.2.1)
      (stands_assignCell hwf hl.isKey hl.hasNode _ hx) direct
    refine ⟨v, x, hsave, ⟨hhouses.stands, fun h => ?_, hhouses.keeps, hhouses.known⟩, ?_⟩
    · rw [hhouses.keyValue ((isNew_assignCell hwf hl.isKey hl.hasNode _).trans h)]
      exact keyValue_assignCell hwf hl.isKey hl.hasNode _
    · rw [hcontent, hc.literal]
      exact hhouses.keeps.row hyRow
  · have hvalue : (w.state.cell (w.state.edge e).link).value =
        w.state.keyValue (w.state.childOf e) := by
      rw [Cell.value, hassigned, hstored]
      rfl
    rw [followChild_of_holds hvalue hwrites.agrees]
    obtain ⟨v, hsave, hstore, hhouses⟩ :=
      saveNode_clean tables hwf hl.toSingle hassigned hx c direct
    refine ⟨v, x, hsave, hhouses, ?_⟩
    rw [hstore, hcontent]
    exact hyRow

/-- The first record of a line stands for a row that was met, or is new. -/
theorem Resolved.exists_stands (h : Resolved t f leaf value n joins met) :
    ∃ x?, Stands t f n x? := by
  cases h with
  | last x? _ _ _ hx => exact ⟨x?, hx⟩
  | join x? _ _ _ _ hx => exact ⟨x?, hx⟩

/-- A record that a change does not reach stands where it stood. -/
theorem Forest.Reaches.stands {reached : List NodeId} {touched : List ρ}
    (h : Reaches reached f g) (hf : WellFormed f) (hn : f.HasNode n) (hout : n ∉ reached)
    (hkeeps : Keeps touched s t) (hx : Stands s f n x?) : Stands t g n x? := by
  have hnew := h.isNew hf hn hout
  cases x? with
  | none => exact hnew.trans hx
  | some x =>
    refine ⟨hnew.trans hx.1, ?_⟩
    rw [h.shape.table, h.keyValue hf hn hout]
    exact hkeeps.row hx.2

/-- Saving what is behind a link leaves the link as it was resolved. -/
theorem Resolved.trails {u : World σ Forest} (hc : Faithful c keyName tables)
    (hf : Intact w.state) (hl : w.state.Link n e label)
    (hstored : (w.state.cell (w.state.edge e).link).stored =
      x?.elim .null fun x => (tables w.store).content x label.link)
    (hheld : w.state.keyValue (w.state.childOf e) = (w.state.cell (w.state.edge e).link).stored)
    (hrest : Resolved (tables w.store) w.state leaf value (w.state.childOf e) rest met)
    (hshape : SameShape w.state u.state)
    (hcell : u.state.cell (u.state.edge e).link = w.state.cell (w.state.edge e).link)
    (hkey : w.state.isNew (w.state.childOf e) = false →
      u.state.keyValue (w.state.childOf e) = w.state.keyValue (w.state.childOf e))
    (hcontent : ∀ x ∈ x?.toList, (tables u.store).content x = (tables w.store).content x) :
    u.state.Trails (tables u.store) e label.link x? (w.state.isNew (w.state.childOf e)) := by
  have hwf := hf.toWellFormed
  rw [Trails, hcell, hshape.childOf]
  cases hnew : w.state.isNew (w.state.childOf e) with
  | true =>
    refine Or.inl ⟨rfl, hheld.symm.trans ?_⟩
    exact keyValue_of_isNew hwf hf.unstored (hl.hasChild hwf) hnew
  | false =>
    refine Or.inr ⟨rfl, ?_⟩
    rw [hkey hnew, hheld]
    cases x? with
    | none =>
      -- A child with a row has a key, but there is no link to hold it.
      obtain ⟨z?, hz⟩ := hrest.exists_stands
      cases z? with
      | none => exact absurd (hz.symm.trans hnew) (by decide)
      | some z => exact absurd (hheld.trans hstored) (hc.named hz.2).1
    | some x =>
      refine ⟨x, rfl, rfl, ?_⟩
      rw [hcontent x (List.mem_singleton_self x), hstored]
      rfl

/-- **A line is saved so that its chain leads to the value at its end.** -/
theorem save_line (hc : Faithful c keyName tables)
    (h : Resolved (tables w.store) w.state leaf value n joins met) (hf : Intact w.state)
    (hplace : w.state.InPlace keyName leaf n joins) (hvalue : c.dialect.Writes value)
    (hmet : met.Nodup) (direct : Bool) :
    ∃ v x rows, (saveFrom c n (w.state.below n) direct).perform w = (.ok (), v) ∧
      Stands (tables v.store) v.state n (some x) ∧
      (w.state.isNew n = false → v.state.keyValue n = w.state.keyValue n) ∧
      Keeps met (tables w.store) (tables v.store) ∧
      (tables v.store).Leads leaf (c.dialect.known value) x joins rows ∧
      ∀ y ∈ rows, (tables w.store).Has y → y ∈ met := by
  induction joins generalizing w n met direct with
  | nil =>
    cases h with
    | @last _ d x? hs hedges hassigned hx =>
      obtain ⟨v, x, hsave, hhouses, hcontent⟩ := saveNode_single hc hf hs hassigned hvalue hplace
        hplace.2 hx direct
      refine ⟨v, x, [x], ?_, hhouses.stands, hhouses.keyValue, hhouses.keeps, .last hcontent,
        fun y hy => ?_⟩
      · rw [below_of_no_edges hf.toWellFormed hedges]
        exact hsave
      · rw [List.mem_singleton.1 hy]
        exact hhouses.known
  | cons label rest ih =>
    cases h with
    | @join _ e _ _ later x? hl hassigned hstored hheld hx hrest =>
      have hwf := hf.toWellFormed
      obtain ⟨-, hlater, hdisjoint⟩ := List.nodup_append'.1 hmet
      obtain ⟨u, y, rows, hchild, hy, hkeyChild, hkeeps, hleads, hrows⟩ :=
        ih hrest hf (hl.inPlace hwf hplace) hlater false
      have hreach := reaches_saveFrom hwf (hl.hasChild hwf) hchild
      have hs := hreach.toSteady
      -- What was saved further down left the record, its link and its row as they were.
      have hout := hl.not_mem_child hwf
      have hcell : u.state.cell (u.state.edge e).link = w.state.cell (w.state.edge e).link := by
        rw [hs.shape.edge, hreach.cell (by rwa [hl.owner hwf])]
      have hspared {x : ρ} (hmem : x ∈ x?.toList) : (tables w.store).Has x ∧ x ∉ later := by
        refine ⟨?_, hdisjoint hmem⟩
        rw [Option.mem_toList] at hmem
        cases hmem
        exact has_of_row hx.2
      rw [← hs.shape.childOf e] at hy
      have htrails := Resolved.trails (u := u) hc hf hl hstored hheld hrest hs.shape hcell hkeyChild
        fun x hmem => hkeeps.content (hspared hmem).1 (hspared hmem).2
      obtain ⟨v, x, hsave, hhouses, hnext⟩ := saveNode_link hc (hf.steady hs)
        (hl.of_sameShape hs.shape) (hplace.of_sameShape hs.shape) (by rw [hcell, hassigned])
        (hreach.stands hwf hl.hasNode hout hkeeps hx) hy htrails direct
      refine ⟨v, x, x :: rows, ?_, hhouses.stands, fun h => ?_, ?_, .goes hnext ?_, ?_⟩
      · rw [hl.below hwf]
        exact perform_saveFrom_join (hf.undeleted _) hchild hsave
      · rw [hhouses.keyValue ((hreach.isNew hwf hl.hasNode hout).trans h),
          hreach.keyValue hwf hl.hasNode hout]
      · exact (hkeeps.trans hhouses.keeps).mono fun z hz => (List.mem_append.1 hz).elim
          (List.mem_append_right _) (List.mem_append_left _)
      · refine hleads.keeps (has_of_row hy.2) hhouses.keeps fun z hz hmem => ?_
        obtain ⟨hhas, hnot⟩ := hspared hmem
        exact hnot (hrows z hz hhas)
      · intro z hz hhas
        rcases List.mem_cons.1 hz with rfl | hz
        · exact List.mem_append_left _ (hhouses.known (hkeeps.has hhas))
        · exact List.mem_append_right _ (hrows z hz hhas)

end LinkedRows
