/-
# Saving a new record

A new record that is saved itself is inserted, unless its key column is taken as a link: a join may
go through the key, and when the record behind such a join has a key, or gets one by being saved
first, the link follows it.  The record then has a key before its own turn comes, and counts as one
that exists.

`save_new_record` says when this happens.  As long as every record joined through the key column is
still without a key after the save (`KeyUnclaimed`), the record itself was inserted exactly once, as
the last of all writes, and its key is the identifier that was reported then; otherwise it was not
inserted at all.
-/

import LinkedRows.Proofs.Forest.Intact
import LinkedRows.Proofs.SavePoints

namespace LinkedRows

open Forest

theorem Value.null_agrees {v : Value} : Value.null.agrees v = true ↔ v = .null := by
  cases v <;> simp [Value.agrees]

/-- Is the write an insertion of the record? -/
def Write.isInsertionOf (n : NodeId) : Write → Bool
  | .insert m _ _ _ => m == n
  | _ => false

/-- No record that is joined through the key column of a record has a key. -/
def Forest.KeyUnclaimed (f : Forest) (n : NodeId) : Prop :=
  ∀ e ∈ (f.node n).edges, (f.edge e).link = (f.node n).key → f.keyValue (f.childOf e) = .null

instance (f : Forest) (n : NodeId) : Decidable (f.KeyUnclaimed n) :=
  inferInstanceAs (Decidable (∀ e ∈ _, _ → _))

variable {σ : Type} {c : Connector σ} {w v : World σ Forest} {n : NodeId}

/-- Of the writes, the last one inserts the record and no other one is for it, and the key of the
record is the identifier that was reported for the insertion. -/
def InsertedOnce (c : Connector σ) (n : NodeId) (writes : List Write) (v : World σ Forest) : Prop :=
  ∃ earlier cells fields p count before,
    writes = earlier ++ [.insert n (v.state.node n).table cells fields] ∧
      (∀ write ∈ earlier, write.node ≠ n) ∧
      (Statement.insert (v.state.node n).table fields).prepare c.dialect = .ok p ∧
      v.log = before ++ [.execute p (.ok count), .lastIdentifier (.ok (v.state.keyValue n))]

/-! ## The key column of a new record -/

namespace Forest

variable {f : Forest}

/-- The key of a new record follows a child exactly if the child has a key. -/
theorem isNew_followChild_key (hf : Intact f) {e : EdgeId} (he : e ∈ (f.node n).edges)
    (hlink : (f.edge e).link = (f.node n).key) (hnew : f.isNew n = true) (wasNew : Bool) :
    (f.followChild e wasNew).isNew n = true ↔ f.keyValue (f.childOf e) = .null := by
  have hedge := hf.hasEdge he
  have hn : f.HasNode n := hasNode_of_mem_edges he
  have hclean : (f.cell (f.node n).key).isDirty = false := by
    rwa [isNew, Bool.not_eq_true'] at hnew
  have hvalue : (f.cell (f.node n).key).value = .null :=
    keyValue_of_isNew hf.toWellFormed hf.unstored hn hnew
  unfold followChild
  dsimp only
  rw [hlink, hclean, hvalue]
  split
  · rename_i h
    simp only [Bool.and_eq_true, Bool.not_eq_true', Bool.not_false, Bool.or_true] at h
    constructor
    · intro hstill
      rw [isNew, node_modifyCell, cell_modifyCell_self _ (hf.hasCell_key hn)] at hstill
      exact absurd hstill Bool.false_ne_true
    · intro hkey
      rw [childOf] at hkey
      rw [hkey, Value.null_agrees.2 rfl] at h
      exact absurd h.2 (by decide)
  · rename_i h
    constructor
    · intro _
      by_contra hkey
      refine h ?_
      have hchild := isNew_of_keyValue hf.toWellFormed hf.unstored (hf.hasChild hedge) hkey
      have hagrees : Value.null.agrees (f.keyValue (f.edge e).child) = false := by
        rw [← Bool.not_eq_true, Value.null_agrees]
        exact hkey
      rw [hchild, hagrees]
      simp
    · exact fun _ => hnew

theorem isNew_followChild_of_ne {e : EdgeId} (hlink : (f.edge e).link ≠ (f.node n).key)
    (wasNew : Bool) : (f.followChild e wasNew).isNew n = f.isNew n := by
  rw [isNew, isNew, (steady_followChild f e wasNew).shape.key,
    cell_followChild_of_ne (Ne.symm hlink)]

end Forest

/-- After what is behind its joins has been saved, a new record is still new exactly if no record
that is joined through its key has a key. -/
theorem SavedBelow.isNew_iff {b : Branches} {writes : List Write} (h : SavedBelow c b w writes v)
    (hf : Intact w.state) (hn : w.state.HasNode n) (hb : w.state.Hangs n b)
    (hjoins : b.joins.Nodup) (hnew : w.state.isNew n = true) :
    v.state.isNew n = true ↔ ∀ e ∈ b.joins, (w.state.edge e).link = (w.state.node n).key →
      v.state.keyValue (w.state.childOf e) = .null := by
  induction h with
  | nil => exact ⟨fun _ e he => absurd he List.not_mem_nil, fun _ => hnew⟩
  | deleted hdel _ _ => exact absurd hdel (by rw [hf.undeleted]; exact Bool.false_ne_true)
  | @kept e child below next w u t v deeper own later hdel hdeeper hnode hlater _ ihNext =>
    have hwf := hf.toWellFormed
    have hsaved := hdeeper.savedChild hnode hwf hb
    obtain ⟨-, hs₂, hs₃⟩ := hsaved.steady
    have hg := hf.steady hs₃
    -- Below the child, and at the child, the record's own key is out of reach.
    have hnew₂ : t.state.isNew n = true := by
      have hkey := hsaved.cell_before (d := (w.state.node n).key)
        (by rw [hwf.owner_key hn]; exact hsaved.owner_out.1)
        (by rw [hwf.owner_key hn]; exact hsaved.owner_out.2)
      exact (hs₂.shape.keepsKey hkey).isNew.trans hnew
    -- The joins that are still to come leave the child alone.
    have hchild : v.state.keyValue child = t.state.keyValue child :=
      (hsaved.keepsKey_later hb hjoins hlater.comes (Or.inl rfl)).keyValue
    obtain ⟨he, rfl, -, -, hnext⟩ := hb
    have hstart (hnew₃ : (t.state.followChild e
        (w.state.isNew (w.state.childOf e))).isNew n = true) :
        v.state.isNew n = true ↔ ∀ e ∈ next.joins,
          (w.state.edge e).link = (w.state.node n).key →
            v.state.keyValue (w.state.childOf e) = .null := by
      have h := ihNext hg ((hs₃.shape.hasNode n).2 hn) (hs₃.shape.hangs hnext)
        (List.nodup_cons.1 hjoins).2 hnew₃
      simpa only [World.withState, hs₃.shape.edge, hs₃.shape.key, hs₃.shape.childOf] using h
    have hkeeps := (hlater.reaches hg.toWellFormed (hs₃.shape.hangs hnext)).2.1.isNew
      hg.toWellFormed ((hs₃.shape.hasNode n).2 hn)
    rw [Branches.joins, List.forall_mem_cons, hchild]
    by_cases hlink : (w.state.edge e).link = (w.state.node n).key
    · have hfollow := isNew_followChild_key (hf.steady hs₂) (n := n) (e := e)
        (by rwa [hs₂.shape.edges]) (by rwa [hs₂.shape.edge, hs₂.shape.key]) hnew₂
        (w.state.isNew (w.state.childOf e))
      rw [hs₂.shape.childOf] at hfollow
      by_cases hkey : t.state.keyValue (w.state.childOf e) = .null
      · rw [hstart (hfollow.2 hkey)]
        simp [hkey]
      · have hnot := mt hfollow.1 hkey
        rw [Bool.not_eq_true] at hnot
        rw [hkeeps hnot]
        simp [hlink, hkey]
    · have hlink₂ : (t.state.edge e).link ≠ (t.state.node n).key := by
        rwa [hs₂.shape.edge, hs₂.shape.key]
      rw [hstart ((isNew_followChild_of_ne hlink₂ _).trans hnew₂)]
      simp [hlink]

/-! ## The save -/

/-- A new record that is saved itself is inserted, and takes the identifier that is reported. -/
theorem SavedNode.of_new {writes : List Write} (hf : WellFormed w.state) (hn : w.state.HasNode n)
    (hnew : w.state.isNew n = true) (h : SavedNode c n true w writes v) :
    ∃ cells fields p count, writes = [.insert n (w.state.node n).table cells fields] ∧
      (Statement.insert (w.state.node n).table fields).prepare c.dialect = .ok p ∧
      v.log = w.log ++ [.execute p (.ok count), .lastIdentifier (.ok (v.state.keyValue n))] := by
  cases h with
  | nothing hplan => exact absurd ((planSave?_eq_none.1 hplan).2 hnew) (by decide)
  | write hplan hran =>
    rcases planSave?_eq_some hplan with ⟨fields, -, rfl⟩ | ⟨fields, hnot, -, -⟩
    · obtain ⟨p, count, hp, hlog, -⟩ := hran.inserted hf hn
      exact ⟨_, fields, p, count, rfl, hp, hlog⟩
    · exact absurd (hnew.symm.trans hnot) (by decide)

theorem SavedNode.not_insertion {writes : List Write} {direct : Bool}
    (hnew : w.state.isNew n = false) (h : SavedNode c n direct w writes v) :
    ∀ write ∈ writes, write.isInsertionOf n = false := by
  cases h with
  | nothing => exact fun _ h => absurd h List.not_mem_nil
  | write hplan =>
    intro write hw
    rw [List.mem_singleton.1 hw]
    rcases planSave?_eq_some hplan with ⟨fields, hnot, -⟩ | ⟨fields, -, -, rfl⟩
    · exact absurd (hnew.symm.trans hnot) (by decide)
    · rfl

theorem Write.isInsertionOf_of_node_ne {write : Write} (h : write.node ≠ n) :
    write.isInsertionOf n = false := by
  cases write with
  | insert => simpa [Write.isInsertionOf, Write.node] using h
  | _ => rfl

/-- **A new record is inserted once by its own save, unless its key column is claimed.**  When the
save succeeds and no record joined through the key column has a key then, the last write inserted
the record, no other write was for it, and its key is the identifier reported for the insertion.
When one of them has a key, no write inserted the record. -/
theorem save_new_record (hf : Built w.state) (hn : w.state.HasNode n)
    (hnew : w.state.isNew n = true) (h : (save c n).perform w = (.ok (), v)) :
    ∃ writes, Saved c n w writes v ∧ Executes c writes w.log v.log ∧
      (v.state.KeyUnclaimed n → InsertedOnce c n writes v) ∧
      (¬v.state.KeyUnclaimed n → ∀ write ∈ writes, write.isInsertionOf n = false) := by
  have hf := hf.intact
  obtain ⟨writes, hsaved⟩ := save_ok_iff.1 h
  refine ⟨writes, hsaved, hsaved.executes hf.toWellFormed, ?_⟩
  cases hsaved with
  | @intro r s t _ below own _ hread hresolve hbelow hnode =>
    rw [readLinks_of_isNew hnew] at hread
    obtain ⟨-, rfl⟩ := Prod.mk.inj hread
    have hb := hangs_below hf.toWellFormed n
    have hout := not_mem_below hf.toWellFormed n
    have hcons := consults_resolveBelow c _ hf.toWellFormed hb
    rw [Action.Ensures, hresolve] at hcons
    have hs := hcons.learns.steady
    have hs₀ := hf.steady hs
    have hnewS : s.state.isNew n = true :=
      (hcons.reaches.isNew hf.toWellFormed hn hout).trans hnew
    have hbS := hs.shape.hangs hb
    have hnS := (hs.shape.hasNode n).2 hn
    obtain ⟨hwrites, hst, -⟩ := hbelow.reaches hs₀.toWellFormed hbS
    have hnewT := hbelow.isNew_iff hs₀ hnS hbS (nodup_joins_below hf.toWellFormed n) hnewS
    have hT := hs₀.steady hst
    have hnT := (hst.shape.hasNode n).2 hnS
    obtain ⟨-, hreach⟩ := hnode.reaches hT.toWellFormed hnT
    have hshape := (hs.shape.trans hst.shape).trans hreach.shape
    have hclaim : t.state.isNew n = true ↔ v.state.KeyUnclaimed n := by
      rw [hnewT, joins_below hf.toWellFormed, KeyUnclaimed, hshape.edges]
      refine forall₂_congr fun e he => ?_
      have hne : w.state.childOf e ∉ [n] := fun hmem => by
        have hlt := index_lt_childOf hf.toWellFormed he
        rw [List.mem_singleton.1 hmem] at hlt
        exact Nat.lt_irrefl _ hlt
      have hchild : t.state.HasNode (w.state.childOf e) :=
        ((hs.shape.trans hst.shape).hasNode _).2 (hf.hasChild (hf.hasEdge he))
      rw [hshape.edge, hshape.key, hshape.childOf, hreach.keyValue hT.toWellFormed hchild hne,
        hs.shape.edge, hs.shape.key, hs.shape.childOf]
    have hearlier : ∀ write ∈ below, write.node ≠ n := fun write hw hnode =>
      hout (hnode ▸ hwrites write hw)
    constructor
    · intro hfree
      obtain ⟨cells, fields, p, count, rfl, hp, hlog⟩ :=
        hnode.of_new hT.toWellFormed hnT (hclaim.2 hfree)
      refine ⟨below, cells, fields, p, count, t.log, ?_, hearlier, ?_, hlog⟩
      · rw [hreach.shape.table]
      · rw [hreach.shape.table, hp]
    · intro hclaimed write hw
      rcases List.mem_append.1 hw with hw | hw
      · exact Write.isInsertionOf_of_node_ne (hearlier write hw)
      · exact hnode.not_insertion (Bool.not_eq_true _ ▸ mt hclaim.1 hclaimed) write hw

/-! ## One record with a link, and one whose key is claimed -/

namespace Connector

/-- A database that answers no query and numbers the statements that it executes. -/
def counting : Connector Nat where
  dialect := .sqlite
  query _ n := (.ok [], n)
  execute _ n := (.ok 1, n + 1)
  lastIdentifier n := (.ok (.int (Int64.ofNat n)), n)
  describe _ n := (.ok [], n)

end Connector

/-- A new record, and nothing joined to it. -/
def Forest.lone : Forest := (Forest.empty.addRoot "table0" "id" .null).2

/-- A new record that links to another new one. -/
def Forest.linkJoined : Forest :=
  let path : Path := .join "table1" "id" (.column "table1_id") (.column "title")
  ((registerColumn ⟨0⟩ path).perform Forest.lone).2

/-- The same records, with a title for the joined one. -/
def Forest.titledJoined : Forest := Forest.linkJoined.assign ⟨3⟩ (.text "Joined")

theorem built_lone : Built Forest.lone := Built.addRoot "table0" "id" .null Built.empty

theorem save_new_record_linked :
    let w : World Nat Forest := ⟨0, [], Forest.titledJoined⟩
    ∃ writes v, (save Connector.counting ⟨0⟩).perform w = (.ok (), v) ∧
      Saved Connector.counting ⟨0⟩ w writes v ∧ InsertedOnce Connector.counting ⟨0⟩ writes v ∧
      executed v.log = [⟨"INSERT INTO \"table1\" (\"title\") VALUES ('Joined')", []⟩,
        ⟨"INSERT INTO \"table0\" (\"table1_id\") VALUES (1)", []⟩] ∧
      v.state.keyValue ⟨0⟩ = .int 2 := by
  intro w
  have h : (save Connector.counting ⟨0⟩).perform w =
      (.ok (), ((save Connector.counting ⟨0⟩).perform w).2) :=
    Action.perform_eq (by decide +kernel)
  have hjoined : Built Forest.linkJoined := Built.registerColumn _ built_lone (by decide)
  have hbuilt : Built Forest.titledJoined := Built.assign _ hjoined (by decide +kernel)
  obtain ⟨writes, hsaved, -, hinserted, -⟩ :=
    save_new_record hbuilt (by decide +kernel) (by decide +kernel) h
  exact ⟨writes, _, h, hsaved, hinserted (by decide +kernel), by decide +kernel,
    by decide +kernel⟩

/-- A new record that is joined to another new one through its own key. -/
def Forest.keyJoined : Forest :=
  let path : Path := .join "table1" "id" (.column "id") (.column "title")
  ((registerColumn ⟨0⟩ path).perform Forest.lone).2

/-- The same records, with a title for the joined one. -/
def Forest.claimed : Forest := Forest.keyJoined.assign ⟨2⟩ (.text "Joined")

/-- A new record whose key is claimed is saved, and the record behind the join is inserted, but no
row of its own table is. -/
theorem save_claimed_record :
    ∃ v, Built Forest.claimed ∧ Forest.claimed.isNew ⟨0⟩ = true ∧
      (Forest.claimed.node ⟨0⟩).table = "table0" ∧
      (save Connector.counting ⟨0⟩).perform ⟨0, [], Forest.claimed⟩ = (.ok (), v) ∧
      executed v.log = [⟨"INSERT INTO \"table1\" (\"title\") VALUES ('Joined')", []⟩] ∧
      v.state.keyValue ⟨0⟩ = .int 1 := by
  have hjoined : Built Forest.keyJoined := Built.registerColumn _ built_lone (by decide)
  have hbuilt : Built Forest.claimed := Built.assign _ hjoined (by decide +kernel)
  exact ⟨_, hbuilt, by decide +kernel, by decide +kernel, Prod.ext (by decide +kernel) rfl,
    by decide +kernel, by decide +kernel⟩

end LinkedRows
