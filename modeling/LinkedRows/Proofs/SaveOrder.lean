/-
# What a save writes, and in which order

A save that succeeds asks first and writes then.  It comes to each record that its walk goes through
once, to the records below another one before that one.  At its turn a record gets the one statement
that it needs then, or none (`Turn.statement?`): an insertion if it is new, else an update of its
row, of the columns that are assigned at that moment.  These are all statements that the save
executes.

`save_in_order` puts this together.  Which records are new at their turns, and what is assigned
there, the earlier turns and the reading have decided; the statement speaks of the worlds before
the turns for that reason.
-/

import LinkedRows.Proofs.Operations
import LinkedRows.Proofs.SaveAgain
import LinkedRows.Proofs.Turns

namespace LinkedRows

open Forest

variable {σ : Type} {c : Connector σ} {w v : World σ Forest} {n : NodeId}

/-! ## The statement of a turn -/

/-- The names and values of the assigned columns of a record, in the order of registration, without
the key. -/
def Forest.assignedFields (f : Forest) (n : NodeId) : List (String × Value) :=
  ((f.node n).cells.filter fun d => (f.cell d).isDirty && !(f.cell d).isKey).map fun d =>
    ((f.cell d).name, (f.cell d).value)

/-- The statement that a record needs at its turn in the save of `root`.  A new record is inserted
if a column is assigned or it is the one that is saved, one with a row is updated if a column is
assigned. -/
def Turn.statement? (root : NodeId) (t : Turn σ) : Option Statement :=
  let f := t.before.state
  let fields := f.assignedFields t.node
  if f.isNew t.node then
    if fields = [] ∧ t.node ≠ root then none else some (.insert (f.node t.node).table fields)
  else if fields = [] then none
  else some (.update (f.node t.node).table fields ⟨f.keyName t.node, f.keyValue t.node⟩)

theorem Turn.statement?_eq (root : NodeId) (t : Turn σ) :
    t.statement? root = (t.write? (t.node == root)).map Write.statement := by
  have hfields : t.before.state.assignedFields t.node = (t.before.state.pendingCells t.node).map
      fun d => ((t.before.state.cell d).name, (t.before.state.cell d).value) := rfl
  rw [statement?, write?, planSave?, hfields]
  cases t.before.state.isNew t.node with
  | true =>
    by_cases hroot : t.node = root
    · simp [hroot, Write.statement]
    · cases t.before.state.pendingCells t.node <;> simp [hroot, Write.statement]
  | false =>
    cases t.before.state.pendingCells t.node <;> simp [Write.statement, rowKey]

/-! ## No question after the first write -/

/-- The second log goes on from the first one without a query. -/
def NeverAsks (old new : List Exchange) : Prop :=
  ∃ written, new = old ++ written ∧ ∀ x ∈ written, x.isQuery = false

namespace NeverAsks

variable {l₁ l₂ l₃ : List Exchange}

@[refl] theorem refl (l : List Exchange) : NeverAsks l l :=
  ⟨[], (List.append_nil l).symm, fun _ h => absurd h List.not_mem_nil⟩

theorem trans (h₁ : NeverAsks l₁ l₂) (h₂ : NeverAsks l₂ l₃) : NeverAsks l₁ l₃ := by
  obtain ⟨written₁, rfl, hwritten₁⟩ := h₁
  obtain ⟨written₂, rfl, hwritten₂⟩ := h₂
  refine ⟨written₁ ++ written₂, List.append_assoc .., fun x hx => ?_⟩
  exact (List.mem_append.1 hx).elim (hwritten₁ x) (hwritten₂ x)

end NeverAsks

theorem Ran.neverAsks {write : Write} (h : Ran c w write v) : NeverAsks w.log v.log := by
  cases h <;> exact ⟨_, rfl, by simp [Exchange.isQuery]⟩

theorem SavedNode.neverAsks {direct : Bool} {writes : List Write}
    (h : SavedNode c n direct w writes v) : NeverAsks w.log v.log := by
  cases h with
  | nothing => exact NeverAsks.refl _
  | write _ hran => exact hran.neverAsks

theorem SavedBelow.neverAsks {b : Branches} {writes : List Write}
    (h : SavedBelow c b w writes v) : NeverAsks w.log v.log := by
  induction h with
  | nil => exact NeverAsks.refl _
  | deleted _ _ ih => exact ih
  | kept _ _ hnode _ ihBelow ihNext => exact (ihBelow.trans hnode.neverAsks).trans ihNext

/-! ## The save -/

/-- The statements of the turns are those of the writes. -/
theorem Turns.saved {turns : List (Turn σ)} (hf : WellFormed w.state)
    (h : Turns c n w turns v) : ∃ writes, Saved c n w writes v ∧
      turns.filterMap (Turn.statement? n) = writes.map Write.statement := by
  cases h with
  | @intro r s t _ below hdel hread hresolve hbelow hnode =>
    have hb := hangs_below hf n
    have hs := (consults_before hf hread hresolve).learns.steady
    have hnodes : ∀ t ∈ below, t.node ≠ n := by
      have hout := (List.nodup_append'.1 (keptOrder_spec hf n).1).2.2
      rw [← hs.keptOrder, ← hbelow.nodes (hs.wellFormed hf) (hs.shape.hangs hb)] at hout
      exact fun t ht hn => hout (List.mem_map_of_mem ht) (List.mem_singleton.2 hn)
    have hbelowStatements : below.filterMap (Turn.statement? n) =
        (below.filterMap (·.write? false)).map Write.statement := by
      rw [List.map_filterMap]
      refine List.filterMap_congr fun t ht => ?_
      rw [Turn.statement?_eq, beq_false_of_ne (hnodes t ht)]
    have hown : [(⟨n, t, v⟩ : Turn σ)].filterMap (Turn.statement? n) =
        (t.state.planSave? n true).toList.map Write.statement := by
      rw [List.filterMap_cons, List.filterMap_nil, Turn.statement?_eq, Turn.write?,
        beq_self_eq_true]
      cases t.state.planSave? n true <;> rfl
    refine ⟨_, .intro hdel hread hresolve hbelow.saved (savedNode_of_perform hnode), ?_⟩
    rw [List.filterMap_append, List.map_append, hbelowStatements, hown]

/-- The turns of a save go through the records of its walk in order. -/
theorem Turns.nodes {turns : List (Turn σ)} (hf : WellFormed w.state)
    (h : Turns c n w turns v) :
    turns.map Turn.node = w.state.keptOrder (w.state.below n) ++ [n] := by
  cases h with
  | intro _ hread hresolve hbelow _ =>
    have hb := hangs_below hf n
    have hs := (consults_before hf hread hresolve).learns.steady
    rw [List.map_append, hbelow.nodes (hs.wellFormed hf) (hs.shape.hangs hb), hs.keptOrder]
    rfl

/-- A save asks, and then it writes. -/
theorem Saved.asksFirst {writes : List Write} (hf : WellFormed w.state)
    (h : Saved c n w writes v) : ∃ log, OnlyAsks w.log log ∧ NeverAsks log v.log := by
  cases h with
  | @intro r s t _ _ _ _ hread hresolve hbelow hnode =>
    exact ⟨s.log, (consults_before hf hread hresolve).asks,
      hbelow.neverAsks.trans hnode.neverAsks⟩

/-- **What a save writes, and in which order.**  In every state that operations lead to, for every
connector: a save that succeeds makes all its queries before it writes.  It comes to exactly the
records that can be reached from the saved one without passing through a deleted record, to each of
them once, and never to a record before one below it.  What it executes are the statements that the
records need at their turns, in order, and nothing else.  Afterwards none of these records has an
assigned column but its key, and none of them is current. -/
theorem save_in_order (hf : Operated w.state) (hn : w.state.HasNode n)
    (h : (save c n).perform w = (.ok (), v)) :
    ∃ turns asked written, Turns c n w turns v ∧
      v.log = w.log ++ asked ++ written ∧
      (∀ x ∈ asked, x.isQuery = true) ∧ (∀ x ∈ written, x.isQuery = false) ∧
      (turns.filterMap (Turn.statement? n)).map (·.prepare c.dialect) =
        (executed written).map .ok ∧
      (turns.map Turn.node).Nodup ∧
      (∀ m, m ∈ turns.map Turn.node ↔ w.state.Passed n m) ∧
      (turns.map Turn.node).Pairwise (fun m later => later ∉ (w.state.below m).preOrder) ∧
      ∀ m, w.state.Passed n m →
        v.state.assignedFields m = [] ∧ (v.state.node m).current = false := by
  have hwf := hf.wellFormed
  obtain ⟨turns, hturns⟩ := save_ok_iff_turns.1 h
  obtain ⟨writes, hsaved, hstatements⟩ := hturns.saved hwf
  obtain ⟨log, ⟨asked, rfl, hasked⟩, ⟨written, hlog, hwritten⟩⟩ := hsaved.asksFirst hwf
  obtain ⟨hnodup, hmem, hpairwise⟩ := keptOrder_spec hwf n
  obtain ⟨hs, -, hflushed⟩ := hsaved.flushed hwf hn
  have hexecuted : writes.map (fun write => write.statement.prepare c.dialect) =
      (executed written).map .ok := by
    obtain ⟨-, statements, hall, hprepared⟩ := hsaved.executes hwf
    have hnone : executed (w.log ++ asked) = executed w.log :=
      OnlyAsks.executed_eq ⟨asked, rfl, hasked⟩
    rw [hlog, executed_append, hnone] at hall
    rw [hprepared, List.append_cancel_left hall]
  rw [← hturns.nodes hwf] at hnodup hmem hpairwise
  refine ⟨turns, asked, written, hturns, hlog, hasked, hwritten, ?_, hnodup, hmem, hpairwise,
    fun m hm => ?_⟩
  · rw [hstatements, List.map_map]
    exact hexecuted
  · obtain ⟨hpending, hcurrent⟩ := hflushed m ((hs.passed_iff n m).2 hm)
    exact ⟨congrArg (List.map _) hpending, hcurrent⟩

/-- A record with a row, joined to a new record with a title. -/
def Forest.titled : Forest :=
  let path : Path := .join "table1" "id" (.column "table1_id") (.column "title")
  let opened := (Forest.empty.addRoot "table0" "id" (.int 7)).2
  ((registerColumn ⟨0⟩ path).perform opened).2.assign ⟨3⟩ (.text "A")

/-- The link is read; then the new record is inserted, and the row of its owner follows. -/
theorem save_in_order_titled :
    ∃ (turns : List (Turn Nat)) (asked written : List Exchange) (v : World Nat Forest),
      (save Connector.counting ⟨0⟩).perform ⟨0, [], Forest.titled⟩ = (.ok (), v) ∧
      v.log = asked ++ written ∧
      (∀ x ∈ asked, x.isQuery = true) ∧ (∀ x ∈ written, x.isQuery = false) ∧
      v.log.length = 4 ∧ turns.map Turn.node = [⟨1⟩, ⟨0⟩] ∧
      (turns.filterMap (Turn.statement? ⟨0⟩)).map (·.prepare .sqlite) =
        [.ok ⟨"INSERT INTO \"table1\" (\"title\") VALUES ('A')", []⟩,
          .ok ⟨"UPDATE \"table0\" SET \"table1_id\" = 1 WHERE \"id\" = 7", []⟩] := by
  let w : World Nat Forest := ⟨0, [], Forest.titled⟩
  have hsave : (save Connector.counting ⟨0⟩).perform w =
      (.ok (), ((save Connector.counting ⟨0⟩).perform w).2) := Action.perform_eq (by decide +kernel)
  have hopened := Operated.empty.addRoot "table0" "id" (.int 7)
  have hregistered := hopened.registerColumn (n := ⟨0⟩)
    (.join "table1" "id" (.column "table1_id") (.column "title")) (by decide)
  have hf : Operated w.state := hregistered.assign ⟨3⟩ (.text "A")
  have horder : w.state.keptOrder (w.state.below ⟨0⟩) ++ [⟨0⟩] = [⟨1⟩, ⟨0⟩] := by decide +kernel
  obtain ⟨turns, asked, written, hturns, hlog, hasked, hwritten, hstatements, -⟩ :=
    save_in_order hf (by decide +kernel) hsave
  refine ⟨turns, asked, written, _, hsave, hlog, hasked, hwritten, by decide +kernel,
    (hturns.nodes hf.wellFormed).trans horder, ?_⟩
  have hasks : OnlyAsks [] asked := ⟨asked, rfl, hasked⟩
  have hexecuted : executed written = executed ((save Connector.counting ⟨0⟩).perform w).2.log := by
    rw [hlog, executed_append, executed_append, hasks.executed_eq]
    rfl
  refine hstatements.trans ?_
  rw [hexecuted]
  decide +kernel

end LinkedRows
