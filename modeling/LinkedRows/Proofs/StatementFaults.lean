/-
# Faults that statements bring

Once a record has its columns, nothing but a statement can fail: a value in it has no literal, the
database refuses it or cannot be reached, or an insertion is given no identifier
(`Fault.isOfStatement`).  Each action is made of steps that can fail in no other way, wherever they
are performed (`Action.FailsInStatements`); saving a record and fetching it fail otherwise only if
it was deleted or has no row.

Of the connector this takes that it reports its own failures as failures of the connection or of a
query (`Connector.ReportsFailures`).
-/

import LinkedRows.Proofs.Request
import LinkedRows.Proofs.StatementTokens
import LinkedRows.Script

namespace LinkedRows

open Forest

variable {σ τ α β : Type} {c : Connector σ}

/-- Is a fault one of the database or the way to it, or of a value that cannot be written? -/
def Fault.isOfStatement : Fault → Bool
  | .connection _ | .query _ | .type _ => true
  | _ => false

theorem Fault.isOfStatement_of_isConnectorFailure {e : Fault} (h : e.isConnectorFailure = true) :
    e.isOfStatement = true := by
  cases e with
  | connection | query => rfl
  | _ => cases h

/-- Such a fault has nothing to do with paths and registered columns. -/
theorem Fault.kinds_of_isOfStatement {e : Fault} (h : e.isOfStatement = true) :
    e.isMalformedPath = false ∧ e.isUnknownColumn = false ∧ e.isNotSaved = false := by
  cases e with
  | connection | query | type => exact ⟨rfl, rfl, rfl⟩
  | _ => cases h

theorem Fault.kinds_of_isMalformedPath {e : Fault} (h : e.isMalformedPath = true) :
    e.isUnknownColumn = false ∧ e.isNotSaved = false := by
  cases e with
  | path => exact ⟨rfl, rfl⟩
  | _ => cases h

/-- A connector reports the failures of its calls as failures of the connection or of a query. -/
structure Connector.ReportsFailures (c : Connector σ) : Prop where
  query {p s e} : (c.query p s).1 = .error e → e.isConnectorFailure = true
  execute {p s e} : (c.execute p s).1 = .error e → e.isConnectorFailure = true
  lastIdentifier {s e} : (c.lastIdentifier s).1 = .error e → e.isConnectorFailure = true

/-- Scripted databases do. -/
theorem Script.reportsFailures (dialect : Dialect) :
    (Script.connector dialect).ReportsFailures := by
  have hrefused {text : String} {statement : Option String} {α : Type}
      {reply : Script → α × Script} {s : Script} {e : Fault}
      (h : (unlessRefused text statement reply s).1 = .error e) : e.isConnectorFailure = true := by
    unfold unlessRefused at h
    split at h
    · rename_i hrefused
      obtain rfl := Except.error.inj h
      obtain ⟨r, -, rfl⟩ := Option.map_eq_some_iff.1 hrefused
      cases r.kind <;> rfl
    · cases h
  exact ⟨hrefused, hrefused, hrefused⟩

/-- A statement that cannot be prepared has a value of the wrong type. -/
theorem Statement.isOfStatement_of_prepare {dialect : Dialect} {s : Statement} {e : Fault}
    (h : s.prepare dialect = .error e) : e.isOfStatement = true := by
  cases hfirst : s.values.find? fun v => !Dialect.hasLiteral v with
  | none =>
    obtain ⟨text, htext, -⟩ := s.text_reads dialect fun v hv => by
      simpa using List.find?_eq_none.1 hfirst v hv
    rw [prepare, htext] at h
    cases h
  | some v =>
    obtain ⟨x, -, -, hfault⟩ :=
      dialect.literal_eq_error (v := v) (by simpa using List.find?_some hfirst)
    rw [prepare, s.text_eq_error dialect hfault hfirst] at h
    obtain rfl := Except.error.inj h
    rfl

namespace Action

/-- Wherever an action is performed, it can fail in statements alone. -/
def FailsInStatements (a : Action σ τ α) : Prop :=
  ∀ ⦃w e v⦄, a.perform w = (.error e, v) → e.isOfStatement = true

namespace FailsInStatements

variable {a : Action σ τ α} {k : α → Action σ τ β}

theorem bind (h : a.FailsInStatements) (hk : ∀ x, (k x).FailsInStatements) :
    (a >>= k).FailsInStatements := by
  intro w e v hfails
  rcases perform_bind_eq_error.1 hfails with hfails | ⟨x, u, -, hfails⟩
  · exact h hfails
  · exact hk x hfails

theorem pure (x : α) : (Pure.pure x : Action σ τ α).FailsInStatements := nofun

theorem state : (state : Action σ τ τ).FailsInStatements := nofun

theorem update (change : τ → τ) : (update change : Action σ τ Unit).FailsInStatements := nofun

theorem prepare (c : Connector σ) (s : Statement) :
    (c.prepare s : Action σ τ Prepared).FailsInStatements := by
  intro w e v h
  rw [Connector.perform_prepare] at h
  exact Statement.isOfStatement_of_prepare (Prod.mk.inj h).1

theorem rows (hc : c.ReportsFailures) (p : Prepared) :
    (c.rows p : Action σ τ (List Row)).FailsInStatements := by
  intro w e v h
  rw [Connector.perform_rows] at h
  exact Fault.isOfStatement_of_isConnectorFailure (hc.query (Prod.mk.inj h).1)

theorem run (hc : c.ReportsFailures) (p : Prepared) :
    (c.run p : Action σ τ Nat).FailsInStatements := by
  intro w e v h
  rw [Connector.perform_run] at h
  exact Fault.isOfStatement_of_isConnectorFailure (hc.execute (Prod.mk.inj h).1)

theorem lastInserted (hc : c.ReportsFailures) :
    (c.lastInserted : Action σ τ Value).FailsInStatements := by
  intro w e v h
  rw [Connector.perform_lastInserted] at h
  exact Fault.isOfStatement_of_isConnectorFailure (hc.lastIdentifier (Prod.mk.inj h).1)

end FailsInStatements

end Action

open Action.FailsInStatements

/-! ## Reading and writing -/

theorem readCells_failsInStatements (hc : c.ReportsFailures) (n : NodeId) (cells : List CellId) :
    (readCells c n cells).FailsInStatements := by
  unfold readCells
  split
  · refine state.bind fun f => (prepare c _).bind fun p => ?_
    refine ((rows hc p).bind fun rows => pure _).bind fun row => ?_
    cases row with
    | none => exact pure _
    | some row => exact update _
  · exact pure ()

theorem run_failsInStatements (hc : c.ReportsFailures) (write : Write) :
    (write.run c).FailsInStatements := by
  unfold Write.run
  refine (prepare c _).bind fun p => (run hc p).bind fun _ => ?_
  cases write with
  | insert n table cells fields =>
    refine (lastInserted hc).bind fun key => ?_
    dsimp only
    split
    · rintro w e v ⟨⟩
      rfl
    · exact update _
  | update => exact update _
  | delete => exact update _

theorem fetchNode_failsInStatements (hc : c.ReportsFailures) (n : NodeId) :
    (fetchNode c n).FailsInStatements :=
  state.bind fun _ => (readCells_failsInStatements hc n _).bind fun _ => update _

theorem fetchBelow_failsInStatements (hc : c.ReportsFailures) (b : Branches) :
    (fetchBelow c b).FailsInStatements := by
  induction b with
  | nil => exact pure ()
  | cons e child below next ihBelow ihNext =>
    unfold fetchBelow
    refine state.bind fun f => ?_
    dsimp only
    split
    · refine (update _).bind fun _ => state.bind fun f => ?_
      split
      · exact (fetchNode_failsInStatements hc child).bind fun _ => ihBelow.bind fun _ => ihNext
      · exact ihNext
    · exact ihNext

theorem readLinks_failsInStatements (hc : c.ReportsFailures) (n : NodeId) :
    (readLinks c n).FailsInStatements :=
  state.bind fun _ => readCells_failsInStatements hc n _

theorem resolveBelow_failsInStatements (hc : c.ReportsFailures) (b : Branches) :
    (resolveBelow c b).FailsInStatements := by
  induction b with
  | nil => exact pure ()
  | cons e child below next ihBelow ihNext =>
    unfold resolveBelow
    refine state.bind fun f => ?_
    dsimp only
    split
    · refine (update _).bind fun _ => (readLinks_failsInStatements hc child).bind fun _ => ?_
      exact ihBelow.bind fun _ => ihNext
    · exact ihNext

theorem saveNode_failsInStatements (hc : c.ReportsFailures) (n : NodeId) (direct : Bool) :
    (saveNode c n direct).FailsInStatements := by
  unfold saveNode
  refine state.bind fun f => ?_
  split
  · exact run_failsInStatements hc _
  · exact update _

theorem saveBelow_failsInStatements (hc : c.ReportsFailures) (b : Branches) :
    (saveBelow c b).FailsInStatements := by
  induction b with
  | nil => exact pure ()
  | cons e child below next ihBelow ihNext =>
    unfold saveBelow
    refine state.bind fun f => ?_
    dsimp only
    split
    · refine state.bind fun f => ihBelow.bind fun _ => ?_
      refine (saveNode_failsInStatements hc child false).bind fun _ => ?_
      exact (update _).bind fun _ => ihNext
    · exact ihNext

/-! ## Records -/

variable {w v : World σ Forest} {n : NodeId} {e : Fault} {r : Record}

/-- A record that was not deleted is saved unless a statement fails. -/
theorem isOfStatement_of_save (hc : c.ReportsFailures) (hdel : (w.state.node n).deleted = false)
    (h : (save c n).perform w = (.error e, v)) : e.isOfStatement = true := by
  have hsteps : (readLinks c n >>= fun _ => resolveBelow c (w.state.below n) >>= fun _ =>
      saveBelow c (w.state.below n) >>= fun _ => saveNode c n true).FailsInStatements :=
    (readLinks_failsInStatements hc n).bind fun _ =>
      (resolveBelow_failsInStatements hc _).bind fun _ =>
        (saveBelow_failsInStatements hc _).bind fun _ => saveNode_failsInStatements hc n true
  rw [save, Action.perform_state_bind, hdel] at h
  exact hsteps h

/-- A record that has a row is fetched unless a statement fails. -/
theorem isOfStatement_of_fetch (hc : c.ReportsFailures) (hbound : w.state.isBound n = true)
    (h : (fetch c n).perform w = (.error e, v)) : e.isOfStatement = true := by
  have hsteps : (fetchTree c n).FailsInStatements :=
    state.bind fun _ => (fetchNode_failsInStatements hc n).bind fun _ =>
      fetchBelow_failsInStatements hc _
  rw [fetch, Action.perform_state_bind, hbound] at h
  exact hsteps h

namespace Record

theorem Browses.wellFormed (h : Browses w v) (hf : WellFormed w.state) : WellFormed v.state := by
  obtain ⟨u, hgrown, -, hlearns⟩ := h
  exact hlearns.steady.wellFormed (hf.grows hgrown.grows)

/-- A registered column is read unless a statement fails: what is fetched for it is stale, so it has
a row. -/
theorem isOfStatement_of_get (hc : c.ReportsFailures) {path : String} {p : Path} {d : CellId}
    (hp : r.columnPath path = .ok p) (hd : w.state.lookupColumn? r.root p = some d)
    (h : (r.get c path).perform w = (.error e, v)) : e.isOfStatement = true := by
  obtain ⟨d, u, hresolve⟩ := exists_resolve hp (.inr ⟨d, hd⟩)
  rw [get, Action.perform_bind_ok hresolve, Action.perform_state_bind] at h
  cases hanchor : u.state.staleAnchor? (u.state.cell d).owner with
  | none =>
    rw [hanchor] at h
    cases h
  | some anchor =>
    rw [hanchor] at h
    have hstale : u.state.isStale anchor = true := List.find?_some hanchor
    rcases Action.perform_bind_eq_error.1 h with h | ⟨_, _, -, h⟩
    · exact isOfStatement_of_fetch hc (isStale_iff.1 hstale).1 h
    · cases h

/-- Registered columns are read unless a statement fails. -/
theorem isOfStatement_of_getAll (hc : c.ReportsFailures) {paths : List String}
    (hf : WellFormed w.state) (hr : w.state.HasNode r.root)
    (hpaths : ∀ path ∈ paths, ∃ p d, r.columnPath path = .ok p ∧
      w.state.lookupColumn? r.root p = some d)
    (h : (r.getAll c paths).perform w = (.error e, v)) : e.isOfStatement = true := by
  induction paths generalizing w with
  | nil => cases h
  | cons path rest ih =>
    obtain ⟨⟨p, d, hp, hd⟩, hrest⟩ := List.forall_mem_cons.1 hpaths
    rcases Action.perform_bind_eq_error.1 h with h | ⟨x, u, hget, h⟩
    · exact isOfStatement_of_get hc hp hd h
    rcases Action.perform_bind_eq_error.1 h with h | ⟨_, _, -, h⟩
    · have hbrowses : Browses w u := by
        have hbrowses := browses_get (c := c) hf hr path
        rwa [hget] at hbrowses
      refine ih (hbrowses.wellFormed hf) (hbrowses.hasNode hf hr) (fun q hq => ?_) h
      obtain ⟨p, d, hp, hd⟩ := hrest q hq
      exact ⟨p, d, hp, hbrowses.lookupColumn? hf hd⟩
    · cases h

end Record
end LinkedRows
