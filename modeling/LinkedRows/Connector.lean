/-
# Connectors and actions

A `Connector` is the way to a database whose state is a `σ`: it answers queries, executes
statements, tells the identifier of the last insertion and describes tables.  Every call either
succeeds or fails, and in both cases may change the database.

An `Action σ τ` calls a connector and works on a state of its own, a `τ`.  The `World` it runs in
holds the database, that state, and the log of all calls with their replies, in order.  A fault
ends an action and leaves the world as it is then: nothing is undone.
-/

import LinkedRows.Row
import LinkedRows.Schema
import LinkedRows.Statement

namespace LinkedRows

/-- The way to a database. -/
structure Connector (σ : Type) where
  dialect : Dialect
  query : Prepared → σ → Except Fault (List Row) × σ
  execute : Prepared → σ → Except Fault Nat × σ
  lastIdentifier : σ → Except Fault Value × σ
  describe : String → σ → Except Fault (List ColumnShape) × σ

/-- One call of a connector and its reply. -/
inductive Exchange where
  | query (statement : Prepared) (reply : Except Fault (List Row))
  | execute (statement : Prepared) (reply : Except Fault Nat)
  | lastIdentifier (reply : Except Fault Value)
  | describe (table : String) (reply : Except Fault (List ColumnShape))

/-- What an action runs in. -/
structure World (σ τ : Type) where
  store : σ
  log : List Exchange
  state : τ

/-- A computation that calls a connector with the database `σ` and works on a `τ`. -/
abbrev Action (σ τ : Type) : Type → Type := ExceptT Fault (StateM (World σ τ))

namespace Action

variable {σ τ υ α : Type}

/-- The result of an action, and the world after it. -/
def perform (a : Action σ τ α) (w : World σ τ) : Except Fault α × World σ τ :=
  StateT.run (ExceptT.run a) w

/-- The action's own state. -/
def state : Action σ τ τ := return (← get).state

/-- Changes the action's own state. -/
def update (f : τ → τ) : Action σ τ Unit := modify fun w => { w with state := f w.state }

/-- Succeeds or fails without touching the world. -/
def ofExcept : Except Fault α → Action σ τ α
  | .ok a => pure a
  | .error f => throw f

/-- Runs an action, and succeeds with its result even if that is a fault. -/
def attempt (a : Action σ τ α) : Action σ τ (Except Fault α) :=
  ExceptT.mk fun w =>
    let (result, w) := a.perform w
    (.ok result, w)

/-- Runs a change of the action's own state that may fail; what it did before it failed stays. -/
def ofChange (change : ExceptT Fault (StateM τ) α) : Action σ τ α :=
  ExceptT.mk fun w =>
    let (result, state) := change.run.run w.state
    (result, { w with state := state })

/-- Runs an action on a state of its own, which is dropped at the end. -/
def within (own : υ) (a : Action σ υ α) : Action σ τ α :=
  ExceptT.mk fun w =>
    let (result, v) := a.perform ⟨w.store, w.log, own⟩
    (result, ⟨v.store, v.log, w.state⟩)

/-- Makes one call and logs it. -/
def call (run : σ → Except Fault α × σ) (exchange : Except Fault α → Exchange) : Action σ τ α :=
  ExceptT.mk fun w =>
    let (reply, store) := run w.store
    (reply, { w with store := store, log := w.log ++ [exchange reply] })

end Action

namespace Connector

variable {σ τ : Type} (c : Connector σ)

/-- Asks for all rows of a query. -/
def rows (p : Prepared) : Action σ τ (List Row) := Action.call (c.query p) (.query p)

/-- Asks for the first row of a query. -/
def firstRow? (p : Prepared) : Action σ τ (Option Row) := return (← c.rows p).head?

/-- Executes a statement; the result is the number of rows it touched. -/
def run (p : Prepared) : Action σ τ Nat := Action.call (c.execute p) (.execute p)

/-- Asks for the identifier of the last insertion. -/
def lastInserted : Action σ τ Value := Action.call c.lastIdentifier .lastIdentifier

/-- Asks for the columns of a table. -/
def columns (table : String) : Action σ τ (List ColumnShape) :=
  Action.call (c.describe table) (.describe table)

/-- Asks for the schema of a table, which has at least one column. -/
def schema (table : String) : Action σ τ Schema := do
  Action.ofExcept (Schema.ofColumns table (← c.columns table))

/-- The statement as this database takes it. -/
def prepare (s : Statement) : Action σ τ Prepared := Action.ofExcept (s.prepare c.dialect)

end Connector
end LinkedRows
