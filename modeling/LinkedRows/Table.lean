/-
# Tables

One-call access to the rows of a table by paths.  Every call works on a record of its own and keeps
nothing.
-/

import LinkedRows.Record

namespace LinkedRows

/-- Which row is meant: a key, and the name of the key column if it is not the one of the naming. -/
structure TableKey where
  name : Option String
  value : Value
deriving DecidableEq, Repr

/-- A table by name, and how its paths are treated. -/
structure Table where
  name : String
  options : Options
deriving DecidableEq, Repr

namespace Table

variable {σ τ α : Type} (t : Table) (c : Connector σ)

/-- Works on a fresh record of the table. -/
def withRecord (key : Option TableKey) (work : Record → Action σ Forest α) : Action σ τ α :=
  let (r, f) := Record.create t.name (key.bind (·.name)) (key.map (·.value)) t.options
  Action.within f (work r)

/-- Reads the columns of paths from a row, in order.  All paths are registered before the first
statement. -/
def select (paths : List String) (key : TableKey) : Action σ τ (List Value) :=
  t.withRecord (some key) fun r => do
    let _ ← r.registerAll paths
    r.getAll c paths

/-- Registers and assigns the columns of paths, one after the other. -/
def assignAll (r : Record) : List (String × Value) → Action σ Forest Unit
  | [] => pure ()
  | (path, v) :: rest => do
    let _ ← r.register path
    r.set path v
    assignAll r rest

/-- Assigns the columns of paths and saves the row; without a key, or with a null one, the row is
inserted.  The result is the key of the row. -/
def save (fields : List (String × Value)) (key : Option TableKey) : Action σ τ Value :=
  t.withRecord key fun r => do
    assignAll r fields
    r.save c

/-- Inserts a row. -/
def insert (fields : List (String × Value)) : Action σ τ Value := t.save c fields none

/-- Updates a row. -/
def update (fields : List (String × Value)) (key : TableKey) : Action σ τ Value :=
  t.save c fields (some key)

/-- Deletes a row, and none that is joined to it. -/
def delete (key : TableKey) : Action σ τ Unit := t.withRecord (some key) fun r => r.delete c

end Table
end LinkedRows
