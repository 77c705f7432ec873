/-
# Records addressed by paths

A `Record` is the root of a forest together with its options.  Its actions take the texts of
paths; they read a path first, so that a malformed one changes nothing and calls nobody.

Reading a column of a record that has a row fetches first whatever is stale on the way to the
column.  Assignments stay in the forest until the record is saved.
-/

import LinkedRows.Delete
import LinkedRows.Forest.Assign
import LinkedRows.Forest.Resolve
import LinkedRows.Options
import LinkedRows.Path.Reader

namespace LinkedRows

/-- The root of a forest, and how its paths are treated. -/
structure Record where
  root : NodeId
  options : Options
deriving DecidableEq, Repr

namespace Record

/-- A record of a table in a forest of its own.  Without a key, or with a null one, it is new;
without a name for its key column it takes the one of the naming. -/
def create (table : String) (keyName : Option String) (key : Option Value) (options : Options) :
    Record × Forest :=
  let (root, f) :=
    Forest.empty.addRoot table (keyName.getD options.naming.key) (key.getD .null)
  (⟨root, options⟩, f)

variable {σ : Type} (r : Record)

/-- Reads the text of a path to a column. -/
def columnPath (path : String) : Except Fault Path := Path.readColumn r.options.naming path

/-- Registers the column of a path. -/
def register (path : String) : Action σ Forest CellId := do
  let p ← Action.ofExcept (r.columnPath path)
  Action.ofChange (Forest.registerColumn r.root p)

/-- Registers the columns of paths up to the first that fails. -/
def registerAll : List String → Action σ Forest (List CellId)
  | [] => return []
  | path :: rest => do
    let c ← r.register path
    return c :: (← registerAll rest)

/-- Registers the joined record of a path. -/
def registerTable (path : String) : Action σ Forest NodeId := do
  let p ← Action.ofExcept (Path.readTable r.options.naming path)
  Action.ofChange (Forest.registerTable r.root p)

/-- The fault of a path to a column that is not registered. -/
def unknownColumn (f : Forest) (path : String) : Fault :=
  .unknownColumn (f.node r.root).table path

/-- The column of a path: the registered one, or a new one if the options ask for it. -/
def resolve (path : String) : Action σ Forest CellId := do
  let p ← Action.ofExcept (r.columnPath path)
  let f ← Action.state
  match f.lookupColumn? r.root p with
  | some c => return c
  | none =>
    if r.options.registerOnAccess then Action.ofChange (Forest.registerColumn r.root p)
    else throw (r.unknownColumn f path)

/-- The registered column of a path, as it is. -/
def column (f : Forest) (path : String) : Except Fault Cell := do
  let p ← r.columnPath path
  match f.lookupColumn? r.root p with
  | some c => return f.cell c
  | none => throw (r.unknownColumn f path)

/-- The value of the column of a path. -/
def get (c : Connector σ) (path : String) : Action σ Forest Value := do
  let cell ← r.resolve path
  let f ← Action.state
  if let some anchor := f.staleAnchor? (f.cell cell).owner then fetch c anchor
  return ((← Action.state).cell cell).value

/-- The values of the columns of paths. -/
def getAll (c : Connector σ) : List String → Action σ Forest (List Value)
  | [] => return []
  | path :: rest => do
    let v ← r.get c path
    return v :: (← getAll c rest)

/-- Assigns the column of a path. -/
def set (path : String) (v : Value) : Action σ Forest Unit := do
  let cell ← r.resolve path
  Action.update fun f => f.assign cell v

/-- Saves the record; the result is its key. -/
def save (c : Connector σ) : Action σ Forest Value := do
  LinkedRows.save c r.root
  return (← Action.state).keyValue r.root

/-- Reads every registered column that is not assigned. -/
def fetch (c : Connector σ) : Action σ Forest Unit := LinkedRows.fetch c r.root

/-- Deletes the record's own row. -/
def delete (c : Connector σ) : Action σ Forest Unit := LinkedRows.delete c r.root

/-- Deletes the record's row and all joined rows; the result is how many statements that took. -/
def deleteAll (c : Connector σ) : Action σ Forest Nat := LinkedRows.deleteAll c r.root

end Record
end LinkedRows
