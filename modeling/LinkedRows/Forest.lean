/-
# The forest of records

Records, their columns and the left joins between them, each in the order of its creation and
known by its index.  A record (`Node`) is one row of one table.  A column (`Cell`) holds what
storage is known to hold and, once assigned, what it shall hold.  A join (`Edge`) leads from a
record through one of its columns, the link, to a record of its own: so every record is a root or
the child of one edge.

`Label` is what makes two edges of one record the same: table, key column and link column.  Paths
that mean the same joins therefore lead to the same records.
-/

import LinkedRows.Value

namespace LinkedRows

/-- A record of a forest, by index. -/
structure NodeId where
  index : Nat
deriving DecidableEq, Repr, Inhabited

/-- A column of a forest, by index. -/
structure CellId where
  index : Nat
deriving DecidableEq, Repr, Inhabited

/-- A join of a forest, by index. -/
structure EdgeId where
  index : Nat
deriving DecidableEq, Repr, Inhabited

/-- A column of a record. -/
structure Cell where
  name : String
  owner : NodeId
  isKey : Bool
  /-- What was last read from storage or written to it. -/
  stored : Value
  /-- What was assigned since. -/
  assigned : Option Value
deriving DecidableEq, Repr, Inhabited

namespace Cell

/-- A column of which nothing is known. -/
def blank (name : String) (owner : NodeId) (isKey : Bool) : Cell :=
  ⟨name, owner, isKey, .null, none⟩

/-- What the column holds for its readers. -/
def value (c : Cell) : Value := c.assigned.getD c.stored

/-- An assigned column is dirty. -/
def isDirty (c : Cell) : Bool := c.assigned.isSome

/-- Assigns a value. -/
def assign (c : Cell) (v : Value) : Cell := { c with assigned := some v }

/-- Drops an assignment. -/
def discard (c : Cell) : Cell := { c with assigned := none }

/-- Takes a value from storage; an assignment stays. -/
def load (c : Cell) (v : Value) : Cell := { c with stored := v }

/-- The assigned value has reached storage. -/
def settle (c : Cell) : Cell := { c with stored := c.value, assigned := none }

end Cell

/-- A record. -/
structure Node where
  table : String
  key : CellId
  /-- The columns in the order of registration, the key first. -/
  cells : List CellId
  /-- The joins in the order of creation. -/
  edges : List EdgeId
  /-- The columns hold what storage holds. -/
  current : Bool
  /-- The row was deleted. -/
  deleted : Bool
  /-- The join that leads here; a root has none. -/
  parent : Option EdgeId
deriving DecidableEq, Repr, Inhabited

/-- What makes two joins of one record the same. -/
structure Label where
  table : String
  key : String
  link : String
deriving DecidableEq, Repr, Inhabited

/-- A left join. -/
structure Edge where
  owner : NodeId
  child : NodeId
  /-- The owner's column that holds the key of the child. -/
  link : CellId
  label : Label
deriving DecidableEq, Repr, Inhabited

/-- Records, columns and joins by index. -/
structure Forest where
  nodes : List Node
  cells : List Cell
  edges : List Edge
deriving DecidableEq, Repr, Inhabited

namespace Forest

def empty : Forest := ⟨[], [], []⟩

def node (f : Forest) (n : NodeId) : Node := f.nodes[n.index]?.getD default

def cell (f : Forest) (c : CellId) : Cell := f.cells[c.index]?.getD default

def edge (f : Forest) (e : EdgeId) : Edge := f.edges[e.index]?.getD default

/-- Changes one record. -/
def modifyNode (f : Forest) (n : NodeId) (change : Node → Node) : Forest :=
  { f with nodes := f.nodes.modify n.index change }

/-- Changes one column. -/
def modifyCell (f : Forest) (c : CellId) (change : Cell → Cell) : Forest :=
  { f with cells := f.cells.modify c.index change }

/-! ## Records -/

/-- The key of a record; null as long as the record is new. -/
def keyValue (f : Forest) (n : NodeId) : Value := (f.cell (f.node n).key).value

/-- The name of the key column. -/
def keyName (f : Forest) (n : NodeId) : String := (f.cell (f.node n).key).name

/-- A record is new until its key is assigned. -/
def isNew (f : Forest) (n : NodeId) : Bool := !(f.cell (f.node n).key).isDirty

/-- A record that is neither new nor deleted has a row to read and write. -/
def isBound (f : Forest) (n : NodeId) : Bool := !f.isNew n && !(f.node n).deleted

/-- A bound record that is not current has to be read before it is shown. -/
def isStale (f : Forest) (n : NodeId) : Bool := f.isBound n && !(f.node n).current

def setCurrent (f : Forest) (n : NodeId) (current : Bool) : Forest :=
  f.modifyNode n fun node => { node with current := current }

/-- The row is gone. -/
def markDeleted (f : Forest) (n : NodeId) : Forest :=
  f.modifyNode n fun node => { node with deleted := true, current := false }

/-- Gives a record a key. -/
def setKey (f : Forest) (n : NodeId) (key : Value) : Forest :=
  f.modifyCell (f.node n).key (·.assign key)

/-- The assignments of columns have reached storage. -/
def settle (f : Forest) (cells : List CellId) : Forest :=
  cells.foldl (fun f c => f.modifyCell c Cell.settle) f

/-- Takes the values of columns from storage, in order, as far as there are values. -/
def load (f : Forest) (cells : List CellId) (values : List Value) : Forest :=
  (cells.zip values).foldl (fun f (c, v) => f.modifyCell c (·.load v)) f

/-! ## Growth -/

/-- Adds a record with its key column.  A key that is not null makes it an existing one. -/
def addNode (f : Forest) (table keyName : String) (key : Value) (parent : Option EdgeId) :
    NodeId × Forest :=
  let n : NodeId := ⟨f.nodes.length⟩
  let c : CellId := ⟨f.cells.length⟩
  let keyCell : Cell := ⟨keyName, n, true, .null, if key.isNull then none else some key⟩
  let node : Node :=
    { table := table, key := c, cells := [c], edges := [], current := false, deleted := false,
      parent := parent }
  (n, { f with nodes := f.nodes ++ [node], cells := f.cells ++ [keyCell] })

/-- Adds a record that no join leads to. -/
def addRoot (f : Forest) (table keyName : String) (key : Value) : NodeId × Forest :=
  f.addNode table keyName key none

/-- The column of a record with a name. -/
def findCell? (f : Forest) (n : NodeId) (name : String) : Option CellId :=
  (f.node n).cells.find? fun c => (f.cell c).name == name

/-- The join of a record with a label. -/
def findEdge? (f : Forest) (n : NodeId) (label : Label) : Option EdgeId :=
  (f.node n).edges.find? fun e => (f.edge e).label == label

/-- The column of a record with a name, added if there is none.  A record with a new column is no
longer current. -/
def ensureCell (f : Forest) (n : NodeId) (name : String) : CellId × Forest :=
  match f.findCell? n name with
  | some c => (c, f)
  | none =>
    let c : CellId := ⟨f.cells.length⟩
    let grown : Forest := { f with cells := f.cells ++ [Cell.blank name n false] }
    (c, grown.modifyNode n fun node =>
      { node with cells := node.cells ++ [c], current := false })

/-- The record that the join through a link into a table leads to, added if there is none.  A new
child takes the value of the link for its key. -/
def ensureJoin (f : Forest) (link : CellId) (table key : String) : NodeId × Forest :=
  let owner := (f.cell link).owner
  let label : Label := ⟨table, key, (f.cell link).name⟩
  match f.findEdge? owner label with
  | some e => ((f.edge e).child, f)
  | none =>
    let e : EdgeId := ⟨f.edges.length⟩
    let (child, grown) := f.addNode table key (f.cell link).value (some e)
    let joined : Forest := { grown with edges := grown.edges ++ [⟨owner, child, link, label⟩] }
    (child, joined.modifyNode owner fun node => { node with edges := node.edges ++ [e] })

end Forest
end LinkedRows
