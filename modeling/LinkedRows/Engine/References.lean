/-
# References

Columns that refer to a table, its parent, have to hold nothing in one of them or the data of a row
there.  What they refer to has to be the number of the parent's rows or one of its keys.

References are counted while a statement goes on.  A row that comes without a parent adds one, and a
row that goes adds one for each row that refers to it; a row that goes without a parent, and a
parent that comes, take away what is still open.  The statement fails if something is left over.
-/

import LinkedRows.Engine.Database

namespace LinkedRows
namespace Engine

/-- A column of a child and the column of its parent's key that it refers to. -/
structure Pair where
  child : Nat
  parent : Nat
  collation : Collation
deriving DecidableEq, Repr

/-- What a reference refers to: the number of a row, or the columns of a key. -/
inductive Anchor where
  | number (child : Nat)
  | key (pairs : List Pair)
deriving DecidableEq, Repr

/-- A reference whose parent has been found. -/
structure Link where
  child : Declaration
  parent : Declaration
  columns : List Nat
  anchor : Anchor

/-- The links that a change of a table has to leave whole: from its rows and to them.  `leavesFirst`
tells that a row that changes is gone before its new data are looked at. -/
structure Links where
  fromHere : List Link
  toHere : List Link
  leavesFirst : Bool

namespace Reference

/-- Is this a reference to a table? -/
def isTo (reference : Reference) (table : Declaration) : Bool :=
  sameName reference.table table.name

/-- The columns of a key with the columns that refer to them, if the key is meant. -/
def pairs? (reference : Reference) (parent : Declaration) (key : Key) : Option (List Pair) :=
  if key.columns.length ≠ reference.columns.length then none
  else
    match reference.targets with
    | none =>
      if key.primary then
        some ((reference.columns.zip key.columns).map fun (i, c) => ⟨i, c.column, c.collation⟩)
      else none
    | some names =>
      key.columns.mapM fun c => do
        let name ← parent.columnNames[c.column]?
        let position ← names.findIdx? (sameName name)
        let child ← reference.columns[position]?
        if (parent.traitAt c.column).collation = c.collation then
          return ⟨child, c.column, c.collation⟩
        else none

/-- Does a reference mean the number of a parent's rows? -/
def isToNumber (reference : Reference) (parent : Declaration) : Bool :=
  match parent.numbering, reference.columns, reference.targets with
  | some _, [_], none => true
  | some i, [_], some (name :: _) => (parent.columnNames[i]?).any (sameName name)
  | _, _, _ => false

/-- What a reference refers to in its parent; the latest key that fits is taken. -/
def anchor? (reference : Reference) (parent : Declaration) : Option Anchor :=
  if reference.isToNumber parent then reference.columns.head?.map .number
  else (parent.keys.findSome? (reference.pairs? parent)).map .key

/-- Does a reference begin in a column that is assigned? -/
def begins (reference : Reference) (assigned : Nat → Bool) : Bool := reference.columns.any assigned

/-- Does a reference end in a column of its parent that is assigned? -/
def ends (reference : Reference) (parent : Declaration) (assigned : Nat → Bool) : Bool :=
  match reference.targets with
  | none => parent.primary.any assigned
  | some names => names.any fun name => (parent.position? name).any assigned

end Reference

namespace Database

/-- The link that a reference of a table makes, if its parent is there and has such a key. -/
def link (d : Database) (child : Declaration) (reference : Reference) : Except Issue Link :=
  match d.find? reference.table with
  | none => .error (.noParent reference.table)
  | some parent =>
    match reference.anchor? parent.declaration with
    | none => .error (.parentKey child.name reference.table)
    | some anchor => .ok ⟨child, parent.declaration, reference.columns, anchor⟩

/-- All references to a table, the latest first, with the tables that they are from. -/
def referencesTo (d : Database) (table : Declaration) : List (Declaration × Reference) :=
  d.relations.reverse.flatMap fun r =>
    (r.declaration.references.filter fun reference => reference.isTo table).map
      fun reference => (r.declaration, reference)

/-- The links from a table and to it that pass tests. -/
def links (d : Database) (table : Declaration) (isFrom isTo : Reference → Bool)
    (leavesFirst : Bool) : Except Issue Links := do
  let fromHere ← (table.references.filter isFrom).mapM (d.link table)
  let toHere ← ((d.referencesTo table).filter fun (_, reference) => isTo reference).mapM
    fun (child, reference) => d.link child reference
  return ⟨fromHere, toHere, leavesFirst⟩

/-- The links of an insertion.  A single row cannot mend or break a link to the table. -/
def linksOfInsertion (d : Database) (table : Declaration) (isSingle : Bool) : Except Issue Links :=
  d.links table (fun _ => true) (fun _ => !isSingle) false

/-- The links of a deletion. -/
def linksOfDeletion (d : Database) (table : Declaration) : Except Issue Links :=
  d.links table (fun _ => true) (fun _ => true) true

/-- The links that the removal of a whole table has to leave whole: those that are known, if there
is one to the table. -/
def linksOfRemoval (d : Database) (table : Declaration) : Links :=
  let known (child : Declaration) (reference : Reference) : Option Link :=
    (d.link child reference).toOption
  match d.referencesTo table with
  | [] => ⟨[], [], true⟩
  | toHere =>
    { fromHere := table.references.filterMap (known table)
      toHere := toHere.filterMap fun (child, reference) => known child reference
      leavesFirst := true }

/-- The links of an update that assigns columns.  References of the table to itself count if any
link counts. -/
def linksOfUpdate (d : Database) (table : Declaration) (assigned : Nat → Bool)
    (numberAssigned : Bool) : Except Issue Links :=
  let assigned (i : Nat) : Bool := assigned i || numberAssigned && table.numbering = some i
  let isFrom (reference : Reference) : Bool := reference.begins assigned
  let isTo (reference : Reference) : Bool := reference.ends table assigned
  let isOwn (reference : Reference) : Bool := reference.isTo table
  let counts := table.references.any isFrom ||
    (d.referencesTo table).any fun (_, reference) => isTo reference
  let leavesFirst := numberAssigned ||
    table.references.any fun reference => isFrom reference && isOwn reference
  if counts then
    d.links table (fun reference => isFrom reference || isOwn reference) isTo leavesFirst
  else .ok ⟨[], [], leavesFirst⟩

end Database

namespace Link

/-- Is a link from a table to itself? -/
def isOwn (l : Link) : Bool := sameName l.child.name l.parent.name

/-- Does a row refer to nothing? -/
def isIdle (l : Link) (row : Stored) : Bool := l.columns.any fun i => (row.datum i).isNull

/-- Does a row of the parent have what a child refers to? -/
def finds (l : Link) (parents : List Stored) (child : Stored) : Bool :=
  match l.anchor with
  | .number i =>
    match (child.datum i).wholeNumber? with
    | some n => parents.any fun parent => parent.number == n
    | none => false
  | .key pairs =>
    let wanted := pairs.map fun pair =>
      (pair, (l.parent.traitAt pair.parent).affinity.store (child.datum pair.child))
    parents.any fun parent =>
      wanted.all fun (pair, d) => sameDatum pair.collation (parent.datum pair.parent) d

/-- Does a new row refer to itself? -/
def findsItself (l : Link) (row : Stored) : Bool :=
  l.isOwn &&
    match l.anchor with
    | .number i => (row.datum i).wholeNumber? == some row.number
    | .key pairs =>
      pairs.all fun pair => sameDatum .binary (row.datum pair.child) (row.datum pair.parent)

/-- Does a row of the child refer to a row of the parent? -/
def connects (l : Link) (parent child : Stored) : Bool :=
  let compared (i : Nat) (trait : Trait) (d : Datum) : Bool :=
    let affinity := sharedAffinity (some trait.affinity) (some (l.child.traitAt i).affinity)
    (⟨affinity, trait.collation⟩ : Comparison).order? d (child.datum i) == some .eq
  match l.anchor with
  | .number i => compared i ⟨.integer, .binary⟩ (.integer parent.number)
  | .key pairs =>
    pairs.all fun pair =>
      compared pair.child (l.parent.traitAt pair.parent) (parent.datum pair.parent)

/-- Does the anchor of a link have a column that is assigned? -/
def isMoved (l : Link) (assigned : Nat → Bool) : Bool :=
  match l.anchor with
  | .number _ => false
  | .key pairs => pairs.any fun pair => assigned pair.parent

end Link

namespace Links

/-- No links. -/
def none : Links := ⟨[], [], false⟩

/-- The rows of a table. -/
def rowsOf (d : Database) (table : Declaration) : List Stored :=
  ((d.find? table.name).map Relation.rows).getD []

/-- Does a row lack the parent of a link? -/
def lacks (d : Database) (row : Stored) (l : Link) : Bool :=
  !l.isIdle row && !l.finds (rowsOf d l.parent) row

/-- The open references after a row that is still there goes. -/
def removed (links : Links) (d : Database) (row : Stored) (count : Int) : Int :=
  let count := links.fromHere.foldl
    (fun n l => if n ≠ 0 && lacks d row l then n - 1 else n) count
  links.toHere.foldl
    (fun n l =>
      let children := (rowsOf d l.child).filter fun child =>
        l.connects row child && !(l.isOwn && child.number == row.number)
      n + children.length)
    count

/-- The open references after a row that is not there yet comes.  The rows of a parent are those
that a link finds. -/
def added (links : Links) (d : Database) (found : Link → Database) (row : Stored) (count : Int) :
    Int :=
  let count := links.fromHere.foldl
    (fun n l => if lacks (found l) row l && !l.findsItself row then n + 1 else n) count
  links.toHere.foldl
    (fun n l =>
      if n = 0 then n else n - ((rowsOf d l.child).filter (l.connects row)).length)
    count

end Links
end Engine
end LinkedRows
