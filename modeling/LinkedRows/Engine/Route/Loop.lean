/-
# Loops

A loop visits the rows of a table: all of them in the order of their numbers, or by the entries of
the index of a key, all of them or some that terms narrow it to.  Its cost and the number of rows
that it leads to are estimated.

A search tries the rows first and then the keys, each with more and more terms.  A loop that is
worse than another one in both estimates is dropped, but loops that may give the rows in the order
that is asked for are kept apart.
-/

import LinkedRows.Engine.Route.Estimate
import LinkedRows.Engine.Route.Term

namespace LinkedRows
namespace Engine

/-- A term that rows are ordered by; the direction of nothing may be the other one. -/
structure SortTerm where
  formula : Formula
  collation : Collation
  descending : Bool
  nullsMoved : Bool

/-- What an order of rows is good for: to show them in it, to find equal ones side by side, or to
find the least or the greatest one. -/
inductive Purpose where
  | showing
  | telling
  | extreme
deriving DecidableEq, Repr

/-- What a statement wants of a table: the terms of its condition, the columns that it reads, and an
order of the rows.  A statement that changes rows visits all of them only by their numbers. -/
structure Search where
  table : Declaration
  terms : List Term
  used : List Nat
  sorting : List SortTerm
  purpose : Purpose
  isDistinct : Bool
  outputs : Nat
  limit : Option Int
  withoutIndex : Bool
  changes : Bool

/-- A way to visit rows.  The first `exact` terms narrow one column each to single data, further
ones bound the next column. -/
structure Loop where
  key : Option Key
  group : Nat
  cost : Int
  rows : Int
  terms : List Term
  exact : Nat
  bounded : Bool
  isCovering : Bool
  isSingle : Bool

namespace Search

/-- The column of an index at a position; the number of the row comes last. -/
def indexColumn? (s : Search) (key : Option Key) (position : Nat) : Option Place :=
  match key with
  | none => if position = 0 then some .number else none
  | some k =>
    match k.columns[position]? with
    | some c => some (if s.table.numbering = some c.column then .number else .column c.column)
    | none => if position = k.columns.length && !k.primary then some .number else none

/-- May an ordered visit of an index be of help? -/
def helps (s : Search) (key : Option Key) : Bool :=
  s.sorting.any fun term =>
    match term.formula.place? with
    | some .number => true
    | some (.column i) => key.any fun k => k.positions.contains i
    | none => false

/-- Are all columns that the statement reads in an index? -/
def covers (s : Search) (key : Key) : Bool :=
  s.used.all fun i => key.positions.contains i || s.table.numbering = some i

/-- Are all columns of a formula in an index? -/
def coversFormula (s : Search) (key : Key) (e : Formula) : Bool :=
  !e.mentions fun
    | .column i => !(key.positions.contains i || s.table.numbering = some i)
    | .number => false

/-- Can an index whose column is compared in a way be used for a comparison? -/
def compares (s : Search) (key : Option Key) (position : Nat) (use : Use) : Bool :=
  match use.place, key.bind fun k => k.columns[position]? with
  | .column i, some c =>
    let affinityFits :=
      match use.comparison.affinity with
      | .blob => true
      | .text => (s.table.traitAt i).affinity = .text
      | _ => (s.table.traitAt i).affinity.isNumeric
    use.narrowing = .isNull || affinityFits && use.comparison.collation = c.collation
  | _, _ => true

/-- The terms that narrow the column of an index at a position. -/
def termsAt (s : Search) (key : Option Key) (position : Nat) : List (Term × Use) :=
  s.terms.filterMap fun t => do
    let use ← t.use
    if some use.place = s.indexColumn? key position && s.compares key position use then
      return (t, use)
    else none

end Search

namespace Loop

/-- Are rows left out by terms? -/
def isConstrained (l : Loop) : Bool := !l.terms.isEmpty

/-- Is a column narrowed to single data? -/
def isExact (l : Loop) : Bool := 0 < l.exact

/-- The estimates with the terms that a loop does not use: each of them leaves out some rows. -/
def adjusted (s : Search) (l : Loop) : Loop :=
  let others := s.terms.filter fun t =>
    t.isBase && t.formula.usesRow && !l.terms.any fun u => u.origin = t.id
  let reduction := others.foldl
    (fun most t =>
      if t.isExact then max most (if t.use.any Use.isSmall then 10 else 20) else most)
    (0 : Int)
  { l with rows := min (l.rows - others.length) (Estimate.rows - reduction) }

/-- Does a loop use fewer terms than another one, all of which the other one uses too, without being
worse in both estimates? -/
def isPart (l m : Loop) : Bool :=
  !(m.cost < l.cost && m.rows < l.rows) && l.terms.length < m.terms.length &&
    (l.terms.all fun t => m.terms.any fun u => u.id = t.id) && !(l.isCovering && !m.isCovering)

/-- A loop by an index, compared with others by an index: more terms have to be of use. -/
def balanced (l : Loop) (others : List Loop) : Loop :=
  if l.key.isNone then l
  else
    others.foldl
      (fun l other =>
        if other.key.isNone then l
        else if other.isPart l then
          { l with cost := min other.cost l.cost, rows := min (other.rows - 1) l.rows }
        else if l.isPart other then
          { l with cost := max other.cost l.cost, rows := max (other.rows + 1) l.rows }
        else l)
      l

/-- Is a loop at least as good as another one in both estimates? -/
def isAsGood (l m : Loop) : Bool := l.cost ≤ m.cost && l.rows ≤ m.rows

/-- Drops loops that are not better than a new one. -/
def dropWorse (l : Loop) : List Loop → List Loop
  | [] => []
  | other :: rest =>
    if other.group ≠ l.group then other :: dropWorse l rest
    else if other.isAsGood l then other :: rest
    else if l.isAsGood other then dropWorse l rest
    else other :: dropWorse l rest

/-- Adds a loop to others, unless one of them is as good. -/
def addTo (l : Loop) : List Loop → List Loop
  | [] => [l]
  | other :: rest =>
    if other.group ≠ l.group then other :: addTo l rest
    else if other.isAsGood l then other :: rest
    else if l.isAsGood other then l :: dropWorse l rest
    else other :: addTo l rest

/-- Adds a loop with all estimates made. -/
def offer (s : Search) (l : Loop) (loops : List Loop) : List Loop :=
  ((l.adjusted s).balanced loops).addTo loops

/-- The estimate of rows that a range leaves over. -/
def rangeRows (lower upper : Option Use) (rows : Int) : Int :=
  let cut (use : Option Use) : Int :=
    if use.any fun u => u.narrowing ≠ .present then 20 else 0
  let left := rows - cut lower - cut upper - if lower.isSome && upper.isSome then 20 else 0
  let given := rows - (if lower.isSome then 1 else 0) - if upper.isSome then 1 else 0
  min (max 10 left) given

/-- The cost of a loop that leads to rows by entries that terms select. -/
def selectionCost (s : Search) (key : Option Key) (isCovering : Bool) (rows : Int) : Int :=
  let start := Estimate.logarithm Estimate.rows
  match key with
  | none => Estimate.sum start (rows + 16)
  | some k =>
    let entries := Estimate.sum start (rows + Estimate.entryShare s.table k)
    if isCovering then entries else Estimate.sum entries (rows + 16)

/-- The estimate of the entries that agree in some columns of an index. -/
def agreeing (key : Option Key) (columns : Nat) : Int :=
  match key with
  | none => if columns = 0 then Estimate.rows else 0
  | some k => if k.columns.length < columns then 0 else Estimate.entries k columns

/-- Does a datum in the next column of an index leave one row at most? -/
def leavesOne (s : Search) (key : Option Key) (position : Nat) (use : Use) (times : Int) : Bool :=
  match key with
  | none => true
  | some k =>
    times = 0 && position + 1 = k.columns.length &&
      (k.positions.all s.table.isRequired || position = 0 && use.narrowing = .equal)

/-- The loop with one more term, how often it is run beside, and whether a bound from below is its
last one.  Some terms say nothing about a column that always has a datum. -/
def narrowed? (s : Search) (l : Loop) (lower : Option Use) (times : Int) (t : Term) (use : Use) :
    Option (Loop × Int × Option Use) :=
  let position := l.exact
  let isFilled :=
    match s.indexColumn? l.key position with
    | some (.column i) => s.table.isRequired i
    | _ => true
  let exactly (extra : Int) (count : Nat) : Loop × Int × Option Use :=
    let n := Estimate.ofNat count
    let rows := l.rows + agreeing l.key (position + 1) - agreeing l.key position + extra
    ({ l with
        terms := l.terms ++ [t], exact := position + 1, rows := rows
        cost := selectionCost s l.key l.isCovering rows },
      times + n, none)
  let ranging (lower upper : Option Use) : Loop × Int × Option Use :=
    let rows := rangeRows lower upper l.rows
    ({ l with
        terms := l.terms ++ [t], bounded := true, rows := rows
        cost := selectionCost s l.key l.isCovering rows },
      times, lower)
  match use.narrowing with
  | .isNull => if isFilled then none else some (exactly 10 0)
  | .present => if isFilled || lower.isSome then none else some (ranging (some use) none)
  | .above => if lower.isSome then none else some (ranging (some use) none)
  | .below => some (ranging lower (some use))
  | .among count => if lower.isSome then none else some (exactly 0 count)
  | .equal | .same =>
    if lower.isSome then none
    else
      let (l, times, _) := exactly 0 0
      some ({ l with isSingle := l.isSingle || leavesOne s l.key position use times }, times, none)

/-- Adds all loops that narrow one further and further. -/
def addNarrowed (s : Search) :
    (fuel : Nat) → Loop → (lower : Option Use) → (times : Int) → List Loop → List Loop
  | 0, _, _, _, loops => loops
  | fuel + 1, l, lower, times, loops =>
    (s.termsAt l.key l.exact).foldl
      (fun loops (t, use) =>
        match narrowed? s l lower times t use with
        | none => loops
        | some (m, times, newLower) =>
          let loops :=
            { m with cost := m.cost + times, rows := m.rows + times }.offer s loops
          if use.narrowing = .below then loops
          else
            let next := if newLower.isSome then { m with rows := l.rows } else m
            addNarrowed s fuel next newLower times loops)
      loops

/-- Adds the loop over all rows. -/
def addRows (s : Search) (loops : List Loop) : List Loop :=
  let group := if s.helps none then 1 else 0
  let l : Loop :=
    ⟨none, group, Estimate.rows + 16, Estimate.rows, [], 0, false, false, false⟩
  addNarrowed s 3 l none 0 (l.offer s loops)

/-- What it takes to look up the rows of all entries of an index; terms that the entries are enough
for make it less. -/
def lookups (s : Search) (key : Key) : Int :=
  let usable := s.terms.takeWhile fun t => s.coversFormula key t.formula
  usable.foldl (fun n t => n - 1 - if t.isExact then 19 else 0) (Estimate.rows + 16)

/-- Adds the loops by the index of a key, which is the one at a place among them. -/
def addKey (s : Search) (loops : List Loop) (key : Key) (place : Nat) : List Loop :=
  let helps := s.helps (some key)
  let isCovering := s.covers key
  let visit := Estimate.rows + Estimate.entryShare s.table key
  let cost := if isCovering then visit else Estimate.sum visit (lookups s key)
  let l : Loop :=
    ⟨some key, if helps then place else 0, cost, Estimate.rows, [], 0, false, isCovering, false⟩
  let isSmaller := Estimate.entrySize s.table key < Estimate.rowSize s.table
  let isWorthIt := isCovering && isSmaller && !s.changes
  let loops := if helps || isWorthIt then l.offer s loops else loops
  addNarrowed s (2 * key.columns.length + 4) l none 0 loops

/-- All loops that are worth a thought. -/
def all (s : Search) : List Loop :=
  let keys := if s.withoutIndex then [] else s.table.keys
  keys.zipIdx.foldl (fun loops (key, i) => addKey s loops key (i + 2)) (addRows s [])

end Loop
end Engine
end LinkedRows
