/-
# Routes

The rows of a table are visited by the loop that is thought to cost least.  If there are terms to
sort by, a loop that leaves some of them to a sort costs that sort too, and the rows that the
cheapest loop leads to without a sort tell how much there is to sort.

Which loop that is shows in the order of the rows, where nothing else says what it is.
-/

import LinkedRows.Engine.Route.Sorted

namespace LinkedRows
namespace Engine

/-- How the rows of a table are visited: by the index of a key or by their numbers, perhaps from the
end, perhaps with the rows that have nothing in one column of the key at the other end.

`isSorted` tells that they come in the order that was asked for, and `firstIsEnough` that the first
one is all that was asked for. -/
structure Route where
  key : Option Key
  reversed : Bool
  nullsMoved : Option Nat
  isSorted : Bool
  firstIsEnough : Bool
deriving DecidableEq, Repr

namespace Route

/-- A loop with its costs: `bare` is the cost without a sort. -/
structure Candidate where
  loop : Loop
  sorted : Sorted
  cost : Int
  bare : Int

namespace Candidate

/-- Does the index of a loop have smaller entries than that of another one? -/
def isSmaller (s : Search) (l m : Loop) : Bool :=
  match l.key, m.key with
  | some k, some other => Estimate.entrySize s.table k < Estimate.entrySize s.table other
  | _, _ => false

/-- Does a candidate take the place of another one? -/
def beats (s : Search) (new old : Candidate) : Bool :=
  let key (c : Candidate) : List Int := [c.cost, c.loop.rows, c.bare]
  match compare (key new) (key old) with
  | .lt => true
  | .gt => false
  | .eq => isSmaller s new.loop old.loop

/-- The best one of some candidates. -/
def best? (s : Search) : List Candidate → Option Candidate
  | [] => none
  | c :: cs => some (cs.foldl (fun best new => if new.beats s best then new else best) c)

end Candidate

/-- The cost to sort some rows, the first `met` terms of which are met. -/
def sortingCost (s : Search) (rows : Int) (met : Nat) : Int :=
  let terms := s.sorting.length
  let share := if met = 0 then 0 else Estimate.ofNat ((terms - met) * 100 / terms) - 66
  let start := rows + Estimate.ofNat ((s.outputs + 59) / 30) + share
  match s.limit with
  | some limit => start + (if met = 0 then 10 else 16) + Estimate.logarithm (min limit rows)
  | none =>
    start + Estimate.logarithm (if s.isDistinct ∧ 10 < rows then rows - 10 else rows)

/-- A loop as a candidate where nothing is sorted. -/
def bareCandidate (s : Search) (l : Loop) : Candidate :=
  let cost := Estimate.sum l.cost 0
  ⟨l, .start s l false, cost, cost⟩

/-- A loop as a candidate where so many rows are sorted. -/
def sortingCandidate (s : Search) (rows : Int) (l : Loop) : Candidate :=
  let bare := Estimate.sum l.cost 0
  let sorted := Sorted.ofLoop s l (s.purpose = .extreme)
  if sorted.isWhole then ⟨l, sorted, bare, bare - 2⟩
  else ⟨l, sorted, Estimate.sum bare (sortingCost s rows sorted.count) + 3, bare⟩

/-- Does a loop narrow a column to several data? -/
def hasSeveral (l : Loop) : Bool :=
  (l.terms.take l.exact).any fun t =>
    t.use.any fun use =>
      match use.narrowing with
      | .among _ => true
      | _ => false

/-- The route of a loop. -/
def ofCandidate (s : Search) (c : Candidate) : Route :=
  let l := c.loop
  let isWhole := c.sorted.isWhole
  let sorted :=
    if c.sorted.count = 0 && l.key.isSome then
      let wide := Sorted.ofLoop s l true
      if wide.isWhole then wide else c.sorted
    else c.sorted
  match s.purpose with
  | .telling => ⟨l.key, false, none, false, false⟩
  | purpose =>
    { key := l.key
      reversed := sorted.direction == some true
      nullsMoved := if sorted.nullsMoved then some l.exact else none
      isSorted := isWhole
      firstIsEnough := purpose = .extreme && isWhole && !hasSeveral l }

/-- The visit of all rows by their numbers. -/
def plain : Route := ⟨none, false, none, false, false⟩

/-- The route of a search. -/
def ofSearch (s : Search) : Route :=
  let loops := Loop.all s
  match Candidate.best? s (loops.map (bareCandidate s)) with
  | none => plain
  | some first =>
    if s.sorting.isEmpty then ⟨first.loop.key, false, none, false, false⟩
    else
      let loops := if first.loop.isExact then loops.filter Loop.isConstrained else loops
      let rows := if first.loop.rows < 0 then 1 else first.loop.rows + 1
      ((Candidate.best? s (loops.map (sortingCandidate s rows))).map (ofCandidate s)).getD plain

/-- The order of two rows in the index of a key, with nothing at the other end of one column. -/
def orderIn (key : Key) (nullsMoved : Option Nat) (row other : Stored) : Ordering :=
  let orderAt : KeyColumn × Nat → Ordering
    | (c, i) =>
      let d := row.datum c.column
      let e := other.datum c.column
      let isTurned := c.descending != (nullsMoved == some i && (d.isNull != e.isNull))
      if isTurned then order c.collation e d else order c.collation d e
  (key.columns.zipIdx.map orderAt).foldl Ordering.then .eq

/-- The rows in the order of the visit, given in the order of their numbers. -/
def visit (r : Route) (rows : List Stored) : List Stored :=
  let forward :=
    match r.key with
    | none => rows
    | some key => rows.mergeSort fun row other => orderIn key r.nullsMoved row other != .gt
  if r.reversed then forward.reverse else forward

end Route
end Engine
end LinkedRows
