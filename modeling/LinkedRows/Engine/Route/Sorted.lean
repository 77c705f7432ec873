/-
# Sorted visits

A loop visits rows in an order, and some of the terms that a statement sorts by may be met by it:

* terms on columns that the condition narrows to one datum,
* then one term for each column of the index, as long as they agree in column, collation and
  direction,
* then all other terms, if no two rows agree in what has been met.

Rows are counted as different once their numbers have been met, or all columns of a key in which
nothing cannot stand.
-/

import LinkedRows.Engine.Route.Loop

namespace LinkedRows
namespace Engine

/-- One column of the order in which a loop visits rows; the number of a row has no collation. -/
structure Step where
  place : Place
  collation : Option Collation
  descending : Bool

/-- Which terms have been met so far, and how the rows have to be visited for it.  `isApart` tells
that no two rows agree so far. -/
structure Sorted where
  met : List Bool
  isApart : Bool
  direction : Option Bool
  nullsMoved : Bool
  byNumber : Bool

namespace Loop

/-- The columns of the order in which a loop visits rows. -/
def steps (s : Search) (l : Loop) : List Step :=
  let number (descending : Bool) : Step := ⟨.number, none, descending⟩
  let ofColumn (c : KeyColumn) : Step :=
    if s.table.numbering = some c.column then number c.descending
    else ⟨.column c.column, some c.collation, c.descending⟩
  (l.key.elim [] fun k => k.columns.map ofColumn) ++ [number false]

/-- How many columns the key of a loop has. -/
def width (l : Loop) : Nat := l.key.elim 0 fun k => k.columns.length

/-- How a loop narrows the column at a position to single data. -/
def narrowingAt (l : Loop) (position : Nat) : Option Narrowing :=
  if position < l.exact then
    ((l.terms[position]?).bind Term.use).map Use.narrowing
  else none

end Loop

namespace Sorted

/-- Is a term on a column that the condition narrows to one datum? -/
def isFixed (s : Search) (l : Loop) (severalCount : Bool) (term : SortTerm) : Bool :=
  match term.formula.place? with
  | none => false
  | some place =>
    let fits (wanted : Narrowing → Bool) : Option Term :=
      s.terms.find? fun t => t.use.any fun use => use.place = place && wanted use.narrowing
    let isEqual (n : Narrowing) : Bool := n = .equal || n = .same
    let isOther : Narrowing → Bool
      | .isNull => true
      | .among _ => severalCount
      | _ => false
    match fits isEqual with
    | some t => place = .number || t.use.any fun use => use.comparison.collation = term.collation
    | none =>
      match fits isOther with
      | none => false
      | some t =>
        t.use.any fun use => use.narrowing = .isNull || l.terms.any fun u => u.id = t.id

/-- At the beginning only terms on narrowed columns are met. -/
def start (s : Search) (l : Loop) (severalCount : Bool) : Sorted :=
  ⟨s.sorting.map (isFixed s l severalCount), l.key.isNone, none, false, false⟩

/-- Is a term on the column of a step, with its collation? -/
def agrees (step : Step) (term : SortTerm) : Bool :=
  term.formula.place? = some step.place && step.collation.all (· = term.collation)

/-- The position of the term that a step may meet: the first one that is not met yet, or any other
one if the order of the terms does not matter. -/
def candidate? (s : Search) (step : Step) (met : List Bool) : Option (Nat × SortTerm) :=
  let unmet := (s.sorting.zip met).zipIdx.filter fun ((_, isMet), _) => !isMet
  let terms := if s.purpose = .telling then unmet else unmet.take 1
  (terms.find? fun ((term, _), _) => agrees step term).map fun ((term, _), i) => (i, term)

/-- The state after one step; none if no term is met by it. -/
def step? (s : Search) (l : Loop) (position : Nat) (step : Step) (p : Sorted) : Option Sorted := do
  let (i, term) ← candidate? s step p.met
  let reversed := step.descending != term.descending
  let isMoved := term.nullsMoved
  if p.direction.any (· ≠ reversed) || isMoved && position ≠ l.exact then none
  else
    return { p with
      met := p.met.set i true
      direction := some reversed
      nullsMoved := p.nullsMoved || isMoved
      byNumber := p.byNumber || step.place = .number }

/-- The state after all steps from a position on. -/
def follow (s : Search) (l : Loop) (severalCount : Bool) : Nat → List Step → Sorted → Sorted
  | _, [], p => p
  | position, step :: rest, p =>
    let isPassed : Narrowing → Bool
      | .among _ => severalCount
      | _ => true
    match (l.narrowingAt position).filter isPassed with
    | some narrowing =>
      let isApart := p.isApart && narrowing ≠ .isNull && narrowing ≠ .same
      follow s l severalCount (position + 1) rest { p with isApart := isApart }
    | none =>
      let isFilled :=
        match step.place with
        | .column i => s.table.isRequired i || position < l.exact
        | .number => true
      let p := { p with isApart := p.isApart && isFilled }
      match step? s l position step p with
      | some p => follow s l severalCount (position + 1) rest p
      | none => { p with isApart := p.isApart && position ≠ 0 && l.width ≤ position }

/-- The terms that are met by the visits of a loop.  Narrowing to several data counts as narrowing
to one if `severalCount` says so. -/
def ofLoop (s : Search) (l : Loop) (severalCount : Bool) : Sorted :=
  let p := start s l severalCount
  let p :=
    if l.isSingle then { p with isApart := true }
    else
      let p := follow s l severalCount 0 (l.steps s) { p with isApart := true }
      { p with isApart := p.isApart || p.byNumber }
  if p.isApart then { p with met := p.met.map fun _ => true } else p

/-- How many terms are met from the first one on. -/
def count (p : Sorted) : Nat := (p.met.takeWhile id).length

/-- Are all terms met? -/
def isWhole (p : Sorted) : Bool := p.met.all id

end Sorted
end Engine
end LinkedRows
