/-
# Terms of a condition

A condition is taken apart into terms that all have to hold.  A term can be of use if it compares a
column of the table with something that does not depend on the table:

| term | use |
| --- | --- |
| `c = e`, `c IS e` | the entries of one datum |
| `c IN (e, …)` | those of several ones |
| `c IS NULL` | those of nothing |
| `c < e`, `c <= e` | those up to a datum |
| `c > e`, `c >= e` | those from a datum on |
| `c NOTNULL` | those after nothing |
| `c BETWEEN e AND f` | those from one to another, as two terms more |
-/

import LinkedRows.Engine.Declaration

namespace LinkedRows
namespace Engine

/-- How a term narrows a column. -/
inductive Narrowing where
  | equal
  | same
  | among (count : Nat)
  | isNull
  | above
  | below
  | present
deriving DecidableEq, Repr

/-- The use of a term: the column that it narrows, how data are compared for it, and whether its
datum is a number next to zero. -/
structure Use where
  place : Place
  narrowing : Narrowing
  comparison : Comparison
  isSmall : Bool
deriving DecidableEq, Repr

/-- A term with a number of its own, and the number of the term that it was made of. -/
structure Term where
  id : Nat
  origin : Nat
  formula : Formula
  use : Option Use

namespace Formula

/-- An expression without the collation that is asked for. -/
def withoutCollation : Formula → Formula
  | .apply (.collate name) es =>
    match es with
    | [e] => withoutCollation e
    | es => .apply (.collate name) es
  | e => e

/-- The place that an expression is, but for a collation. -/
def place? (e : Formula) : Option Place :=
  match e.withoutCollation with
  | .name p => some p
  | _ => none

/-- Does an expression depend on the row that is looked at? -/
def usesRow (e : Formula) : Bool := e.mentions fun _ => true

/-- Is an expression a whole number next to zero? -/
def isSmall : Formula → Bool
  | .literal (.integer n) => -1 ≤ n ∧ n ≤ 1
  | .apply (.unary .positive) es =>
    match es with
    | [.literal (.integer n)] => -1 ≤ n ∧ n ≤ 1
    | _ => false
  | _ => false

/-- The terms that a condition is made of. -/
def conjuncts : Formula → List Formula
  | .apply head es =>
    match head, es with
    | .binary .and, [e, f] => conjuncts e ++ conjuncts f
    | head, es => [.apply head es]
  | e => [e]

end Formula

namespace Term

/-- How an operator narrows what stands on its left. -/
def narrowing? : Operator → Option Narrowing
  | .equal => some .equal
  | .same => some .same
  | .less | .atMost => some .below
  | .greater | .atLeast => some .above
  | _ => none

/-- How it narrows what stands on its right. -/
def swapped : Narrowing → Narrowing
  | .above => .below
  | .below => .above
  | n => n

/-- The use of a formula. -/
def use? (d : Declaration) : Formula → Option Use
  | .apply (.binary op) [e, f] => do
    let narrowing ← narrowing? op
    let comparison := Formula.comparison d.traits e f
    match Formula.place? e, Formula.usesRow f, Formula.place? f, Formula.usesRow e with
    | some place, false, _, _ => return ⟨place, narrowing, comparison, Formula.isSmall f⟩
    | _, _, some place, false => return ⟨place, swapped narrowing, comparison, Formula.isSmall e⟩
    | _, _, _, _ => none
  | .apply .among (e :: items) => do
    let place ← Formula.place? e
    if items.any Formula.usesRow then none
    else return ⟨place, .among items.length, Formula.membership d.traits e, false⟩
  | .apply (.unary .isNull) [e] => do
    match ← Formula.place? e with
    | .column i =>
      if d.isRequired i then none
      else return ⟨.column i, .isNull, ⟨.blob, .binary⟩, false⟩
    | .number => none
  | _ => none

/-- The terms that are made of a formula, as formulas with their uses. -/
def further (d : Declaration) : Formula → List (Formula × Option Use)
  | .apply .between [e, low, high] =>
    let from? : Formula := .binary .atLeast e low
    let to? : Formula := .binary .atMost e high
    [(from?, use? d from?), (to?, use? d to?)]
  | .apply (.unary .notNull) [.name (.column i)] =>
    let e : Formula := .binary .greater (.name (.column i)) (.literal .null)
    let trait := d.traitAt i
    [(e, some ⟨.column i, .present, ⟨trait.affinity, trait.collation⟩, false⟩)]
  | _ => []

/-- The terms of a condition; those that are made of others come at the end, of the last one first.
-/
def ofCondition (d : Declaration) (condition : Formula) : List Term :=
  let base := (Formula.conjuncts condition).zipIdx.map fun (e, i) => (⟨i, i, e, use? d e⟩ : Term)
  let made := base.reverse.flatMap fun t =>
    (further d t.formula).map fun (e, use) => (t.id, e, use)
  base ++ made.zipIdx.map fun ((origin, e, use), i) => ⟨base.length + i, origin, e, use⟩

/-- Was a term not made of another one? -/
def isBase (t : Term) : Bool := t.id = t.origin

/-- Does a term narrow a column to single data? -/
def isExact (t : Term) : Bool :=
  t.use.any fun use => use.narrowing = .equal ∨ use.narrowing = .same

end Term
end Engine
end LinkedRows
