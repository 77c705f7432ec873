/-
# Selections

A query with all names resolved.  Its parts are looked at in this order:

1. the table, and what `*` stands for,
2. how many rows are shown,
3. the outputs,
4. the condition on the group, if all rows make one,
5. the condition on rows,
6. the terms to sort by: the title of an output, the position of one, or an expression.

All rows make one group if there is a function of many rows in an output.
-/

import LinkedRows.Engine.Command
import LinkedRows.Engine.Database
import LinkedRows.Engine.Route

namespace LinkedRows
namespace Engine

/-- A function of many rows as it occurs in a query. -/
structure Summary where
  function : Aggregate
  isDistinct : Bool
  arguments : List Formula

/-- A query with all names resolved. -/
structure Selection where
  table : Option Declaration
  outputs : List (String × Formula)
  condition : Formula
  isGrouped : Bool
  groupCondition : Formula
  summaries : List Summary
  sorting : List SortTerm
  isDistinct : Bool
  window : Option (Formula × Option Formula)
  route : Route

namespace Formula

mutual

/-- The functions of many rows in a formula. -/
def summaries : Formula → List Summary
  | .apply head es =>
    match head with
    | .call (.aggregate f _ isDistinct) => [⟨f, isDistinct, es⟩]
    | _ => allSummaries es
  | _ => []

/-- The functions of many rows in some formulas. -/
def allSummaries : List Formula → List Summary
  | [] => []
  | e :: es => summaries e ++ allSummaries es

end

mutual

/-- Does a formula look at a row outside of the functions of many rows? -/
def isBare : Formula → Bool
  | .name _ => true
  | .apply head es =>
    match head with
    | .call (.aggregate _ _ _) => false
    | _ => anyBare es
  | _ => false

/-- Does one of some formulas do so? -/
def anyBare : List Formula → Bool
  | [] => false
  | e :: es => isBare e || anyBare es

end

end Formula

namespace Summary

/-- Are two functions the same, with the same arguments? -/
def same (s t : Summary) : Bool :=
  s.function = t.function && s.isDistinct = t.isDistinct && Expr.allSame s.arguments t.arguments

/-- The first ones of those that are the same. -/
def distinct (all : List Summary) : List Summary :=
  all.foldl (fun kept s => if kept.any s.same then kept else kept ++ [s]) []

end Summary

namespace Database

/-- The relation that a statement is about. -/
def relation (d : Database) (t : Target) : Except Issue Relation := do
  let shown := (t.database.map fun database => database ++ ".").getD "" ++ t.table
  match d.find? t.table with
  | none => throw (.noTable shown)
  | some r =>
    if t.database.any fun database => !sameName database "main" then throw (.noTable shown)
    match t.searching with
    | .withIndex name => throw (.noIndex name)
    | _ => return r

end Database

namespace Query

/-- The columns of a table as outputs. -/
def allColumns (d : Declaration) : List (String × Formula) :=
  d.columns.zipIdx.map fun (c, i) =>
    (c.name, .name (if d.numbering = some i then .number else .column i))

/-- What is looked at beside an output: its formula, its title, and whether others can mention the
title. -/
structure Shown where
  formula : Formula
  title : String
  isTitled : Bool

/-- The meaning of an output. -/
def shown (table : Option Declaration) (names : Names) : Output → Except Issue (List Shown)
  | .everything wanted =>
    match table, names.subject, wanted with
    | some d, some s, none => return (allColumns { d with name := s.name }).map titled
    | some d, some s, some name =>
      if sameName name s.name then return (allColumns { d with name := s.name }).map titled
      else throw (.noTable name)
    | _, _, none => throw .noSource
    | _, _, some name => throw (.noTable name)
  | .computed e title span => do
    let f ← { names with aggregates := true }.formula e
    match title, f, names.subject with
    | some title, _, _ => return [⟨f, title, true⟩]
    | none, .name place, some s => return [⟨f, s.placeName place, false⟩]
    | none, _, _ => return [⟨f, span, false⟩]
where
  /-- An output with the name of a column. -/
  titled (column : String × Formula) : Shown := ⟨column.2, column.1, true⟩

/-- Issues with `*`, which come before all others. -/
def starIssue? (table : Option Declaration) (names : Names) (outputs : List Output) :
    Option Issue :=
  outputs.findSome? fun
    | .everything wanted =>
      match shown table names (.everything wanted) with
      | .ok _ => none
      | .error issue => some issue
    | .computed _ _ _ => none

/-- The position of the output that a term to sort by means, from 1 on, with the collation that is
asked for; none if the term is an expression. -/
def position? (outputs : List Shown) (key : Phrase) : Option Int :=
  let inner := withoutCollation key
  let titled :=
    match inner with
    | .name m =>
      if m.qualifiers.isEmpty then
        outputs.findIdx? fun (o : Shown) => o.isTitled && sameName o.title m.name
      else none
    | _ => none
  (titled.map fun i => (i : Int) + 1).or (Phrase.smallInteger? inner)
where
  /-- An expression without the collations around it. -/
  withoutCollation : Phrase → Phrase
    | .apply (.collate name) es =>
      match es with
      | [e] => withoutCollation e
      | es => .apply (.collate name) es
    | e => e

/-- The formulas of terms to sort by, or the positions of outputs. -/
def keys (names : Names) (outputs : List Shown) (sorting : List Sorting) :
    Except Issue (List (Formula ⊕ Int)) :=
  sorting.zipIdx.mapM fun (s, i) =>
    match position? outputs s.key with
    | some n =>
      if n < 1 then .error (.sortingRange (i + 1) outputs.length) else .ok (.inr n)
    | none => return .inl (← names.formula s.key)

/-- A formula of a term to sort by; the outermost collation of the term stays. -/
def keyFormula (outputs : List Shown) (position : Nat) (s : Sorting) :
    Formula ⊕ Int → Except Issue Formula
  | .inl f => .ok f
  | .inr n =>
    match outputs[n.toNat - 1]? with
    | none => .error (.sortingRange (position + 1) outputs.length)
    | some o =>
      match s.key with
      | .apply (.collate name) _ =>
        if (Collation.named? name).isNone then .error (.noCollation name)
        else .ok (.apply (.collate name) [o.formula])
      | _ => .ok o.formula

/-- A formula as a term to sort by. -/
def sortTerm (traits : List Trait) (f : Formula) (order : SortOrder) : SortTerm :=
  let collation := (Formula.collation? traits f).getD .binary
  ⟨f, collation, order.descending, order.nullsLast.any fun last => last != order.descending⟩

/-- The terms to sort by. -/
def sortTerms (names : Names) (traits : List Trait) (outputs : List Shown)
    (sorting : List Sorting) : Except Issue (List SortTerm) := do
  let keys ← keys names outputs sorting
  let formulas ← (sorting.zip keys).zipIdx.mapM fun ((s, key), i) => keyFormula outputs i s key
  return (sorting.zip formulas).map fun (s, f) => sortTerm traits f s.order

/-- The columns of a table that formulas look at, but for the one that holds the number. -/
def usedColumns (d : Declaration) (formulas : List Formula) : List Nat :=
  (List.range d.columns.length).filter fun i =>
    d.numbering ≠ some i && formulas.any fun f => f.mentions (· = .column i)

/-- Can a formula be nothing? -/
def canBeNothing (d : Declaration) : Formula → Bool
  | .name (.column i) => !d.isRequired i
  | .name .number => false
  | .literal e => e.isNull
  | _ => true

/-- Are rows different in some outputs anyway?  So they are if their numbers are among them, or all
columns of a key in which nothing cannot stand. -/
def areApart (d : Declaration) (terms : List Term) (sorting : List SortTerm) : Bool :=
  let onColumn (c : KeyColumn) : Bool :=
    d.isRequired c.column &&
      sorting.any fun term =>
        term.formula.place? = some (.column c.column) && term.collation = c.collation
  let isFixed (c : KeyColumn) : Bool :=
    terms.any fun t =>
      t.use.any fun use =>
        use.place = .column c.column && use.narrowing = .equal &&
          use.comparison.collation = c.collation
  sorting.any (fun term => term.formula.place? = some .number) ||
    d.keys.any fun key => key.columns.all fun c => onColumn c || isFixed c

/-- What a query sorts its rows by on the way, and what for: to show them, to find equal ones, or to
find the least or the greatest one. -/
def purpose (d : Declaration) (terms : List Term) (s : Selection) : Purpose × List SortTerm :=
  let ofOutputs (formulas : List Formula) : Purpose × List SortTerm :=
    let sorting := formulas.map fun f => sortTerm d.traits f ⟨false, none⟩
    if areApart d terms sorting then (.showing, []) else (.telling, sorting)
  if !s.isGrouped then
    if s.isDistinct && s.sorting.isEmpty then ofOutputs (s.outputs.map Prod.snd)
    else (.showing, s.sorting)
  else
    match s.summaries with
    | [summary] =>
      match summary.function, summary.arguments with
      | .extreme greatest, [e] =>
        let moved := !greatest && canBeNothing d e
        let collation := (Formula.collation? d.traits e).getD .binary
        (.extreme, [⟨e, collation, greatest, moved⟩])
      | _, arguments =>
        if summary.isDistinct && !Formula.anyBare (s.outputs.map Prod.snd) then
          ofOutputs arguments
        else (.showing, [])
    | _ => (.showing, [])

/-- The route of a selection. -/
def route (q : Query) (d : Declaration) (withoutIndex : Bool) (s : Selection) : Route :=
  let terms := Term.ofCondition d s.condition
  let formulas := s.condition :: s.groupCondition :: s.outputs.map Prod.snd ++
    s.sorting.map SortTerm.formula
  let (purpose, sorting) := purpose d terms s
  let limit := (q.window.bind fun w => Phrase.smallInteger? w.count).bind fun n =>
    if 0 ≤ n && !s.isGrouped then some (Estimate.ofNat n.toNat) else none
  .ofSearch
    { table := d
      terms := terms
      used := usedColumns d formulas
      sorting := if purpose = .extreme && q.groupCondition.isSome then [] else sorting
      purpose := purpose
      isDistinct := s.isDistinct && !s.isGrouped || purpose = .telling
      outputs := s.outputs.length
      limit := limit
      withoutIndex := withoutIndex
      changes := false }

/-- The first function of many rows in some formulas. -/
def aggregateName? (formulas : List Formula) : Option String :=
  formulas.findSome? Formula.aggregateName?

/-- Resolves a query. -/
def selection (q : Query) (database : Database) : Except Issue Selection := do
  let relation ← q.source.mapM database.relation
  let table := relation.map Relation.declaration
  let subject := table.bind fun d =>
    q.source.map fun t => { d.subject with name := t.calledName d.name }
  let names : Names := { Names.none with subject := subject }
  if let some issue := starIssue? table names q.outputs then throw issue
  let window ← q.window.mapM fun w => do
    return (← Names.none.formula w.count, ← w.skipped.mapM Names.none.formula)
  let outputs := (← q.outputs.mapM (shown table names)).flatten
  let formulas := outputs.map Shown.formula
  let isGrouped := (aggregateName? formulas).isSome
  let titles := (outputs.filter Shown.isTitled).map fun o => (o.title, o.formula)
  let names := { names with titles := titles, aggregates := isGrouped }
  if q.groupCondition.isSome && !isGrouped then throw .havingAlone
  let groupCondition ← names.condition q.groupCondition
  let condition ← names.condition q.condition
  let traits := (table.map Declaration.traits).getD []
  let sorting ← sortTerms { names with aggregates := true } traits outputs q.sorting
  let keys := sorting.map SortTerm.formula
  if let some name := condition.aggregateName? then throw (.aggregateMisuse name)
  if !isGrouped then
    if let some name := aggregateName? keys then throw (.aggregateMisuse name)
  let s : Selection :=
    { table := table
      outputs := outputs.map fun o => (o.title, o.formula)
      condition := condition
      isGrouped := isGrouped
      groupCondition := groupCondition
      summaries := Summary.distinct (Formula.allSummaries (formulas ++ keys ++ [groupCondition]))
      sorting := sorting
      isDistinct := q.isDistinct
      window := window
      route := .plain }
  match table with
  | none => return s
  | some d =>
    let withoutIndex := q.source.any fun t => t.searching = .withoutIndex
    return { s with route := q.route d withoutIndex s }

end Query
end Engine
end LinkedRows
