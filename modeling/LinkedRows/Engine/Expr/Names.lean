/-
# The meaning of names

A name in an expression is the first of these that there is:

1. a column of the table, or the number of its rows,
2. the title of an output, where the outputs are known,
3. in double quotes a text,
4. `TRUE` or `FALSE`.

The first name without a meaning ends the search.  A wrong call does not: another issue after it
takes its place.
-/

import LinkedRows.Engine.Expr.Value

namespace LinkedRows
namespace Engine

/-- A table as names see it: its own name, its columns, and which of them is the number of a row. -/
structure Subject where
  name : String
  columns : List String
  numbering : Option Nat
deriving DecidableEq, Repr

/-- What names and calls can mean where an expression stands.  The default of a column is read more
simply than other expressions. -/
structure Names where
  subject : Option Subject
  titles : List (String × Formula)
  aggregates : Bool
  ofDefault : Bool

/-- Looks for meanings; an issue can be noted on the way. -/
abbrev Resolving (α : Type) := StateT (Option Issue) (Except Issue) α

namespace Subject

/-- Is this a name for the number of a row? -/
def isNumberName (name : String) : Bool := ["rowid", "oid", "_rowid_"].any (sameName name)

/-- The place with a name. -/
def place? (s : Subject) (name : String) : Option Place :=
  match s.columns.findIdx? (sameName name) with
  | some i => some (if s.numbering = some i then .number else .column i)
  | none => if isNumberName name then some .number else none

/-- The name of a place. -/
def placeName (s : Subject) : Place → String
  | .column i => (s.columns[i]?).getD ""
  | .number => (s.numbering.bind fun i => s.columns[i]?).getD "rowid"

/-- Do the names before a name lead to the table? -/
def isMeant (s : Subject) : List String → Bool
  | [] => true
  | [table] => sameName table s.name
  | [database, table] => sameName database "main" && sameName table s.name
  | _ => false

end Subject

namespace Names

/-- Only texts and truth values. -/
def none : Names := ⟨.none, [], false, false⟩

/-- The names of a table. -/
def ofTable (s : Subject) : Names := ⟨some s, [], false, false⟩

/-- Notes an issue. -/
def note (issue : Issue) : Resolving Unit := set (some issue)

/-- The place that a mention means. -/
def place? (n : Names) (m : Mention) : Option Place :=
  n.subject.bind fun s => if s.isMeant m.qualifiers then s.place? m.name else .none

/-- The output with a title. -/
def title? (n : Names) (m : Mention) : Option Formula :=
  if m.qualifiers.isEmpty then (n.titles.find? fun t => sameName t.1 m.name).map Prod.snd
  else .none

/-- The meaning of a mention. -/
def mention (n : Names) (m : Mention) : Except Issue Formula :=
  match n.place? m, n.title? m with
  | some place, _ => .ok (.name place)
  | .none, some e =>
    if !n.aggregates && e.aggregateName?.isSome then .error (.aliasMisuse m.name) else .ok e
  | .none, .none =>
    if m.quoting = .double ∧ m.qualifiers.isEmpty then .ok (.literal (.ofString m.name))
    else
      match m.truth? with
      | some b => .ok (.literal (.ofBool b))
      | .none => .error (.noColumn (".".intercalate (m.qualifiers ++ [m.name])))

/-- The truth value that an expression is. -/
def truth? (n : Names) : Phrase → Option Bool
  | .name m => if (n.place? m).isNone && (n.title? m).isNone then m.truth? else .none
  | _ => .none

/-- Is an expression a real between 0 and 1? -/
def isLikelihood : Phrase → Bool
  | .numeral false spelling =>
    match Numeral.value false spelling with
    | .ok (.real x) => !(Binary64.ofNat 1).lt x
    | _ => false
  | _ => false

/-- The function that a call means, with the issues of the call. -/
def callee (n : Names) (c : Call) (arguments : List Phrase) : Resolving (Option Callee) := do
  match c.callee arguments.length with
  | .error issue =>
    note (if n.ofDefault then .unknownFunction c.name else issue)
    return .none
  | .ok (.scalar f) =>
    if sameName c.name "likelihood" && !(arguments[1]?).any isLikelihood then
      note (.likelihood c.name)
    return some (.scalar f)
  | .ok (.aggregate f name distinct) =>
    if n.ofDefault then note (.unknownFunction c.name)
    else if !n.aggregates then note (.aggregateArgument name)
    else if distinct && arguments.length != 1 then note .distinctArguments
    return some (.aggregate f name distinct)

mutual

/-- The formula of an expression. -/
def resolve (n : Names) : Phrase → Resolving Formula
  | .literal d => return .literal d
  | .numeral negative spelling => do
    match Numeral.value negative spelling with
    | .ok d => return .literal d
    | .error issue => note issue; return .literal .null
  | .parameter number => return .parameter number
  | .name m => n.mention m
  | .fault issue => throw issue
  | .apply head es => do
    match head with
    | .unary op => return .apply (.unary op) (← resolveAll n es)
    | .binary op =>
      match op, (es[1]?).bind n.truth?, n.ofDefault with
      | .same, some b, false => return .apply (.unary (.truth b false)) (← resolveFirst n es)
      | .notSame, some b, false => return .apply (.unary (.truth b true)) (← resolveFirst n es)
      | _, _, _ => return .apply (.binary op) (← resolveAll n es)
    | .between => return .apply .between (← resolveAll n es)
    | .among => return .apply .among (← resolveAll n es)
    | .choice hasBase hasLast => return .apply (.choice hasBase hasLast) (← resolveAll n es)
    | .cast a => return .apply (.cast a) (← resolveAll n es)
    | .collate name => do
      if (Collation.named? name).isNone then note (.noCollation name)
      return .apply (.collate name) (← resolveAll n es)
    | .row => do
      note .rowMisuse
      return .apply .row (← resolveAll n es)
    | .call c => do
      match ← n.callee c es with
      | some (.aggregate f name distinct) =>
        let inner := { n with aggregates := false }
        return .apply (.call (.aggregate f name distinct)) (← resolveAll inner es)
      | some f => return .apply (.call f) (← resolveAll n es)
      | .none =>
        let _ ← resolveAll n es
        return .literal .null

/-- The formulas of expressions. -/
def resolveAll (n : Names) : List Phrase → Resolving (List Formula)
  | [] => return []
  | e :: es => return (← resolve n e) :: (← resolveAll n es)

/-- The formula of the first of some expressions. -/
def resolveFirst (n : Names) : List Phrase → Resolving (List Formula)
  | [] => return []
  | e :: _ => return [← resolve n e]

end

/-- The formula of an expression, if there is no issue with it. -/
def formula (n : Names) (e : Phrase) : Except Issue Formula := do
  let (f, noted) ← (n.resolve e).run .none
  match noted with
  | some issue => throw issue
  | .none => return f

/-- The formula of a condition; none is always true. -/
def condition (n : Names) : Option Phrase → Except Issue Formula
  | some e => n.formula e
  | .none => .ok (.literal (.integer 1))

end Names
end Engine
end LinkedRows
