/-
# Reading declarations

```
table     := name "(" column ("," column)* (","? key)* ")" option*
column    := name type? constraint*
key       := ("CONSTRAINT" name)? ("PRIMARY" "KEY" | "UNIQUE") "(" term ("," term)* ")"
           | "CHECK" "(" expression ")"
           | "FOREIGN" "KEY" "(" name ("," name)* ")" reference
reference := "REFERENCES" name ("(" name ("," name)* ")")?
default   := sign? literal | name | "(" expression ")"
```

What is wrong with a declaration beside its form is noted as soon as it has been read.  A table that
exists already, and need not be created then, is read without looking at that.
-/

import LinkedRows.Engine.Declaration
import LinkedRows.Engine.Expr.Reader

namespace LinkedRows
namespace Engine

/-- What has been read of a table: whether it is looked at, the table so far, and the name that the
next check has. -/
structure Draft where
  isNew : Bool
  table : Declaration
  label : Option String

/-- A term of a key as written. -/
structure KeyTerm where
  phrase : Phrase
  order : SortOrder

namespace Draft

/-- Notes an issue with a new table unless a condition holds. -/
def require (d : Draft) (condition : Bool) (issue : Issue) : Reads Unit :=
  Reads.require (!d.isNew || condition) issue

/-- Goes on with what can be made of the table, or notes why nothing can. -/
def change (d : Draft) (result : Except Issue Declaration) : Reads Draft := do
  match result with
  | .ok table => return { d with table := table }
  | .error issue => d.require false issue; return d

end Draft

namespace KeyTerm

/-- The column that a term mentions. -/
def mention? : Phrase → Option Mention
  | .name m => some m
  | .literal (.text bytes) => some ⟨[], Text.readUtf8 bytes, .other⟩
  | _ => none

/-- The column of a key that a term is. -/
def column (d : Declaration) (term : KeyTerm) : Except Issue KeyColumn := do
  let (inner, asked) : Phrase × Option String :=
    match term.phrase with
    | .apply (.collate name) [e] => (e, some name)
    | e => (e, none)
  let position ←
    match mention? inner with
    | some m =>
      match d.position? m.name with
      | some i => if m.qualifiers.isEmpty then pure i else throw .keyExpression
      | none =>
        if m.quoting = .double ∨ m.truth?.isSome then throw .keyExpression
        else throw (.noColumn m.name)
    | none =>
      let _ ← (Names.ofTable d.subject).formula inner
      throw .keyExpression
  match asked with
  | none => return ⟨position, (d.traitAt position).collation, term.order.descending⟩
  | some name =>
    match Collation.named? name with
    | some collation => return ⟨position, collation, term.order.descending⟩
    | none => throw (.noCollation name)

/-- Does a list of terms say where nothing comes?  No key does. -/
def nullsPlace? (terms : List KeyTerm) : Option Issue :=
  (terms.findSome? fun term => term.order.nullsLast).map Issue.nullsPlace

end KeyTerm

namespace Declaration

/-- The key of some terms. -/
def keyOf (d : Declaration) (primary : Bool) (terms : List KeyTerm) : Except Issue Key := do
  match KeyTerm.nullsPlace? terms with
  | some issue => throw issue
  | none => return ⟨← terms.mapM (KeyTerm.column d), primary⟩

/-- The table with one more key. -/
def addUnique (d : Declaration) (terms : List KeyTerm) : Except Issue Declaration :=
  return d.addKey (← d.keyOf false terms)

/-- The table with its primary key. -/
def addPrimary (d : Declaration) (terms : List KeyTerm) : Except Issue Declaration := do
  if !d.primary.isEmpty then throw (.secondKey d.name)
  let key ← d.keyOf true terms
  let d := { d with primary := key.positions }
  match key.columns with
  | [c] =>
    let isInteger := (d.columns[c.column]?).any fun column => column.type == "INTEGER"
    if isInteger && !c.descending then return { d with numbering := some c.column }
    else return d.addKey key
  | _ => return d.addKey key

/-- The last column as the only term of a key. -/
def lastTerm (d : Declaration) (order : SortOrder) : List KeyTerm :=
  let name := ((d.columns.getLast?).map Column.name).getD ""
  [⟨.name ⟨[], name, .bare⟩, order⟩]

/-- The table with one more reference, from the last column if no columns are named. -/
def addReference (d : Declaration) (columns : Option (List String)) (table : Token)
    (targets : Option (List String)) : Except Issue Declaration := do
  let width? := targets.map List.length
  let positions ←
    match columns with
    | none =>
      let last := d.columns.length - 1
      if width?.all (· = 1) then pure [last]
      else throw (.referenceWidth (String.join (d.namesAt [last])) table.shown)
    | some names =>
      if width?.any (· ≠ names.length) then throw .referenceCount
      else
        names.mapM fun name =>
          match d.position? name with
          | some i => .ok i
          | none => .error (.referenceColumn name)
  return { d with references := ⟨positions, table.content, targets⟩ :: d.references }

/-- The first issue with the checks. -/
def checkIssue? (d : Declaration) : Option Issue :=
  d.checks.findSome? fun check =>
    match (Names.ofTable d.subject).formula check.condition with
    | .ok _ => none
    | .error issue => some issue

end Declaration

namespace Reads

/-- The words that may tell what becomes of a change that breaks a key. -/
def resolutions : List String := ["rollback", "abort", "fail", "ignore", "replace"]

/-- Takes what tells this, if it is there. -/
def onConflict : Reads Unit := do
  if ← word? "on" then
    words ["conflict"]
    match ← anyWord? resolutions with
    | some word => require (word == "abort") .unsupported
    | none => fail

/-- Takes the name of a column in a list of names, after which neither a collation nor an order may
stand. -/
def listedName : Reads String := do
  let name ← name
  let collated ← word? "collate"
  if collated then let _ ← take isTitle
  let ordered := (← anyWord? ["asc", "desc"]).isSome
  require (!collated && !ordered) (.listedTerm name)
  return name

/-- Takes names in parentheses, if there are any. -/
def listedNames? : Reads (Option (List String)) := do
  if ← markComes "(" then some <$> inParentheses (commaSeparated listedName) else return none

/-- Takes what is done when a row that is referred to goes away or changes. -/
def referenceAction : Reads Unit := do
  match ← anyWord? ["set", "cascade", "restrict", "no"] with
  | some "set" => if (← anyWord? ["null", "default"]).isNone then fail
  | some "no" => words ["action"]
  | some _ => return
  | none => fail

/-- Takes all of this. -/
def referenceActions : Nat → Reads Unit
  | 0 => return
  | fuel + 1 => do
    if ← word? "match" then
      let _ ← name
      referenceActions fuel
    else if ← word? "on" then
      if (← anyWord? ["insert", "delete", "update"]).isNone then fail
      referenceAction
      note .unsupported
      referenceActions fuel
    else return

/-- Takes when a reference is looked at, after the word that tells whether it can be later. -/
def deferral (isLate : Bool) : Reads Unit := do
  if ← word? "initially" then
    match ← anyWord? ["deferred", "immediate"] with
    | some word => require (!isLate || word == "immediate") .unsupported
    | none => fail

/-- Takes a table that is referred to, and columns of it. -/
def referenced : Reads (Token × Option (List String)) := do
  let table ← take isName
  let targets ← listedNames?
  referenceActions (← enough)
  return (table, targets)

/-- Reads the default of a column: a literal, with a sign or without, a word, which is a text, or an
expression in parentheses. -/
def defaultOf (inside : Inside) : Reads Default := do
  if ← markComes "(" then
    let (e, tokens) ← withTokens (do mark "("; inside.any)
    mark ")"
    let text := (tokens.flatMap fun t => t.spelling ++ t.gap).drop 1
    return ⟨Token.trimmed text, e⟩
  else
    let (e, tokens) ← withTokens do
      let negative ← mark? "-"
      let signed ← if negative then pure true else mark? "+"
      match ← literal? with
      | some e => return if negative then e.negated else e
      | none =>
        if signed then fail
        else
          let t ← take fun t => isBareName t && !joinWords.contains (t.word?.getD "")
          let m := mentionOf t
          return .literal ((m.truth?.map Datum.ofBool).getD (.ofString m.name))
    return ⟨Token.innerText tokens, e⟩

/-- Reads a condition on rows; it has the name before it, or is its own name. -/
def check (inside : Inside) (d : Draft) : Reads Draft := do
  let (e, tokens) ← withTokens (do mark "("; inside.any)
  mark ")"
  let text := Token.trimmed ((tokens.flatMap fun t => t.spelling ++ t.gap).drop 1)
  let check : Check := ⟨d.label.getD text, e⟩
  return { d with table := { d.table with checks := d.table.checks ++ [check] } }

/-- Reads the rest of a primary key, after its columns. -/
def primaryKey (d : Draft) (terms : List KeyTerm) (counts : Bool) : Reads Draft := do
  let d ← d.change (d.table.addPrimary terms)
  if counts then
    d.require false (if d.table.numbering.isSome then .unsupported else .misplacedCount)
  return d

/-- Reads one constraint of the last column, if there is one. -/
def constraint? (inside : Inside) (d : Draft) : Reads (Option Draft) := do
  match ← anyWord? ["constraint", "default", "null", "not", "primary", "unique", "check",
    "references", "collate", "deferrable", "generated", "as"] with
  | some "constraint" => return some { d with label := some (← name) }
  | some "default" =>
    let default ← defaultOf inside
    let column := String.join (d.table.namesAt [d.table.columns.length - 1])
    d.require default.phrase.isFixed (.changingDefault column)
    return some { d with table := d.table.changeLast fun c => { c with default := some default } }
  | some "null" => onConflict; return some d
  | some "not" =>
    if ← word? "deferrable" then deferral false; return some d
    else
      words ["null"]
      onConflict
      return some { d with table := d.table.changeLast fun c => { c with required := true } }
  | some "primary" =>
    words ["key"]
    let descending := (← anyWord? ["asc", "desc"]) == some "desc"
    onConflict
    let counts ← word? "autoincrement"
    some <$> primaryKey d (d.table.lastTerm ⟨descending, none⟩) counts
  | some "unique" =>
    onConflict
    some <$> d.change (d.table.addUnique (d.table.lastTerm ⟨false, none⟩))
  | some "check" => some <$> check inside d
  | some "references" =>
    let (table, targets) ← referenced
    some <$> d.change (d.table.addReference none table targets)
  | some "collate" =>
    let collation := (← take isTitle).content
    some <$> d.change
      (match Collation.named? collation with
      | some c => .ok (d.table.collateLast c)
      | none => .error (.noCollation collation))
  | some "deferrable" => deferral true; return some d
  | some "generated" | some "as" => throw .unsupported
  | _ => return none

/-- Reads all constraints of the last column. -/
def constraints (inside : Inside) : Nat → Draft → Reads Draft
  | 0, d => return d
  | fuel + 1, d => do
    match ← constraint? inside d with
    | some d => constraints inside fuel d
    | none => return d

/-- Reads a column. -/
def column (inside : Inside) (d : Draft) : Reads Draft := do
  let name ← name
  let type := typeText (← typeTokens)
  d.require (d.table.position? name).isNone (.repeatedColumn name)
  let table := { d.table with columns := d.table.columns ++ [Column.ofType name type] }
  constraints inside (← enough) { d with table := table, label := none }

/-- Reads the terms of a key. -/
def keyTerms (inside : Inside) : Reads (List KeyTerm) :=
  commaSeparated do
    let phrase ← inside.any
    return ⟨phrase, ← sortOrder⟩

/-- The words that constraints of a table begin with. -/
def keyWords : List String := ["constraint", "primary", "unique", "check", "foreign"]

/-- Reads one constraint of a table. -/
def key (inside : Inside) (d : Draft) : Reads Draft := do
  match ← anyWord? keyWords with
  | some "constraint" => return { d with label := some (← name) }
  | some "primary" =>
    words ["key"]
    mark "("
    let terms ← keyTerms inside
    let counts ← word? "autoincrement"
    mark ")"
    onConflict
    primaryKey d terms counts
  | some "unique" =>
    let terms ← inParentheses (keyTerms inside)
    onConflict
    d.change (d.table.addUnique terms)
  | some "check" =>
    let d ← check inside d
    onConflict
    return d
  | some "foreign" =>
    words ["key"]
    let columns ← inParentheses (commaSeparated listedName)
    words ["references"]
    let (table, targets) ← referenced
    let d ← d.change (d.table.addReference (some columns) table targets)
    if ← word? "not" then
      words ["deferrable"]
      deferral false
    else if ← word? "deferrable" then deferral true
    return d
  | _ => fail

/-- Reads the constraints of a table; commas between them may be missing. -/
def keys (inside : Inside) : Nat → Draft → Reads Draft
  | 0, d => return d
  | fuel + 1, d => do
    let d ← key inside d
    if ← mark? "," then keys inside fuel { d with label := none }
    else if ← comes (fun t => t.word?.any keyWords.contains) then keys inside fuel d
    else return d

/-- Reads the columns of a table and then its constraints. -/
def columns (inside : Inside) : Nat → Draft → Reads Draft
  | 0, _ => fail
  | fuel + 1, d => do
    let d ← column inside d
    if ← mark? "," then
      if ← comes (fun t => t.word?.any keyWords.contains) then
        keys inside (← enough) { d with label := none }
      else columns inside fuel d
    else return d

/-- Reads the options of a table. -/
def tableOptions : Nat → Reads Unit
  | 0 => return
  | fuel + 1 => do
    let known := if ← word? "without" then "rowid" else "strict"
    let t ← take isName
    note (if sameName t.content known then .unsupported else .unknownOption t.shown)
    if ← mark? "," then tableOptions fuel

/-- Reads the declaration of a table, given which tables there are; none if the table need not be
created. -/
def declaration (inside : Inside) (isTaken : String → Bool) : Reads (Option Declaration) := do
  let unlessThere ← word? "if"
  if unlessThere then words ["not", "exists"]
  let (database?, t) ← tableName
  let isNew := !isTaken t.content
  require (isNew || unlessThere) (.tableExists t.shown)
  require (!(t.content.map Char.toLower).startsWith "sqlite_") (.reservedName t.content)
  if let some database := database? then
    require (sameName database.content "main") (.noDatabase database.shown)
  if ← word? "as" then
    inside.query
    return none
  else
    let (d, tokens) ← withTokens do
      mark "("
      let d ← columns inside (← enough) ⟨isNew, .empty t.content, none⟩
      mark ")"
      if ← comes isName then tableOptions (← enough)
      return d
    if let some issue := d.table.checkIssue? then d.require false issue
    let text := "CREATE TABLE " ++ Token.innerText (t :: tokens)
    return if isNew then some { d.table with text := text } else none

end Reads
end Engine
end LinkedRows
