/-
# Reading commands

Commands are read one after the other; each ends with a semicolon or with the text.  What follows
the first command need not be readable.

A row of values that are all given beside the others is looked at as soon as it has been read.
-/

import LinkedRows.Engine.Command
import LinkedRows.Engine.Declaration.Reader

namespace LinkedRows
namespace Engine
namespace Reads

/-- The title after `AS`, or a title without it, if there is one. -/
def title? : Reads (Option String) := do
  if ← word? "as" then return some (← name)
  else return (← take? isTitle).map Token.content

/-- Takes how rows may be looked for. -/
def searching : Reads Searching := do
  if ← word? "indexed" then
    words ["by"]
    return .withIndex (← name)
  else if ← word? "not" then
    words ["indexed"]
    return .withoutIndex
  else return .freely

/-- Reads a table with an alias after `AS`. -/
def target : Reads Target := do
  let (database, t) ← tableName
  let otherName ← if ← word? "as" then some <$> name else pure none
  return ⟨database.map Token.content, t.content, otherName, .freely⟩

/-- Reads a condition, if there is one. -/
def whereCondition? (inside : Inside) : Reads (Option Phrase) := do
  if ← word? "where" then some <$> inside.any else return none

/-- Reads one output of a query. -/
def output (inside : Inside) : Reads Output := do
  let tokens := (← get).tokens
  let isAll := (tokens[1]?).any (·.isMark ".") && (tokens[2]?).any (·.isMark "*")
  if ← mark? "*" then return .everything none
  else if isAll && tokens.head?.any isName then
    let table ← name
    mark "."
    mark "*"
    return .everything (some table)
  else
    let (e, tokens) ← withTokens inside.any
    return .computed e (← title?) (Token.spanText tokens)

/-- Reads one term to order by. -/
def sorting (inside : Inside) : Reads Sorting := do
  let key ← inside.any
  return ⟨key, ← sortOrder⟩

/-- Takes the words between two tables, if there are any. -/
def join? : Reads Bool := do
  if ← mark? "," then return true
  else if ← word? "join" then return true
  else
    match ← anyWord? joinWords with
    | none => return false
    | some _ =>
      let _ ← take? isName
      let _ ← take? isName
      words ["join"]
      return true

/-- Takes a condition between two tables. -/
def joinCondition (inside : Inside) : Reads Unit := do
  if ← word? "on" then let _ ← inside.any
  else if ← word? "using" then let _ ← names

/-- Reads the table of a query, or something that the engine has none for. -/
def sourceItem (inside : Inside) (sources : Reads (Option Target)) : Reads (Option Target) := do
  if ← mark? "(" then
    if ← queryComes then inside.query else let _ ← sources
    mark ")"
    let _ ← title?
    return none
  else
    let (database, t) ← tableName
    if ← mark? "(" then
      let _ ← inside.list
      mark ")"
      let _ ← title?
      return none
    else
      let otherName ← title?
      let searching ← searching
      return some ⟨database.map Token.content, t.content, otherName, searching⟩

/-- Reads the tables of a query; the engine has them only one at a time. -/
def sources (inside : Inside) : (fuel : Nat) → Reads (Option Target)
  | 0 => fail
  | fuel + 1 => do
    let first ← sourceItem inside (sources inside fuel)
    let isJoined := (← wordComes "on") || (← wordComes "using")
    joinCondition inside
    if ← join? then
      let _ ← sources inside fuel
      return none
    else return if isJoined then none else first

/-- Reads how many rows are shown. -/
def window? (inside : Inside) : Reads (Option Window) := do
  if ← word? "limit" then
    let first ← inside.any
    if ← word? "offset" then return some ⟨first, some (← inside.any)⟩
    else if ← mark? "," then return some ⟨← inside.any, some first⟩
    else return some ⟨first, none⟩
  else return none

/-- Reads a query on one table, after its first word; none if the engine has no such query. -/
def simpleQuery (inside : Inside) : Reads (Option Query) := do
  let isDistinct := (← anyWord? ["distinct", "all"]) == some "distinct"
  let outputs ← commaSeparated (output inside)
  let (source, isKnown) ←
    if ← word? "from" then
      let source ← sources inside (← enough)
      pure (source, source.isSome)
    else pure (none, true)
  let condition ← whereCondition? inside
  let isGrouped ← word? "group"
  if isGrouped then
    words ["by"]
    let _ ← commaSeparated inside.any
  let groupCondition ← if ← word? "having" then some <$> inside.any else pure none
  let isWindowed ← wordComes "window"
  if isWindowed then throw .unsupported
  let isSorted ← word? "order"
  if isSorted then words ["by"]
  let sorting ← if isSorted then commaSeparated (sorting inside) else pure []
  let window ← window? inside
  return if isKnown && !isGrouped then
    some ⟨isDistinct, outputs, source, condition, groupCondition, sorting, window⟩
  else none

/-- Is a row made of literals and parameters only? -/
def isPlainRow (row : List Phrase) : Bool :=
  row.all fun e =>
    e.isPlain &&
      match e with
      | .apply (.cast _) _ => false
      | _ => true

/-- The issue with the names in a row, if there is one. -/
def rowIssue? (row : List Phrase) : Option Issue :=
  row.findSome? fun e =>
    match ({ Names.none with aggregates := true }).formula e with
    | .ok _ => none
    | .error issue => some issue

/-- Reads rows after a first one.  A plain row has to be as wide as the last one that is not plain,
which is looked at then. -/
def furtherRows (inside : Inside) : Nat → (anchor : List Phrase) → Reads (List (List Phrase))
  | 0, _ => fail
  | fuel + 1, anchor => do
    if ← mark? "," then
      let row ← inParentheses (commaSeparated inside.any)
      if isPlainRow row then
        require (row.length = anchor.length) .unevenRows
        if let some issue := rowIssue? anchor then note issue
        return row :: (← furtherRows inside fuel anchor)
      else return row :: (← furtherRows inside fuel row)
    else return []

/-- Reads rows, after the word before them. -/
def rows (inside : Inside) : Reads (List (List Phrase)) := do
  let first ← inParentheses (commaSeparated inside.any)
  return first :: (← furtherRows inside (← enough) first)

/-- Reads a query or rows, if one of them comes next. -/
def queryPart (inside : Inside) : Reads Command := do
  match ← anyWord? ["select", "values", "with"] with
  | some "select" =>
    match ← simpleQuery inside with
    | some query => return .select query
    | none => return .beyond
  | some "values" => return .values (← rows inside)
  | some _ => throw .unsupported
  | none => fail

/-- Reads queries with operators between them. -/
def queryParts (inside : Inside) : Nat → Reads Command
  | 0 => fail
  | fuel + 1 => do
    let first ← queryPart inside
    match ← anyWord? ["union", "except", "intersect"] with
    | none => return first
    | some word =>
      if word == "union" then let _ ← word? "all"
      let _ ← queryParts inside fuel
      return .beyond

/-- Reads the query inside of an expression. -/
def innerQuery : (fuel : Nat) → Reads Phrase → Reads Unit
  | 0, _ => fail
  | fuel + 1, expression => do
    let query := innerQuery fuel expression
    let inside : Inside := ⟨fun _ _ => expression, query⟩
    let _ ← queryParts inside (fuel + 1)

/-- The reader of expressions for what is left. -/
def insideOfRest : Reads Inside := do
  let fuel ← enough
  let expression := expressionWithin (innerQuery fuel) fuel
  return ⟨expression, innerQuery fuel (expression 1 false)⟩

/-- Takes what becomes of a change that breaks a key; the engine undoes it. -/
def resolution : Reads Bool := do
  if ← word? "or" then
    match ← anyWord? resolutions with
    | some word => return word == "abort"
    | none => fail
  else return true

/-- Nothing may follow a change but what the engine has none for. -/
def nothingReturned : Reads Unit := do
  if ← wordComes "returning" then throw .unsupported

/-- Reads an insertion; one of defaults only has no rows. -/
def insert (inside : Inside) : Reads Command := do
  let isKnown ← resolution
  words ["into"]
  let target ← target
  let columns ← if ← markComes "(" then some <$> names else pure none
  if ← word? "default" then
    words ["values"]
    nothingReturned
    return if isKnown then .insert target columns [] else .beyond
  else
    let source ← queryParts inside (← enough)
    if ← wordComes "on" then throw .unsupported
    nothingReturned
    match source, isKnown with
    | .values rows, true => return .insert target columns rows
    | _, _ => return .beyond

/-- Reads one assignment; none if it is one of several columns. -/
def assignment (inside : Inside) : Reads (Option (String × Phrase)) := do
  if ← markComes "(" then
    let _ ← names
    equals
    let _ ← inside.any
    return none
  else
    let column ← name
    equals
    return some (column, ← inside.any)

/-- Reads an update. -/
def update (inside : Inside) : Reads Command := do
  let isKnown ← resolution
  let target := { ← target with searching := ← searching }
  words ["set"]
  let assignments ← commaSeparated (assignment inside)
  if ← wordComes "from" then throw .unsupported
  let condition ← whereCondition? inside
  nothingReturned
  match assignments.mapM id, isKnown with
  | some assignments, true => return .update target assignments condition
  | _, _ => return .beyond

/-- Reads a deletion. -/
def delete (inside : Inside) : Reads Command := do
  words ["from"]
  let target := { ← target with searching := ← searching }
  let condition ← whereCondition? inside
  nothingReturned
  return .delete target condition

/-- Reads what creates something. -/
def create (inside : Inside) (isTaken : String → Bool) : Reads Command := do
  if ← word? "table" then return .create (← declaration inside isTaken)
  else if ← comes (fun t => t.word?.any
      ["temp", "temporary", "unique", "index", "view", "trigger", "virtual"].contains) then
    throw .unsupported
  else fail

/-- Reads what removes something. -/
def drop : Reads Command := do
  if ← word? "table" then
    let ifThere ← word? "if"
    if ifThere then words ["exists"]
    let (database, t) ← tableName
    return .drop ifThere ⟨database.map Token.content, t.content, none, .freely⟩
  else if ← comes (fun t => t.word?.any ["index", "view", "trigger"].contains) then
    throw .unsupported
  else fail

/-- Takes a number. -/
def settingNumber (t : Token) : Bool := t.form = .number

/-- Reads the value of a setting. -/
def settingValue : Reads String := do
  if ← mark? "-" then return "-" ++ (← take settingNumber).content
  else if ← mark? "+" then return (← take settingNumber).content
  else
    let t ← take fun t =>
      settingNumber t || isName t || ["on", "delete", "default"].contains (t.word?.getD "")
    return t.content

/-- Reads a setting. -/
def setting : Reads Command := do
  let (_, t) ← tableName
  if ← mark? "=" then return .setting t.content (some (← settingValue))
  else if ← markComes "(" then
    return .setting t.content (some (← inParentheses settingValue))
  else return .setting t.content none

/-- Takes the name of a transaction. -/
def transaction : Reads Unit := do
  if ← word? "transaction" then let _ ← take? isName

/-- Reads a command, given which tables there are. -/
def command (isTaken : String → Bool) : Reads Command := do
  let inside ← insideOfRest
  if ← queryComes then queryParts inside (← enough)
  else
    match ← anyWord? ["insert", "update", "delete", "create", "drop", "pragma", "begin", "commit",
      "end", "rollback"] with
    | some "insert" => insert inside
    | some "update" => update inside
    | some "delete" => delete inside
    | some "create" => create inside isTaken
    | some "drop" => drop
    | some "pragma" => setting
    | some "begin" =>
      let _ ← anyWord? ["deferred", "immediate", "exclusive"]
      transaction
      return .start
    | some "rollback" =>
      transaction
      if ← wordComes "to" then throw .unsupported
      return .undo
    | some _ => transaction; return .finish
    | none =>
      match ← anyWord? ["alter", "analyze", "attach", "detach", "explain", "reindex", "release",
        "replace", "savepoint", "vacuum"] with
      | some _ => throw .unsupported
      | none => fail

end Reads

/-- A command with the number of its parameters, and what follows it. -/
structure Reading where
  command : Command
  parameters : Nat
  rest : List Token

/-- Reads the first command, if the tokens hold one. -/
def Reading.next? (isTaken : String → Bool) (tokens : List Token) :
    Except Issue (Option Reading) := do
  let tokens := tokens.dropWhile (·.isMark ";")
  if tokens.isEmpty then return none
  else
    let reader := do
      let command ← Reads.command isTaken
      Reads.finish
      return command
    let (command, input) ← reader.run (.ofTokens tokens)
    return some ⟨command, input.parameters, input.tokens⟩

end Engine
end LinkedRows
