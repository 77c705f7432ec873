/-
# Reading expressions

| level | operators, the loosest first |
| --- | --- |
| 1 | `OR` |
| 2 | `AND` |
| 3 | `NOT` before an operand; `NOT` between operands, as in `NOT IN` |
| 4 | `=` `==` `<>` `!=` `IS` `LIKE` `GLOB` `REGEXP` `MATCH` `BETWEEN` `IN` `ISNULL` `NOTNULL` |
| 5 | `<` `<=` `>` `>=` |
| 7 | `&` `\|` `<<` `>>` |
| 8 | `+` `-` |
| 9 | `*` `/` `%` |
| 10 | `\|\|` `->` `->>` |
| 11 | `COLLATE` |
| 12 | `-` `+` `~` before an operand |

Operators of one level bind to the left.  A word that has a meaning where it stands keeps it; others
are names.  A parameter without a number takes the next one, and a named one its first number.
-/

import LinkedRows.Engine.Expr
import LinkedRows.Engine.Token.Reads

namespace LinkedRows
namespace Engine
namespace Reads

/-- The number after all of those that parameters have. -/
def nextParameter : Reads Nat := do
  let number := (← get).parameters + 1
  modify fun input => { input with parameters := number }
  require (number ≤ 32766) .tooManyParameters
  return number

/-- A parameter with a name; the same name is the same parameter. -/
def namedParameter (name : String) : Reads Nat := do
  match (← get).names.lookup name with
  | some number => return number
  | none =>
    let number ← nextParameter
    modify fun input => { input with names := (name, number) :: input.names }
    return number

/-- Takes a parameter. -/
def parameter (t : Token) : Reads Phrase := do
  skip
  match t.spelling with
  | ['?'] => return .parameter (← nextParameter)
  | '?' :: digits =>
    let number := Decimal.natOfDigits 0 digits
    if 1 ≤ number ∧ number ≤ 32766 then
      modify fun input => { input with parameters := max input.parameters number }
      return .parameter number
    else
      note .parameterNumber
      return .literal .null
  | '#' :: c :: _ =>
    if c.isDigit then note (.unexpected t.shown)
    return .parameter (← namedParameter t.shown)
  | _ => return .parameter (← namedParameter t.shown)

/-- The characters of a number without `_`, after `kept`; and the number as far as it was read when
the last `_` was found that does not stand between digits. -/
def ungroup (isDigit : Char → Bool) (all : List Char) :
    (kept : List Char) → (last : Option Char) → List Char → List Char × Option (List Char)
  | kept, _, [] => (kept, none)
  | kept, last, c :: cs =>
    if c = '_' then
      let (digits, wrong) := ungroup isDigit all kept (some c) cs
      let here :=
        if last.any isDigit && cs.head?.any isDigit then none
        else some (kept ++ all.drop kept.length)
      (digits, wrong.or here)
    else ungroup isDigit all (kept ++ [c]) (some c) cs

/-- Takes a number. -/
def number (t : Token) : Reads Phrase := do
  skip
  if t.form = .grouped then
    let isHex := t.spelling[1]?.any fun c => c == 'x' || c == 'X'
    let (digits, wrong) :=
      ungroup (if isHex then Lexeme.isHex else Char.isDigit) t.spelling [] none t.spelling
    if let some wrong := wrong then note (.unreadable (String.ofList wrong))
    return .numeral false (String.ofList digits)
  else return .numeral false t.shown

/-- The bytes that hexadecimal digits denote. -/
def bytesOf : List Char → List UInt8
  | high :: low :: rest => UInt8.ofNat (Numeral.natOfHex [high, low]) :: bytesOf rest
  | _ => []

/-- Moments read as the beginning of time: the engine has no clock. -/
def moment? (word : String) : Option String :=
  match word with
  | "current_timestamp" => some "1970-01-01 00:00:00"
  | "current_date" => some "1970-01-01"
  | "current_time" => some "00:00:00"
  | _ => none

/-- Takes a literal if one comes next. -/
def literal? : Reads (Option Phrase) := do
  match ← peek with
  | none => return none
  | some t =>
    match t.form with
    | .number | .grouped => some <$> number t
    | .text => skip; return some (.literal (.ofString t.content))
    | .bytes => skip; return some (.literal (.blob (bytesOf (t.spelling.drop 2).dropLast)))
    | .word =>
      match t.word?.getD "" with
      | "null" => skip; return some (.literal .null)
      | word =>
        match moment? word with
        | some moment => skip; return some (.literal (.ofString moment))
        | none => return none
    | _ => return none

/-- A mention of a name that stands alone. -/
def mentionOf (t : Token) : Mention :=
  let quoting : Quoting :=
    if t.form = .word then .bare else if t.spelling.head? = some '"' then .double else .other
  ⟨[], t.content, quoting⟩

/-- Takes the names after points; the last one is a column. -/
def qualified (first : String) : Reads Phrase := do
  mark "."
  let second ← take isName
  if ← mark? "." then
    let third ← take isName
    return .name { mentionOf third with qualifiers := [first, second.content] }
  else return .name { mentionOf second with qualifiers := [first] }

/-- Takes words of a type. -/
def typeWords : Nat → Reads Unit
  | 0 => return
  | fuel + 1 => do
    match ← take? isTitle with
    | some _ => typeWords fuel
    | none => return

/-- Takes a size of a type. -/
def typeSize : Reads Unit := do
  if !(← mark? "-") then let _ ← mark? "+"
  let _ ← take fun t => t.form = .number || t.form = .grouped

/-- Takes a type, perhaps with one or two sizes; there need not be one. -/
def typeTokens : Reads (List Token) := do
  let ((), tokens) ← withTokens do
    match ← take? isTitle with
    | none => return
    | some _ =>
      typeWords (← enough)
      if ← mark? "(" then
        typeSize
        if ← mark? "," then typeSize
        mark ")"
  return tokens

/-- The text of a type; quotes around the whole of it count for nothing. -/
def typeText (tokens : List Token) : String :=
  let isQuote (c : Char) : Bool := c == '\'' || c == '"' || c == '[' || c == '\x60'
  let text := Token.innerText tokens
  match text.toList with
  | quote :: rest@(_ :: _) =>
    if isQuote quote && !rest.dropLast.any isQuote then String.ofList rest.dropLast else text
  | _ => text

/-- Does a query come next? -/
def queryComes : Reads Bool := comes fun t => t.word?.any ["select", "values", "with"].contains

/-- Takes the order of a term. -/
def sortOrder : Reads SortOrder := do
  let descending := (← anyWord? ["asc", "desc"]) == some "desc"
  if ← word? "nulls" then
    match ← anyWord? ["first", "last"] with
    | some word => return ⟨descending, some (word == "last")⟩
    | none => fail
  else return ⟨descending, none⟩

/-- Reads what stands inside expressions: expressions and queries. -/
structure Inside where
  /-- An expression whose operators bind at least as tightly as a level, `AND` perhaps left out. -/
  expression : (least : Nat) → (withoutAnd : Bool) → Reads Phrase
  /-- A query. -/
  query : Reads Unit

namespace Inside

variable (inside : Inside)

/-- Reads any expression. -/
def any : Reads Phrase := inside.expression 1 false

/-- Reads expressions with commas between them, or none. -/
def list : Reads (List Phrase) := do
  if ← markComes ")" then return [] else commaSeparated inside.any

/-- Reads a query up to its closing parenthesis. -/
def closedQuery : Reads Phrase := do
  inside.query
  mark ")"
  return .fault .unsupported

/-- Reads what follows a call, if it is about other rows. -/
def afterCall (e : Phrase) : Reads Phrase := do
  let second ← peekSecond
  let opens := second.any (·.isMark "(")
  if (← wordComes "filter") && opens || (← wordComes "over") && (opens || second.any isTitle) then
    throw .unsupported
  else return e

/-- Reads the arguments of a call. -/
def call (name : String) : Reads Phrase := do
  mark "("
  if ← mark? "*" then
    mark ")"
    afterCall (.apply (.call ⟨name, false, true⟩) [])
  else
    let distinct := (← anyWord? ["distinct", "all"]) == some "distinct"
    let arguments ← inside.list
    let e : Phrase := .apply (.call ⟨name, distinct, false⟩) arguments
    if ← word? "order" then
      words ["by"]
      let _ ← commaSeparated (do let _ ← inside.any; sortOrder)
      mark ")"
      return .fault .unsupported
    else
      mark ")"
      afterCall e

/-- Reads what stands between parentheses: a query, an expression or several ones. -/
def parenthesized : Reads Phrase := do
  mark "("
  if ← queryComes then inside.closedQuery
  else
    match ← commaSeparated inside.any with
    | [e] => mark ")"; return e
    | es => mark ")"; return .apply .row es

/-- Reads a conversion. -/
def cast : Reads Phrase := do
  mark "("
  let e ← inside.any
  words ["as"]
  let type := typeText (← typeTokens)
  mark ")"
  return .apply (.cast (Affinity.ofType type)) [e]

/-- Reads conditions and results in turn. -/
def arms : Nat → Reads (List Phrase)
  | 0 => fail
  | fuel + 1 => do
    words ["when"]
    let condition ← inside.any
    words ["then"]
    let result ← inside.any
    if ← wordComes "when" then return condition :: result :: (← arms fuel)
    else return [condition, result]

/-- Reads a choice. -/
def choice : Reads Phrase := do
  let base ← if ← wordComes "when" then pure [] else pure [← inside.any]
  let arms ← inside.arms (← enough)
  let last ← if ← word? "else" then pure [← inside.any] else pure []
  words ["end"]
  return .apply (.choice (!base.isEmpty) (!last.isEmpty)) (base ++ arms ++ last)

/-- Reads what only triggers can do. -/
def raise : Reads Phrase := do
  mark "("
  if !(← word? "ignore") then
    if (← anyWord? ["rollback", "abort", "fail"]).isNone then fail
    mark ","
    let _ ← inside.any
  mark ")"
  return .fault .unsupported

/-- Reads what begins with a word or another name. -/
def named (t : Token) : Reads Phrase := do
  match t.word? with
  | some "cast" => skip; inside.cast
  | some "case" => skip; inside.choice
  | some "raise" => skip; inside.raise
  | some "exists" => skip; mark "("; inside.closedQuery
  | some "not" => skip; return .unary .not (← inside.expression 3 false)
  | _ =>
    if isBareName t then
      skip
      if ← markComes "(" then inside.call t.content
      else if ← markComes "." then qualified t.content
      else return .name (mentionOf t)
    else fail

/-- Reads an operand. -/
def operand : Reads Phrase := do
  match ← peek with
  | none => fail
  | some t =>
    if t.form = .text && (← peekSecond).any (·.isMark ".") then skip; qualified t.content
    else if let some e ← literal? then return e
    else if t.form = .parameter then parameter t
    else if t.isMark "(" then inside.parenthesized
    else if t.isMark "-" then skip; return (← inside.expression 12 false).negated
    else if t.isMark "+" then skip; return .unary .positive (← inside.expression 12 false)
    else if t.isMark "~" then skip; return .unary .complement (← inside.expression 12 false)
    else inside.named t

/-- Reads the pattern that an expression is compared with. -/
def pattern (negated : Bool) (word : Token) (e : Phrase) : Reads Phrase := do
  skip
  let pattern ← inside.expression 5 false
  let escape ← if ← word? "escape" then pure [← inside.expression 5 false] else pure []
  return .negateIf negated (.apply (.call ⟨word.shown, false, false⟩) (pattern :: e :: escape))

/-- Reads the bounds that an expression is compared with. -/
def bounds (negated : Bool) (e : Phrase) : Reads Phrase := do
  skip
  let low ← inside.expression 1 true
  words ["and"]
  let high ← inside.expression 5 false
  return .negateIf negated (.apply .between [e, low, high])

/-- Reads the items that an expression is compared with. -/
def items (negated : Bool) (e : Phrase) : Reads Phrase := do
  skip
  if ← mark? "(" then
    if ← queryComes then inside.closedQuery
    else
      let items ← inside.list
      mark ")"
      return e.oneOf negated items
  else
    let _ ← name
    if ← mark? "." then let _ ← name
    if ← mark? "(" then
      let _ ← inside.list
      mark ")"
    return .fault .unsupported

/-- Reads what follows `IS`. -/
def identity (e : Phrase) : Reads Phrase := do
  skip
  let negated ← word? "not"
  let distinct ← word? "distinct"
  if distinct then words ["from"]
  let other ← inside.expression 5 false
  return .binary (if negated == distinct then .same else .notSame) e other

/-- The operator that a token is, and its level. -/
def operator? (t : Token) : Option (Operator × Nat) :=
  if t.form = .mark then
    match t.shown with
    | "=" | "==" => some (.equal, 4)
    | "<>" | "!=" => some (.unequal, 4)
    | "<" => some (.less, 5)
    | "<=" => some (.atMost, 5)
    | ">" => some (.greater, 5)
    | ">=" => some (.atLeast, 5)
    | "&" => some (.bitAnd, 7)
    | "|" => some (.bitOr, 7)
    | "<<" => some (.shiftLeft, 7)
    | ">>" => some (.shiftRight, 7)
    | "+" => some (.plus, 8)
    | "-" => some (.minus, 8)
    | "*" => some (.times, 9)
    | "/" => some (.divide, 9)
    | "%" => some (.remainder, 9)
    | "||" => some (.join, 10)
    | _ => none
  else
    match t.word? with
    | some "or" => some (.or, 1)
    | some "and" => some (.and, 2)
    | _ => none

/-- Reads on after an operand, if what follows is a word that binds at least as tightly as a
level. -/
def afterWord? (least : Nat) (t : Token) (e : Phrase) : Reads (Option Phrase) := do
  match t.word?.getD "" with
  | "not" =>
    if 3 < least then return none
    else
      skip
      match ← peek with
      | none => fail
      | some t =>
        match t.word?.getD "" with
        | "null" => skip; return some (.unary .notNull e)
        | "like" | "glob" | "regexp" | "match" => some <$> inside.pattern true t e
        | "between" => some <$> inside.bounds true e
        | "in" => some <$> inside.items true e
        | _ => fail
  | "collate" =>
    if 11 < least then return none
    else
      skip
      return some (.apply (.collate (← take isTitle).content) [e])
  | word =>
    if 4 < least then return none
    else
      match word with
      | "isnull" => skip; return some (.unary .isNull e)
      | "notnull" => skip; return some (.unary .notNull e)
      | "is" => some <$> inside.identity e
      | "like" | "glob" | "regexp" | "match" => some <$> inside.pattern false t e
      | "between" => some <$> inside.bounds false e
      | "in" => some <$> inside.items false e
      | _ => return none

/-- Reads on after an operand, if what follows binds at least as tightly as a level. -/
def after? (least : Nat) (withoutAnd : Bool) (e : Phrase) : Reads (Option Phrase) := do
  match ← peek with
  | none => return none
  | some t =>
    match operator? t with
    | some (op, level) =>
      if level < least || withoutAnd && op == .and then return none
      else
        skip
        return some (e.combined op (← inside.expression (level + 1) false))
    | none =>
      if t.form = .mark && t.shown.startsWith "->" && least ≤ 10 then
        skip
        let _ ← inside.expression 11 false
        return some (.fault .unsupported)
      else inside.afterWord? least t e

/-- Reads on after an operand as long as what follows binds tightly enough. -/
def operators (least : Nat) (withoutAnd : Bool) : Nat → Phrase → Reads Phrase
  | 0, e => return e
  | fuel + 1, e => do
    match ← inside.after? least withoutAnd e with
    | some e => operators least withoutAnd fuel e
    | none => return e

end Inside

/-- Reads an expression whose operators bind at least as tightly as `least`, with a reader of the
queries in it. -/
def expressionWithin (query : Reads Phrase → Reads Unit) :
    (fuel : Nat) → (least : Nat) → (withoutAnd : Bool) → Reads Phrase
  | 0, _, _ => fail
  | fuel + 1, least, withoutAnd => do
    let expression := expressionWithin query fuel
    let inside : Inside := ⟨expression, query (expression 1 false)⟩
    inside.operators least withoutAnd (fuel + 1) (← inside.operand)

end Reads
end Engine
end LinkedRows
