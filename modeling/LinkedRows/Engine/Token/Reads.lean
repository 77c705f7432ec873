/-
# Readers of tokens

A reader takes tokens from the front of a list.  An issue is about the first token that cannot
follow what stands before it: a reader that fails has taken everything before that token.

Some of what is read is known to be wrong although it can be read.  Such an issue is only noted.  It
counts from the next token on that can follow; a token that cannot follow has precedence.

Words that are reserved are no names.  Others have a meaning in some places and are names in all
others; the words of joins and `INDEXED` are names in fewer places:

| names | words of joins | `INDEXED` | texts |
| --- | --- | --- | --- |
| `isName`, of tables and columns | yes | yes | yes |
| `isBareName`, in expressions | yes | yes | no |
| `isTitle`, without `AS` before it, and of types | no | no | yes |
-/

import LinkedRows.Engine.Issue
import LinkedRows.Engine.Token

namespace LinkedRows
namespace Engine

/-- What is still to be read, the greatest number of a parameter so far, the numbers of the named
parameters, and an issue of what has been read. -/
structure Input where
  tokens : List Token
  parameters : Nat
  names : List (String × Nat)
  noted : Option Issue

namespace Input

/-- All tokens are still to be read. -/
def ofTokens (tokens : List Token) : Input := ⟨tokens, 0, [], none⟩

end Input

/-- A reader of tokens. -/
abbrev Reads (α : Type) := StateT Input (Except Issue) α

namespace Reads

/-- The words that are no names. -/
def reserved : List String :=
  ["add", "all", "alter", "and", "as", "autoincrement", "between", "case", "check", "collate",
    "commit", "constraint", "create", "default", "deferrable", "delete", "distinct", "drop", "else",
    "escape", "except", "exists", "foreign", "from", "group", "having", "in", "index", "insert",
    "intersect", "into", "is", "isnull", "join", "limit", "not", "nothing", "notnull", "null", "on",
    "or", "order", "primary", "references", "returning", "select", "set", "table", "then", "to",
    "transaction", "union", "unique", "update", "using", "values", "when", "where"]

/-- The words that tell the kind of a join. -/
def joinWords : List String :=
  ["cross", "full", "inner", "left", "natural", "outer", "right"]

/-- Can a token be the name of a table or a column? -/
def isName (t : Token) : Bool :=
  match t.form with
  | .name | .text => true
  | .word => !reserved.contains (t.word?.getD "")
  | _ => false

/-- Can a token be a name in an expression? -/
def isBareName (t : Token) : Bool := isName t && t.form != .text

/-- Can a token be a title without `AS`, or a word of a type? -/
def isTitle (t : Token) : Bool :=
  isName t && !(joinWords.contains (t.word?.getD "") || t.word? == some "indexed")

/-- The token that comes next. -/
def peek : Reads (Option Token) := return (← get).tokens.head?

/-- The token after the next one. -/
def peekSecond : Reads (Option Token) := return (← get).tokens[1]?

/-- Does a token that passes a test come next? -/
def comes (test : Token → Bool) : Reads Bool := return (← peek).any test

/-- Does a mark come next? -/
def markComes (mark : String) : Reads Bool := comes (·.isMark mark)

/-- Does a word come next, in any case? -/
def wordComes (word : String) : Reads Bool := comes (·.word? == some word)

/-- Notes an issue. -/
def note (issue : Issue) : Reads Unit := modify fun input => { input with noted := some issue }

/-- Notes an issue unless a condition holds. -/
def require (condition : Bool) (issue : Issue) : Reads Unit := do
  if !condition then note issue

/-- Takes the token that comes next. -/
def skip : Reads Unit := do
  match (← get).noted with
  | some issue => throw issue
  | none => modify fun input => { input with tokens := input.tokens.tail }

/-- The issue of a token that cannot stand where it does, or of a text that ends too early. -/
def issueAt : Option Token → Issue
  | none => .unfinished
  | some t => if t.form = .unreadable then .unreadable t.shown else .unexpected t.shown

/-- Nothing can be read here. -/
def fail {α : Type} : Reads α := do throw (issueAt (← peek))

/-- Takes the next token if it passes a test. -/
def take? (test : Token → Bool) : Reads (Option Token) := do
  match ← peek with
  | some t => if test t then skip; return some t else return none
  | none => return none

/-- Takes the next token, which has to pass a test. -/
def take (test : Token → Bool) : Reads Token := do
  match ← take? test with
  | some t => return t
  | none => fail

/-- Takes a mark if it comes next. -/
def mark? (mark : String) : Reads Bool := return (← take? (·.isMark mark)).isSome

/-- Takes a mark. -/
def mark (mark : String) : Reads Unit := do let _ ← take (·.isMark mark)

/-- Takes a word in any case if it comes next. -/
def word? (word : String) : Reads Bool := return (← take? (·.word? == some word)).isSome

/-- Takes the first of some words that comes next. -/
def anyWord? (words : List String) : Reads (Option String) := do
  return (← take? fun t => t.word?.any words.contains).bind Token.word?

/-- Takes words, one after the other. -/
def words (expected : List String) : Reads Unit :=
  expected.forM fun word => do let _ ← take (·.word? == some word)

/-- Takes a name. -/
def name : Reads String := return (← take isName).content

/-- Takes the name of a table, perhaps with that of a database and a point before it. -/
def tableName : Reads (Option Token × Token) := do
  let first ← take isName
  if ← mark? "." then return (some first, ← take isName) else return (none, first)

/-- Takes an equals sign. -/
def equals : Reads Unit := do let _ ← take fun t => t.isMark "=" || t.isMark "=="

/-- A number that no count of steps on what is left can exceed. -/
def enough : Reads Nat := return (← get).tokens.length + 1

/-- Reads one item, and further ones as long as commas follow. -/
def items {α : Type} (item : Reads α) : Nat → Reads (List α)
  | 0 => fail
  | fuel + 1 => do
    let first ← item
    if ← mark? "," then return first :: (← items item fuel) else return [first]

/-- Reads items with commas between them. -/
def commaSeparated {α : Type} (item : Reads α) : Reads (List α) := do items item (← enough)

/-- Reads what stands between parentheses. -/
def inParentheses {α : Type} (inside : Reads α) : Reads α := do
  mark "("
  let result ← inside
  mark ")"
  return result

/-- Reads names with commas between them, in parentheses. -/
def names : Reads (List String) := inParentheses (commaSeparated name)

/-- The tokens that a reader takes, beside its result. -/
def withTokens {α : Type} (reader : Reads α) : Reads (α × List Token) := do
  let before := (← get).tokens
  let result ← reader
  return (result, before.take (before.length - (← get).tokens.length))

/-- Ends a statement: a semicolon or the end of the text can follow it. -/
def finish : Reads Unit := do
  if (← peek).all (·.isMark ";") then skip else fail

end Reads
end Engine
end LinkedRows
