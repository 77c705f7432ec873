/-
# Scripted databases

A database that answers from a script.  A query gets the rows that the script holds for exactly
its text, a table the columns that the script holds for it.  Each statement that begins with
`INSERT` takes the next identifier from a queue, or the next number once the queue is empty.

The script can refuse calls: the first refusal whose needle occurs in the text of the call makes
it fail, and nothing else happens.  The text of a call is its statement, `@last_insert_id`, or
`@describe` and a table.
-/

import LinkedRows.Connector

namespace LinkedRows

/-- How a refused call fails; without a kind the database cannot be reached. -/
structure Refusal where
  needle : String
  kind : Option QueryFaultKind
  message : String
deriving DecidableEq, Repr

/-- What a scripted database answers, and what it has counted so far. -/
structure Script where
  answers : List (String × List Row)
  tables : List (String × List ColumnShape)
  identifiers : List Value
  refusals : List Refusal
  counted : Int64
  lastIdentifier : Value
deriving DecidableEq, Repr

/-- Does one list of characters occur in another one, without a gap? -/
def occursIn (needle : List Char) : List Char → Bool
  | [] => needle.isEmpty
  | c :: cs => needle.isPrefixOf (c :: cs) || occursIn needle cs

namespace Exchange

/-- The text of a call. -/
def callText : Exchange → String
  | .query p _ => p.text
  | .execute p _ => p.text
  | .lastIdentifier _ => "@last_insert_id"
  | .describe table _ => s!"@describe {table}"

end Exchange

namespace Script

/-- Nothing to answer, no refusal, and no insertion so far. -/
def empty : Script := ⟨[], [], [], [], 0, .int 0⟩

/-- Sets the answer to a query. -/
def answer (s : Script) (text : String) (rows : List Row) : Script :=
  { s with answers := (text, rows) :: s.answers }

/-- Sets the columns of a table. -/
def describe (s : Script) (table : String) (columns : List ColumnShape) : Script :=
  { s with tables := (table, columns) :: s.tables }

/-- Appends identifiers to the queue. -/
def enqueue (s : Script) (identifiers : List Value) : Script :=
  { s with identifiers := s.identifiers ++ identifiers }

/-- The fault of a call with a text, if the script refuses it; `statement` is what the fault
shows. -/
def refused? (s : Script) (text : String) (statement : Option String) : Option Fault :=
  (s.refusals.find? fun r => occursIn r.needle.toList text.toList).map fun r =>
    match r.kind with
    | none => .connection ⟨r.message, none⟩
    | some kind => .query ⟨kind, statement, r.message, none⟩

/-- Answers a call unless it is refused. -/
def unlessRefused {α : Type} (text : String) (statement : Option String)
    (reply : Script → α × Script) (s : Script) : Except Fault α × Script :=
  match s.refused? text statement with
  | some f => (.error f, s)
  | none =>
    let (a, s) := reply s
    (.ok a, s)

/-- Takes the next identifier. -/
def insertOne (s : Script) : Script :=
  match s.identifiers with
  | v :: rest => { s with identifiers := rest, lastIdentifier := v }
  | [] => { s with counted := s.counted + 1, lastIdentifier := .int (s.counted + 1) }

/-- The value under a key, or nothing. -/
def valuesFor {α : Type} (key : String) (entries : List (String × List α)) : List α :=
  ((entries.find? fun e => e.1 == key).map Prod.snd).getD []

/-- Scripted databases as connectors; each executed statement touches one row. -/
def connector (dialect : Dialect) : Connector Script where
  dialect := dialect
  query p := unlessRefused p.text (some p.text) fun s => (valuesFor p.text s.answers, s)
  execute p := unlessRefused p.text (some p.text) fun s =>
    (1, if "INSERT".toList.isPrefixOf p.text.toList then s.insertOne else s)
  lastIdentifier := unlessRefused (Exchange.callText (.lastIdentifier (.ok .null))) none fun s =>
    (s.lastIdentifier, s)
  describe table := unlessRefused (Exchange.callText (.describe table (.ok []))) none fun s =>
    (valuesFor table s.tables, s)

end Script
end LinkedRows
