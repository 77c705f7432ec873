/-
# Commands

What a statement says, as data: names are as they are written, and nothing is known yet about the
tables.

| command | form |
| --- | --- |
| create | `CREATE TABLE [IF NOT EXISTS] t (column, …, key, …)` |
| drop | `DROP TABLE [IF EXISTS] t` |
| insert | `INSERT INTO t [(c, …)] VALUES (e, …), …`, or `DEFAULT VALUES`, without rows |
| update | `UPDATE t SET c = e, … [WHERE e]` |
| delete | `DELETE FROM t [WHERE e]` |
| select | `SELECT output, … [FROM t] [WHERE e] [ORDER BY e, …] [LIMIT e]` |
| values | `VALUES (e, …), …` |
| setting | `PRAGMA name [= value]` |
| start, finish, undo | `BEGIN`, `COMMIT`, `ROLLBACK` |

Other statements can be read, but they are beyond the engine.
-/

import LinkedRows.Engine.Declaration

namespace LinkedRows
namespace Engine

/-- How a statement may look for rows. -/
inductive Searching where
  | freely
  | withoutIndex
  | withIndex (name : String)
deriving DecidableEq, Repr

/-- A table that a statement is about. -/
structure Target where
  database : Option String
  table : String
  otherName : Option String
  searching : Searching
deriving DecidableEq, Repr

/-- What a query shows of each row; `span` is the text of the expression. -/
inductive Output where
  | everything (table : Option String)
  | computed (e : Phrase) (title : Option String) (span : String)

/-- An expression to order by. -/
structure Sorting where
  key : Phrase
  order : SortOrder

/-- How many rows are shown, and how many are left out before them. -/
structure Window where
  count : Phrase
  skipped : Option Phrase

/-- A query on at most one table. -/
structure Query where
  isDistinct : Bool
  outputs : List Output
  source : Option Target
  condition : Option Phrase
  groupCondition : Option Phrase
  sorting : List Sorting
  window : Option Window

/-- A statement, read. -/
inductive Command where
  | create (declaration : Option Declaration)
  | drop (ifThere : Bool) (target : Target)
  | insert (target : Target) (columns : Option (List String)) (rows : List (List Phrase))
  | update (target : Target) (assignments : List (String × Phrase)) (condition : Option Phrase)
  | delete (target : Target) (condition : Option Phrase)
  | select (query : Query)
  | values (rows : List (List Phrase))
  | setting (name : String) (value : Option String)
  | start
  | finish
  | undo
  | beyond

namespace Target

/-- The name that the columns of a table can have before them: the alias, if there is one. -/
def calledName (t : Target) (table : String) : String := t.otherName.getD table

/-- A table as it is named: by its alias, or with the name of the database before its own. -/
def shownName (t : Target) : String :=
  match t.otherName, t.database with
  | some name, _ => name
  | none, some database => s!"{database}.{t.table}"
  | none, none => t.table

end Target
end Engine
end LinkedRows
