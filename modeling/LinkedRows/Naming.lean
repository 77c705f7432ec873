/-
# Naming

What a path leaves out: the key column of a joined table, and the suffix that turns the name of a
table into the column that links to it.
-/

import LinkedRows.Document

namespace LinkedRows

/-- The names used where a path gives none. -/
structure Naming where
  key : String
  linkSuffix : String
deriving DecidableEq, Repr

namespace Naming

/-- Keys are called `id`, links end in `_id`. -/
def standard : Naming := ⟨"id", "_id"⟩

/-- The column that links to a table. -/
def link (naming : Naming) (table : String) : String := table ++ naming.linkSuffix

/-- Reads a naming; a field left out is the standard one. -/
def ofDocument? (doc : Document) : Option Naming := do
  match ← doc.fields? ["primary_key", "link_suffix"] with
  | [key, suffix] =>
    return ⟨← Document.field? Document.toText? standard.key key,
      ← Document.field? Document.toText? standard.linkSuffix suffix⟩
  | _ => none

end Naming
end LinkedRows
