/-
# Column paths

A path leads from a record through left joins to a column, or to a joined record.  A join names the
table it enters and the key column there, and holds a path of its own, read from the *enclosing*
record, to the column that holds the joined key.

`Path.text` writes every key and link out, as in `table1[id=table1_id].title`.
-/

namespace LinkedRows

/-- A path from a record. -/
inductive Path where
  /-- A column of the record itself. -/
  | column (name : String)
  /-- A joined record, where the path ends. -/
  | table (name key : String) (link : Path)
  /-- A joined record, and a path from there. -/
  | join (name key : String) (link inner : Path)
deriving DecidableEq, Repr, Inhabited

namespace Path

/-- The name of the column that a path ends in, if it ends in one. -/
def leaf? : Path → Option String
  | .column name => some name
  | .table _ _ _ => none
  | .join _ _ _ inner => inner.leaf?

def endsInColumn : Path → Bool
  | .column _ => true
  | .table _ _ _ => false
  | .join _ _ _ inner => inner.endsInColumn

/-- A path ends in a column exactly if it has a leaf. -/
theorem endsInColumn_eq_isSome_leaf? (p : Path) : p.endsInColumn = p.leaf?.isSome := by
  induction p with
  | column | table => rfl
  | join _ _ _ _ _ ih => exact ih

/-- The path with every key and link written out. -/
def text : Path → String
  | .column name => name
  | .table name key link => name ++ "[" ++ key ++ "=" ++ link.text ++ "]"
  | .join name key link inner => name ++ "[" ++ key ++ "=" ++ link.text ++ "]." ++ inner.text

end Path
end LinkedRows
