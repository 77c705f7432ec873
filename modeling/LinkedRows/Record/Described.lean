/-
# Described records

A record whose columns come from the schema of its table: all of them are registered at the start
with their declared defaults, the key column is the schema's if it has exactly one, and paths are
registered on access.
-/

import LinkedRows.Catalog
import LinkedRows.Record

namespace LinkedRows

/-- A record with the schema that described it. -/
structure DescribedRecord where
  record : Record
  schema : Schema
deriving DecidableEq, Repr

namespace DescribedRecord

/-- Registers the columns of a record, and loads their declared defaults. -/
def loadDefaults (root : NodeId) (columns : List ColumnShape) (f : Forest) : Forest :=
  columns.foldl (fun f column =>
    let (c, f) := f.ensureCell root column.name
    f.modifyCell c (·.load column.declared)) f

/-- The record of a described table, in a forest of its own. -/
def ofSchema (schema : Schema) (key : Option Value) (options : Options) :
    DescribedRecord × Forest :=
  let keyName := (schema.key?.map (·.name)).getD options.naming.key
  let (record, f) :=
    Record.create schema.table (some keyName) key (options.withRegisterOnAccess true)
  let others := schema.columns.filter fun column => column.name != keyName
  (⟨record, schema⟩, loadDefaults record.root others f)

/-- The record of a table whose schema the catalog has or asks for. -/
def load {σ : Type} (c : Connector σ) (table : String) (key : Option Value) (options : Options) :
    Action σ Catalog (DescribedRecord × Forest) := do
  return ofSchema (← Catalog.load c table) key options

end DescribedRecord
end LinkedRows
