/-
# What a database holds

A database as a reader sees it: a table, a key column and a key that is not null lead to one row or
to none, and a row has a value for every column.  `Place` is where a record stands: its table, the
name of its key column, and its key.  A path denotes a value there (`Path.value`), by left joins:
each join leads to the row whose key the link holds, and a column of a row that is not there is
null.

`Serves` says that a connector answers the selections of a database that does not change.
-/

import LinkedRows.Connector
import LinkedRows.Path

namespace LinkedRows

/-- Rows by table and key. -/
structure Database where
  row? : String → RowKey → Option (String → Value)

/-- Where a record stands. -/
structure Place where
  table : String
  keyName : String
  key : Value
deriving DecidableEq, Repr

namespace Database

variable (db : Database)

/-- The value of a column at a place: the key itself, or what the row holds, or null. -/
def value (p : Place) (column : String) : Value :=
  if column = p.keyName then p.key
  else if p.key = .null then .null
  else ((db.row? p.table ⟨p.keyName, p.key⟩).map fun row => row column).getD .null

/-- The rows that a selection results in. -/
def rows (table : String) (columns : List String) (key : RowKey) : List Row :=
  ((db.row? table key).map fun row => ⟨columns, columns.map row⟩).toList

theorem value_keyName (p : Place) : db.value p p.keyName = p.key := if_pos rfl

/-- Nothing is known at a place without a key. -/
theorem value_of_null {p : Place} (h : p.key = .null) (column : String) :
    db.value p column = .null := by
  rw [value, if_pos h, h, ite_self]

theorem value_of_row {p : Place} {row : String → Value} {column : String}
    (hcolumn : column ≠ p.keyName) (hkey : p.key ≠ .null)
    (h : db.row? p.table ⟨p.keyName, p.key⟩ = some row) : db.value p column = row column := by
  rw [value, if_neg hcolumn, if_neg hkey, h]
  rfl

theorem value_of_no_row {p : Place} {column : String} (hcolumn : column ≠ p.keyName)
    (h : db.row? p.table ⟨p.keyName, p.key⟩ = none) : db.value p column = .null := by
  rw [value, if_neg hcolumn, h]
  split <;> rfl

theorem rows_of_row {table : String} {columns : List String} {key : RowKey}
    {row : String → Value} (h : db.row? table key = some row) :
    db.rows table columns key = [⟨columns, columns.map row⟩] := by
  rw [rows, h]
  rfl

theorem rows_of_no_row {table : String} {columns : List String} {key : RowKey}
    (h : db.row? table key = none) : db.rows table columns key = [] := by
  rw [rows, h]
  rfl

end Database

/-- The value that a path denotes at a place.  A path that ends at a table denotes none. -/
def Path.value (db : Database) : Path → Place → Value
  | .column name, p => db.value p name
  | .table _ _ _, _ => .null
  | .join name key link inner, p => inner.value db ⟨name, key, link.value db p⟩

/-- The value can be written in a statement. -/
def Dialect.Writes (dialect : Dialect) (v : Value) : Prop :=
  ∃ literal, dialect.literal v = .ok literal

instance (dialect : Dialect) (v : Value) : Decidable (dialect.Writes v) :=
  match h : dialect.literal v with
  | .ok literal => .isTrue ⟨literal, h⟩
  | .error _ => .isFalse fun ⟨_, hok⟩ => nomatch h.symm.trans hok

/-- A value that can be written is no not-a-number, so it agrees with itself. -/
theorem Dialect.Writes.agrees {dialect : Dialect} {v : Value} (h : dialect.Writes v) :
    v.agrees v = true := by
  cases v with
  | double x =>
    obtain ⟨literal, hliteral⟩ := h
    have hfinite : x.isFinite = true := by
      cases hfinite : x.isFinite with
      | true => rfl
      | false =>
        rw [Dialect.literal, hfinite] at hliteral
        cases hliteral
    have hnan : x.isNaN = false := by
      rw [Binary64.isFinite, bne_iff_ne] at hfinite
      rw [Binary64.isNaN, beq_eq_false_iff_ne.2 hfinite, Bool.false_and]
    rw [Value.agrees, Binary64.numericEq, hnan, beq_self_eq_true]
    rfl
  | _ => exact beq_self_eq_true _

/-- From a store of some kind on, a connector answers every selection of columns by a key that is
not null with the rows of the database, and all values of the database can be written. -/
structure Serves {σ : Type} (c : Connector σ) (db : Database) (still : σ → Prop) : Prop where
  answers {s table columns key p} : still s → columns ≠ [] → key.value ≠ .null →
    (Statement.select table columns key).prepare c.dialect = .ok p →
      (c.query p s).1 = .ok (db.rows table columns key) ∧ still (c.query p s).2
  writes {table key row} (column : String) : db.row? table key = some row →
    c.dialect.Writes (row column)

/-- A selection by a key that can be written has a text. -/
theorem Dialect.Writes.prepare_select {dialect : Dialect} {key : RowKey}
    (h : dialect.Writes key.value) (table : String) (columns : List String) :
    ∃ p, (Statement.select table columns key).prepare dialect = .ok p := by
  obtain ⟨literal, hliteral⟩ := h
  rw [Statement.prepare, Statement.text, Statement.equation, hliteral]
  exact ⟨_, rfl⟩

/-- What a database holds at a place can be written, if the key there can. -/
theorem Serves.writes_value {σ : Type} {c : Connector σ} {db : Database} {still : σ → Prop}
    (h : Serves c db still) {p : Place} (hkey : c.dialect.Writes p.key) (column : String) :
    c.dialect.Writes (db.value p column) := by
  have hnull : c.dialect.Writes .null := ⟨"NULL", by cases c.dialect <;> rfl⟩
  by_cases hcolumn : column = p.keyName
  · rw [hcolumn, db.value_keyName]
    exact hkey
  by_cases hp : p.key = .null
  · rwa [db.value_of_null hp]
  cases hrow : db.row? p.table ⟨p.keyName, p.key⟩ with
  | none => rwa [db.value_of_no_row hcolumn hrow]
  | some row =>
    rw [db.value_of_row hcolumn hp hrow]
    exact h.writes column hrow

end LinkedRows
