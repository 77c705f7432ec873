/-
# Databases that statements change

A database that is read by any column and changed by the keys of its tables: what it holds under
those keys is what its tables hold (`Maintains`).  An insertion adds a row, under a key that it
reports and that was not there (`Tables.Adds`); an update changes the columns it names of the row it
names (`Tables.Sets`); a statement that fails changes nothing.

That is less than `Faithful` asks for: any statement may fail here, and an insertion without a
report.
-/

import LinkedRows.Proofs.Forest.Knowledge
import LinkedRows.Proofs.Tables

namespace LinkedRows

namespace Tables

variable {ρ : Type} {s t : Tables ρ} {x y : ρ} {table column : String} {key : Value}
  {columns : List String}

/-- The value of a column in the row under a key, null where there is no row. -/
def value (t : Tables ρ) (table : String) (key : Value) (column : String) : Value :=
  if key = .null then .null else ((t.row? table key).map fun x => t.content x column).getD .null

/-- A row is there that was not, and all others are as they were. -/
structure Adds (x : ρ) (s t : Tables ρ) : Prop extends Keeps [] s t where
  fresh : ¬s.Has x

/-- One row holds other values in some columns, and all else is as it was. -/
structure Sets (x : ρ) (columns : List String) (s t : Tables ρ) : Prop extends Keeps [x] s t where
  missing {table : String} {key : Value} : s.row? table key = none → t.row? table key = none
  column {name} : name ∉ columns → t.content x name = s.content x name

theorem value_of_row (hkey : key ≠ .null) (h : t.row? table key = some x) (column : String) :
    t.value table key column = t.content x column := by
  rw [value, if_neg hkey, h]
  rfl

theorem value_of_no_row (h : t.row? table key = none) (column : String) :
    t.value table key column = .null := by
  rw [value, h]
  exact ite_self _

/-- A row that is found is still found after another one was added. -/
theorem Adds.row?_ne_none (h : Adds x s t) (hrow : s.row? table key ≠ none) :
    t.row? table key ≠ none := by
  obtain ⟨y, hy⟩ := Option.ne_none_iff_exists'.1 hrow
  rw [h.row hy]
  exact Option.some_ne_none y

/-- A row that is found still holds what it held after another one was added. -/
theorem Adds.value (h : Adds x s t) (hrow : s.row? table key ≠ none) (column : String) :
    t.value table key column = s.value table key column := by
  obtain ⟨y, hy⟩ := Option.ne_none_iff_exists'.1 hrow
  rw [Tables.value, Tables.value, h.row hy, hy, Option.map_some, Option.map_some,
    h.content (has_of_row hy) List.not_mem_nil]

/-- All other rows hold what they held, and the row itself in all other columns. -/
theorem Sets.value (h : Sets x columns s t)
    (hother : s.row? table key ≠ some x ∨ column ∉ columns) :
    t.value table key column = s.value table key column := by
  cases hrow : s.row? table key with
  | none => rw [value_of_no_row hrow, value_of_no_row (h.missing hrow)]
  | some y =>
    rw [Tables.value, Tables.value, h.row hrow, hrow, Option.map_some, Option.map_some]
    by_cases hyx : y = x
    · subst hyx
      rw [h.column (hother.resolve_left fun hne => hne hrow)]
    · rw [h.content (has_of_row hrow) (by simpa using hyx)]

/-- Where a row was found it still is, and where there was none there is none. -/
theorem Sets.row? (h : Sets x columns s t) (table : String) (key : Value) :
    t.row? table key = s.row? table key := by
  cases hrow : s.row? table key with
  | none => exact h.missing hrow
  | some y => exact h.row hrow

end Tables

open Tables

variable {σ ρ : Type}

/-- A connector whose statements change the rows of tables, each of which has one key column.  A
value is stored as the one that its literal is read as. -/
structure Maintains (c : Connector σ) (db : σ → Database) (keyName : String → String)
    (tables : σ → Tables ρ) : Prop where
  shows (s table key) : (db s).row? table ⟨keyName table, key⟩ =
    ((tables s).row? table key).map (tables s).content
  reports (s) : tables (c.lastIdentifier s).2 = tables s
  fails {s p e} : (c.execute p s).1 = .error e → tables (c.execute p s).2 = tables s
  /-- A new row is stored under a key that led to no row, which is reported next. -/
  insert {s table fields p count} : fields ≠ [] → (fields.map Prod.fst).Nodup →
    keyName table ∉ fields.map Prod.fst →
    (Statement.insert table fields).prepare c.dialect = .ok p → (c.execute p s).1 = .ok count →
      ∃ x, Adds x (tables s) (tables (c.execute p s).2) ∧
        (∀ field ∈ fields,
          (tables (c.execute p s).2).content x field.1 = c.dialect.known field.2) ∧
        ∀ key, (c.lastIdentifier (c.execute p s).2).1 = .ok key → key.isNull = false →
          (tables (c.execute p s).2).row? table key = some x ∧ c.dialect.Writes key ∧
            c.dialect.known key = key
  update {s table fields key x p count} : fields ≠ [] → (fields.map Prod.fst).Nodup →
    keyName table ∉ fields.map Prod.fst → (tables s).row? table key = some x →
    (Statement.update table fields ⟨keyName table, key⟩).prepare c.dialect = .ok p →
    (c.execute p s).1 = .ok count →
      Sets x (fields.map Prod.fst) (tables s) (tables (c.execute p s).2) ∧
        ∀ field ∈ fields, (tables (c.execute p s).2).content x field.1 = c.dialect.known field.2

namespace Forest

/-- The key columns of all records are those of their tables. -/
def ByKeys (keyName : String → String) (f : Forest) : Prop :=
  ∀ n, f.HasNode n → f.keyName n = keyName (f.node n).table

variable {f : Forest} {keyName : String → String}

instance : Decidable (ByKeys keyName f) :=
  inferInstanceAs (Decidable (∀ n, f.HasNode n → f.keyName n = keyName (f.node n).table))

theorem ByKeys.of_sameShape {g : Forest} (h : ByKeys keyName f) (hs : SameShape f g) :
    ByKeys keyName g := by
  intro n hn
  rw [hs.keyName, hs.table]
  exact h n ((hs.hasNode n).1 hn)

/-- What storage holds for a column is what the tables hold. -/
theorem ByKeys.truth_eq (h : ByKeys keyName f) {c : Connector σ} {db : σ → Database}
    {tables : σ → Tables ρ} (hm : Maintains c db keyName tables) (hf : WellFormed f)
    {keys : NodeId → Value} {d : CellId} (hd : f.HasCell d) (hk : (f.cell d).isKey = false)
    (s : σ) : f.truth (db s) keys d = (tables s).value (f.node (f.cell d).owner).table
      (keys (f.cell d).owner) (f.cell d).name := by
  have hname := name_ne_keyName hf (hf.mem_owner hd) hk
  have hrow := hm.shows s (f.node (f.cell d).owner).table (keys (f.cell d).owner)
  rw [← h _ (hf.hasOwner hd)] at hrow
  rw [truth, Database.value, place, if_neg hname, hrow, Tables.value, Option.map_map]
  rfl

/-- A record has a row if the tables have one under its key. -/
theorem ByKeys.rowFound_iff (h : ByKeys keyName f) {c : Connector σ} {db : σ → Database}
    {tables : σ → Tables ρ} (hm : Maintains c db keyName tables) {keys : NodeId → Value}
    {n : NodeId} (hn : f.HasNode n) (s : σ) : f.RowFound (db s) keys n ↔
      keys n ≠ .null ∧ (tables s).row? (f.node n).table (keys n) ≠ none := by
  rw [RowFound, h n hn, hm.shows, ne_eq, ne_eq, Option.map_eq_none_iff]

end Forest
end LinkedRows
