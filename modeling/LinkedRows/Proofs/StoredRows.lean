/-
# A database in memory

A list of rows, each with its table and its values, is a database: it reads statements from their
texts, and the key of a row is its position in the list, which the database gives out itself
(`Connector.stored`).  It is faithful to the tables that the list stands for (`faithful_stored`).

It also answers selections as a database that is changed by the executed statements alone, in which
the order of columns makes no difference (`stores_stored`, `maintains_stored`).
-/

import LinkedRows.Proofs.Alike
import LinkedRows.Proofs.MaintainedTables
import LinkedRows.Proofs.StatementReading

namespace LinkedRows

/-- A row with its table. -/
structure StoredRow where
  table : String
  content : String → Value

/-- Rows in the order of their insertion. -/
abbrev StoredRows : Type := List StoredRow

variable {rows : StoredRows} {row : StoredRow} {fields : List (String × Value)}
  {table column : String} {key v : Value} {i j : Nat} {dialect : Dialect}
  {keyName : String → String}

namespace StoredRows

/-- The key of the row at a position. -/
def keyAt (i : Nat) : Value := .text i.repr

/-- The position that a key tells, if a row of the table is there. -/
def position? (rows : StoredRows) (table : String) : Value → Option Nat
  | .text t =>
    let i := Decimal.natOfDigits 0 t.toList
    if t = i.repr ∧ rows[i]?.map StoredRow.table = some table then some i else none
  | _ => none

/-- A value as it is shown.  One that has no literal cannot have been stored by a statement. -/
def shown (v : Value) : Value := if Dialect.hasLiteral v then v else .null

/-- The value of a column in the row at a position. -/
def value (rows : StoredRows) (i : Nat) (column : String) : Value :=
  (rows[i]?.map fun row => shown (row.content column)).getD .null

/-- A row that holds its key and what is given. -/
def newRow (keyName : String → String) (rows : StoredRows) (table : String)
    (fields : List (String × Value)) : StoredRow where
  table := table
  content column :=
    if column = keyName table then keyAt rows.length else (fields.lookup column).getD .null

/-- The row with the values given in place of its own. -/
def changedRow (fields : List (String × Value)) (row : StoredRow) : StoredRow :=
  { row with content := fun column => (fields.lookup column).getD (row.content column) }

/-- The rows as tables. -/
def tables (rows : StoredRows) : Tables Nat where
  row? := rows.position?
  content := rows.value

/-- The rows as a database, in which every column of a row leads to it by its key. -/
def database (rows : StoredRows) : Database where
  row? table key := (rows.position? table key.value).map rows.value

end StoredRows

open StoredRows

/-- Answers and changes rows by the texts of statements. -/
def Connector.stored (dialect : Dialect) (keyName : String → String) : Connector StoredRows where
  dialect := dialect
  query p rows :=
    match p.statement? dialect with
    | some (.select table columns key) =>
      (.ok ((rows.position? table key.value).map fun i =>
        ⟨columns, columns.map (rows.value i)⟩).toList, rows)
    | _ => (.ok [], rows)
  execute p rows :=
    match p.statement? dialect with
    | some (.insert table fields) => (.ok 1, rows ++ [newRow keyName rows table fields])
    | some (.update table fields key) =>
      match rows.position? table key.value with
      | some i => (.ok 1, rows.modify i (changedRow fields))
      | none => (.ok 0, rows)
    | _ => (.ok 0, rows)
  lastIdentifier rows := (.ok (keyAt (rows.length - 1)), rows)
  describe _ rows := (.ok [], rows)

namespace StoredRows

/-! ## Rows and positions -/

theorem natOfDigits_repr (i : Nat) : Decimal.natOfDigits 0 i.repr.toList = i := by
  rw [Nat.toList_repr, Decimal.natOfDigits_toDigits]

theorem position?_eq_some_iff : rows.position? table key = some i ↔
    key = keyAt i ∧ ∃ row, rows[i]? = some row ∧ row.table = table := by
  constructor
  · intro h
    cases key with
    | text t =>
      rw [position?] at h
      split at h
      · rename_i hfound
        cases h
        exact ⟨congrArg _ hfound.1, Option.map_eq_some_iff.1 hfound.2⟩
      · cases h
    | _ => cases h
  · rintro ⟨rfl, hrow⟩
    rw [keyAt, position?, natOfDigits_repr, if_pos ⟨rfl, Option.map_eq_some_iff.2 hrow⟩]

theorem lt_length_of_position? (h : rows.position? table key = some i) : i < rows.length := by
  obtain ⟨-, row, hrow, -⟩ := position?_eq_some_iff.1 h
  exact (List.getElem?_eq_some_iff.1 hrow).1

/-- A key as its literal is read tells the same position. -/
theorem position?_known (dialect : Dialect) (rows : StoredRows) (table : String) (key : Value) :
    rows.position? table (dialect.known key) = rows.position? table key := by
  cases key with
  | bool b => cases dialect <;> rfl
  | _ => rfl

theorem value_of_getElem? (h : rows[i]? = some row) :
    rows.value i column = shown (row.content column) := by
  rw [value, h]
  rfl

theorem getElem?_append_row (hrow : rows[i]? = some row) (later : StoredRow) :
    (rows ++ [later])[i]? = some row := by
  rw [List.getElem?_append_left (List.getElem?_eq_some_iff.1 hrow).1, hrow]

/-- A row that is added changes no other one, and was not there before. -/
theorem adds_append (rows : StoredRows) (row : StoredRow) :
    Tables.Adds rows.length rows.tables (StoredRows.tables (rows ++ [row])) where
  row {table key i} h := by
    obtain ⟨rfl, found, hfound, htable⟩ := position?_eq_some_iff.1 h
    exact position?_eq_some_iff.2 ⟨rfl, found, getElem?_append_row hfound row, htable⟩
  content {i} h _ := by
    obtain ⟨table, key, hi⟩ := h
    obtain ⟨-, found, hfound, -⟩ := position?_eq_some_iff.1 hi
    funext column
    show value _ i column = value _ i column
    rw [value_of_getElem? hfound, value_of_getElem? (getElem?_append_row hfound row)]
  fresh := by
    rintro ⟨table, key, h⟩
    exact absurd (lt_length_of_position? h) (Nat.lt_irrefl _)

/-- A row that is changed stays where it is. -/
theorem position?_modify (rows : StoredRows) (i : Nat) (fields : List (String × Value))
    (table : String) (key : Value) :
    position? (rows.modify i (changedRow fields)) table key = rows.position? table key := by
  have htable (j : Nat) :
      (rows.modify i (changedRow fields))[j]?.map StoredRow.table =
        rows[j]?.map StoredRow.table := by
    rw [List.getElem?_modify]
    cases rows[j]? with
    | none => rfl
    | some row =>
      show some (if i = j then changedRow fields row else row).table = some row.table
      split <;> rfl
  cases key with
  | text t => simp only [position?, htable]
  | _ => rfl

/-- Only the columns that are given change, of that row alone. -/
theorem sets_modify (rows : StoredRows) (i : Nat) (fields : List (String × Value)) :
    Tables.Sets i (fields.map Prod.fst) rows.tables
      (StoredRows.tables (rows.modify i (changedRow fields))) where
  row h := (position?_modify rows i fields _ _).trans h
  content {j} _ hj := by
    have hne : i ≠ j := fun h => hj (List.mem_singleton.2 h.symm)
    funext column
    show value _ j column = value _ j column
    rw [value, List.getElem?_modify_ne _ _ hne]
    rfl
  missing h := (position?_modify rows i fields _ _).trans h
  column {name} hname := by
    have hlookup : fields.lookup name = none := by
      rw [List.lookup_eq_none_iff]
      intro field hfield
      exact bne_iff_ne.2 fun h => hname (List.mem_map.2 ⟨field, hfield, h.symm⟩)
    show value _ i name = value _ i name
    rw [value, value, List.getElem?_modify_eq]
    cases rows[i]? with
    | none => rfl
    | some row =>
      show shown ((fields.lookup name).getD (row.content name)) = shown (row.content name)
      rw [hlookup]
      rfl

/-! ## Fields -/

/-- A value that is given is found by its column. -/
theorem lookup_eq_some_iff (hnodup : (fields.map Prod.fst).Nodup) :
    fields.lookup column = some v ↔ (column, v) ∈ fields := by
  induction fields with
  | nil => simp
  | cons field rest ih =>
    rw [List.map_cons, List.nodup_cons] at hnodup
    by_cases hcolumn : column = field.1
    · subst hcolumn
      have hrest (w : Value) : (field.1, w) ∉ rest := fun h =>
        hnodup.1 (List.mem_map.2 ⟨_, h, rfl⟩)
      rw [List.lookup_cons_self, Option.some.injEq, List.mem_cons, or_iff_left (hrest v)]
      exact ⟨fun h => h ▸ rfl, fun h => (congrArg Prod.snd h).symm⟩
    · rw [List.lookup_cons, beq_eq_false_iff_ne.2 hcolumn, List.mem_cons,
        or_iff_right fun h => hcolumn (congrArg Prod.fst h)]
      exact ih hnodup.2

/-- The fields as their literals are read. -/
def knownFields (dialect : Dialect) (fields : List (String × Value)) : List (String × Value) :=
  fields.map fun field => (field.1, dialect.known field.2)

theorem names_knownFields (dialect : Dialect) (fields : List (String × Value)) :
    (knownFields dialect fields).map Prod.fst = fields.map Prod.fst := by
  rw [knownFields, List.map_map]
  rfl

/-- What is written of a field is its value as the literal is read. -/
theorem lookup_known {field : String × Value} (hnodup : (fields.map Prod.fst).Nodup)
    (hmem : field ∈ fields) :
    (knownFields dialect fields).lookup field.1 = some (dialect.known field.2) := by
  refine (lookup_eq_some_iff ?_).2 (List.mem_map.2 ⟨field, hmem, rfl⟩)
  rwa [names_knownFields]

/-- The order of fields makes no difference. -/
theorem lookup_perm {fields' : List (String × Value)} (hnodup : (fields.map Prod.fst).Nodup)
    (hperm : fields.Perm fields') (column : String) :
    (knownFields dialect fields').lookup column = (knownFields dialect fields).lookup column := by
  have hnodup' := ((hperm.map Prod.fst).nodup_iff).1 hnodup
  have hknown : (knownFields dialect fields).Perm (knownFields dialect fields') := hperm.map _
  ext v
  rw [lookup_eq_some_iff (by rwa [names_knownFields]), lookup_eq_some_iff
    (by rwa [names_knownFields]), hknown.mem_iff]

/-! ## Values -/

theorem hasLiteral_known (dialect : Dialect) (v : Value) :
    Dialect.hasLiteral (dialect.known v) = Dialect.hasLiteral v := by
  cases v with
  | bool b => cases dialect <;> rfl
  | _ => rfl

theorem shown_known (h : Dialect.hasLiteral v = true) :
    shown (dialect.known v) = dialect.known v := by
  rw [shown, hasLiteral_known, if_pos h]

/-- What is shown can be written. -/
theorem writes_shown (dialect : Dialect) (v : Value) : dialect.Writes (shown v) := by
  rw [shown]
  split
  · rename_i h
    obtain ⟨text, htext, -⟩ := reads_literal dialect h
    exact ⟨text, htext⟩
  · obtain ⟨text, htext, -⟩ := reads_literal dialect (v := .null) rfl
    exact ⟨text, htext⟩

theorem writes_value (dialect : Dialect) (rows : StoredRows) (i : Nat) (column : String) :
    dialect.Writes (rows.value i column) := by
  rw [value]
  cases rows[i]? with
  | none => exact writes_shown dialect .null
  | some row => exact writes_shown dialect _

/-! ## Statements -/

theorem query_select (dialect : Dialect) (keyName : String → String) {columns : List String}
    {key : RowKey} {p : Prepared}
    (hp : (Statement.select table columns key).prepare dialect = .ok p) (rows : StoredRows) :
    (Connector.stored dialect keyName).query p rows =
      (.ok ((rows.position? table key.value).map fun i =>
        ⟨columns, columns.map (rows.value i)⟩).toList, rows) := by
  simp only [Connector.stored, Prepared.statement?_prepare hp, Statement.known, position?_known]

theorem execute_insert (dialect : Dialect) (keyName : String → String) {p : Prepared}
    (hp : (Statement.insert table fields).prepare dialect = .ok p) (rows : StoredRows) :
    (Connector.stored dialect keyName).execute p rows =
      (.ok 1, rows ++ [newRow keyName rows table (knownFields dialect fields)]) := by
  simp only [Connector.stored, Prepared.statement?_prepare hp, Statement.known, knownFields]

theorem execute_update (dialect : Dialect) (keyName : String → String) {key : RowKey}
    {p : Prepared} (hp : (Statement.update table fields key).prepare dialect = .ok p)
    (rows : StoredRows) : (Connector.stored dialect keyName).execute p rows =
      match rows.position? table key.value with
      | some i => (.ok 1, rows.modify i (changedRow (knownFields dialect fields)))
      | none => (.ok 0, rows) := by
  simp only [Connector.stored, Prepared.statement?_prepare hp, Statement.known, position?_known,
    knownFields]

/-- A row that was inserted is found by its key, and holds what was written. -/
theorem inserted_spec (hnodup : (fields.map Prod.fst).Nodup)
    (hkey : keyName table ∉ fields.map Prod.fst) {p : Prepared}
    (hp : (Statement.insert table fields).prepare dialect = .ok p) (rows : StoredRows) :
    let after := rows ++ [newRow keyName rows table (knownFields dialect fields)]
    after.position? table (keyAt (after.length - 1)) = some rows.length ∧
      ∀ field ∈ fields, after.value rows.length field.1 = dialect.known field.2 := by
  intro after
  have hlast :
      after[rows.length]? = some (newRow keyName rows table (knownFields dialect fields)) :=
    List.getElem?_concat_length
  constructor
  · rw [List.length_append, List.length_singleton, Nat.add_sub_cancel]
    exact position?_eq_some_iff.2 ⟨rfl, _, hlast, rfl⟩
  · intro field hfield
    have hne : field.1 ≠ keyName table := fun h => hkey (h ▸ List.mem_map_of_mem hfield)
    have hliteral := Statement.hasLiteral_of_prepare hp field.2 (List.mem_map_of_mem hfield)
    rw [value_of_getElem? hlast]
    show shown (if field.1 = keyName table then _ else _) = _
    rw [if_neg hne, lookup_known hnodup hfield]
    exact shown_known hliteral

/-- A row that was updated holds what was written. -/
theorem updated_spec (hnodup : (fields.map Prod.fst).Nodup) {rowKey : RowKey} {p : Prepared}
    (hp : (Statement.update table fields rowKey).prepare dialect = .ok p)
    (hx : rows.position? table key = some i) : ∀ field ∈ fields,
      value (rows.modify i (changedRow (knownFields dialect fields))) i field.1 =
        dialect.known field.2 := by
  intro field hfield
  obtain ⟨-, row, hrow, -⟩ := position?_eq_some_iff.1 hx
  have hliteral := Statement.hasLiteral_of_prepare hp field.2
    (List.mem_append_left _ (List.mem_map_of_mem hfield))
  have hchanged := List.getElem?_modify_eq (changedRow (knownFields dialect fields)) i rows
  rw [hrow] at hchanged
  rw [value_of_getElem? hchanged]
  show shown ((List.lookup _ _).getD _) = _
  rw [lookup_known hnodup hfield]
  exact shown_known hliteral

/-- **Rows in memory are shown and changed faithfully.** -/
theorem faithful_stored (dialect : Dialect) (keyName : String → String) :
    Faithful (Connector.stored dialect keyName) keyName tables where
  named h := by
    obtain ⟨rfl, -⟩ := position?_eq_some_iff.1 h
    exact ⟨nofun, _, rfl⟩
  literal := position?_known dialect
  select {rows table columns key i p} _ hx hp := by
    have hx : rows.position? table key = some i := hx
    rw [query_select dialect keyName hp, hx]
    exact ⟨rfl, rfl⟩
  insert {rows table fields p} _ hnodup hkey hp := by
    obtain ⟨hrow, hwritten⟩ := inserted_spec hnodup hkey hp rows
    have hadds := adds_append rows (newRow keyName rows table (knownFields dialect fields))
    rw [execute_insert dialect keyName hp]
    exact ⟨1, _, rows.length, _, rfl, rfl, rfl, hadds.toKeeps, hadds.fresh, hrow, hwritten⟩
  update {rows table fields key i p} _ hnodup _ hx hp := by
    have hx : rows.position? table key = some i := hx
    have hsets := sets_modify rows i (knownFields dialect fields)
    rw [execute_update dialect keyName hp, hx]
    exact ⟨1, rfl, hsets.toKeeps, updated_spec hnodup hp hx⟩

/-- Alike statements change the rows in the same way. -/
theorem execute_alike (keyName : String → String) {p p' : Prepared}
    (h : Prepared.Alike dialect p p') (rows : StoredRows) :
    (Connector.stored dialect keyName).execute p' rows =
      (Connector.stored dialect keyName).execute p rows := by
  obtain ⟨s, s', halike, hp, hp'⟩ := h
  cases halike with
  | insert hnodup hperm =>
    rw [execute_insert dialect keyName hp, execute_insert dialect keyName hp']
    simp only [newRow, lookup_perm hnodup hperm]
  | @update _ fields fields' _ hnodup hperm =>
    have hchanged : changedRow (knownFields dialect fields') =
        changedRow (knownFields dialect fields) := by
      funext row
      simp only [changedRow, lookup_perm hnodup hperm]
    rw [execute_update dialect keyName hp, execute_update dialect keyName hp', hchanged]

/-- **Rows in memory are stored.** -/
theorem stores_stored (dialect : Dialect) (keyName : String → String) :
    Stores (Connector.stored dialect keyName) database where
  serves rows :=
    { answers := fun {store table columns key p} hstill _ _ hp => by
        obtain rfl : store = rows := hstill
        rw [query_select dialect keyName hp]
        refine ⟨?_, rfl⟩
        rw [Database.rows, database, Option.map_map]
        rfl
      writes := fun {table key row} column hrow => by
        obtain ⟨i, -, rfl⟩ := Option.map_eq_some_iff.1 hrow
        exact writes_value dialect rows i column }
  alike rows h := execute_alike keyName h rows

/-- **Rows in memory are maintained by statements.** -/
theorem maintains_stored (dialect : Dialect) (keyName : String → String) :
    Maintains (Connector.stored dialect keyName) database keyName tables where
  shows _ _ _ := rfl
  reports _ := rfl
  fails {rows p e} h := by
    simp only [Connector.stored] at h
    split at h
    · cases h
    · split at h <;> cases h
    · cases h
  insert {rows table fields p count} _ hnodup hkey hp _ := by
    obtain ⟨hrow, hwritten⟩ := inserted_spec hnodup hkey hp rows
    have hadds := adds_append rows (newRow keyName rows table (knownFields dialect fields))
    rw [execute_insert dialect keyName hp]
    refine ⟨rows.length, hadds, hwritten, ?_⟩
    rintro key ⟨⟩ -
    exact ⟨hrow, ⟨_, rfl⟩, rfl⟩
  update {rows table fields key i p count} _ hnodup _ hx hp _ := by
    have hx : rows.position? table key = some i := hx
    have hsets := sets_modify rows i (knownFields dialect fields)
    rw [names_knownFields] at hsets
    rw [execute_update dialect keyName hp, hx]
    exact ⟨hsets, updated_spec hnodup hp hx⟩

end StoredRows

end LinkedRows
