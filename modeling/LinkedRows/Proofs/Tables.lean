/-
# Tables that statements change

What a database holds, as the statements of one connector find and change it: a table and a key lead
to one row or to none, and a row holds a value for every column (`Tables`).  Rows have an identity
of their own, so two ways to one row are seen to lead to the same.

A connector is faithful to the tables if selections show a row as it is, an insertion adds a row
under a key of its own, which it reports, and an update changes the row it names and no other one
(`Faithful`).  That is as much of SQL as reading and writing along a path rely on.

From a row, the joins of a chain lead over further rows: as far as there are rows (`Meets`), or to
the end of the chain and a value there (`Leads`).  A change that touches none of these rows leaves
them on the way (`Leads.keeps`).
-/

import LinkedRows.Proofs.Chains
import LinkedRows.Proofs.Database
import LinkedRows.Proofs.Lexis.Literal

namespace LinkedRows

/-- Rows by table and key, and what they hold. -/
structure Tables (ρ : Type) where
  row? : String → Value → Option ρ
  content : ρ → String → Value

namespace Tables

variable {ρ : Type} {s t u : Tables ρ} {x y : ρ} {rows touched later : List ρ} {joins : List Label}
  {leaf : String} {v : Value}

/-- The row can be found. -/
def Has (t : Tables ρ) (x : ρ) : Prop := ∃ table key, t.row? table key = some x

theorem has_of_row {table : String} {key : Value} (h : t.row? table key = some x) : t.Has x :=
  ⟨table, key, h⟩

/-! ## Changes -/

/-- Rows stay where they are, and all but some hold what they held. -/
structure Keeps (touched : List ρ) (s t : Tables ρ) : Prop where
  row {table key r} : s.row? table key = some r → t.row? table key = some r
  content {r} : s.Has r → r ∉ touched → t.content r = s.content r

namespace Keeps

theorem refl (touched : List ρ) (t : Tables ρ) : Keeps touched t t := ⟨id, fun _ _ => rfl⟩

theorem has (h : Keeps touched s t) (hx : s.Has x) : t.Has x := by
  obtain ⟨table, key, hx⟩ := hx
  exact ⟨table, key, h.row hx⟩

theorem trans (h : Keeps touched s t) (h' : Keeps later t u) : Keeps (touched ++ later) s u where
  row hx := h'.row (h.row hx)
  content hx hmem := by
    rw [List.mem_append, not_or] at hmem
    rw [h'.content (h.has hx) hmem.2, h.content hx hmem.1]

theorem mono (h : Keeps touched s t) (hsub : ∀ x ∈ touched, x ∈ later) : Keeps later s t :=
  ⟨h.row, fun hx hmem => h.content hx fun htouched => hmem (hsub _ htouched)⟩

end Keeps

/-! ## Rows along a chain -/

/-- The rows that the joins of a chain lead over, up to the end of the chain or to the first link
that is null. -/
inductive Meets (t : Tables ρ) : ρ → List Label → List ρ → Prop
  | last {x : ρ} : Meets t x [] [x]
  | stops {x : ρ} {label : Label} {rest : List Label} : t.content x label.link = .null →
      Meets t x (label :: rest) [x]
  | goes {x y : ρ} {label : Label} {rest : List Label} {rows : List ρ} :
      t.content x label.link ≠ .null → t.row? label.table (t.content x label.link) = some y →
      Meets t y rest rows → Meets t x (label :: rest) (x :: rows)

/-- The rows that the joins of a chain lead over from a row, or from none. -/
def MeetsFrom (t : Tables ρ) (joins : List Label) : Option ρ → List ρ → Prop
  | none, rows => rows = []
  | some x, rows => t.Meets x joins rows

/-- The joins of a chain lead over rows, one for each, and the last row holds a value. -/
inductive Leads (t : Tables ρ) (leaf : String) (v : Value) : ρ → List Label → List ρ → Prop
  | last {x : ρ} : t.content x leaf = v → Leads t leaf v x [] [x]
  | goes {x y : ρ} {label : Label} {rest : List Label} {rows : List ρ} :
      t.row? label.table (t.content x label.link) = some y → Leads t leaf v y rest rows →
      Leads t leaf v x (label :: rest) (x :: rows)

theorem Leads.head_mem (h : t.Leads leaf v x joins rows) : x ∈ rows := by
  cases h <;> exact List.mem_cons_self ..

/-- Rows that a change does not touch stay on the way. -/
theorem Leads.keeps (h : s.Leads leaf v x joins rows) (hx : s.Has x) (hk : Keeps touched s t)
    (hrows : ∀ y ∈ rows, y ∉ touched) : t.Leads leaf v x joins rows := by
  induction h with
  | last hvalue =>
    refine .last ?_
    rw [hk.content hx (hrows _ (List.mem_singleton_self _)), hvalue]
  | goes hnext _ ih =>
    refine .goes ?_ (ih (has_of_row hnext) fun y hy => hrows y (List.mem_cons_of_mem _ hy))
    rw [hk.content hx (hrows _ (List.mem_cons_self ..))]
    exact hk.row hnext

/-- Every join of a chain enters a table by its key column, and neither the links nor the leaf are
key columns. -/
def Addressed (keyName : String → String) (leaf : String) : String → List Label → Prop
  | table, [] => leaf ≠ keyName table
  | table, label :: rest => label.link ≠ keyName table ∧ label.key = keyName label.table ∧
      Addressed keyName leaf label.table rest

end Tables

/-! ## Connectors -/

open Tables

variable {σ ρ : Type}

/-- A connector shows and changes the rows of tables, each of which has one key column.  A value is
stored as the one that its literal is read as. -/
structure Faithful (c : Connector σ) (keyName : String → String) (tables : σ → Tables ρ) :
    Prop where
  /-- A row has a key, which can be written. -/
  named {s table key x} : (tables s).row? table key = some x → key ≠ .null ∧ c.dialect.Writes key
  /-- The literal of a key names the row of the key. -/
  literal (s table key) :
    (tables s).row? table (c.dialect.known key) = (tables s).row? table key
  select {s table columns key x p} : columns ≠ [] → (tables s).row? table key = some x →
    (Statement.select table columns ⟨keyName table, key⟩).prepare c.dialect = .ok p →
      (c.query p s).1 = .ok [⟨columns, columns.map ((tables s).content x)⟩] ∧
        tables (c.query p s).2 = tables s
  /-- A new row is stored under a key that leads to no other one, which is reported next. -/
  insert {s table fields p} : fields ≠ [] → (fields.map Prod.fst).Nodup →
    keyName table ∉ fields.map Prod.fst →
    (Statement.insert table fields).prepare c.dialect = .ok p →
      ∃ count key x t, (c.execute p s).1 = .ok count ∧
        (c.lastIdentifier (c.execute p s).2).1 = .ok key ∧
        tables (c.lastIdentifier (c.execute p s).2).2 = t ∧ Keeps [] (tables s) t ∧
        ¬(tables s).Has x ∧ t.row? table key = some x ∧
        ∀ field ∈ fields, t.content x field.1 = c.dialect.known field.2
  update {s table fields key x p} : fields ≠ [] → (fields.map Prod.fst).Nodup →
    keyName table ∉ fields.map Prod.fst → (tables s).row? table key = some x →
    (Statement.update table fields ⟨keyName table, key⟩).prepare c.dialect = .ok p →
      ∃ count, (c.execute p s).1 = .ok count ∧
        Keeps [x] (tables s) (tables (c.execute p s).2) ∧
        ∀ field ∈ fields,
          (tables (c.execute p s).2).content x field.1 = c.dialect.known field.2

/-- The key of a row is not null. -/
theorem Faithful.isNull {c : Connector σ} {keyName : String → String} {tables : σ → Tables ρ}
    (hc : Faithful c keyName tables) {s : σ} {table : String} {key : Value} {x : ρ}
    (h : (tables s).row? table key = some x) : key.isNull = false := by
  have hne := (hc.named h).1
  cases hkind : key <;> first | rfl | exact absurd hkind hne

end LinkedRows
