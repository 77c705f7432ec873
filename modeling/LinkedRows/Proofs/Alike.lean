/-
# Statements that write the same

Two statements are alike if they write the same values to the same row, in whatever order of their
columns (`Statement.Alike`).  Of two such statements both have a text or neither has one.

A connector that stores rows answers selections from what it stores, and its stores change by
executed statements alone, by alike ones in the same way (`Stores`).
-/

import LinkedRows.Proofs.Database
import Mathlib.Data.List.Perm.Basic

namespace LinkedRows

/-- Of a list, all results are there exactly if no element is a fault. -/
theorem exists_mapM_ok_iff {α β : Type} (f : α → Except Fault β) (xs : List α) :
    (∃ ys, xs.mapM f = .ok ys) ↔ ∀ x ∈ xs, ∃ y, f x = .ok y := by
  induction xs with
  | nil => exact ⟨fun _ _ h => absurd h List.not_mem_nil, fun _ => ⟨[], rfl⟩⟩
  | cons x xs ih =>
    rw [List.forall_mem_cons, ← ih, List.mapM_cons]
    cases hx : f x with
    | error e =>
      constructor
      · rintro ⟨ys, h⟩
        cases h
      · rintro ⟨⟨y, h⟩, -⟩
        cases h
    | ok y =>
      cases hxs : xs.mapM f with
      | error e =>
        constructor
        · rintro ⟨ys, h⟩
          cases h
        · rintro ⟨-, ys, h⟩
          cases h
      | ok ys => exact ⟨fun _ => ⟨⟨y, rfl⟩, ys, rfl⟩, fun _ => ⟨y :: ys, rfl⟩⟩

namespace Statement

/-- The statements write the same values to the same row, one to each column. -/
inductive Alike : Statement → Statement → Prop
  | insert {table : String} {fields fields' : List (String × Value)} :
      (fields.map Prod.fst).Nodup → fields.Perm fields' →
      Alike (.insert table fields) (.insert table fields')
  | update {table : String} {fields fields' : List (String × Value)} {key : RowKey} :
      (fields.map Prod.fst).Nodup → fields.Perm fields' →
      Alike (.update table fields key) (.update table fields' key)

theorem Alike.symm {s s' : Statement} (h : Alike s s') : Alike s' s := by
  cases h with
  | insert hnodup hperm => exact .insert ((hperm.map Prod.fst).nodup_iff.1 hnodup) hperm.symm
  | update hnodup hperm => exact .update ((hperm.map Prod.fst).nodup_iff.1 hnodup) hperm.symm

variable {dialect : Dialect}

theorem exists_equation_iff (name : String) {v : Value} :
    (∃ text, equation dialect name v = .ok text) ↔ dialect.Writes v := by
  rw [equation, Dialect.Writes]
  cases dialect.literal v with
  | error e =>
    constructor
    · rintro ⟨text, h⟩
      cases h
    · rintro ⟨literal, h⟩
      cases h
  | ok literal => exact ⟨fun _ => ⟨literal, rfl⟩, fun _ => ⟨_, rfl⟩⟩

/-- An insertion has a text if its values can be written. -/
theorem exists_prepare_insert_iff {table : String} {fields : List (String × Value)} :
    (∃ p, (insert table fields).prepare dialect = .ok p) ↔
      ∀ field ∈ fields, dialect.Writes field.2 := by
  cases fields with
  | nil =>
    refine ⟨fun _ _ h => absurd h List.not_mem_nil, fun _ => ?_⟩
    cases dialect <;> exact ⟨_, rfl⟩
  | cons field rest =>
    have hliterals := exists_mapM_ok_iff (fun field => dialect.literal field.2) (field :: rest)
    simp only [Dialect.Writes]
    rw [← hliterals, prepare, text]
    cases hmap : (field :: rest).mapM fun field => dialect.literal field.2 with
    | error e =>
      constructor
      · rintro ⟨p, h⟩
        cases h
      · rintro ⟨ys, h⟩
        cases h
    | ok literals => exact ⟨fun _ => ⟨literals, rfl⟩, fun _ => ⟨_, rfl⟩⟩
    all_goals exact fun h => by cases h

/-- An update has a text if its values and its key can be written. -/
theorem exists_prepare_update_iff {table : String} {fields : List (String × Value)}
    {key : RowKey} : (∃ p, (update table fields key).prepare dialect = .ok p) ↔
      (∀ field ∈ fields, dialect.Writes field.2) ∧ dialect.Writes key.value := by
  have hassignments := exists_mapM_ok_iff (fun field => equation dialect field.1 field.2) fields
  simp only [exists_equation_iff] at hassignments
  rw [← hassignments, ← exists_equation_iff key.column, prepare, text]
  cases hmap : fields.mapM fun field => equation dialect field.1 field.2 with
  | error e =>
    constructor
    · rintro ⟨p, h⟩
      cases h
    · rintro ⟨⟨ys, h⟩, -⟩
      cases h
  | ok assignments =>
    cases hrow : equation dialect key.column key.value with
    | error e =>
      constructor
      · rintro ⟨p, h⟩
        cases h
      · rintro ⟨-, ys, h⟩
        cases h
    | ok row => exact ⟨fun _ => ⟨⟨assignments, rfl⟩, row, rfl⟩, fun _ => ⟨_, rfl⟩⟩

theorem Alike.exists_prepare {s s' : Statement} (h : Alike s s')
    (hp : ∃ p, s.prepare dialect = .ok p) : ∃ p, s'.prepare dialect = .ok p := by
  cases h with
  | insert _ hperm =>
    rw [exists_prepare_insert_iff] at hp ⊢
    exact fun field hmem => hp field (hperm.mem_iff.2 hmem)
  | update _ hperm =>
    rw [exists_prepare_update_iff] at hp ⊢
    exact ⟨fun field hmem => hp.1 field (hperm.mem_iff.2 hmem), hp.2⟩

end Statement

/-- The texts of alike statements. -/
def Prepared.Alike (dialect : Dialect) (p p' : Prepared) : Prop :=
  ∃ s s', Statement.Alike s s' ∧ s.prepare dialect = .ok p ∧ s'.prepare dialect = .ok p'

/-- From each store, a connector answers selections by the database that it is, and changes it by
executed statements alone, where the order of columns makes no difference. -/
structure Stores {σ : Type} (c : Connector σ) (db : σ → Database) : Prop where
  serves (store : σ) : Serves c (db store) (· = store)
  alike {p p' : Prepared} (store : σ) : Prepared.Alike c.dialect p p' →
    c.execute p' store = c.execute p store

end LinkedRows
