/-
# A statement is known from its text

The first word of a text says which of the four statements it is, and the names and the values in
it, each in their order, say the rest.  So every statement that has a text is known from it
(`Prepared.statement?_prepare`), with each value as its literal is read.
-/

import LinkedRows.Proofs.StatementTokens

namespace LinkedRows

open Lexis

namespace Statement

/-! ## Names and values -/

/-- The name that a token is. -/
def tokenName? : Token → Option String
  | .name name => some name
  | _ => none

/-- The value that a token is. -/
def tokenValue? : Token → Option Value
  | .value v => some v
  | _ => none

variable {α β : Type}

/-- Between the parts of a list there is nothing to find. -/
theorem filterMap_listTokens {f : Token → Option α} (hf : f (.mark ',') = none)
    (reading : β → List Token) (xs : List β) :
    (listTokens (xs.map reading)).filterMap f = xs.flatMap fun x => (reading x).filterMap f := by
  rw [listTokens]
  induction xs with
  | nil => rfl
  | cons x xs ih =>
    cases xs with
    | nil => simp
    | cons next xs =>
      rw [List.map_cons] at ih
      rw [List.map_cons, List.map_cons, List.intercalate_cons_cons, List.filterMap_append,
        List.filterMap_append, ih, List.filterMap_cons_none hf, List.filterMap_nil,
        List.append_nil]
      rfl

theorem names_listTokens (reading : β → List Token) (xs : List β) :
    (listTokens (xs.map reading)).filterMap tokenName? =
      xs.flatMap fun x => (reading x).filterMap tokenName? :=
  filterMap_listTokens rfl reading xs

theorem values_listTokens (reading : β → List Token) (xs : List β) :
    (listTokens (xs.map reading)).filterMap tokenValue? =
      xs.flatMap fun x => (reading x).filterMap tokenValue? :=
  filterMap_listTokens rfl reading xs

/-- The names in a statement, in the order of the text. -/
def names : Statement → List String
  | .select table columns key => columns ++ [table, key.column]
  | .insert table fields => table :: fields.map Prod.fst
  | .update table fields key => table :: (fields.map Prod.fst ++ [key.column])
  | .delete table key => [table, key.column]

theorem tokens_insert (dialect : Dialect) (table : String) {fields : List (String × Value)}
    (hfields : fields ≠ []) : tokens dialect (.insert table fields) =
      [.word "INSERT", .word "INTO", .name table] ++
        [.mark '('] ++ listTokens (fields.map fun field => [.name field.1]) ++ [.mark ')'] ++
        [.word "VALUES"] ++
        [.mark '('] ++ listTokens (fields.map fun field => [.value (dialect.known field.2)]) ++
          [.mark ')'] := by
  rw [tokens]
  exact hfields

theorem names_tokens (dialect : Dialect) (s : Statement) :
    (s.tokens dialect).filterMap tokenName? = s.names := by
  cases s with
  | insert table fields =>
    by_cases hfields : fields = []
    · subst hfields
      cases dialect <;> rfl
    · simp [tokens_insert dialect table hfields, names, names_listTokens, tokenName?,
        List.filterMap_cons, ← List.map_eq_flatMap]
  | _ =>
    simp [tokens, names, equationTokens, names_listTokens, tokenName?, List.filterMap_cons,
      ← List.map_eq_flatMap]

theorem values_tokens (dialect : Dialect) (s : Statement) :
    (s.tokens dialect).filterMap tokenValue? = s.values.map dialect.known := by
  cases s with
  | insert table fields =>
    by_cases hfields : fields = []
    · subst hfields
      cases dialect <;> rfl
    · have hnothing : (fields.flatMap fun _ => ([] : List Value)) = [] := by simp
      simp [tokens_insert dialect table hfields, values, values_listTokens, tokenValue?,
        List.filterMap_cons, ← List.map_eq_flatMap, hnothing]
  | _ =>
    simp [tokens, values, equationTokens, values_listTokens, tokenValue?, List.filterMap_cons,
      ← List.map_eq_flatMap]

/-! ## From tokens to the statement -/

/-- The statement with each value as its literal is read. -/
def known (dialect : Dialect) : Statement → Statement
  | .select table columns key => .select table columns ⟨key.column, dialect.known key.value⟩
  | .insert table fields =>
    .insert table (fields.map fun field => (field.1, dialect.known field.2))
  | .update table fields key =>
    .update table (fields.map fun field => (field.1, dialect.known field.2))
      ⟨key.column, dialect.known key.value⟩
  | .delete table key => .delete table ⟨key.column, dialect.known key.value⟩

/-- The statement with these tokens, if there is one. -/
def ofTokens? (ts : List Token) : Option Statement :=
  match ts.head?, ts.filterMap tokenName?, ts.filterMap tokenValue? with
  | some (.word "SELECT"), names, [key] =>
    match names.reverse with
    | column :: table :: columns => some (.select table columns.reverse ⟨column, key⟩)
    | _ => none
  | some (.word "INSERT"), table :: columns, values => some (.insert table (columns.zip values))
  | some (.word "UPDATE"), table :: columns, values =>
    -- the key is named last
    let fields := columns.zip values
    fields.getLast?.map fun key => .update table fields.dropLast ⟨key.1, key.2⟩
  | some (.word "DELETE"), [table, column], [key] => some (.delete table ⟨column, key⟩)
  | _, _, _ => none

/-- **The tokens of a statement say which it is.** -/
theorem ofTokens?_tokens (dialect : Dialect) (s : Statement) :
    ofTokens? (s.tokens dialect) = some (s.known dialect) := by
  rw [ofTokens?, names_tokens, values_tokens]
  cases s with
  | insert table fields =>
    have hhead : (tokens dialect (.insert table fields)).head? = some (.word "INSERT") := by
      cases fields <;> rfl
    rw [hhead]
    simp [names, values, known, List.zip_map']
  | _ => simp [tokens, names, values, known, List.zip_append, List.zip_map']

/-! ## From a text to the statement -/

/-- A statement with a text has literals for all its values. -/
theorem hasLiteral_of_prepare {dialect : Dialect} {s : Statement} {p : Prepared}
    (hp : s.prepare dialect = .ok p) : ∀ v ∈ s.values, Dialect.hasLiteral v = true := by
  cases hfirst : s.values.find? (fun v => !Dialect.hasLiteral v) with
  | none => simpa using List.find?_eq_none.1 hfirst
  | some v =>
    have hlacks : Dialect.hasLiteral v = false := by simpa using List.find?_some hfirst
    obtain ⟨x, -, -, hfault⟩ := dialect.literal_eq_error hlacks
    rw [prepare, s.text_eq_error dialect hfault hfirst] at hp
    cases hp

end Statement

/-- The statement that a text is read as. -/
def Prepared.statement? (dialect : Dialect) (p : Prepared) : Option Statement :=
  (Lexis.tokens dialect p.text.toList).bind Statement.ofTokens?

/-- **A statement is known from its text.** -/
theorem Prepared.statement?_prepare {dialect : Dialect} {s : Statement} {p : Prepared}
    (hp : s.prepare dialect = .ok p) : p.statement? dialect = some (s.known dialect) := by
  obtain ⟨text, htext, hreads⟩ := s.text_reads dialect (Statement.hasLiteral_of_prepare hp)
  rw [Statement.prepare, htext] at hp
  obtain rfl := Except.ok.inj hp
  rw [Prepared.statement?, hreads.tokens_eq, Option.bind_some, Statement.ofTokens?_tokens]

end LinkedRows
