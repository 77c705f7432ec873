/-
# No name and no value changes the shape of a statement

Read as the database reads it, the text of a statement is the keywords and marks of its form, with
the names and the values in their places (`Statement.tokens`), whatever characters they hold.  A
statement has no text only if a value in it is a double that is no number
(`prepare_reads`).
-/

import LinkedRows.Proofs.Lexis.Literal
import LinkedRows.Statement

namespace LinkedRows

open Lexis

namespace Statement

/-! ## The tokens of a statement -/

/-- The values in a statement, in the order of the text. -/
def values : Statement → List Value
  | .select _ _ key => [key.value]
  | .insert _ fields => fields.map Prod.snd
  | .update _ fields key => fields.map Prod.snd ++ [key.value]
  | .delete _ key => [key.value]

/-- Tokens of the parts of a list. -/
def listTokens (parts : List (List Token)) : List Token := [Token.mark ','].intercalate parts

def equationTokens (dialect : Dialect) (column : String) (value : Value) : List Token :=
  [.name column, .mark '=', .value (dialect.known value)]

/-- The keywords and marks of a statement's form, with its names and values. -/
def tokens (dialect : Dialect) : Statement → List Token
  | .select table columns key =>
    [.word "SELECT"] ++ listTokens (columns.map fun column => [.name column]) ++
      [.word "FROM", .name table, .word "WHERE"] ++ equationTokens dialect key.column key.value
  | .insert table [] =>
    [.word "INSERT", .word "INTO", .name table] ++
      match dialect with
      | .mysql => [.mark '(', .mark ')', .word "VALUES", .mark '(', .mark ')']
      | _ => [.word "DEFAULT", .word "VALUES"]
  | .insert table fields =>
    [.word "INSERT", .word "INTO", .name table] ++
      [.mark '('] ++ listTokens (fields.map fun field => [.name field.1]) ++ [.mark ')'] ++
      [.word "VALUES"] ++
      [.mark '('] ++ listTokens (fields.map fun field => [.value (dialect.known field.2)]) ++
        [.mark ')']
  | .update table fields key =>
    [.word "UPDATE", .name table, .word "SET"] ++
      listTokens (fields.map fun field => equationTokens dialect field.1 field.2) ++
      [.word "WHERE"] ++ equationTokens dialect key.column key.value
  | .delete table key =>
    [.word "DELETE", .word "FROM", .name table, .word "WHERE"] ++
      equationTokens dialect key.column key.value

/-! ## Lists and equations -/

variable {dialect : Dialect} {α : Type}

theorem reads_names (dialect : Dialect) (names : List String) :
    Reads dialect (commaList (names.map dialect.name)).toList
      (listTokens (names.map fun name => [.name name])) := by
  rw [commaList, String.toList_intercalate, listTokens]
  refine reads_intercalate ?_
  induction names with
  | nil => exact .nil
  | cons name names ih => exact .cons (reads_name dialect name) ih

/-- If every part of a list has a text, the list has. -/
theorem reads_mapM {f : α → Except Fault String} {reading : α → List Token} {xs : List α}
    (h : ∀ x ∈ xs, ∃ text, f x = .ok text ∧ Reads dialect text.toList (reading x)) :
    ∃ texts, xs.mapM f = .ok texts ∧
      Reads dialect (commaList texts).toList (listTokens (xs.map reading)) := by
  have hparts : ∃ texts, xs.mapM f = .ok texts ∧
      List.Forall₂ (Reads dialect) (texts.map String.toList) (xs.map reading) := by
    induction xs with
    | nil => exact ⟨[], rfl, .nil⟩
    | cons x xs ih =>
      obtain ⟨text, htext, hreads⟩ := h x List.mem_cons_self
      obtain ⟨texts, htexts, hparts⟩ := ih fun y hy => h y (List.mem_cons_of_mem _ hy)
      refine ⟨text :: texts, ?_, .cons hreads hparts⟩
      rw [List.mapM_cons, htext, htexts]
      rfl
  obtain ⟨texts, htexts, hparts⟩ := hparts
  refine ⟨texts, htexts, ?_⟩
  rw [commaList, String.toList_intercalate]
  exact reads_intercalate hparts

/-- The first value without a literal decides the fault of a list. -/
theorem mapM_eq_error {f : α → Except Fault String} {value : α → Value} {xs : List α} {v : Value}
    {e : Fault} (hok : ∀ x text, dialect.literal (value x) = .ok text → ∃ text', f x = .ok text')
    (herror : ∀ x e, dialect.literal (value x) = .error e → f x = .error e)
    (hv : dialect.literal v = .error e)
    (hfirst : (xs.map value).find? (fun v => !Dialect.hasLiteral v) = some v) :
    xs.mapM f = .error e := by
  induction xs with
  | nil => cases hfirst
  | cons x xs ih =>
    rw [List.map_cons, List.find?_cons] at hfirst
    rw [List.mapM_cons]
    split at hfirst
    · cases hfirst
      rw [herror x e hv]
      rfl
    · rename_i hx
      obtain ⟨text, htext, -⟩ := reads_literal dialect (by simpa using hx)
      obtain ⟨text', htext'⟩ := hok x text htext
      rw [htext', ih hfirst]
      rfl

theorem reads_equation (dialect : Dialect) (column : String) {v : Value}
    (hv : Dialect.hasLiteral v = true) :
    ∃ text, equation dialect column v = .ok text ∧
      Reads dialect text.toList (equationTokens dialect column v) := by
  obtain ⟨literal, hliteral, hreads⟩ := reads_literal dialect hv
  refine ⟨dialect.name column ++ " = " ++ literal, by rw [equation, hliteral]; rfl, ?_⟩
  intro rest hrest
  have hequals : Reads dialect ['='] [.mark '='] := fun rest _ => tokens_mark rfl rest
  have h := (reads_name dialect column).blank (hequals.blank hreads)
  simpa [equationTokens] using h rest hrest

theorem reads_literals (dialect : Dialect) (fields : List (String × Value))
    (h : ∀ field ∈ fields, Dialect.hasLiteral field.2 = true) :
    ∃ texts, (fields.mapM fun field => dialect.literal field.2) = .ok texts ∧
      Reads dialect (commaList texts).toList
        (listTokens (fields.map fun field => [.value (dialect.known field.2)])) :=
  reads_mapM fun field hfield => reads_literal dialect (h field hfield)

theorem reads_equations (dialect : Dialect) (fields : List (String × Value))
    (h : ∀ field ∈ fields, Dialect.hasLiteral field.2 = true) :
    ∃ texts, (fields.mapM fun field => equation dialect field.1 field.2) = .ok texts ∧
      Reads dialect (commaList texts).toList
        (listTokens (fields.map fun field => equationTokens dialect field.1 field.2)) :=
  reads_mapM fun field hfield => reads_equation dialect field.1 (h field hfield)

/-! ## Statements -/

/-- The words of statements read as themselves. -/
theorem reads_keyword (dialect : Dialect) {w : String}
    (hw : w ∈ ["SELECT", "INSERT", "INTO", "UPDATE", "DELETE", "FROM", "WHERE", "SET", "VALUES",
      "DEFAULT"]) :
    Reads dialect w.toList [.word w] := by
  obtain ⟨c, cs, htext, hc, hcs, htoken⟩ : ∃ c cs, w.toList = c :: cs ∧ c.isAlpha = true ∧
      cs.all isWordChar = true ∧ wordToken (c :: cs) = .word w := by
    simp only [List.mem_cons, List.not_mem_nil, or_false] at hw
    obtain rfl | rfl | rfl | rfl | rfl | rfl | rfl | rfl | rfl | rfl := hw
    all_goals exact ⟨_, _, rfl, rfl, rfl, rfl⟩
  rw [htext, ← htoken]
  exact reads_word hc hcs

theorem text_insert {literals : List String} (table : String) {fields : List (String × Value)}
    (hfields : fields ≠ [])
    (hliterals : (fields.mapM fun field => dialect.literal field.2) = .ok literals) :
    let columns := commaList (fields.map fun field => dialect.name field.1)
    (insert table fields).text dialect =
      .ok s!"INSERT INTO {dialect.name table} ({columns}) VALUES ({commaList literals})" := by
  rw [text, hliterals]
  · rfl
  · exact hfields

/-- A statement whose values all have literals has a text, which reads as its tokens. -/
theorem text_reads (dialect : Dialect) (s : Statement)
    (hs : ∀ v ∈ s.values, Dialect.hasLiteral v = true) :
    ∃ text, s.text dialect = .ok text ∧ Reads dialect text.toList (s.tokens dialect) := by
  have hinsert := (reads_keyword dialect (w := "INSERT") (by simp)).blank
    (reads_keyword dialect (w := "INTO") (by simp))
  have hfrom := reads_keyword dialect (w := "FROM") (by simp)
  have hwhere := reads_keyword dialect (w := "WHERE") (by simp)
  have hvalues := reads_keyword dialect (w := "VALUES") (by simp)
  cases s with
  | select table columns key =>
    obtain ⟨row, hrow, hreads⟩ := reads_equation dialect key.column
      (hs key.value (by simp [values]))
    have h := (reads_keyword dialect (w := "SELECT") (by simp)).blank
      ((reads_names dialect columns).blank
        (hfrom.blank ((reads_name dialect table).blank (hwhere.blank hreads))))
    refine ⟨_, by rw [text, hrow]; rfl, ?_⟩
    simpa [toString, tokens] using h
  | insert table fields =>
    have hhead := hinsert.blank (reads_name dialect table)
    cases fields with
    | nil =>
      have hnothing := (reads_nil dialect).parentheses
      cases dialect with
      | mysql =>
        have h := hhead.blank (hnothing.blank (hvalues.blank hnothing))
        refine ⟨_, rfl, ?_⟩
        simpa [toString, tokens] using h
      | _ =>
        have h := hhead.blank ((reads_keyword _ (w := "DEFAULT") (by simp)).blank hvalues)
        refine ⟨_, rfl, ?_⟩
        simpa [toString, tokens] using h
    | cons field rest =>
      obtain ⟨literals, hliterals, hlist⟩ := reads_literals dialect (field :: rest)
        fun field hfield => hs field.2 (List.mem_map_of_mem hfield)
      have hcolumns := reads_names dialect ((field :: rest).map Prod.fst)
      have h := hhead.blank (hcolumns.parentheses.blank (hvalues.blank hlist.parentheses))
      refine ⟨_, text_insert table (List.cons_ne_nil field rest) hliterals, ?_⟩
      simpa [toString, tokens, Function.comp_def] using h
  | update table fields key =>
    obtain ⟨assignments, hassignments, hlist⟩ := reads_equations dialect fields
      fun field hfield => hs field.2 (List.mem_append_left _ (List.mem_map_of_mem hfield))
    obtain ⟨row, hrow, hreads⟩ := reads_equation dialect key.column
      (hs key.value (by simp [values]))
    have h := (reads_keyword dialect (w := "UPDATE") (by simp)).blank
      ((reads_name dialect table).blank ((reads_keyword dialect (w := "SET") (by simp)).blank
        (hlist.blank (hwhere.blank hreads))))
    refine ⟨_, by rw [text, hassignments, hrow]; rfl, ?_⟩
    simpa [toString, tokens] using h
  | delete table key =>
    obtain ⟨row, hrow, hreads⟩ := reads_equation dialect key.column
      (hs key.value (by simp [values]))
    have h := (reads_keyword dialect (w := "DELETE") (by simp)).blank
      (hfrom.blank ((reads_name dialect table).blank (hwhere.blank hreads)))
    refine ⟨_, by rw [text, hrow]; rfl, ?_⟩
    simpa [toString, tokens] using h

theorem equation_eq_error {column : String} {v : Value} {e : Fault}
    (hv : dialect.literal v = .error e) : equation dialect column v = .error e := by
  rw [equation, hv]
  rfl

theorem exists_equation {column text : String} {v : Value} (hv : dialect.literal v = .ok text) :
    ∃ text, equation dialect column v = .ok text := by
  rw [equation, hv]
  exact ⟨_, rfl⟩

/-- The first value without a literal decides the fault of a statement. -/
theorem text_eq_error (dialect : Dialect) (s : Statement) {v : Value} {e : Fault}
    (hv : dialect.literal v = .error e)
    (hfirst : s.values.find? (fun v => !Dialect.hasLiteral v) = some v) :
    s.text dialect = .error e := by
  have hkey {key : RowKey}
      (hkey : [key.value].find? (fun v => !Dialect.hasLiteral v) = some v) : key.value = v :=
    List.mem_singleton.1 (List.mem_of_find?_eq_some hkey) ▸ rfl
  cases s with
  | select table columns key =>
    rw [text, equation_eq_error (hkey hfirst ▸ hv)]
    rfl
  | insert table fields =>
    cases fields with
    | nil => cases hfirst
    | cons field rest =>
      have := mapM_eq_error (f := fun field : String × Value => dialect.literal field.2)
        (fun _ text h => ⟨text, h⟩) (fun _ _ h => h) hv hfirst
      rw [text, this]
      · rfl
      · simp
  | update table fields key =>
    rw [values, List.find?_append] at hfirst
    cases hfield : (fields.map Prod.snd).find? (fun v => !Dialect.hasLiteral v) with
    | some w =>
      rw [hfield, Option.some_or] at hfirst
      cases hfirst
      have := mapM_eq_error (f := fun field : String × Value => equation dialect field.1 field.2)
        (fun _ _ h => exists_equation h) (fun _ _ h => equation_eq_error h) hv hfield
      rw [text, this]
      rfl
    | none =>
      rw [hfield, Option.none_or] at hfirst
      obtain ⟨assignments, hassignments, -⟩ := reads_equations dialect fields
        fun field hmem => by simpa using List.find?_eq_none.1 hfield _ (List.mem_map_of_mem hmem)
      rw [text, hassignments, equation_eq_error (hkey hfirst ▸ hv)]
      rfl
  | delete table key =>
    rw [text, equation_eq_error (hkey hfirst ▸ hv)]
    rfl

/-- **No name and no value changes the shape of a statement.**  If every double in a statement is
finite, then the statement has a text without parameters, and the text reads as the keywords and
marks of its form with the names and values in their places.  Otherwise preparing it fails, with a
type fault that shows the first double that is not finite. -/
theorem prepare_reads (dialect : Dialect) (s : Statement) :
    ((∀ x, .double x ∈ s.values → x.isFinite = true) →
      ∃ text, s.prepare dialect = .ok ⟨text, []⟩ ∧
        Lexis.tokens dialect text.toList = some (s.tokens dialect)) ∧
    ∀ x, .double x ∈ s.values → x.isFinite = false →
      ∃ first, s.values.find? (fun v => !Dialect.hasLiteral v) = some (.double first) ∧
        s.prepare dialect =
          .error (.type ⟨"finite double", Decimal.plainLayout.text first, none⟩) := by
  constructor
  · intro hs
    obtain ⟨text, htext, hreads⟩ := s.text_reads dialect fun v hv => by
      cases v with
      | double x => exact hs x hv
      | _ => rfl
    exact ⟨text, by rw [prepare, htext]; rfl, hreads.tokens_eq⟩
  · intro x hx hinfinite
    have hfound : (s.values.find? fun v => !Dialect.hasLiteral v).isSome = true :=
      List.find?_isSome.2 ⟨.double x, hx, by simp [Dialect.hasLiteral, hinfinite]⟩
    obtain ⟨v, hv⟩ := Option.isSome_iff_exists.1 hfound
    have hnone : Dialect.hasLiteral v = false := by simpa using List.find?_some hv
    obtain ⟨first, rfl, -, hfault⟩ := dialect.literal_eq_error hnone
    refine ⟨first, hv, ?_⟩
    rw [prepare, s.text_eq_error dialect hfault hv]
    rfl

/-- A name that would end a MySQL statement, a text that would, and a double; and a key that is not
a number. -/
theorem prepare_reads_hostile :
    (∃ text, (Statement.update "t\x60; --" [("a", .text "\\' OR 1=1; --\n"),
        ("b", .double ⟨0x3ff8000000000000⟩)] ⟨"id", .int (-7)⟩).prepare .mysql = .ok ⟨text, []⟩ ∧
      Lexis.tokens .mysql text.toList = some
        [.word "UPDATE", .name "t\x60; --", .word "SET",
          .name "a", .mark '=', .value (.text "\\' OR 1=1; --\n"), .mark ',',
          .name "b", .mark '=', .value (.double ⟨0x3ff8000000000000⟩),
          .word "WHERE", .name "id", .mark '=', .value (.int (-7))]) ∧
    (Statement.delete "t" ⟨"id", .double .nan⟩).prepare .postgres =
      .error (.type ⟨"finite double", "NaN", none⟩) := by
  refine ⟨(prepare_reads .mysql _).1 fun x hx => ?_, ?_⟩
  · obtain rfl : x = ⟨0x3ff8000000000000⟩ := by simpa [values] using hx
    rfl
  · obtain ⟨first, hfirst, hfault⟩ := (prepare_reads .postgres
      (.delete "t" ⟨"id", .double .nan⟩)).2 .nan (List.mem_singleton_self _) rfl
    obtain rfl : first = .nan := by simpa [values] using List.mem_of_find?_eq_some hfirst
    exact hfault

end Statement
end LinkedRows
