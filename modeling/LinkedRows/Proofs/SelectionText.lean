/-
# What the text of a selection says

The text of a selection can be read back: its columns, its table, the name of the key column and the
literal of the key (`readSelection_text`).  Names are quoted, and in a name every quote is doubled,
so the first quote that is not doubled ends it, whatever the name holds.

A database that knows its rows by table, key column and literal can therefore answer every selection
from the text alone (`serves_ofRows`).
-/

import LinkedRows.Proofs.Database

namespace LinkedRows

namespace Text

/-- What stands before the quote that ends a name, with its doubled quotes taken as one, and what
follows that quote. -/
def takeQuoted (quote : Char) : List Char → List Char × List Char
  | c :: d :: cs =>
    if c = quote then
      if d = quote then
        let (name, rest) := takeQuoted quote cs
        (c :: name, rest)
      else ([], d :: cs)
    else
      let (name, rest) := takeQuoted quote (d :: cs)
      (c :: name, rest)
  | [c] => if c = quote then ([], []) else ([c], [])
  | [] => ([], [])

/-- Names between quotes with commas between them, at most so many, and what follows them. -/
def takeNames (quote : Char) : Nat → List Char → List String × List Char
  | n + 1, _ :: cs =>
    match takeQuoted quote cs with
    | (name, ',' :: ' ' :: rest) =>
      let (names, rest) := takeNames quote n rest
      (String.ofList name :: names, rest)
    | (name, rest) => ([String.ofList name], rest)
  | _, cs => ([], cs)

variable {quote : Char}

theorem takeQuoted_cons_of_ne {c : Char} (h : c ≠ quote) (cs : List Char) (hcs : cs ≠ []) :
    takeQuoted quote (c :: cs) = (c :: (takeQuoted quote cs).1, (takeQuoted quote cs).2) := by
  obtain ⟨d, cs, rfl⟩ := List.exists_cons_of_ne_nil hcs
  rw [takeQuoted, if_neg h]

/-- A name is found again behind its opening quote, if no quote follows it. -/
theorem takeQuoted_double (quote : Char) (name : List Char) {rest : List Char}
    (hrest : rest.head? ≠ some quote) :
    takeQuoted quote (double quote name ++ quote :: rest) = (name, rest) := by
  induction name with
  | nil =>
    cases rest with
    | nil => simp [double, takeQuoted]
    | cons d rest =>
      have hd : d ≠ quote := fun h => hrest (congrArg some h)
      simp [double, takeQuoted, hd]
  | cons c name ih =>
    have hcons : double quote (c :: name) =
        (if c = quote then [c, c] else [c]) ++ double quote name := rfl
    by_cases h : c = quote
    · subst h
      rw [hcons, if_pos rfl, List.append_assoc, List.cons_append, List.cons_append,
        List.nil_append, takeQuoted, if_pos rfl, if_pos rfl, ih]
    · rw [hcons, if_neg h, List.append_assoc, List.cons_append, List.nil_append,
        takeQuoted_cons_of_ne h _ (by simp), ih]

/-- A list of names is found again, if neither a comma nor a quote follows it. -/
theorem takeNames_intercalate (hquote : quote ≠ ',') {names : List String} (hnames : names ≠ [])
    {n : Nat} (hn : names.length ≤ n) {rest : List Char} (hrest : rest.head? ≠ some quote)
    (hcomma : rest.head? ≠ some ',') :
    takeNames quote n
        ([',', ' '].intercalate (names.map fun name => quoted quote name.toList) ++ rest) =
      (names, rest) := by
  induction names generalizing n with
  | nil => exact absurd rfl hnames
  | cons name names ih =>
    obtain ⟨n, rfl⟩ := Nat.exists_eq_add_one_of_ne_zero (Nat.ne_zero_of_lt hn)
    cases names with
    | nil =>
      have hname := takeQuoted_double quote name.toList hrest
      simp only [List.map_cons, List.map_nil, List.intercalate_singleton, quoted,
        List.cons_append, List.append_assoc, List.nil_append, takeNames, hname]
      split
      · rename_i heq
        obtain ⟨-, rfl⟩ := Prod.mk.inj heq
        exact absurd rfl hcomma
      · rename_i heq
        obtain ⟨rfl, rfl⟩ := Prod.mk.inj heq
        rw [String.ofList_toList]
    | cons next names =>
      have hlater := ih (List.cons_ne_nil next names) (Nat.le_of_succ_le_succ hn)
      rw [List.map_cons] at hlater
      rw [List.map_cons, List.map_cons, List.intercalate_cons_cons, quoted]
      generalize [',', ' '].intercalate _ = later at hlater ⊢
      have hhead : (',' :: ' ' :: (later ++ rest)).head? ≠ some quote := fun h =>
        hquote (Option.some.inj h).symm
      have hname := takeQuoted_double quote name.toList hhead
      simp only [List.cons_append, List.append_assoc, List.nil_append, takeNames, hname, hlater,
        String.ofList_toList]

theorem length_le_intercalate (quote : Char) (names : List String) :
    names.length ≤
      ([',', ' '].intercalate (names.map fun name => quoted quote name.toList)).length := by
  induction names with
  | nil => exact Nat.zero_le _
  | cons name names ih =>
    cases names with
    | nil => simp [quoted]
    | cons next names =>
      rw [List.map_cons] at ih
      rw [List.map_cons, List.map_cons, List.intercalate_cons_cons, quoted]
      simp only [List.length_append, List.length_cons] at ih ⊢
      omega

end Text

namespace Dialect

/-- The quote of names. -/
def quote : Dialect → Char
  | .postgres | .sqlite => '"'
  | .mysql => '\x60'

theorem toList_name (dialect : Dialect) (name : String) :
    (dialect.name name).toList = Text.quoted dialect.quote name.toList := by
  cases dialect <;> exact String.toList_ofList

end Dialect

/-- What a selection asks for, as its text has it. -/
structure SelectionText where
  columns : List String
  table : String
  keyName : String
  literal : String
deriving DecidableEq, Repr

/-- Reads the text of a selection. -/
def readSelection (quote : Char) (text : List Char) : SelectionText :=
  let names := text.drop "SELECT ".length
  let (columns, rest) := Text.takeNames quote names.length names
  let (table, rest) := Text.takeQuoted quote (rest.drop (" FROM ".length + 1))
  let (keyName, rest) := Text.takeQuoted quote (rest.drop (" WHERE ".length + 1))
  ⟨columns, String.ofList table, String.ofList keyName, String.ofList (rest.drop " = ".length)⟩

/-- The parts of a selection are found again, one after the other. -/
theorem readSelection_append {quote : Char} (hcomma : quote ≠ ',') (hblank : quote ≠ ' ')
    {columns : List String} (hcolumns : columns ≠ []) (table keyName literal : String) :
    readSelection quote ("SELECT ".toList ++
        ([',', ' '].intercalate (columns.map fun name => Text.quoted quote name.toList) ++
          (" FROM ".toList ++ (Text.quoted quote table.toList ++
            (" WHERE ".toList ++ (Text.quoted quote keyName.toList ++
              (" = ".toList ++ literal.toList))))))) = ⟨columns, table, keyName, literal⟩ := by
  have hlength := Text.length_le_intercalate quote columns
  have hhead (cs : List Char) : (' ' :: cs).head? ≠ some quote := fun h =>
    hblank (Option.some.inj h).symm
  have hquoted (name : String) (cs : List Char) : Text.takeQuoted quote
      (Text.double quote name.toList ++ quote :: ' ' :: cs) = (name.toList, ' ' :: cs) :=
    Text.takeQuoted_double quote name.toList (hhead cs)
  have hopen (name : String) (cs : List Char) : Text.quoted quote name.toList ++ cs =
      quote :: (Text.double quote name.toList ++ quote :: cs) := by
    simp [Text.quoted]
  have hselect (cs : List Char) : ("SELECT ".toList ++ cs).drop "SELECT ".length = cs := rfl
  have hfrom (cs : List Char) :
      (' ' :: "FROM ".toList ++ quote :: cs).drop (" FROM ".length + 1) = cs := rfl
  have hwhere (cs : List Char) :
      (' ' :: "WHERE ".toList ++ quote :: cs).drop (" WHERE ".length + 1) = cs := rfl
  have hequals (cs : List Char) : (' ' :: "= ".toList ++ cs).drop " = ".length = cs := rfl
  rw [show " FROM ".toList = ' ' :: "FROM ".toList from rfl,
    show " WHERE ".toList = ' ' :: "WHERE ".toList from rfl,
    show " = ".toList = ' ' :: "= ".toList from rfl]
  unfold readSelection
  dsimp only
  rw [hselect, List.cons_append, Text.takeNames_intercalate hcomma hcolumns _ (hhead _) (by simp)]
  dsimp only
  rw [← List.cons_append, hopen, hfrom, List.cons_append, hquoted]
  dsimp only
  rw [← List.cons_append, hopen, hwhere, List.cons_append, hquoted]
  dsimp only
  rw [← List.cons_append, hequals]
  simp only [String.ofList_toList]
  rw [List.length_append]
  omega

/-- **The text of a selection says what it selects**, whatever its names hold. -/
theorem readSelection_text {dialect : Dialect} (table : String) {columns : List String}
    {key : RowKey} {literal : String} (hcolumns : columns ≠ [])
    (hliteral : dialect.literal key.value = .ok literal) :
    ∃ text, (Statement.select table columns key).text dialect = .ok text ∧
      readSelection dialect.quote text.toList = ⟨columns, table, key.column, literal⟩ := by
  rw [Statement.text, Statement.equation, hliteral]
  refine ⟨_, rfl, ?_⟩
  have hnames : (Statement.commaList (columns.map dialect.name)).toList =
      [',', ' '].intercalate (columns.map fun name => Text.quoted dialect.quote name.toList) := by
    rw [Statement.commaList, String.toList_intercalate, List.map_map]
    exact congrArg _ (List.map_congr_left fun name _ => dialect.toList_name name)
  simp only [hnames, Dialect.toList_name, String.toList_append, toString, List.append_assoc]
  exact readSelection_append (by cases dialect <;> decide) (by cases dialect <;> decide) hcolumns _
    _ _

/-! ## A database that answers from the text -/

/-- Rows by table, key column and literal of the key. -/
abbrev RowsByText : Type := String → String → String → Option (String → Value)

/-- Rows by text as a database. -/
def Database.ofRows (dialect : Dialect) (rows : RowsByText) : Database where
  row? table key :=
    match dialect.literal key.value with
    | .ok literal => rows table key.column literal
    | .error _ => none

/-- Answers selections from rows by text. -/
def Connector.ofRows (dialect : Dialect) (rows : RowsByText) : Connector Unit where
  dialect := dialect
  query p _ :=
    let s := readSelection dialect.quote p.text.toList
    (.ok ((rows s.table s.keyName s.literal).map fun row => ⟨s.columns, s.columns.map row⟩).toList,
      ())
  execute _ _ := (.ok 1, ())
  lastIdentifier _ := (.ok .null, ())
  describe _ _ := (.ok [], ())

/-- Rows whose values can be written are served. -/
theorem serves_ofRows {dialect : Dialect} {rows : RowsByText}
    (hwrites : ∀ table keyName literal row, rows table keyName literal = some row →
      ∀ column, dialect.Writes (row column)) :
    Serves (Connector.ofRows dialect rows) (Database.ofRows dialect rows) fun _ => True where
  answers {s table columns key p} _ hcolumns _ hp := by
    rw [Statement.prepare] at hp
    cases hliteral : dialect.literal key.value with
    | error e =>
      change Except.map _ (Statement.text dialect _) = _ at hp
      rw [Statement.text, Statement.equation, hliteral] at hp
      cases hp
    | ok literal =>
      obtain ⟨text, htext, hread⟩ := readSelection_text table hcolumns hliteral
      change Except.map _ (Statement.text dialect _) = _ at hp
      rw [htext] at hp
      obtain rfl := Except.ok.inj hp
      refine ⟨?_, trivial⟩
      simp only [Connector.ofRows, hread, Database.rows, Database.ofRows, hliteral]
  writes {table key row} column h := by
    simp only [Database.ofRows] at h
    split at h
    · exact hwrites _ _ _ row h column
    · cases h

end LinkedRows
