/-
# What declared defaults are read as

A reported default that is one literal is read as the value of the literal
(`TakesLiterals`), and a literal that was written for a value is read as that value again, with any
blanks around it (`default_survives_quoting`).

Not every text that is read as a text or a number is a literal, though.  A text counts as quoted if
it begins and ends with a quote, whatever stands between (`IsLoose`), and three words count as
doubles (`Decimal.SpecialText`).  These two are the only exceptions (`takes_only_literals_iff`).
-/

import LinkedRows.Dialect
import LinkedRows.Proofs.Decimal.Nearest
import LinkedRows.Proofs.Decimal.Spelling
import LinkedRows.Schema.DeclaredDefault

namespace LinkedRows
namespace DeclaredDefault

open Decimal

variable {cs inner : List Char} {s : String} {v : Value} {x : Binary64}

/-! ## Literals -/

/-- One quoted text. -/
def IsQuoted (s : String) (cs : List Char) : Prop := cs = Text.quoted '\'' s.toList

/-- A word in any case. -/
def IsWord (word : String) (cs : List Char) : Prop := String.ofList (cs.map Char.toLower) = word

/-- A quote at each end, but not one quoted text. -/
def IsLoose (cs : List Char) : Prop :=
  (∃ inner, cs = '\'' :: (inner ++ ['\''])) ∧ ∀ s, ¬IsQuoted s cs

/-- What is read from a text is what it spells as a literal. -/
structure TakesLiterals (cs : List Char) (v : Value) : Prop where
  text : ∀ s, IsQuoted s cs → v = .text s
  null : IsWord "null" cs → v = .null
  bool : ∀ b, IsWord (if b then "true" else "false") cs → v = .bool b
  int : ∀ n : Int64, IntegerText cs n.toInt → v = .int n
  double : ∀ negative d, RealText cs negative d → (∀ n : Int64, ¬IntegerText cs n.toInt) →
    ∃ x, v = .double x ∧ x.Rounds negative d.toRat

/-- What is read from a text is a text or a number only if it spells that as a literal, and nothing
if it spells no literal. -/
structure TakesOnlyLiterals (cs : List Char) (v : Value) : Prop where
  text : ∀ s, v = .text s → IsQuoted s cs
  int : ∀ n : Int64, v = .int n → IntegerText cs n.toInt
  double : ∀ x, v = .double x → ∃ negative d, RealText cs negative d ∧ x.Rounds negative d.toRat
  other : (∀ s, ¬IsQuoted s cs) → (∀ negative d, ¬RealText cs negative d) → ¬IsWord "true" cs →
    ¬IsWord "false" cs → v = .null

/-! ## The cases of reading -/

theorem betweenQuotes?_eq_some :
    betweenQuotes? cs = some inner ↔ cs = '\'' :: (inner ++ ['\'']) := by
  unfold betweenQuotes?
  constructor
  · intro h
    split at h
    · rename_i cs
      split at h
      · rename_i hlast
        obtain rfl := Option.some.inj h
        obtain ⟨init, rfl⟩ := List.getLast?_eq_some_iff.1 hlast
        rw [List.dropLast_concat]
      · cases h
    · cases h
  · rintro rfl
    simp

/-- How a text comes to be read as a value. -/
inductive Reads (cs : List Char) : Value → Prop
  | quotes {inner : List Char} : cs = '\'' :: (inner ++ ['\'']) →
      Reads cs (.text (String.ofList (Text.undouble '\'' inner)))
  | bool {b : Bool} : IsWord (if b then "true" else "false") cs → Reads cs (.bool b)
  | int {n : Int64} : IntegerText cs n.toInt → Reads cs (.int n)
  | double {x : Binary64} : readBinary64 cs = some x → Reads cs (.double x)
  | null : Reads cs .null

theorem reads (cs : List Char) : Reads cs (readText cs) := by
  unfold readText
  split
  case h_1 inner hquotes => exact .quotes (betweenQuotes?_eq_some.1 hquotes)
  case h_2 =>
    dsimp only
    split_ifs with hnull htrue hfalse
    · exact .null
    · exact .bool htrue
    · exact .bool hfalse
    · split
      · rename_i hint
        exact .int (readInt64_eq_some.1 hint)
      · rename_i hdouble
        exact .double hdouble
      · exact .null

/-! ## Literals are taken -/

/-- Between quotes, everything is taken. -/
theorem readText_quotes (inner : List Char) :
    readText ('\'' :: (inner ++ ['\''])) = .text (String.ofList (Text.undouble '\'' inner)) := by
  unfold readText
  rw [betweenQuotes?_eq_some.2 rfl]

theorem readText_quoted (h : IsQuoted s cs) : readText cs = .text s := by
  subst h
  have hcs : Text.quoted '\'' s.toList = '\'' :: (Text.double '\'' s.toList ++ ['\'']) := rfl
  rw [hcs, readText_quotes, Text.undouble_double, String.ofList_toList]

theorem betweenQuotes?_eq_none (h : cs.head? ≠ some '\'') : betweenQuotes? cs = none := by
  unfold betweenQuotes?
  split
  · exact absurd rfl h
  · rfl

/-- Words begin with a letter. -/
theorem IsWord.plain {word : String} (h : IsWord word cs) (hword : word.toList.head? ≠ some '\'') :
    betweenQuotes? cs = none := by
  refine betweenQuotes?_eq_none fun hhead => hword ?_
  obtain ⟨rest, rfl⟩ := List.head?_eq_some_iff.1 hhead
  rw [← h, String.toList_ofList]
  rfl

theorem readText_null (h : IsWord "null" cs) : readText cs = .null := by
  have hword : String.ofList (cs.map Char.toLower) = "null" := h
  simp [readText, h.plain (by decide), hword]

theorem readText_bool {b : Bool} (h : IsWord (if b then "true" else "false") cs) :
    readText cs = .bool b := by
  have hword : String.ofList (cs.map Char.toLower) = if b then "true" else "false" := h
  cases b with
  | true => simp [readText, h.plain (by decide), hword]
  | false => simp [readText, h.plain (by decide), hword]

/-- What is neither quoted nor a word is read as a number. -/
theorem readText_plain (hquotes : betweenQuotes? cs = none) (hnull : ¬IsWord "null" cs)
    (htrue : ¬IsWord "true" cs) (hfalse : ¬IsWord "false" cs) : readText cs =
      match readInt64 cs, readBinary64 cs with
      | some n, _ => .int n
      | none, some x => .double x
      | none, none => .null := by
  unfold IsWord at hnull htrue hfalse
  unfold readText
  rw [hquotes]
  exact (if_neg hnull).trans ((if_neg htrue).trans (if_neg hfalse))

theorem not_isWord_of_realText {negative : Bool} {d : Decimal} (h : RealText cs negative d)
    {word : String} (hword : word.toList.head?.any Char.isAlpha = true) : ¬IsWord word cs := by
  rintro rfl
  obtain ⟨c, rest, rfl, hc⟩ := h.head
  have hletter : c.toLower.isAlpha = true := by simpa using hword
  obtain hdigit | hmark := hc
  · rw [toLower_of_isDigit hdigit] at hletter
    rw [Lexis.isDigit_of_isAlpha hletter] at hdigit
    cases hdigit
  · simp only [List.mem_cons, List.not_mem_nil, or_false] at hmark
    obtain rfl | rfl | rfl := hmark
    all_goals cases hletter

/-- A number is no word and has no quotes. -/
theorem readText_number {negative : Bool} {d : Decimal} (h : RealText cs negative d) :
    readText cs = match readInt64 cs with
      | some n => .int n
      | none => .double (nearestBinary64 negative d.digits d.exponent) := by
  have hquotes : betweenQuotes? cs = none := by
    refine betweenQuotes?_eq_none fun hhead => ?_
    obtain ⟨c, rest, rfl, hc⟩ := h.head
    obtain rfl := Option.some.inj hhead
    revert hc
    decide
  have hdouble := readBinary64_eq_some.2 (.inr ⟨negative, d, h, rfl⟩)
  rw [readText_plain hquotes (not_isWord_of_realText h rfl) (not_isWord_of_realText h rfl)
    (not_isWord_of_realText h rfl), hdouble]
  cases readInt64 cs with
  | none => rfl
  | some n => rfl

theorem readText_int {n : Int64} (h : IntegerText cs n.toInt) : readText cs = .int n := by
  obtain ⟨negative, k, htext, -⟩ := h.realText
  rw [readText_number htext, readInt64_eq_some.2 h]

theorem readText_double {negative : Bool} {d : Decimal} (h : RealText cs negative d)
    (hint : ∀ n : Int64, ¬IntegerText cs n.toInt) :
    readText cs = .double (nearestBinary64 negative d.digits d.exponent) := by
  have hnone : readInt64 cs = none :=
    Option.eq_none_iff_forall_not_mem.2 fun n hn => hint n (readInt64_eq_some.1 hn)
  rw [readText_number h, hnone]

/-- **Every literal is taken** as what it spells. -/
theorem takesLiterals (cs : List Char) : TakesLiterals cs (readText cs) where
  text _ h := readText_quoted h
  null h := readText_null h
  bool _ h := readText_bool h
  int _ h := readText_int h
  double negative d h hint := ⟨_, readText_double h hint, nearestBinary64_rounds negative d⟩

/-! ## What else is taken -/

theorem not_isWord_of_special (h : SpecialText cs x) {word : String}
    (hword : word ∈ ["null", "true", "false"]) : ¬IsWord word cs := by
  rintro rfl
  obtain @⟨_, word, _, _, hsign, hnames⟩ := h
  rw [List.map_append] at hword
  generalize word.map Char.toLower = name at hword hnames
  revert hword
  cases hsign <;> cases hnames <;> decide

theorem readText_special (h : SpecialText cs x) : readText cs = .double x := by
  have hint : readInt64 cs = none := by
    refine Option.eq_none_iff_forall_not_mem.2 fun n hn => ?_
    obtain ⟨negative, k, htext, -⟩ := (readInt64_eq_some.1 hn).realText
    exact htext.not_special h
  have hdouble := readBinary64_eq_some.2 (.inl h)
  have hquotes : betweenQuotes? cs = none := by
    obtain ⟨hsign, hnames⟩ := h
    obtain ⟨c, rest, rfl, hletter⟩ := hnames.head
    refine betweenQuotes?_eq_none fun hhead => ?_
    cases hsign with
    | none =>
      obtain rfl := Option.some.inj hhead
      revert hletter
      decide
    | plus => cases hhead
    | minus => cases hhead
  rw [readText_plain hquotes (not_isWord_of_special h (by decide))
    (not_isWord_of_special h (by decide)) (not_isWord_of_special h (by decide)), hint, hdouble]

/-- What is read is a literal, unless the text is loosely quoted or a word that reads as a
double. -/
theorem Reads.takesOnlyLiterals (h : Reads cs v) (hloose : ¬IsLoose cs)
    (hspecial : ∀ x, ¬SpecialText cs x) : TakesOnlyLiterals cs v := by
  cases h with
  | @quotes inner hcs =>
    obtain ⟨s, hs⟩ : ∃ s, IsQuoted s cs := by
      by_contra hnone
      exact hloose ⟨⟨inner, hcs⟩, not_exists.1 hnone⟩
    have hinner : inner = Text.double '\'' s.toList :=
      (List.append_inj' (List.cons.inj (hcs.symm.trans hs)).2 rfl).1
    refine ⟨?_, nofun, nofun, fun hquoted => absurd hs (hquoted s)⟩
    rintro _ ⟨⟩
    rwa [hinner, Text.undouble_double, String.ofList_toList]
  | @bool b hword =>
    refine ⟨nofun, nofun, nofun, fun _ _ htrue hfalse => ?_⟩
    cases b with
    | true => exact absurd hword htrue
    | false => exact absurd hword hfalse
  | @int n hint =>
    refine ⟨nofun, ?_, nofun, fun _ hreal => ?_⟩
    · rintro _ ⟨⟩
      exact hint
    · obtain ⟨negative, k, htext, -⟩ := hint.realText
      exact absurd htext (hreal _ _)
  | @double x hdouble =>
    obtain hword | ⟨negative, d, htext, rfl⟩ := readBinary64_eq_some.1 hdouble
    · exact absurd hword (hspecial x)
    · refine ⟨nofun, nofun, ?_, fun _ hreal => absurd htext (hreal _ _)⟩
      rintro _ ⟨⟩
      exact ⟨negative, d, htext, nearestBinary64_rounds negative d⟩
  | null => exact ⟨nofun, nofun, nofun, fun _ _ _ _ => rfl⟩

/-- **A literal is taken for what it spells, and all else for nothing but in two cases**: a text
that begins and ends with a quote without being one quoted text, and a word that names an infinity
or not-a-number. -/
theorem takes_only_literals_iff (t : String) :
    TakesLiterals (Text.trim t.toList) (read (.text t)) ∧
    (TakesOnlyLiterals (Text.trim t.toList) (read (.text t)) ↔
      ¬IsLoose (Text.trim t.toList) ∧ ∀ x, ¬SpecialText (Text.trim t.toList) x) := by
  change TakesLiterals _ (readText (Text.trim t.toList)) ∧
    (TakesOnlyLiterals _ (readText (Text.trim t.toList)) ↔ _)
  generalize Text.trim t.toList = cs
  refine ⟨takesLiterals cs, ?_, fun h => (reads cs).takesOnlyLiterals h.1 h.2⟩
  intro honly
  constructor
  · rintro ⟨⟨inner, rfl⟩, hquoted⟩
    exact hquoted _ (honly.text _ (readText_quotes inner))
  · intro x hspecial
    obtain ⟨negative, d, htext, -⟩ := honly.double x (readText_special hspecial)
    exact htext.not_special hspecial

/-- An expression between two texts is taken for one, and a word for a number. -/
theorem read_expression :
    read (.text "'a' || 'b'") = .text "a' || 'b" ∧ read (.text "nan") = .double .nan ∧
    ¬TakesOnlyLiterals (Text.trim "'a' || 'b'".toList) (read (.text "'a' || 'b'")) ∧
    ¬TakesOnlyLiterals (Text.trim "nan".toList) (read (.text "nan")) := by
  have hquotes : read (.text "'a' || 'b'") = .text "a' || 'b" := by rfl
  have hword : read (.text "nan") = .double .nan := by rfl
  refine ⟨hquotes, hword, fun h => ?_, fun h => ?_⟩
  · exact absurd (h.text _ hquotes) (by unfold IsQuoted; decide)
  · obtain ⟨negative, d, htext, -⟩ := h.double _ hword
    exact htext.not_special (x := .nan) (.intro .none .nan)

/-! ## Literals that were written -/

/-- The values that have a literal of their own. -/
def Survives : Value → Prop
  | .null | .int _ | .text _ => True
  | .double x => x.isFinite = true
  | .bool _ | .bytes _ => False

/-- Blanks around a text are cut off, and nothing else. -/
theorem trim_append {before after : List Char} (hbefore : ∀ c ∈ before, Text.isBlank c = true)
    (hafter : ∀ c ∈ after, Text.isBlank c = true) (hne : cs ≠ [])
    (hhead : ∀ c ∈ cs.head?, Text.isBlank c = false)
    (hlast : ∀ c ∈ cs.getLast?, Text.isBlank c = false) :
    Text.trim (before ++ cs ++ after) = cs := by
  have hfront : ∀ c ∈ (cs ++ after).head?, Text.isBlank c = false := by
    rwa [List.head?_append_of_ne_nil _ hne]
  have hback : ∀ c ∈ after.reverse, Text.isBlank c = true := fun c hc =>
    hafter c (List.mem_reverse.1 hc)
  rw [← List.head?_reverse] at hlast
  unfold Text.trim
  rw [List.append_assoc, (span_append hbefore hfront).2, List.reverse_append,
    (span_append hback hlast).2, List.reverse_reverse]

theorem textLiteral_sqlite (cs : List Char) :
    Dialect.sqlite.textLiteral cs = Text.quoted '\'' cs := by
  have hchar : Dialect.sqlite.textChar = fun c => if c = '\'' then [c, c] else [c] := by
    funext c
    unfold Dialect.textChar
    split
    · rename_i hc
      rw [hc]
    · rfl
  rw [Dialect.textLiteral, hchar]
  rfl

/-- With blanks around it, a literal is still read as its value. -/
theorem read_blanks {before literal after : String}
    (hbefore : ∀ c ∈ before.toList, Text.isBlank c = true)
    (hafter : ∀ c ∈ after.toList, Text.isBlank c = true) (hne : literal.toList ≠ [])
    (hhead : ∀ c ∈ literal.toList.head?, Text.isBlank c = false)
    (hlast : ∀ c ∈ literal.toList.getLast?, Text.isBlank c = false) :
    read (.text (before ++ literal ++ after)) = readText literal.toList := by
  rw [read, String.toList_append, String.toList_append,
    trim_append hbefore hafter hne hhead hlast]

/-- A number has no blanks at its ends. -/
theorem read_number {before literal after : String} {negative : Bool} {d : Decimal}
    (hbefore : ∀ c ∈ before.toList, Text.isBlank c = true)
    (hafter : ∀ c ∈ after.toList, Text.isBlank c = true)
    (h : RealText literal.toList negative d) :
    read (.text (before ++ literal ++ after)) = readText literal.toList := by
  refine read_blanks hbefore hafter ?_ (fun c hc => h.not_isBlank c (List.mem_of_mem_head? hc))
    fun c hc => h.not_isBlank c (List.mem_of_mem_getLast? hc)
  obtain ⟨c, rest, hcs, -⟩ := h.head
  rw [hcs]
  exact List.cons_ne_nil c rest

/-- A quoted text has no blanks at its ends, whatever the text is. -/
theorem read_quoted {before literal after : String}
    (hbefore : ∀ c ∈ before.toList, Text.isBlank c = true)
    (hafter : ∀ c ∈ after.toList, Text.isBlank c = true) (h : IsQuoted s literal.toList) :
    read (.text (before ++ literal ++ after)) = .text s := by
  have hends : literal.toList = '\'' :: (Text.double '\'' s.toList ++ ['\'']) := h
  rw [read_blanks hbefore hafter, readText_quoted h]
  · rw [hends]
    exact List.cons_ne_nil _ _
  · rw [hends]
    rintro _ ⟨⟩
    rfl
  · rw [hends, ← List.cons_append, List.getLast?_concat]
    rintro _ ⟨⟩
    rfl

theorem integerText_toString (z : ℤ) : IntegerText (toString z).toList z := by
  have hdigits : Digits (Nat.toDigits 10 z.natAbs) := fun c hc =>
    Nat.isDigit_of_mem_toDigits (by norm_num) le_rfl hc
  rw [Lexis.toList_toString_int]
  by_cases hz : z < 0
  · have h := IntegerText.intro .minus Nat.toDigits_ne_nil hdigits
    rw [natOfDigits_toDigits, signed, if_pos rfl, show -(z.natAbs : ℤ) = z by omega] at h
    rwa [if_pos hz]
  · have h := IntegerText.intro .none Nat.toDigits_ne_nil hdigits
    rw [natOfDigits_toDigits, signed, if_neg Bool.false_ne_true,
      show (z.natAbs : ℤ) = z by omega] at h
    rwa [if_neg hz]

theorem isFinite_of_special (h : SpecialText cs x) : x.isFinite = false := by
  obtain @⟨_, word, negative, _, -, hnames⟩ := h
  generalize word.map Char.toLower = name at hnames
  cases hnames
  · cases negative <;> rfl
  · cases negative <;> rfl
  · rfl

/-- A point or the mark of an exponent is in a numeral that has one. -/
theorem exists_mem_numeral {n : Numeral}
    (h : n.fraction.isSome = true ∨ n.exponent.isSome = true) :
    ∃ c ∈ n.text, c = '.' ∨ c = 'e' := by
  obtain ⟨whole, fraction, exponent⟩ := n
  cases fraction with
  | some fraction => exact ⟨'.', by simp [Numeral.text, Numeral.tail], .inl rfl⟩
  | none =>
    cases exponent with
    | some exponent =>
      exact ⟨'e', by simp [Numeral.text, Numeral.tail, Numeral.exponentText], .inr rfl⟩
    | none => simp at h

/-- The literal of a finite double is a number that is nearest to the double, and no integer. -/
theorem realText_double (hx : x.isFinite = true) :
    (∃ negative d, RealText (Dialect.doubleLayout.text x).toList negative d ∧
      nearestBinary64 negative d.digits d.exponent = x) ∧
    ∀ n : Int64, ¬IntegerText (Dialect.doubleLayout.text x).toList n.toInt := by
  constructor
  · obtain hspecial | hreal := readBinary64_eq_some.1 (readBinary64_text Dialect.doubleLayout hx)
    · exact absurd hx (by rw [isFinite_of_special hspecial]; exact Bool.false_ne_true)
    · exact hreal
  · intro n hint
    obtain ⟨numeral, htext, -, -, hpoint⟩ := Dialect.doubleLayout.text_spells hx
    obtain ⟨c, hc, hmark⟩ := exists_mem_numeral (hpoint rfl)
    have hchar := hint.mem c (by rw [htext]; exact List.mem_append_right _ hc)
    revert hchar
    obtain rfl | rfl := hmark
    all_goals decide

/-- Reading never gives bytes. -/
theorem readText_ne_bytes (cs : List Char) (bs : List UInt8) : readText cs ≠ .bytes bs := by
  intro h
  have hreads := reads cs
  rw [h] at hreads
  cases hreads

/-- **A default is read back from its literal**, whatever blanks are around it, if and only if it is
null, an integer, a finite double or a text.  Truth values are written as integers, bytes as
something that is no literal here, and other doubles have none. -/
theorem default_survives_quoting (v : Value) : Survives v ↔
    ∃ literal, Dialect.sqlite.literal v = .ok literal ∧ ∀ before after : String,
      (∀ c ∈ before.toList, Text.isBlank c = true) → (∀ c ∈ after.toList, Text.isBlank c = true) →
      read (.text (before ++ literal ++ after)) = v := by
  cases v with
  | null =>
    refine iff_of_true trivial ⟨"NULL", rfl, fun before after hbefore hafter => ?_⟩
    have hword : IsWord "null" "NULL".toList := rfl
    rw [read_blanks hbefore hafter (by decide), readText_null hword]
    · rintro _ ⟨⟩
      rfl
    · rintro _ ⟨⟩
      rfl
  | int n =>
    refine iff_of_true trivial ⟨toString n.toInt, rfl, fun before after hbefore hafter => ?_⟩
    have hint := integerText_toString n.toInt
    obtain ⟨negative, k, hreal, -⟩ := hint.realText
    rw [read_number hbefore hafter hreal, readText_int hint]
  | text s =>
    have hquoted : IsQuoted s (String.ofList (Dialect.sqlite.textLiteral s.toList)).toList := by
      rw [String.toList_ofList, textLiteral_sqlite]
      rfl
    exact iff_of_true trivial ⟨_, rfl, fun before after hbefore hafter =>
      read_quoted hbefore hafter hquoted⟩
  | double x =>
    change x.isFinite = true ↔ ∃ literal, (if x.isFinite then _ else _) = _ ∧ _
    cases hx : x.isFinite with
    | true =>
      refine iff_of_true rfl ⟨_, if_pos rfl, fun before after hbefore hafter => ?_⟩
      obtain ⟨⟨negative, d, hreal, hnearest⟩, hint⟩ := realText_double hx
      rw [read_number hbefore hafter hreal, readText_double hreal hint, hnearest]
    | false =>
      refine iff_of_false Bool.false_ne_true ?_
      rintro ⟨literal, hliteral, -⟩
      cases hliteral
  | bool b =>
    refine iff_of_false id ?_
    rintro ⟨literal, hliteral, hread⟩
    have hvalue := hread "" "" nofun nofun
    cases b with
    | true =>
      obtain rfl := Except.ok.inj hliteral
      cases hvalue
    | false =>
      obtain rfl := Except.ok.inj hliteral
      cases hvalue
  | bytes bs =>
    refine iff_of_false id ?_
    rintro ⟨literal, -, hread⟩
    exact readText_ne_bytes _ bs (hread "" "" nofun nofun)

end DeclaredDefault
end LinkedRows
