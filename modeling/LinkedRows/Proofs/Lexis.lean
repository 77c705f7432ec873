/-
# The lexis of statements

How a database cuts the text of a statement into tokens:

| token | form |
| --- | --- |
| mark | `(`, `)`, `,` or `=` |
| name | between the dialect's quotes, a quote inside written twice |
| text | between `'`, a quote inside written twice; in MySQL also with backslash escapes |
| bytes | `X'…'` with two hexadecimal digits for each byte |
| number | perhaps a minus sign, then a numeral; a double if it has a point or an exponent |
| word | letters, digits and `_`; `NULL`, `TRUE` and `FALSE` are values |

Blanks separate tokens, and a token other than a mark must be followed by a blank, a mark or the
end.  Whatever else a text holds, such as a comment, a semicolon or a quote that is not closed, is
no token: then the text cannot be read.

Pieces of a statement are read apart from what follows them (`Reads`), so what a statement reads as
is put together from what its pieces read as.
-/

import LinkedRows.Proofs.Decimal.RoundTrip
import LinkedRows.Proofs.SelectionText
import Mathlib.Data.List.Forall2

namespace LinkedRows
namespace Lexis

/-- What a statement is made of. -/
inductive Token where
  | word (spelling : String)
  | name (name : String)
  | mark (c : Char)
  | value (v : Value)
deriving DecidableEq, Repr

def isBlank (c : Char) : Bool := c == ' ' || c == '\t' || c == '\n' || c == '\r'

def isMark (c : Char) : Bool := c == '(' || c == ')' || c == ',' || c == '='

def isWordChar (c : Char) : Bool := c.isAlphanum || c == '_'

/-- May a token other than a mark end here? -/
def ended (rest : List Char) : Bool := rest.head?.all fun c => isBlank c || isMark c

/-- What a character stands for after a backslash. -/
def escaped : Char → List Char
  | '0' => ['\x00']
  | 'b' => ['\x08']
  | 'n' => ['\n']
  | 'r' => ['\r']
  | 't' => ['\t']
  | 'Z' => ['\x1a']
  | '%' => ['\\', '%']
  | '_' => ['\\', '_']
  | c => [c]

/-- What stands before the closing quote, and what follows it. -/
def quoted? (quote : Char) (escapes : Bool) : List Char → Option (List Char × List Char)
  | [] => none
  | [c] => if c = quote then some ([], []) else none
  | c :: d :: cs =>
    if c = quote then
      if d = quote then (quoted? quote escapes cs).map fun p => (quote :: p.1, p.2)
      else some ([], d :: cs)
    else if escapes && c == '\\' then
      (quoted? quote escapes cs).map fun p => (escaped d ++ p.1, p.2)
    else (quoted? quote escapes (d :: cs)).map fun p => (c :: p.1, p.2)

/-- The value of a hexadecimal digit. -/
def hexValue? (c : Char) : Option Nat :=
  if c.isDigit then some (c.toNat - '0'.toNat)
  else if 'A' ≤ c ∧ c ≤ 'F' then some (c.toNat - 'A'.toNat + 10)
  else if 'a' ≤ c ∧ c ≤ 'f' then some (c.toNat - 'a'.toNat + 10)
  else none

/-- The bytes that hexadecimal digits spell. -/
def bytes? : List Char → Option (List UInt8)
  | [] => some []
  | [_] => none
  | c :: d :: cs => do
    let high ← hexValue? c
    let low ← hexValue? d
    let bytes ← bytes? cs
    return UInt8.ofNat (16 * high + low) :: bytes

/-- The sign at the start, if there is one, and what follows it. -/
def takeSign : List Char → Option Char × List Char
  | '-' :: cs => (some '-', cs)
  | '+' :: cs => (some '+', cs)
  | cs => (none, cs)

/-- The exponent at the start, if there is one with digits, and what follows it. -/
def takeExponent : List Char → Option (Option Char × List Char) × List Char
  | e :: cs =>
    let (sign, rest) := takeSign cs
    if (e = 'e' ∨ e = 'E') ∧ rest.head?.any Char.isDigit then
      (some (sign, rest.takeWhile Char.isDigit), rest.dropWhile Char.isDigit)
    else (none, e :: cs)
  | [] => (none, [])

/-- The fraction at the start, if there is a point, and what follows it. -/
def takeFraction : List Char → Option (List Char) × List Char
  | '.' :: cs => (some (cs.takeWhile Char.isDigit), cs.dropWhile Char.isDigit)
  | cs => (none, cs)

/-- The numeral at the start and what follows it. -/
def takeNumeral (cs : List Char) : Decimal.Numeral × List Char :=
  let (fraction, rest) := takeFraction (cs.dropWhile Char.isDigit)
  let (exponent, rest) := takeExponent rest
  (⟨cs.takeWhile Char.isDigit, fraction, exponent⟩, rest)

/-- The number that a numeral stands for: an integer if it has neither a point nor an exponent. -/
def numberValue? (negative : Bool) (n : Decimal.Numeral) : Option Value :=
  if n.fraction.isNone && n.exponent.isNone then
    let size : Int := Decimal.natOfDigits 0 n.whole
    (int64? (if negative then -size else size)).map .int
  else
    some (.double (Decimal.nearestBinary64 negative n.toDecimal.digits n.toDecimal.exponent))

/-- The number at the start, its sign taken off before, and what follows it. -/
def number? (negative : Bool) (cs : List Char) : Option (Token × List Char) :=
  let (n, rest) := takeNumeral cs
  (numberValue? negative n).map fun v => (.value v, rest)

/-- A word, which may be that of a value. -/
def wordToken (cs : List Char) : Token :=
  match String.ofList cs with
  | "NULL" => .value .null
  | "TRUE" => .value (.bool true)
  | "FALSE" => .value (.bool false)
  | spelling => .word spelling

/-- The token, not a mark, that starts with `c`, and what follows it. -/
def lexeme? (dialect : Dialect) (c : Char) (cs : List Char) : Option (Token × List Char) :=
  if c = '\'' then
    (quoted? c (dialect = .mysql) cs).map fun p => (.value (.text (String.ofList p.1)), p.2)
  else if c = dialect.quote then
    (quoted? c false cs).map fun p => (.name (String.ofList p.1), p.2)
  else if c = 'X' ∧ cs.head? = some '\'' then
    (quoted? '\'' false cs.tail).bind fun p =>
      (bytes? p.1).map fun bytes => (.value (.bytes bytes), p.2)
  else if c.isDigit then number? false (c :: cs)
  else if c = '-' ∧ cs.head?.any Char.isDigit then number? true cs
  else if c.isAlpha then some (wordToken (c :: cs.takeWhile isWordChar), cs.dropWhile isWordChar)
  else none

/-- The token that starts with `c` and what follows it. -/
def token? (dialect : Dialect) (c : Char) (cs : List Char) : Option (Token × List Char) :=
  if isMark c then some (.mark c, cs) else (lexeme? dialect c cs).filter fun p => ended p.2

/-! ## Tokens are not empty -/

theorem length_le_of_quoted? {quote : Char} {escapes : Bool} {cs text rest : List Char}
    (h : quoted? quote escapes cs = some (text, rest)) : rest.length ≤ cs.length := by
  fun_induction quoted? quote escapes cs generalizing text with
  | case1 => cases h
  | case2 => simp_all
  | case3 => cases h
  | case4 cs ih =>
    obtain ⟨p, hp, heq⟩ := Option.map_eq_some_iff.1 h
    cases heq
    have := ih hp
    simp only [List.length_cons]
    omega
  | case5 => cases h; simp
  | case6 c d cs _ _ ih =>
    obtain ⟨p, hp, heq⟩ := Option.map_eq_some_iff.1 h
    cases heq
    have := ih hp
    simp only [List.length_cons]
    omega
  | case7 c d cs _ _ ih =>
    obtain ⟨p, hp, heq⟩ := Option.map_eq_some_iff.1 h
    cases heq
    have := ih hp
    simp only [List.length_cons] at this ⊢
    omega

theorem length_dropWhile_le (p : Char → Bool) (cs : List Char) :
    (cs.dropWhile p).length ≤ cs.length := (List.dropWhile_sublist p).length_le

theorem length_takeSign_le (cs : List Char) : (takeSign cs).2.length ≤ cs.length := by
  unfold takeSign
  split
  · exact Nat.le_succ _
  · exact Nat.le_succ _
  · exact le_rfl

theorem length_takeExponent_le (cs : List Char) : (takeExponent cs).2.length ≤ cs.length := by
  cases cs with
  | nil => exact le_rfl
  | cons e cs =>
    unfold takeExponent
    dsimp only
    split
    · exact ((length_dropWhile_le _ _).trans (length_takeSign_le cs)).trans (Nat.le_succ _)
    · exact le_rfl

theorem length_takeFraction_le (cs : List Char) : (takeFraction cs).2.length ≤ cs.length := by
  unfold takeFraction
  split
  · exact (length_dropWhile_le _ _).trans (Nat.le_succ _)
  · exact le_rfl

theorem length_takeNumeral_le (cs : List Char) :
    (takeNumeral cs).2.length ≤ (cs.dropWhile Char.isDigit).length :=
  (length_takeExponent_le _).trans (length_takeFraction_le _)

theorem length_le_of_number? {negative : Bool} {cs rest : List Char} {t : Token}
    (h : number? negative cs = some (t, rest)) :
    rest.length ≤ (cs.dropWhile Char.isDigit).length := by
  obtain ⟨v, -, heq⟩ := Option.map_eq_some_iff.1 h
  cases heq
  exact length_takeNumeral_le cs

theorem length_le_of_lexeme? {dialect : Dialect} {c : Char} {cs rest : List Char} {t : Token}
    (h : lexeme? dialect c cs = some (t, rest)) : rest.length ≤ cs.length := by
  unfold lexeme? at h
  split at h
  · obtain ⟨p, hp, heq⟩ := Option.map_eq_some_iff.1 h
    cases heq
    exact length_le_of_quoted? hp
  split at h
  · obtain ⟨p, hp, heq⟩ := Option.map_eq_some_iff.1 h
    cases heq
    exact length_le_of_quoted? hp
  split at h
  · obtain ⟨p, hp, h⟩ := Option.bind_eq_some_iff.1 h
    obtain ⟨bytes, -, heq⟩ := Option.map_eq_some_iff.1 h
    cases heq
    exact (length_le_of_quoted? hp).trans (by simp)
  split at h
  · rename_i hdigit
    refine (length_le_of_number? h).trans ?_
    rw [List.dropWhile_cons_of_pos hdigit]
    exact length_dropWhile_le _ _
  split at h
  · exact (length_le_of_number? h).trans (length_dropWhile_le _ _)
  split at h
  · cases h
    exact length_dropWhile_le _ _
  · cases h

theorem length_le_of_token? {dialect : Dialect} {c : Char} {cs rest : List Char} {t : Token}
    (h : token? dialect c cs = some (t, rest)) : rest.length ≤ cs.length := by
  unfold token? at h
  split at h
  · cases h
    exact le_rfl
  · exact length_le_of_lexeme? (Option.filter_eq_some_iff.1 h).1

/-- The tokens of a text, unless it cannot be read. -/
def tokens (dialect : Dialect) : List Char → Option (List Token)
  | [] => some []
  | c :: cs =>
    if isBlank c then tokens dialect cs
    else
      match _h : token? dialect c cs with
      | none => none
      | some (t, rest) => (tokens dialect rest).map (t :: ·)
termination_by cs => cs.length
decreasing_by
  · exact Nat.lt_succ_self _
  · exact Nat.lt_succ_of_le (length_le_of_token? _h)

/-! ## What a piece of a statement reads as -/

variable {dialect : Dialect} {cs ds : List Char} {ts us : List Token}

/-- What may follow a token in a statement. -/
def Follows (rest : List Char) : Prop := ∀ c ∈ rest.head?, c = ' ' ∨ c = ',' ∨ c = ')'

/-- Characters that are read as tokens, whatever follows. -/
def Reads (dialect : Dialect) (cs : List Char) (ts : List Token) : Prop :=
  ∀ rest, Follows rest → tokens dialect (cs ++ rest) = (tokens dialect rest).map (ts ++ ·)

theorem follows_nil : Follows [] := fun _ h => by cases h

theorem follows_blank (rest : List Char) : Follows (' ' :: rest) := by
  rintro _ ⟨⟩
  exact .inl rfl

theorem follows_comma (rest : List Char) : Follows (',' :: rest) := by
  rintro _ ⟨⟩
  exact .inr (.inl rfl)

theorem follows_close (rest : List Char) : Follows (')' :: rest) := by
  rintro _ ⟨⟩
  exact .inr (.inr rfl)

theorem Follows.ended {rest : List Char} (h : Follows rest) : ended rest = true := by
  cases rest with
  | nil => rfl
  | cons c rest =>
    obtain rfl | rfl | rfl := h c rfl
    all_goals rfl

theorem tokens_blank (rest : List Char) : tokens dialect (' ' :: rest) = tokens dialect rest := by
  rw [tokens]
  exact if_pos rfl

theorem tokens_of_token? {c : Char} {rest : List Char} {t : Token} (hblank : isBlank c = false)
    (h : token? dialect c cs = some (t, rest)) :
    tokens dialect (c :: cs) = (tokens dialect rest).map (t :: ·) := by
  rw [tokens, hblank, if_neg Bool.false_ne_true]
  split
  · rename_i heq
    rw [h] at heq
    cases heq
  · rename_i heq
    rw [h] at heq
    cases heq
    rfl

theorem tokens_mark {c : Char} (hmark : isMark c = true) (rest : List Char) :
    tokens dialect (c :: rest) = (tokens dialect rest).map (.mark c :: ·) := by
  refine tokens_of_token? ?_ (if_pos hmark)
  simp only [isMark, Bool.or_eq_true, beq_iff_eq] at hmark
  obtain ((rfl | rfl) | rfl) | rfl := hmark
  all_goals rfl

theorem Reads.tokens_eq (h : Reads dialect cs ts) : tokens dialect cs = some ts := by
  have := h [] follows_nil
  rwa [List.append_nil, tokens, Option.map_some, List.append_nil] at this

theorem Reads.blank (h : Reads dialect cs ts) (h' : Reads dialect ds us) :
    Reads dialect (cs ++ ' ' :: ds) (ts ++ us) := by
  intro rest hrest
  rw [List.append_assoc, List.cons_append, h _ (follows_blank _), tokens_blank, h' rest hrest,
    Option.map_map]
  simp [Function.comp_def]

theorem Reads.comma (h : Reads dialect cs ts) (h' : Reads dialect ds us) :
    Reads dialect (cs ++ ',' :: ' ' :: ds) (ts ++ .mark ',' :: us) := by
  intro rest hrest
  rw [List.append_assoc, List.cons_append, List.cons_append, h _ (follows_comma _),
    tokens_mark rfl, tokens_blank, h' rest hrest, Option.map_map, Option.map_map]
  simp [Function.comp_def]

theorem Reads.parentheses (h : Reads dialect cs ts) :
    Reads dialect ('(' :: cs ++ [')']) (.mark '(' :: ts ++ [.mark ')']) := by
  intro rest hrest
  rw [List.cons_append, List.cons_append, List.append_assoc, tokens_mark rfl, List.singleton_append,
    h _ (follows_close _), tokens_mark rfl, Option.map_map, Option.map_map]
  simp [Function.comp_def]

theorem reads_nil (dialect : Dialect) : Reads dialect [] [] := by
  intro rest _
  simp

/-- Pieces with commas between them. -/
theorem reads_intercalate {pieces : List (List Char)} {readings : List (List Token)}
    (h : List.Forall₂ (Reads dialect) pieces readings) :
    Reads dialect ([',', ' '].intercalate pieces) ([Token.mark ','].intercalate readings) := by
  induction h with
  | nil => exact reads_nil dialect
  | cons hpiece hlater ih =>
    cases hlater with
    | nil => simpa using hpiece
    | cons hnext hlater =>
      rw [List.intercalate_cons_cons, List.intercalate_cons_cons]
      simpa using hpiece.comma ih

/-- A token that is no mark. -/
theorem reads_lexeme {c : Char} {t : Token} (hblank : isBlank c = false) (hmark : isMark c = false)
    (h : ∀ rest, Follows rest → lexeme? dialect c (cs ++ rest) = some (t, rest)) :
    Reads dialect (c :: cs) [t] := by
  intro rest hrest
  refine tokens_of_token? hblank ?_
  rw [token?, hmark, if_neg Bool.false_ne_true]
  exact Option.filter_eq_some_iff.2 ⟨h rest hrest, hrest.ended⟩

end Lexis
end LinkedRows
