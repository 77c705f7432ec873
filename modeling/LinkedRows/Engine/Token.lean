/-
# Tokens

The text of a command cut into lexemes, the longest first:

| lexeme | form |
| --- | --- |
| gap | blanks, `-- …` up to the end of the line, or a comment between `/*` and `*/` |
| word | a letter, `_` or a character beyond ASCII, then these, digits and `$` |
| name | `"…"`, `[…]` or between backticks |
| text | `'…'` |
| bytes | `x'…'` with an even number of hexadecimal digits |
| number | digits with a point, an exponent or neither, or `0x` and hexadecimal digits |
| grouped | a number with `_` among its digits |
| parameter | `?`, then digits, or one of `:`, `@`, `$`, `#` and a word |
| mark | one to three characters |

A quote inside quotes is written twice, except in brackets.  Whatever has no such form is
unreadable, which matters only where it is read.  Lexemes put together give the text again; a token
is a lexeme with the gap after it.
-/

import LinkedRows.Engine.Numeral
import LinkedRows.Text.Quoted

namespace LinkedRows
namespace Engine

/-- The forms of lexemes. -/
inductive Form where
  | gap
  | word
  | name
  | text
  | bytes
  | number
  | grouped
  | parameter
  | mark
  | unreadable
deriving DecidableEq, Repr

/-- A piece of a text and its form. -/
structure Lexeme where
  form : Form
  spelling : List Char
deriving DecidableEq, Repr

/-- A lexeme that is no gap, and the gap after it. -/
structure Token where
  form : Form
  spelling : List Char
  gap : List Char
deriving DecidableEq, Repr

namespace Lexeme

/-- The characters that gaps begin with; any `Numeral.isSpace` may follow. -/
def isBlank (c : Char) : Bool := Numeral.isSpace c && c != '\x0b'

def isHex (c : Char) : Bool :=
  c.isDigit || ('a' ≤ c && c ≤ 'f') || ('A' ≤ c && c ≤ 'F')

/-- The characters that words begin with. -/
def isWordStart (c : Char) : Bool := c.isAlpha || c == '_' || 128 ≤ c.toNat

/-- The characters that words go on with. -/
def isWordChar (c : Char) : Bool := isWordStart c || c.isDigit || c == '$'

/-- How many characters lead up to and include the closing quote, if there is one. -/
def quoted? (quote : Char) : List Char → Option Nat
  | [] => none
  | [c] => if c = quote then some 1 else none
  | c :: d :: cs =>
    if c = quote then
      if d = quote then (quoted? quote cs).map (· + 2) else some 1
    else (quoted? quote (d :: cs)).map (· + 1)

/-- How many characters lead up to and include a closing bracket, if there is one. -/
def bracketed? (cs : List Char) : Option Nat :=
  let inside := cs.takeWhile (· != ']')
  if inside.length < cs.length then some (inside.length + 1) else none

/-- How many characters a comment has after `/*`; one that is not closed goes on to the end. -/
def commentExtent : List Char → Nat
  | '*' :: '/' :: _ => 2
  | _ :: cs => commentExtent cs + 1
  | [] => 0

/-- The characters of a whole part or a fraction. -/
def isPlace (c : Char) : Bool := c.isDigit || c == '_'

/-- How many characters the exponent at the start has. -/
def exponentExtent : List Char → Nat
  | e :: cs =>
    let sign := if cs.head? = some '+' ∨ cs.head? = some '-' then 1 else 0
    let rest := cs.drop sign
    if (e = 'e' ∨ e = 'E') ∧ rest.head?.any Char.isDigit then
      1 + sign + (rest.takeWhile isPlace).length
    else 0
  | [] => 0

/-- How many characters the decimal number at the start has. -/
def decimalExtent (cs : List Char) : Nat :=
  let whole := (cs.takeWhile isPlace).length
  let fraction :=
    match cs.drop whole with
    | '.' :: rest => 1 + (rest.takeWhile isPlace).length
    | _ => 0
  whole + fraction + exponentExtent (cs.drop (whole + fraction))

/-- How many characters the number at the start has. -/
def numberExtent : List Char → Nat
  | '0' :: x :: cs =>
    if (x = 'x' ∨ x = 'X') ∧ cs.head?.any isHex then
      2 + (cs.takeWhile fun c => isHex c || c == '_').length
    else decimalExtent ('0' :: x :: cs)
  | cs => decimalExtent cs

/-- The number at the start, unreadable if a word follows at once. -/
def number (cs : List Char) : Form × Nat :=
  let extent := numberExtent cs
  let tail := ((cs.drop extent).takeWhile isWordChar).length
  if 0 < tail then (.unreadable, extent + tail)
  else (if (cs.take extent).contains '_' then .grouped else .number, extent)

/-- How many characters the name of a parameter has, and whether it is one: at least one character
of a word, `::` anywhere, and at the end parentheses without a blank in them. -/
def parameterExtent : (named : Bool) → List Char → Nat × Bool
  | named, ':' :: ':' :: cs =>
    let (n, ok) := parameterExtent named cs
    (n + 2, ok)
  | named, c :: cs =>
    if isWordChar c then
      let (n, ok) := parameterExtent true cs
      (n + 1, ok)
    else if c = '(' ∧ named then
      let inside := (cs.takeWhile fun c => !Numeral.isSpace c && c != ')').length
      if (cs.drop inside).head? = some ')' then (inside + 2, true) else (inside + 1, false)
    else (0, named)
  | named, [] => (0, named)

/-- The bytes at the start, after `x'`. -/
def bytes (cs : List Char) : Form × Nat :=
  let digits := (cs.takeWhile isHex).length
  if cs[digits]? = some '\'' ∧ digits % 2 = 0 then (.bytes, digits + 1)
  else
    let inside := (cs.takeWhile (· != '\'')).length
    (.unreadable, min cs.length (inside + 1))

/-- A lexeme that ends with its quote, unreadable if the quote is missing. -/
def closed (form : Form) (extent : Option Nat) (rest : List Char) : Form × Nat :=
  match extent with
  | some n => (form, n)
  | none => (.unreadable, rest.length)

/-- The marks of two characters. -/
def isLongMark (c d : Char) : Bool :=
  match c, d with
  | '=', '=' | '<', '=' | '<', '>' | '<', '<' | '>', '=' | '>', '>' | '!', '=' | '|', '|' => true
  | _, _ => false

/-- The form of a lexeme of which nothing but the first character is known to be a mark. -/
def mark (c : Char) (cs : List Char) : Form × Nat :=
  if c = '-' ∧ cs.head? = some '>' then (.mark, if cs[1]? = some '>' then 2 else 1)
  else if cs.head?.any (isLongMark c) then (.mark, 1)
  else if "()-+*/%=<>|&~,.;".toList.contains c then (.mark, 0)
  else (.unreadable, 0)

/-- The form of the lexeme that starts with `c`, and how many of the characters after it are its. -/
def leading (c : Char) (cs : List Char) : Form × Nat :=
  if isBlank c then (.gap, (cs.takeWhile Numeral.isSpace).length)
  else if c = '\uFEFF' then (.gap, 0)
  else if c = '-' ∧ cs.head? = some '-' then (.gap, (cs.takeWhile (· != '\n')).length)
  else if c = '/' ∧ cs.head? = some '*' ∧ 1 < cs.length then (.gap, 1 + commentExtent (cs.drop 1))
  else if c = '\'' then closed .text (quoted? c cs) cs
  else if c = '"' ∨ c = '\x60' then closed .name (quoted? c cs) cs
  else if c = '[' then closed .name (bracketed? cs) cs
  else if c.isDigit ∨ (c = '.' ∧ cs.head?.any Char.isDigit) then
    let (form, n) := number (c :: cs)
    (form, n - 1)
  else if c = '?' then (.parameter, (cs.takeWhile Char.isDigit).length)
  else if c = ':' ∨ c = '@' ∨ c = '$' ∨ c = '#' then
    let (n, ok) := parameterExtent false cs
    (if ok then .parameter else .unreadable, n)
  else if (c = 'x' ∨ c = 'X') ∧ cs.head? = some '\'' then
    let (form, n) := bytes (cs.drop 1)
    (form, n + 1)
  else if isWordStart c then (.word, (cs.takeWhile isWordChar).length)
  else mark c cs

/-- The lexemes of a text. -/
def split : List Char → List Lexeme
  | [] => []
  | c :: cs =>
    let (form, extent) := leading c cs
    ⟨form, c :: cs.take extent⟩ :: split (cs.drop extent)
termination_by cs => cs.length
decreasing_by simp only [List.length_drop, List.length_cons]; omega

/-- Lexemes put together are the text. -/
theorem flatMap_spelling_split (cs : List Char) : (split cs).flatMap spelling = cs := by
  fun_induction split cs with
  | case1 => rfl
  | case2 c cs form extent _ ih => simp [ih]

end Lexeme

namespace Token

/-- The tokens of lexemes, and the gap before the first of them. -/
def ofLexemes (lexemes : List Lexeme) : List Token × List Char :=
  lexemes.foldr
    (fun lexeme (tokens, gap) =>
      if lexeme.form = .gap then (tokens, lexeme.spelling ++ gap)
      else (⟨lexeme.form, lexeme.spelling, gap⟩ :: tokens, []))
    ([], [])

/-- The tokens of a text. -/
def read (text : String) : List Token := (ofLexemes (Lexeme.split text.toList)).1

/-- The spelling as a text. -/
def shown (t : Token) : String := String.ofList t.spelling

/-- A word in lower case; other tokens are no words. -/
def word? (t : Token) : Option String :=
  if t.form = .word then some (String.ofList (t.spelling.map Char.toLower)) else none

def isMark (t : Token) (mark : String) : Bool := t.form = .mark && t.spelling == mark.toList

/-- What stands between the quotes of a name or a text; other tokens are as they are. -/
def content (t : Token) : String :=
  match t.form, t.spelling with
  | .name, '[' :: rest => String.ofList rest.dropLast
  | .name, quote :: rest | .text, quote :: rest => String.ofList (Text.undouble quote rest.dropLast)
  | _, spelling => String.ofList spelling

/-- Characters as a text, without the blanks at both ends. -/
def trimmed (cs : List Char) : String :=
  String.ofList ((cs.dropWhile Numeral.isSpace).reverse.dropWhile Numeral.isSpace).reverse

/-- Tokens as a text, with the gaps after them. -/
def spanText (tokens : List Token) : String :=
  trimmed (tokens.flatMap fun t => t.spelling ++ t.gap)

/-- Tokens as a text, with the gaps between them. -/
def innerText (tokens : List Token) : String :=
  match tokens.reverse with
  | [] => ""
  | last :: before =>
    String.ofList ((before.reverse.flatMap fun t => t.spelling ++ t.gap) ++ last.spelling)

end Token
end Engine
end LinkedRows
