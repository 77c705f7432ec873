/-
# Dialects

How the three SQL dialects write names and literals.

| | PostgreSQL | SQLite | MySQL |
| --- | --- | --- | --- |
| name | `"a""b"` | `"a""b"` | a, doubled backtick, b between backticks |
| truth values | `TRUE`, `FALSE` | `1`, `0` | `TRUE`, `FALSE` |
| text | `'it''s'` | `'it''s'` | `'it''s'`, and `\\`, `\0`, `\n`, `\r`, `\Z` |
| bytes | `X'00AB'` | `X'00AB'` | `X'00AB'` |

A name or a text cannot leave its quotes: the only quote inside is doubled.  A double is written
with the fewest digits that read back and always has a point or an exponent; infinities and
not-a-number have no literal.
-/

import LinkedRows.Text.Quoted
import LinkedRows.Value

namespace LinkedRows

/-- An SQL dialect. -/
inductive Dialect where
  | postgres
  | sqlite
  | mysql
deriving DecidableEq, Repr, Inhabited

/-- A name in double quotes, as the standard has it. -/
def doubleQuoted (name : String) : String := String.ofList (Text.quoted '"' name.toList)

/-- A name in backticks. -/
def backquoted (name : String) : String := String.ofList (Text.quoted '\x60' name.toList)

namespace Dialect

/-- A name of a table or column. -/
def name (dialect : Dialect) (s : String) : String :=
  match dialect with
  | .postgres | .sqlite => doubleQuoted s
  | .mysql => backquoted s

/-- How a character of a text is written between the quotes. -/
def textChar (dialect : Dialect) (c : Char) : List Char :=
  if c = '\'' then ['\'', '\'']
  else if dialect = .mysql then
    if c = '\\' then ['\\', '\\']
    else if c = '\x00' then ['\\', '0']
    else if c = '\n' then ['\\', 'n']
    else if c = '\r' then ['\\', 'r']
    else if c = '\x1a' then ['\\', 'Z']
    else [c]
  else [c]

def textLiteral (dialect : Dialect) (cs : List Char) : List Char :=
  '\'' :: cs.flatMap dialect.textChar ++ ['\'']

/-- Two digits for each byte, the higher half first. -/
def hexDigits (bytes : List UInt8) : List Char :=
  bytes.flatMap fun b =>
    [Nat.digitChar (b.toNat / 16), Nat.digitChar (b.toNat % 16)].map Char.toUpper

def bytesLiteral (bytes : List UInt8) : List Char :=
  'X' :: '\'' :: hexDigits bytes ++ ['\'']

/-- Doubles in statements: positional from `1e-4` up to `1e16`, and never without a point or an
exponent, so that they stay doubles. -/
def doubleLayout : Decimal.Layout where
  positional := some (-4, 16)
  wholePoint := true
  plusSign := false
  tie := .up

/-- The literal of a value. -/
def literal (dialect : Dialect) : Value → Except Fault String
  | .null => .ok "NULL"
  | .bool b =>
    match dialect, b with
    | .sqlite, true => .ok "1"
    | .sqlite, false => .ok "0"
    | _, true => .ok "TRUE"
    | _, false => .ok "FALSE"
  | .int n => .ok (toString n.toInt)
  | .double x =>
    if x.isFinite then .ok (doubleLayout.text x)
    else .error (.type ⟨"finite double", Decimal.plainLayout.text x, none⟩)
  | .text s => .ok (String.ofList (dialect.textLiteral s.toList))
  | .bytes bs => .ok (String.ofList (bytesLiteral bs))

end Dialect
end LinkedRows
