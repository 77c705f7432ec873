/-
# Declared defaults

A database reports the default of a column as the text of its declaration.  Between blanks, a
quoted string, an integer, a number or one of the words `true`, `false` and `null` in any case is
a value; any other text is an expression, which the database evaluates when it inserts, and counts
as no default.
-/

import LinkedRows.Text.Quoted
import LinkedRows.Value

namespace LinkedRows
namespace DeclaredDefault

/-- The characters between a quote at the start and another one at the end. -/
def betweenQuotes? : List Char → Option (List Char)
  | '\'' :: cs => if cs.getLast? = some '\'' then some cs.dropLast else none
  | _ => none

/-- The value that the text of a declaration spells. -/
def readText (cs : List Char) : Value :=
  match betweenQuotes? cs with
  | some inner => .text (String.ofList (Text.undouble '\'' inner))
  | none =>
    let word := String.ofList (cs.map Char.toLower)
    if word = "null" then .null
    else if word = "true" then .bool true
    else if word = "false" then .bool false
    else
      match Decimal.readInt64 cs, Decimal.readBinary64 cs with
      | some n, _ => .int n
      | none, some x => .double x
      | none, none => .null

/-- The value of a reported default; what is not a text is itself. -/
def read : Value → Value
  | .text s => readText (Text.trim s.toList)
  | v => v

end DeclaredDefault
end LinkedRows
