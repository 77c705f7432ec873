/-
# Expressions

An `Expr ν φ` has names of a type `ν` and calls of a type `φ`.  As written, names are mentions and a
call is a word; once they are resolved, a name is a place in a row and a call a function.

Whatever has arguments is `apply`, with a head that says what is made of them.
-/

import LinkedRows.Engine.Issue
import LinkedRows.Engine.Order

namespace LinkedRows
namespace Engine

/-- The operators on one argument.  `truth` asks whether it is true or false, or whether it is not;
what is nothing is neither. -/
inductive Unary where
  | negative
  | positive
  | complement
  | not
  | isNull
  | notNull
  | truth (expected negated : Bool)
deriving DecidableEq, Repr

/-- The operators between two arguments. -/
inductive Operator where
  | or
  | and
  | equal
  | unequal
  | same
  | notSame
  | less
  | atMost
  | greater
  | atLeast
  | bitAnd
  | bitOr
  | shiftLeft
  | shiftRight
  | plus
  | minus
  | times
  | divide
  | remainder
  | join
deriving DecidableEq, Repr

/-- What is made of arguments. -/
inductive Head (φ : Type) where
  | unary (op : Unary)
  | binary (op : Operator)
  /-- Is the first argument between the other two? -/
  | between
  /-- Is the first argument one of the others? -/
  | among
  /-- Conditions and results in turn, with a base before them and a last result after them. -/
  | choice (hasBase hasLast : Bool)
  | cast (affinity : Affinity)
  | collate (name : String)
  | call (function : φ)
  /-- Several values, which are no value together. -/
  | row
deriving DecidableEq, Repr

/-- An expression. -/
inductive Expr (ν φ : Type) where
  | literal (d : Datum)
  /-- A number as written, perhaps with a minus sign before it. -/
  | numeral (negative : Bool) (spelling : String)
  | parameter (number : Nat)
  | name (n : ν)
  | apply (head : Head φ) (arguments : List (Expr ν φ))
  /-- What can be read but has no meaning. -/
  | fault (issue : Issue)

/-- How a name is written: only a bare one can be a word like `TRUE`, only one in double quotes can
be a text. -/
inductive Quoting where
  | bare
  | double
  | other
deriving DecidableEq, Repr

/-- A name as written, with the names before it: those of a table and of a database. -/
structure Mention where
  qualifiers : List String
  name : String
  quoting : Quoting
deriving DecidableEq, Repr

/-- A call as written: `f(*)`, `f(DISTINCT …)` or `f(…)`. -/
structure Call where
  name : String
  distinct : Bool
  star : Bool
deriving DecidableEq, Repr

/-- How a term of a list is ordered; nothing may be asked to come first or last. -/
structure SortOrder where
  descending : Bool
  nullsLast : Option Bool
deriving DecidableEq, Repr

/-- An expression as written. -/
abbrev Phrase := Expr Mention Call

namespace Expr

variable {ν φ : Type}

/-- Applies an operator to one argument. -/
def unary (op : Unary) (e : Expr ν φ) : Expr ν φ := .apply (.unary op) [e]

/-- Applies an operator to two arguments. -/
def binary (op : Operator) (e f : Expr ν φ) : Expr ν φ := .apply (.binary op) [e, f]

/-- The expression after a minus sign; a number takes it into itself. -/
def negated : Expr ν φ → Expr ν φ
  | .numeral false spelling => .numeral true spelling
  | e => unary .negative e

mutual

/-- Does a test hold of some part of an expression? -/
def any (test : Expr ν φ → Bool) : Expr ν φ → Bool
  | .apply head arguments => test (.apply head arguments) || anyOf test arguments
  | e => test e

/-- Does a test hold of some part of some expression? -/
def anyOf (test : Expr ν φ → Bool) : List (Expr ν φ) → Bool
  | [] => false
  | e :: es => any test e || anyOf test es

end

mutual

/-- Are two expressions the same in all parts? -/
def same [DecidableEq ν] [DecidableEq φ] : Expr ν φ → Expr ν φ → Bool
  | .literal d, .literal e => d = e
  | .numeral a s, .numeral b t => a = b ∧ s = t
  | .parameter m, .parameter n => m = n
  | .name m, .name n => m = n
  | .apply h es, .apply k fs => h = k && allSame es fs
  | _, _ => false

/-- Are two lists of expressions the same? -/
def allSame [DecidableEq ν] [DecidableEq φ] : List (Expr ν φ) → List (Expr ν φ) → Bool
  | [], [] => true
  | e :: es, f :: fs => same e f && allSame es fs
  | _, _ => false

end

/-- Does a name that passes a test occur in an expression? -/
def mentions (p : ν → Bool) (e : Expr ν φ) : Bool :=
  e.any fun
    | .name n => p n
    | _ => false

end Expr

/-- Names are equal without regard to case in ASCII. -/
def sameName (a b : String) : Bool := a.toList.map Char.toLower == b.toList.map Char.toLower

/-- The word `TRUE` or `FALSE`, in any case. -/
def truthWord? (word : String) : Option Bool :=
  match word.map Char.toLower with
  | "true" => some true
  | "false" => some false
  | _ => none

/-- The truth value that a mention is if it is no column. -/
def Mention.truth? (m : Mention) : Option Bool :=
  if m.quoting = .bare ∧ m.qualifiers.isEmpty then truthWord? m.name else none

/-- The value of a number as written.  A hexadecimal one is the 64 bits that it spells. -/
def Numeral.value (negative : Bool) (spelling : String) : Except Issue Datum :=
  let signed := if negative then "-" ++ spelling else spelling
  let decimal : Datum :=
    let cs := signed.toList
    let whole := Numeral.whole cs
    if whole.isInteger then .integer whole.value else .real (Numeral.real cs).1
  match spelling.toList with
  | '0' :: x :: digits =>
    if x = 'x' ∨ x = 'X' then
      let n := natOfHex digits
      if pow2 64 ≤ n ∨ negative ∧ n = pow2 63 then .error (.hexTooLong signed)
      else .ok (.integer (if negative then -Int64.ofNat n else Int64.ofNat n))
    else .ok decimal
  | _ => .ok decimal

namespace Phrase

/-- An expression, or that it is not so. -/
def negateIf (negated : Bool) (e : Phrase) : Phrase := if negated then .unary .not e else e

/-- Is an expression made of literals and parameters only? -/
def isPlain (e : Phrase) : Bool :=
  !e.any fun
    | .name m => m.truth?.isNone
    | .apply (.call _) _ | .fault _ => true
    | _ => false

/-- The whole number of 32 bits that an expression spells. -/
def smallInteger? : Phrase → Option Int
  | .numeral negative spelling =>
    match Numeral.value negative spelling with
    | .ok (.integer n) => if n.toInt.natAbs < pow2 31 then some n.toInt else none
    | _ => none
  | .apply (.unary op) es =>
    match op, es with
    | .positive, [e] => smallInteger? e
    | .negative, [e] => (smallInteger? e).map fun n => -n
    | _, _ => none
  | _ => none

/-- Is an expression the number zero? -/
def isZero : Phrase → Bool
  | .numeral false spelling => (Numeral.value false spelling).toOption == some (.integer 0)
  | _ => false

/-- Two expressions with an operator between them.  Nothing but falsehood comes of zero and another
one, which is not looked at then. -/
def combined (op : Operator) (e f : Phrase) : Phrase :=
  if op = .and && (e.isZero || f.isZero) then .numeral false "0" else .binary op e f

/-- Is an expression one of others?  A single one without names is compared with. -/
def oneOf (negated : Bool) (e : Phrase) : List Phrase → Phrase
  | [] => .literal (.ofBool negated)
  | [item] =>
    negateIf negated
      (if item.isPlain then .binary .equal e (.unary .positive item) else .apply .among [e, item])
  | items => negateIf negated (.apply .among (e :: items))

/-- Is the value of an expression in a declaration the same on every row and for all parameters?
Its calls are not looked at. -/
def isFixed (e : Phrase) : Bool :=
  !e.any fun
    | .name m => m.truth?.isNone
    | .parameter _ | .fault _ => true
    | _ => false

end Phrase
end Engine
end LinkedRows
