/-
# Documents

JSON documents as data, and their compact text: no blanks, the members of an object in the order of
their keys, and in strings only `"`, the backslash and control characters escaped.
-/

import LinkedRows.Decimal.Layout

namespace LinkedRows

/-- A JSON document.  Whole numbers and doubles are kept apart, as they are written. -/
inductive Document where
  | null
  | bool (b : Bool)
  | int (n : Int)
  | double (x : Binary64)
  | text (s : String)
  | array (items : List Document)
  | object (members : List (String × Document))
deriving Repr, Inhabited

namespace Document

/-- A control character or a character that a string cannot hold, escaped. -/
def escapeChar (c : Char) : List Char :=
  if c = '"' then ['\\', '"']
  else if c = '\\' then ['\\', '\\']
  else if c = '\x08' then ['\\', 'b']
  else if c = '\t' then ['\\', 't']
  else if c = '\n' then ['\\', 'n']
  else if c = '\x0c' then ['\\', 'f']
  else if c = '\r' then ['\\', 'r']
  else if c.toNat < 32 then
    ['\\', 'u', '0', '0', Nat.digitChar (c.toNat / 16), Nat.digitChar (c.toNat % 16)]
  else [c]

def quoted (s : String) : String :=
  String.ofList ('"' :: s.toList.flatMap escapeChar ++ ['"'])

/-- Doubles in documents: positional from `1e-5` up to `1e16`, a signed exponent elsewhere. -/
def doubleLayout : Decimal.Layout where
  positional := some (-5, 16)
  wholePoint := true
  plusSign := true
  tie := .toEven

/-- Keys in ascending order of their characters, which is that of their bytes. -/
def sortMembers (members : List (String × α)) : List (String × α) :=
  members.mergeSort fun a b => decide (a.1 ≤ b.1)

mutual

/-- The compact text of a document. -/
def compact : Document → String
  | .null => "null"
  | .bool b => if b then "true" else "false"
  | .int n => toString n
  | .double x => if x.isFinite then doubleLayout.text x else "null"
  | .text s => quoted s
  | .array items => "[" ++ ",".intercalate (compactItems items) ++ "]"
  | .object members =>
    let texts := sortMembers (compactMembers members)
    "\x7b" ++ ",".intercalate (texts.map fun (key, item) => quoted key ++ ":" ++ item) ++ "\x7d"

def compactItems : List Document → List String
  | [] => []
  | item :: rest => compact item :: compactItems rest

def compactMembers : List (String × Document) → List (String × String)
  | [] => []
  | (key, item) :: rest => (key, compact item) :: compactMembers rest

end

/-- The member with a key. -/
def member? (members : List (String × Document)) (key : String) : Option Document :=
  (members.find? fun m => m.1 == key).map Prod.snd

/-! ## Records in documents

A record is written as an object with its fields as members, or as an array with its fields in
order.  Members that are no field are passed over, items that are no field are refused. -/

/-- The fields of a record in order, each `none` if it is left out; no record if there are other
items, or if the document is neither an object nor an array. -/
def fields? (names : List String) : Document → Option (List (Option Document))
  | .object members => some (names.map (member? members))
  | .array items =>
    if items.length ≤ names.length then
      some (items.map some ++ List.replicate (names.length - items.length) none)
    else none
  | _ => none

def toText? : Document → Option String
  | .text s => some s
  | _ => none

def toBool? : Document → Option Bool
  | .bool b => some b
  | _ => none

/-- A field that may be left out, read by `read` if it is there. -/
def field? (read : Document → Option α) (absent : α) : Option Document → Option α
  | none => some absent
  | some doc => read doc

end Document
end LinkedRows
