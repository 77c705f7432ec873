/-
# Reading paths

The grammar, with blanks allowed around every token:

```
path    := segment ("." segment)*
segment := name ("[" (name "=")? path "]")?
```

A name is one or more letters and digits of any script, `_` or `$`.  Every segment but the last
enters a joined table; the last one of a column path, and of every path in brackets, is a column
and has no brackets.  In brackets stands the link, before it the key of the table; what is left
out follows from the `Naming`.

A path is read one character at a time.  `Reading` says what has been read and thereby what may
follow: brackets that are still open form a stack, `Context`.  A character that cannot follow is a
fault at its own byte, an unfinished path one at the end.
-/

import LinkedRows.Fault
import LinkedRows.Naming
import LinkedRows.Path
import LinkedRows.Text.Blank
import LinkedRows.Text.Letter

namespace LinkedRows
namespace Path

/-- What a path has to end in. -/
inductive Target where
  | column
  | table
deriving DecidableEq, Repr

/-- What can be wrong with the text of a path. -/
inductive Issue where
  | emptyPath
  | missingName (found : Option Char)
  | missingBracket (found : Option Char)
  | endsInTable (name : String)
  | unexpected (found : Char)
deriving DecidableEq, Repr

/-- The text of an issue. -/
def Issue.message : Issue → String
  | .emptyPath => "empty path"
  | .missingName none => "expected identifier, found end of input"
  | .missingName (some c) => s!"expected identifier, found '{c}'"
  | .missingBracket none => "unbalanced '[': expected ']'"
  | .missingBracket (some c) => s!"expected ']', found '{c}'"
  | .endsInTable name => s!"path must end with a column, '{name}' is a joined table"
  | .unexpected c => s!"unexpected character '{c}'"

/-- The characters of names. -/
def isNameChar (c : Char) : Bool := Text.isAlphanumeric c || c == '_' || c == '$'

/-- A segment that has been read, with the key and the link from its brackets. -/
structure Segment where
  name : String
  brackets : Option (Option String × Path)
deriving DecidableEq, Repr

namespace Segment

/-- The key column of the table that the segment enters. -/
def key (naming : Naming) (s : Segment) : String :=
  (s.brackets.bind Prod.fst).getD naming.key

/-- The path to the column that links to that table. -/
def link (naming : Naming) (s : Segment) : Path :=
  match s.brackets with
  | some (_, link) => link
  | none => .column (naming.link s.name)

/-- The path that enters the table of the segment and goes on there. -/
def enter (naming : Naming) (inner : Path) (s : Segment) : Path :=
  .join s.name (s.key naming) (s.link naming) inner

/-- The path that ends at the table of the segment. -/
def stop (naming : Naming) (s : Segment) : Path :=
  .table s.name (s.key naming) (s.link naming)

end Segment

/-- A path through segments, the last of them first, that goes on with `last`. -/
def through (naming : Naming) (before : List Segment) (last : Path) : Path :=
  before.foldl (Segment.enter naming) last

/-- Where segments are being read: in the path itself, or in the brackets of a segment of it.  The
segments read so far stand last first. -/
inductive Context where
  | top (before : List Segment)
  | brackets (outer : Context) (name : String) (key : Option String) (before : List Segment)
deriving Repr

namespace Context

/-- One more segment has been read. -/
def push (s : Segment) : Context → Context
  | top before => top (s :: before)
  | brackets outer name key before => brackets outer name key (s :: before)

/-- The issue of a character that cannot follow a name. -/
def stray (c : Char) : Context → Issue
  | top _ => .unexpected c
  | brackets _ _ _ _ => .missingBracket (some c)

end Context

/-- What has been read of a path. -/
inductive Reading where
  /-- A name has to come. -/
  | wantsName (context : Context)
  /-- A name has come; it may still grow unless a blank has ended it. -/
  | named (context : Context) (name : String) (growing : Bool)
  /-- A segment's brackets have been closed. -/
  | closed (context : Context) (segment : Segment)
deriving Repr

namespace Reading

/-- Nothing has been read. -/
def initial : Reading := .wantsName (.top [])

/-- What comes of a character after a name, if it is neither a blank nor part of the name.  Only the
first name in brackets can turn out to be a key. -/
def afterName (naming : Naming) (context : Context) (name : String) (c : Char) :
    Except Issue Reading :=
  if c = '[' then .ok (.wantsName (.brackets context name none []))
  else if c = '.' then .ok (.wantsName (context.push ⟨name, none⟩))
  else
    match context with
    | .brackets outer entered key before =>
      if c = ']' then
        .ok (.closed outer ⟨entered, some (key, through naming before (.column name))⟩)
      else if c = '=' ∧ key = none ∧ before = [] then
        .ok (.wantsName (.brackets outer entered (some name) []))
      else .error (context.stray c)
    | .top _ => .error (context.stray c)

/-- Reads one more character. -/
def step (naming : Naming) (target : Target) : Reading → Char → Except Issue Reading
  | .wantsName context, c =>
    if isNameChar c then .ok (.named context (String.singleton c) true)
    else if Text.isBlank c then .ok (.wantsName context)
    else .error (.missingName (some c))
  | .named context name growing, c =>
    if growing && isNameChar c then .ok (.named context (name.push c) true)
    else if Text.isBlank c then .ok (.named context name false)
    else afterName naming context name c
  | .closed context segment, c =>
    if Text.isBlank c then .ok (.closed context segment)
    else if c = '.' then .ok (.wantsName (context.push segment))
    else
      match context, target with
      | .top _, .table => .error (.unexpected c)
      | _, _ => .error (.endsInTable segment.name)

/-- The path, at the end of the text. -/
def finish (naming : Naming) (target : Target) : Reading → Except Issue Path
  | .wantsName (.top []) => .error .emptyPath
  | .wantsName _ => .error (.missingName none)
  | .named (.top before) name _ =>
    match target with
    | .column => .ok (through naming before (.column name))
    | .table => .ok (through naming before (Segment.stop naming ⟨name, none⟩))
  | .named (.brackets _ _ _ _) _ _ => .error (.missingBracket none)
  | .closed context segment =>
    match context, target with
    | .top before, .table => .ok (through naming before (segment.stop naming))
    | _, _ => .error (.endsInTable segment.name)

/-- Reads characters that start at byte `position`; an issue comes with its byte. -/
def run (naming : Naming) (target : Target) :
    Reading → (position : Nat) → List Char → Except (Nat × Issue) Path
  | reading, position, [] => (reading.finish naming target).mapError (position, ·)
  | reading, position, c :: cs =>
    match reading.step naming target c with
    | .error issue => .error (position, issue)
    | .ok reading => run naming target reading (position + c.utf8Size) cs

end Reading

/-- Reads a path, or says what is wrong with it and at which byte. -/
def read (target : Target) (naming : Naming) (input : String) : Except Fault Path :=
  match Reading.run naming target .initial 0 input.toList with
  | .ok path => .ok path
  | .error (position, issue) => .error (.malformedPath input position issue.message)

/-- Reads a path that ends in a column. -/
def readColumn (naming : Naming) (input : String) : Except Fault Path := read .column naming input

/-- Reads a path that ends at a table. -/
def readTable (naming : Naming) (input : String) : Except Fault Path := read .table naming input

/-- Does the text of a path, read with the standard naming, give the path again? -/
def rereads (p : Path) : Bool :=
  let target := if p.endsInColumn then Target.column else Target.table
  match read target .standard p.text with
  | .ok q => p == q
  | .error _ => false

end Path
end LinkedRows
