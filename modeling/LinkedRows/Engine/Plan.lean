/-
# Plans

A command that fits the tables becomes a plan, in which names are places.  All issues that a command
has with the tables are found here, before anything runs.

Whether references are enforced can change only between transactions.  It changes as soon as the
command has been looked at, whatever becomes of it then.
-/

import LinkedRows.Engine.Change
import LinkedRows.Engine.Connection
import LinkedRows.Engine.Token

namespace LinkedRows
namespace Engine

/-- A command with its names resolved. -/
inductive Plan where
  | nothing
  | create (declaration : Declaration)
  | drop (deletion : Deletion)
  | insert (insertion : Insertion)
  | update (update : Update)
  | delete (deletion : Deletion)
  | select (selection : Selection)
  | values (rows : List (List Formula))
  | show (titles : List String) (rows : List (List Datum))
  | start
  | finish
  | undo

namespace Plan

/-- Does a plan write to the database? -/
def writes : Plan → Bool
  | .create _ | .drop _ | .insert _ | .update _ | .delete _ => true
  | _ => false

/-- The description of a column at a position of a table. -/
def columnInfo (d : Declaration) (column : Column) (position : Nat) : List Datum :=
  [.ofNat position, .ofString column.name, .ofString column.type, .ofBool column.required,
    (column.default.map fun default => Datum.ofString default.text).getD .null,
    .ofNat (d.primaryPlace position)]

/-- The description of a table; a table that is not there has no columns. -/
def tableInfo (d : Database) (table : String) : Plan :=
  let rows :=
    match d.find? table with
    | some r =>
      r.declaration.columns.zipIdx.map fun (column, i) => columnInfo r.declaration column i
    | none => []
  .show ["cid", "name", "type", "notnull", "dflt_value", "pk"] rows

/-- The number that a value of a setting begins with. -/
def number : List Char → Nat
  | '0' :: x :: digits =>
    if x = 'x' ∨ x = 'X' then Numeral.natOfHex (digits.takeWhile Lexeme.isHex)
    else Decimal.natOfDigits 0 ((x :: digits).takeWhile Char.isDigit)
  | digits => Decimal.natOfDigits 0 (digits.takeWhile Char.isDigit)

/-- Does a value of a setting turn it on?  Of a number of 32 bits the lowest eight count. -/
def turnsOn (value : String) : Bool :=
  if value.toList.head?.any Char.isDigit then
    let n := number value.toList
    n < pow2 31 && n % 256 != 0
  else ["on", "yes", "true"].contains (value.map Char.toLower)

/-- Is this the name of the setting that enforces references? -/
def isEnforcing (name : String) : Bool := sameName name "foreign_keys"

/-- The plan of a setting; one that is not known does nothing. -/
def ofSetting (c : Connection) (name : String) (value : Option String) : Plan :=
  match value with
  | some table => if sameName name "table_info" then tableInfo c.database table else .nothing
  | none =>
    if isEnforcing name then .show ["foreign_keys"] [[.ofBool c.enforcing]] else .nothing

/-- The plan of a removal of a table. -/
def ofDrop (c : Connection) (ifThere : Bool) (t : Target) : Except Issue Plan :=
  match c.database.removal c.enforcing t with
  | .ok deletion => .ok (.drop deletion)
  | .error (.noTable name) => if ifThere then .ok .nothing else .error (.noTable name)
  | .error issue => .error issue

/-- The formulas of rows of values that are asked for. -/
def ofValues : List (List Phrase) → Except Issue Plan
  | [row] => return .values [← row.mapM ({ Names.none with aggregates := true }).formula]
  | rows => return .values (← Names.rowFormulas rows)

end Plan

namespace Connection

/-- The plan of a command. -/
def plan (c : Connection) : Command → Except Issue Plan
  | .create none => .ok .nothing
  | .create (some declaration) => .ok (.create declaration)
  | .drop ifThere target => Plan.ofDrop c ifThere target
  | .insert target columns rows =>
    Plan.insert <$> c.database.insertion c.enforcing target columns rows
  | .update target assignments condition =>
    Plan.update <$> c.database.updating c.enforcing target assignments condition
  | .delete target condition => Plan.delete <$> c.database.deletion c.enforcing target condition
  | .select query => Plan.select <$> query.selection c.database
  | .values rows => Plan.ofValues rows
  | .setting name value => .ok (Plan.ofSetting c name value)
  | .start => .ok .start
  | .finish => .ok .finish
  | .undo => .ok .undo
  | .beyond => .error .unsupported

/-- The connection after a command has been looked at. -/
def configured (c : Connection) : Command → Connection
  | .setting name (some value) =>
    if Plan.isEnforcing name && c.saved.isNone then { c with enforcing := Plan.turnsOn value }
    else c
  | _ => c

end Connection
end Engine
end LinkedRows
