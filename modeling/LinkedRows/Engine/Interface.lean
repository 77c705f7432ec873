/-
# Talking to the engine

A connection takes texts of commands in three ways: `script` runs all commands of a text up to the
first that fails, `ask` and `execute` run only the first and take values for its parameters.
Every issue becomes a fault with the whole text.

A parameter takes a truth value as 0 or 1, and not-a-number as nothing.  There must not be more
values than parameters; a parameter without a value is nothing.
-/

import LinkedRows.Connector
import LinkedRows.Engine.Command.Reader
import LinkedRows.Engine.Execution
import LinkedRows.Engine.Settings
import LinkedRows.Schema.DeclaredDefault

namespace LinkedRows
namespace Engine

/-- The data of parameters, of which there are `count`. -/
def bind (count : Nat) (values : List Value) : Except Issue (List Datum) :=
  if values.length ≤ count then .ok (values.map Datum.ofValue)
  else .error (.noSuchParameter (count + 1) ResultCode.range)

namespace Connection

/-- Runs the commands of a text up to the first that fails. -/
def runAll : (fuel : Nat) → List Token → Connection → Except Issue Unit × Connection
  | 0, _, c => (.ok (), c)
  | fuel + 1, tokens, c =>
    let read : Except Issue (Option (Reading × Plan)) := do
      match ← Reading.next? c.hasTable tokens with
      | none => return none
      | some r => return some (r, ← c.plan r.command)
    match read with
    | .error issue => (.error issue, c)
    | .ok none => (.ok (), c)
    | .ok (some (r, plan)) =>
      match (c.configured r.command).run [] plan with
      | (.error issue, c) => (.error issue, c)
      | (.ok _, c) => runAll fuel r.rest c

/-- Reads and checks the first command of a text. -/
def compile (c : Connection) (p : Prepared) : Except Issue (Reading × Plan) := do
  match ← Reading.next? c.hasTable (Token.read p.text) with
  | none =>
    throw (if p.parameters.isEmpty then .noStatement else .noSuchParameter 1 ResultCode.ok)
  | some r => return (r, ← c.plan r.command)

/-- Runs the first command of a text. -/
def runFirst (p : Prepared) (c : Connection) : Except Issue (List Row) × Connection :=
  match c.compile p with
  | .error issue => (.error issue, c)
  | .ok (r, plan) =>
    let c := c.configured r.command
    match bind r.parameters p.parameters with
    | .error issue => (.error issue, c)
    | .ok parameters => c.run parameters plan

/-- The fault of a text with a null character in it, which no command can hold. -/
def nullByte (text : String) : Fault :=
  .query ⟨.syntaxError, some text, "SQL contains null byte", none⟩

/-- Runs a text without a null character, with its issues as faults. -/
def guarded {α : Type} (text : String) (run : Connection → Except Issue α × Connection)
    (c : Connection) : Except Fault α × Connection :=
  if text.toList.contains '\x00' then (.error (nullByte text), c)
  else
    let (result, c) := run c
    (result.mapError (Issue.fault text), c)

/-- Runs all commands of a text. -/
def script (text : String) : Connection → Except Fault Unit × Connection :=
  guarded text fun c =>
    let tokens := Token.read text
    runAll (tokens.length + 1) tokens c

/-- The rows of the first command of a text. -/
def ask (p : Prepared) : Connection → Except Fault (List Row) × Connection :=
  guarded p.text (runFirst p)

/-- Runs the first command of a text and tells how many rows the last change touched. -/
def execute (p : Prepared) (c : Connection) : Except Fault Nat × Connection :=
  let (result, c) := ask p c
  (result.map fun _ => c.touched, c)

/-- Is a value a number greater than zero? -/
def isPositive : Value → Bool
  | .int n => 0 < n
  | _ => false

/-- The column that a row of a table's description describes. -/
def shapeOf (row : Row) : Except Fault ColumnShape := do
  let place ← row.read .int64 false "pk"
  match ← row.read .text false "name" with
  | .text name =>
    let declared := DeclaredDefault.read ((row.find? "dflt_value").getD .null)
    return ⟨name, declared, isPositive place⟩
  | v => throw (v.mismatch "String")

/-- The columns of a table. -/
def describe (table : String) (c : Connection) : Except Fault (List ColumnShape) × Connection :=
  let (rows, c) := ask ⟨s!"PRAGMA table_info({Dialect.sqlite.name table})", []⟩ c
  (rows.bind fun rows => rows.mapM shapeOf, c)

/-- The engine as a connector. -/
def connector : Connector Connection where
  dialect := .sqlite
  query := ask
  execute := execute
  lastIdentifier c := (.ok (.int c.lastNumber), c)
  describe := describe

end Connection

/-- Opens a new database in memory. -/
def Settings.connect (s : Settings) : Except Fault Connection :=
  match s.writable with
  | .ok writable => .ok (.fresh writable)
  | .error issue => .error issue.fault

end Engine
end LinkedRows
