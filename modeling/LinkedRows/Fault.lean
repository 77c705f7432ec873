/-
# Faults

Everything that can go wrong, by cause, and the text of each:

| fault | text |
| --- | --- |
| path | `Malformed path: ⟨message⟩ at position ⟨byte offset⟩ in '⟨path⟩'` |
| record | `Record error: ⟨message⟩` |
| connection | `Connection error: ⟨message⟩` |
| query | ``Query error: ⟨message⟩ (in `⟨statement⟩`)``, the statement only if it is known |
| type | `Type error in column '⟨column⟩': expected ⟨kind⟩, found ⟨kind⟩`, if it is known |
| schema | `Schema error: ⟨message⟩` |
-/

namespace LinkedRows

/-- A column path that cannot be read or used: what is wrong, and at which byte of the path. -/
structure PathFault where
  path : String
  position : Nat
  message : String
deriving DecidableEq, Repr

/-- Why a record refuses a request. -/
inductive RecordFaultKind where
  | notSaved
  | unknownColumn
deriving DecidableEq, Repr

/-- A request that a record in its present state cannot serve. -/
structure RecordFault where
  kind : RecordFaultKind
  table : String
  column : Option String
  message : String
deriving DecidableEq, Repr

/-- The database cannot be reached. -/
structure ConnectionFault where
  message : String
  cause : Option String
deriving DecidableEq, Repr

/-- What is wrong with a statement. -/
inductive QueryFaultKind where
  | syntaxError
  | constraint
  | notFound
  | permission
  | dataTruncation
  | busy
  | database
deriving DecidableEq, Repr

/-- A statement that the database refused. -/
structure QueryFault where
  kind : QueryFaultKind
  statement : Option String
  message : String
  cause : Option String
deriving DecidableEq, Repr

/-- A value of another kind than was asked for. -/
structure TypeFault where
  expected : String
  found : String
  column : Option String
deriving DecidableEq, Repr

/-- A table that cannot be described. -/
structure SchemaFault where
  message : String
  cause : Option String
deriving DecidableEq, Repr

/-- A fault, by cause. -/
inductive Fault where
  | path (fault : PathFault)
  | record (fault : RecordFault)
  | connection (fault : ConnectionFault)
  | query (fault : QueryFault)
  | type (fault : TypeFault)
  | schema (fault : SchemaFault)
deriving DecidableEq, Repr

/-- What is wrong, where and in which path. -/
def PathFault.text (f : PathFault) : String :=
  s!"{f.message} at position {f.position} in '{f.path}'"

/-- What was expected and what was found, the column in the middle. -/
def TypeFault.text (f : TypeFault) : String :=
  match f.column with
  | some column => s!"expected {f.expected} for column '{column}', found {f.found}"
  | none => s!"expected {f.expected}, found {f.found}"

namespace Fault

/-- A path with a fault at a byte offset. -/
def malformedPath (path : String) (position : Nat) (message : String) : Fault :=
  .path ⟨path, position, message⟩

/-- A row that storage does not hold. -/
def notSaved (table message : String) : Fault :=
  .record ⟨.notSaved, table, none, message⟩

/-- A path that leads to no registered column. -/
def unknownColumn (table path : String) : Fault :=
  .record ⟨.unknownColumn, table, some path, s!"column '{path}' is not registered on '{table}'"⟩

/-- The text of a fault. -/
def message : Fault → String
  | .path f => s!"Malformed path: {f.text}"
  | .record f => s!"Record error: {f.message}"
  | .connection f => s!"Connection error: {f.message}"
  | .query f =>
    match f.statement with
    | some statement => s!"Query error: {f.message} (in `{statement}`)"
    | none => s!"Query error: {f.message}"
  | .type f =>
    match f.column with
    | some column => s!"Type error in column '{column}': expected {f.expected}, found {f.found}"
    | none => s!"Type error: expected {f.expected}, found {f.found}"
  | .schema f => s!"Schema error: {f.message}"

/-- The text of the cause alone, without the name of the fault's group. -/
def detail : Fault → String
  | .path f => f.text
  | .record f => f.message
  | .connection f => f.message
  | .query f => f.message
  | .type f => f.text
  | .schema f => f.message

def isMalformedPath : Fault → Bool
  | .path _ => true
  | _ => false

def isNotSaved : Fault → Bool
  | .record f => f.kind == .notSaved
  | _ => false

def isUnknownColumn : Fault → Bool
  | .record f => f.kind == .unknownColumn
  | _ => false

/-- Does the fault come from the database or the way to it? -/
def isConnectorFailure : Fault → Bool
  | .connection _ | .query _ => true
  | _ => false

/-- The statement that a fault is about. -/
def statement : Fault → Option String
  | .query f => f.statement
  | _ => none

/-- What an outside party said about the fault. -/
def cause : Fault → Option String
  | .connection f => f.cause
  | .query f => f.cause
  | .schema f => f.cause
  | _ => none

end Fault

def QueryFault.isConstraintViolation (f : QueryFault) : Bool := f.kind == .constraint

end LinkedRows
