/-
# Issues

Why the engine does not run a statement, by cause: its text cannot be read, it does not fit the
tables, a parameter cannot be bound, a function fails, or the database refuses what it does.
-/

import LinkedRows.Engine.ResultCode
import LinkedRows.Text.Quoted

namespace LinkedRows
namespace Engine

/-- Why a statement does not run. -/
inductive Issue where
  -- The text.
  | noStatement
  | unfinished
  | unexpected (spelling : String)
  | unreadable (spelling : String)
  | parameterNumber
  | tooManyParameters
  | hexTooLong (spelling : String)
  | unevenRows
  | unsupported
  -- Names.
  | noSource
  | noTable (name : String)
  | noDatabase (name : String)
  | noIndex (name : String)
  | noColumn (name : String)
  | noCollation (name : String)
  | noFunction (name : String)
  | argumentCount (function : String)
  | unknownFunction (function : String)
  | aggregateArgument (function : String)
  | aggregateMisuse (function : String)
  | aliasMisuse (name : String)
  | distinctArguments
  | likelihood (function : String)
  | rowMisuse
  | sortingRange (position columns : Nat)
  | havingAlone
  -- Declarations.
  | tableExists (spelling : String)
  | reservedName (name : String)
  | repeatedColumn (name : String)
  | secondKey (table : String)
  | keyExpression
  | misplacedCount
  | changingDefault (column : String)
  | unknownOption (spelling : String)
  | nullsPlace (last : Bool)
  | referenceWidth (column table : String)
  | referenceCount
  | referenceColumn (column : String)
  | listedTerm (column : String)
  -- Changes.
  | lacksColumn (table column : String)
  | notModifiable (table : String)
  | notRemovable (table : String)
  | tableWidth (table : String) (columns values : Nat)
  | listWidth (columns values : Nat)
  | noParent (table : String)
  | parentKey (child parent : String)
  | insideTransaction
  | outsideTransaction (action : String)
  -- Running.
  | noSuchParameter (number : Nat) (code : Int)
  | integerOverflow
  | escapeLength
  | unusable (function : String)
  | readOnly
  | full
  | mismatch
  | notNull (table column : String)
  | notUnique (table : String) (columns : List String)
  | checkFailed (name : String)
  | orphan
deriving DecidableEq, Repr

namespace Issue

/-- The result code of an issue. -/
def code : Issue → Int
  | .noStatement => ResultCode.ok
  | .noSuchParameter _ code => code
  | .readOnly => ResultCode.readOnly
  | .full => ResultCode.full
  | .mismatch => ResultCode.mismatch
  | .notNull _ _ | .notUnique _ _ | .checkFailed _ | .orphan => ResultCode.constraint
  | _ => ResultCode.error

/-- A number that tells a place. -/
def ordinal (n : Nat) : String :=
  let ending :=
    if n / 10 % 10 = 1 then "th"
    else
      match n % 10 with
      | 1 => "st"
      | 2 => "nd"
      | 3 => "rd"
      | _ => "th"
  s!"{n}{ending}"

/-- A name between double quotes. -/
def quotedName (name : String) : String := String.ofList (Text.quoted '"' name.toList)

/-- The text of an issue. -/
def message : Issue → String
  | .noStatement => ResultCode.text ResultCode.ok
  | .unfinished => "incomplete input"
  | .unexpected spelling => s!"near \"{spelling}\": syntax error"
  | .unreadable spelling => s!"unrecognized token: \"{spelling}\""
  | .parameterNumber => "variable number must be between ?1 and ?32766"
  | .tooManyParameters => "too many SQL variables"
  | .hexTooLong spelling => s!"hex literal too big: {spelling}"
  | .unevenRows => "all VALUES must have the same number of terms"
  | .unsupported => "statement not supported"
  | .noSource => "no tables specified"
  | .noTable name => s!"no such table: {name}"
  | .noDatabase name => s!"unknown database {name}"
  | .noIndex name => s!"no such index: {name}"
  | .noColumn name => s!"no such column: {name}"
  | .noCollation name => s!"no such collation sequence: {name}"
  | .noFunction name => s!"no such function: {name}"
  | .argumentCount function => s!"wrong number of arguments to function {function}()"
  | .unknownFunction function => s!"unknown function: {function}()"
  | .aggregateArgument function => s!"misuse of aggregate function {function}()"
  | .aggregateMisuse function => s!"misuse of aggregate: {function}()"
  | .aliasMisuse name => s!"misuse of aliased aggregate {name}"
  | .distinctArguments => "DISTINCT aggregates must have exactly one argument"
  | .likelihood function =>
    s!"second argument to {function}() must be a constant between 0.0 and 1.0"
  | .rowMisuse => "row value misused"
  | .sortingRange position columns =>
    s!"{ordinal position} ORDER BY term out of range - should be between 1 and {columns}"
  | .havingAlone => "HAVING clause on a non-aggregate query"
  | .tableExists spelling => s!"table {spelling} already exists"
  | .reservedName name => s!"object name reserved for internal use: {name}"
  | .repeatedColumn name => s!"duplicate column name: {name}"
  | .secondKey table => s!"table \"{table}\" has more than one primary key"
  | .keyExpression => "expressions prohibited in PRIMARY KEY and UNIQUE constraints"
  | .misplacedCount => "AUTOINCREMENT is only allowed on an INTEGER PRIMARY KEY"
  | .changingDefault column => s!"default value of column [{column}] is not constant"
  | .unknownOption spelling => s!"unknown table option: {spelling}"
  | .nullsPlace true => "unsupported use of NULLS LAST"
  | .nullsPlace false => "unsupported use of NULLS FIRST"
  | .referenceWidth column table =>
    s!"foreign key on {column} should reference only one column of table {table}"
  | .referenceCount =>
    "number of columns in foreign key does not match the number of columns in the referenced table"
  | .referenceColumn column => s!"unknown column \"{column}\" in foreign key definition"
  | .listedTerm column => s!"syntax error after column name \"{column}\""
  | .lacksColumn table column => s!"table {table} has no column named {column}"
  | .notModifiable table => s!"table {table} may not be modified"
  | .notRemovable table => s!"table {table} may not be dropped"
  | .tableWidth table columns values =>
    s!"table {table} has {columns} columns but {values} values were supplied"
  | .listWidth columns values => s!"{values} values for {columns} columns"
  | .noParent table => s!"no such table: main.{table}"
  | .parentKey child parent =>
    s!"foreign key mismatch - {quotedName child} referencing {quotedName parent}"
  | .insideTransaction => "cannot start a transaction within a transaction"
  | .outsideTransaction action => s!"cannot {action} - no transaction is active"
  | .noSuchParameter number code =>
    s!"Failed to bind parameter {number}: {ResultCode.text code}"
  | .integerOverflow => "integer overflow"
  | .escapeLength => "ESCAPE expression must be a single character"
  | .unusable function => s!"unable to use function {function} in the requested context"
  | .readOnly => ResultCode.text ResultCode.readOnly
  | .full => ResultCode.text ResultCode.full
  | .mismatch => ResultCode.text ResultCode.mismatch
  | .notNull table column => s!"NOT NULL constraint failed: {table}.{column}"
  | .notUnique table columns =>
    let places := ", ".intercalate (columns.map fun column => s!"{table}.{column}")
    s!"UNIQUE constraint failed: {places}"
  | .checkFailed name => s!"CHECK constraint failed: {name}"
  | .orphan => "FOREIGN KEY constraint failed"

/-- The fault of a text whose statement has an issue. -/
def fault (text : String) (issue : Issue) : Fault :=
  .query ⟨ResultCode.faultKind issue.code, some text, issue.message, none⟩

end Issue
end Engine
end LinkedRows
