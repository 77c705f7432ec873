/-
# Result codes

The numbers that SQLite answers calls with.  The lowest eight bits tell the cause, the bits above
them refine it; each cause has a fixed text and counts as one kind of query fault.
-/

import LinkedRows.Fault

namespace LinkedRows
namespace Engine
namespace ResultCode

/-- The codes that the engine itself answers with. -/
def ok : Int := 0
def error : Int := 1
def readOnly : Int := 8
def full : Int := 13
def cannotOpen : Int := 14
def constraint : Int := 19
def mismatch : Int := 20
def misuse : Int := 21
def range : Int := 25

/-- The cause of a code. -/
def cause (code : Int) : Nat := (code % 256).toNat

/-- The text of a cause. -/
def causeText : Nat → String
  | 0 => "not an error"
  | 1 => "SQL logic error"
  | 3 => "access permission denied"
  | 4 => "query aborted"
  | 5 => "database is locked"
  | 6 => "database table is locked"
  | 7 => "out of memory"
  | 8 => "attempt to write a readonly database"
  | 9 => "interrupted"
  | 10 => "disk I/O error"
  | 11 => "database disk image is malformed"
  | 12 => "unknown operation"
  | 13 => "database or disk is full"
  | 14 => "unable to open database file"
  | 15 => "locking protocol"
  | 17 => "database schema has changed"
  | 18 => "string or blob too big"
  | 19 => "constraint failed"
  | 20 => "datatype mismatch"
  | 21 => "bad parameter or other API misuse"
  | 23 => "authorization denied"
  | 25 => "column index out of range"
  | 26 => "file is not a database"
  | 27 => "notification message"
  | 28 => "warning message"
  | _ => "unknown error"

/-- The text of a code; three codes have one of their own. -/
def text (code : Int) : String :=
  if code = 516 then "abort due to ROLLBACK"
  else if code = 100 then "another row available"
  else if code = 101 then "no more rows available"
  else causeText (cause code)

/-- The kind of fault that a statement with this result has. -/
def faultKind (code : Int) : QueryFaultKind :=
  if code = constraint then .constraint
  else if code = 5 ∨ code = 6 then .busy
  else if code = 3 ∨ code = 23 then .permission
  else if code = 12 then .notFound
  else if code = 18 then .dataTruncation
  else .database

end ResultCode
end Engine
end LinkedRows
