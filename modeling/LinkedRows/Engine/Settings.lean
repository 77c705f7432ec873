/-
# Settings of a connection

Where the database is, how it is opened and how long a busy one is waited for.  The way of opening
has to be one of three: read only, read and write, or read and write and create.

Only databases in memory can be opened: the paths `:memory:` and the empty one, and locations with
such a name or with options that ask for memory:

| option | values |
| --- | --- |
| `mode` | `ro`, `rw`, `rwc`, which must not allow more than the way of opening does, or `memory` |
| `cache` | `shared`, `private` |
| `vfs` | `unix`, `unix-none`, `unix-dotfile`, `unix-excl`, or `memdb`, which is memory |
-/

import LinkedRows.Engine.Location
import LinkedRows.Engine.ResultCode

namespace LinkedRows
namespace Engine

/-- How a database is opened. -/
structure OpenFlags where
  readOnly : Bool
  readWrite : Bool
  create : Bool
  uri : Bool
  noMutex : Bool
  fullMutex : Bool
deriving DecidableEq, Repr

namespace OpenFlags

/-- No flag at all. -/
def none : OpenFlags := ⟨false, false, false, false, false, false⟩

/-- For reading only. -/
def reading : OpenFlags := { none with readOnly := true }

/-- For reading and writing a database that exists. -/
def writing : OpenFlags := { none with readWrite := true }

/-- For reading and writing a database that is created if it does not exist. -/
def creating : OpenFlags := { none with readWrite := true, create := true }

/-- Without read or write flag a database is opened for writing, and created. -/
def completed (f : OpenFlags) : OpenFlags :=
  if f.readOnly || f.readWrite then f else { f with readWrite := true, create := true }

/-- Do the flags name one of the three ways? -/
def isWay (f : OpenFlags) : Bool :=
  match f.readOnly, f.readWrite, f.create with
  | true, false, false | false, true, _ => true
  | _, _, _ => false

end OpenFlags

/-- The settings of a connection; the time is in milliseconds. -/
structure Settings where
  path : String
  flags : OpenFlags
  busyTimeout : Nat
deriving DecidableEq, Repr

/-- How much a way of opening allows, in the order of the ways; memory allows most. -/
inductive Access where
  | readOnly
  | readWrite
  | create
  | memory
deriving DecidableEq, Repr

/-- Why a database cannot be opened. -/
inductive OpenIssue where
  | nullByte
  | refused (code : Int)
  | authority (name : String)
  | noMode (kind value : String)
  | notAllowed (kind value : String)
  | noStorage (name : String)
deriving DecidableEq, Repr

namespace OpenIssue

/-- The text of an issue. -/
def message : OpenIssue → String
  | .nullByte => "Invalid path: contains null byte"
  | .refused code => s!"Failed to open database: {ResultCode.text code}"
  | .authority name => s!"Failed to open database: invalid uri authority: {name}"
  | .noMode kind value => s!"Failed to open database: no such {kind} mode: {value}"
  | .notAllowed kind value => s!"Failed to open database: {kind} mode not allowed: {value}"
  | .noStorage name => s!"Failed to open database: no such vfs: {name}"

/-- The fault of a database that cannot be opened. -/
def fault (issue : OpenIssue) : Fault := .connection ⟨issue.message, none⟩

end OpenIssue

namespace Access

/-- The access that a value of the option `mode` asks for. -/
def named? (value : List UInt8) : Option Access :=
  match Text.readUtf8 value with
  | "ro" => some .readOnly
  | "rw" => some .readWrite
  | "rwc" => some .create
  | "memory" => some .memory
  | _ => none

/-- The access that flags give. -/
def ofFlags (f : OpenFlags) : Access :=
  if f.readOnly then .readOnly else if f.create then .create else .readWrite

/-- The place of an access among the others. -/
def level : Access → Nat
  | .readOnly => 0
  | .readWrite => 1
  | .create => 2
  | .memory => 3

/-- The access after an option asks for another one. -/
def narrowed (a : Access) (value : List UInt8) : Except OpenIssue Access :=
  match named? value with
  | none => .error (.noMode "access" (Text.readUtf8 value))
  | some .memory => .ok .memory
  | some wanted =>
    if wanted.level ≤ a.level then .ok wanted
    else .error (.notAllowed "access" (Text.readUtf8 value))

end Access

namespace Settings

/-- The settings for a path. -/
def atPath (path : String) : Settings := ⟨path, .creating, 5000⟩

/-- The settings for a database in memory. -/
def memory : Settings := atPath ":memory:"

/-- Is this a name of a database in memory? -/
def isMemoryName (name : List UInt8) : Bool :=
  name.isEmpty || name == Location.bytes ":memory:"

/-- The access and the kind of storage after the options in turn. -/
def opened : Access → (storage : String) → List (List UInt8 × List UInt8) →
    Except OpenIssue (Access × String)
  | access, storage, [] => .ok (access, storage)
  | access, storage, (key, value) :: rest => do
    match Text.readUtf8 key with
    | "vfs" => opened access (Text.readUtf8 value) rest
    | "mode" => opened (← access.narrowed value) storage rest
    | "cache" =>
      let name := Text.readUtf8 value
      if name == "shared" || name == "private" then opened access storage rest
      else throw (.noMode "cache" name)
    | _ => opened access storage rest

/-- The kinds of storage. -/
def storages : List String := ["unix", "unix-none", "unix-dotfile", "unix-excl", "memdb"]

/-- Whether the new database can be written, or why it cannot be opened. -/
def writable (s : Settings) : Except OpenIssue Bool := do
  if s.path.toList.contains '\x00' then throw .nullByte
  let flags := s.flags.completed
  if !flags.isWay then throw (.refused ResultCode.misuse)
  let (name, access, storage) ←
    match Location.read? s.path with
    | none => pure (Location.bytes s.path, Access.ofFlags flags, "unix")
    | some (.error authority) => throw (.authority authority)
    | some (.ok location) => do
      let (access, storage) ← opened (.ofFlags flags) "unix" location.options
      pure (location.name, access, storage)
  if !storages.contains storage then throw (.noStorage storage)
  if isMemoryName name || access = .memory || storage == "memdb" then return access ≠ .readOnly
  else throw (.refused ResultCode.cannotOpen)

end Settings
end Engine
end LinkedRows
