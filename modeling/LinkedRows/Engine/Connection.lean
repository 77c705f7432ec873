/-
# Connections

A connection is a database with what the connection itself remembers: whether it can write, whether
references are enforced, how many rows the last statement that changes rows touched, the number of
the row inserted last, and within a transaction the database as it was before.
-/

import LinkedRows.Engine.Database

namespace LinkedRows
namespace Engine

/-- A connection to a database. -/
structure Connection where
  database : Database
  writable : Bool
  enforcing : Bool
  touched : Nat
  lastNumber : Int64
  saved : Option Database

namespace Connection

/-- A connection to a new database. -/
def fresh (writable : Bool) : Connection := ⟨.empty, writable, true, 0, 0, none⟩

/-- What functions know of a connection. -/
def surroundings (c : Connection) : Surroundings := ⟨c.lastNumber, c.touched⟩

/-- Is there a table with a name? -/
def hasTable (c : Connection) (name : String) : Bool := (c.database.find? name).isSome

end Connection
end Engine
end LinkedRows
