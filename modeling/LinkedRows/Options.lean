/-
# Options of a record

The naming that its paths are read with, and whether a path that is read or assigned before it was
registered is registered then.
-/

import LinkedRows.Naming

namespace LinkedRows

structure Options where
  naming : Naming
  registerOnAccess : Bool
deriving DecidableEq, Repr

namespace Options

/-- The standard naming, and no registration on access. -/
def standard : Options := ⟨.standard, false⟩

def withKey (o : Options) (key : String) : Options :=
  { o with naming := { o.naming with key := key } }

def withLinkSuffix (o : Options) (suffix : String) : Options :=
  { o with naming := { o.naming with linkSuffix := suffix } }

def withNaming (o : Options) (naming : Naming) : Options := { o with naming := naming }

def withRegisterOnAccess (o : Options) (enabled : Bool) : Options :=
  { o with registerOnAccess := enabled }

/-- Reads options; a field left out is the standard one. -/
def ofDocument? (doc : Document) : Option Options := do
  match ← doc.fields? ["defaults", "auto_register"] with
  | [naming, onAccess] =>
    return ⟨← Document.field? Naming.ofDocument? standard.naming naming,
      ← Document.field? Document.toBool? standard.registerOnAccess onAccess⟩
  | _ => none

end Options
end LinkedRows
