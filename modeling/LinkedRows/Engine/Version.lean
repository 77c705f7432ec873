/-
# Versions

A version has a text, `3.51.0`, and a number, `3051000`.
-/

namespace LinkedRows
namespace Engine

/-- A version of the engine. -/
structure Version where
  major : Nat
  minor : Nat
  patch : Nat
deriving DecidableEq, Repr

namespace Version

/-- The version whose statements and texts the engine follows. -/
def current : Version := ⟨3, 51, 0⟩

def text (v : Version) : String := s!"{v.major}.{v.minor}.{v.patch}"

/-- Three digits each for the minor version and the patch. -/
def number (v : Version) : Nat := v.major * 1000000 + v.minor * 1000 + v.patch

/-- Do a number and a text have the same major and minor version? -/
def agree (number : Nat) (text : String) : Bool :=
  s!"{number / 1000000}.{number / 1000 % 1000}.".toList.isPrefixOf text.toList

end Version
end Engine
end LinkedRows
