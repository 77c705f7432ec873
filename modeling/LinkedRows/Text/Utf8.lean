/-
# Reading UTF-8 that may be broken

Bytes to characters, left to right.  A well-formed sequence is its character; each longest piece
that starts a sequence but does not finish it, and each byte that can start none, reads as one
replacement character.
-/

namespace LinkedRows
namespace Text

/-- The character that stands for what could not be read. -/
def replacement : Char := '\uFFFD'

/-- A sequence that is not complete: the bits so far, how many bytes are missing, and the least
and the greatest value of the next byte. -/
structure Unfinished where
  bits : Nat
  missing : Nat
  least : Nat
  greatest : Nat

/-- What a byte outside of any sequence does: it is a character, starts a sequence, or neither. -/
def leadByte (b : Nat) : Option (Char ⊕ Unfinished) :=
  if b < 0x80 then some (.inl (Char.ofNat b))
  else if b < 0xC2 then none
  else if b < 0xE0 then some (.inr ⟨b - 0xC0, 1, 0x80, 0xBF⟩)
  else if b < 0xF0 then
    some (.inr ⟨b - 0xE0, 2, if b = 0xE0 then 0xA0 else 0x80, if b = 0xED then 0x9F else 0xBF⟩)
  else if b < 0xF5 then
    some (.inr ⟨b - 0xF0, 3, if b = 0xF0 then 0x90 else 0x80, if b = 0xF4 then 0x8F else 0xBF⟩)
  else none

/-- Reads the bytes after an unfinished sequence, if there is one. -/
def readUtf8From : Option Unfinished → List UInt8 → List Char
  | none, [] => []
  | some _, [] => [replacement]
  | none, b :: bs =>
    match leadByte b.toNat with
    | some (.inl c) => c :: readUtf8From none bs
    | some (.inr u) => readUtf8From (some u) bs
    | none => replacement :: readUtf8From none bs
  | some u, b :: bs =>
    if u.least ≤ b.toNat ∧ b.toNat ≤ u.greatest then
      let bits := u.bits * 64 + b.toNat % 64
      if u.missing = 1 then Char.ofNat bits :: readUtf8From none bs
      else readUtf8From (some ⟨bits, u.missing - 1, 0x80, 0xBF⟩) bs
    else
      match leadByte b.toNat with
      | some (.inl c) => replacement :: c :: readUtf8From none bs
      | some (.inr v) => replacement :: readUtf8From (some v) bs
      | none => replacement :: replacement :: readUtf8From none bs

/-- The text of the bytes, broken sequences replaced. -/
def readUtf8 (bytes : List UInt8) : String :=
  String.ofList (readUtf8From none bytes)

end Text
end LinkedRows
