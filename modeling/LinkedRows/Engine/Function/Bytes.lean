/-
# Functions on texts

A text is bytes.  A character is a byte, and with one of at least `0xC0` all bytes between `0x80`
and `0xBF` after it; its code may be any number.  Where a text is read character by character, it
ends at a zero byte.
-/

import LinkedRows.Engine.Order

namespace LinkedRows
namespace Engine
namespace Bytes

/-- Does a byte go on with a character? -/
def continues (b : UInt8) : Bool := 0x80 ≤ b && b < 0xC0

/-- The characters of bytes, as pieces of them. -/
def pieces : List UInt8 → List (List UInt8)
  | [] => []
  | b :: bs =>
    let rest := if 0xC0 ≤ b then bs.takeWhile continues else []
    (b :: rest) :: pieces (bs.drop rest.length)
termination_by bs => bs.length
decreasing_by simp only [List.length_drop, List.length_cons]; omega

/-- The bytes up to a zero byte. -/
def untilZero (bs : List UInt8) : List UInt8 := bs.takeWhile (· != 0)

/-- The characters of a text. -/
def characters (bs : List UInt8) : List (List UInt8) := pieces (untilZero bs)

/-- The bits that a first byte adds to a code. -/
def leadBits (b : Nat) : Nat :=
  if b < 0xE0 then b - 0xC0
  else if b < 0xF0 then b - 0xE0
  else if b < 0xF8 then b - 0xF0
  else if b < 0xFC then b - 0xF8
  else if b = 0xFD then 1
  else 0

/-- The code of a character; what cannot be one reads as the replacement. -/
def code : List UInt8 → Nat
  | [] => 0
  | b :: bs =>
    if b < 0xC0 then b.toNat
    else
      let n := bs.foldl (fun n c => n * 64 + c.toNat % 64) (leadBits b.toNat)
      if n < 0x80 ∨ n / 0x800 = 0x1B ∨ n / 2 = 0x7FFF then 0xFFFD else n

/-- The codes of the characters of a text. -/
def codes (bs : List UInt8) : List Nat := (characters bs).map code

/-- The bytes of a character with a code. -/
def encode (n : Nat) : List UInt8 :=
  let byte (k : Nat) : UInt8 := UInt8.ofNat k
  let next (k : Nat) : UInt8 := byte (0x80 + k % 64)
  if n < 0x80 then [byte n]
  else if n < 0x800 then [byte (0xC0 + n / 64), next n]
  else if n < 0x10000 then [byte (0xE0 + n / 4096), next (n / 64), next n]
  else [byte (0xF0 + n / 262144), next (n / 4096), next (n / 64), next n]

/-- A small letter of ASCII as a capital one. -/
def upperByte (b : UInt8) : UInt8 := if 97 ≤ b ∧ b ≤ 122 then b - 32 else b

/-- A hexadecimal digit. -/
def hexDigit (n : Nat) : UInt8 := UInt8.ofNat (if n < 10 then 48 + n else 55 + n)

/-- Two hexadecimal digits for each byte. -/
def hex (bs : List UInt8) : List UInt8 :=
  bs.flatMap fun b => [hexDigit (b.toNat / 16), hexDigit (b.toNat % 16)]

/-- The value of a hexadecimal digit. -/
def hexValue? (b : UInt8) : Option Nat :=
  let c := Char.ofNat b.toNat
  if c.isDigit || ('a' ≤ c && c ≤ 'f') || ('A' ≤ c && c ≤ 'F') then some (Numeral.hexDigit c)
  else none

/-- The bytes that pairs of hexadecimal digits spell; some characters may stand between pairs. -/
def unhex (ignored : List Nat) : List (List UInt8) → Option (List UInt8)
  | [] => some []
  | high :: rest =>
    match high with
    | [h] =>
      match hexValue? h, rest with
      | some h, [l] :: rest =>
        match hexValue? l with
        | some l => (unhex ignored rest).map (UInt8.ofNat (16 * h + l) :: ·)
        | none => none
      | some _, _ => none
      | none, rest => if ignored.contains h.toNat then unhex ignored rest else none
    | other => if ignored.contains (code other) then unhex ignored rest else none

/-- Cuts characters off the start, as long as it is one of them. -/
def trimStart (cut : List (List UInt8)) : (fuel : Nat) → List UInt8 → List UInt8
  | 0, bs => bs
  | fuel + 1, bs =>
    match cut.find? fun c => c.isPrefixOf bs with
    | some c => trimStart cut fuel (bs.drop c.length)
    | none => bs

/-- Cuts characters off the end. -/
def trimEnd (cut : List (List UInt8)) (bs : List UInt8) : List UInt8 :=
  (trimStart (cut.map List.reverse) bs.length bs.reverse).reverse

/-- Every occurrence of a part replaced, from the left. -/
def replace (part new : List UInt8) : List UInt8 → List UInt8
  | [] => []
  | b :: bs =>
    if part.isPrefixOf (b :: bs) then new ++ replace part new (bs.drop (part.length - 1))
    else b :: replace part new bs
termination_by bs => bs.length
decreasing_by all_goals simp only [List.length_drop, List.length_cons]; omega

/-- How many pieces stand before the first place where a part occurs. -/
def indexOf? (part : List UInt8) : List (List UInt8) → Option Nat
  | [] => if part.isEmpty then some 0 else none
  | piece :: rest =>
    if part.isPrefixOf (piece ++ rest.flatten) then some 0
    else (indexOf? part rest).map (· + 1)

/-- From which place on, and how many: a place counts from 1, or from the end if it is negative, and
a negative number counts to the left. -/
def range (length start count : Int) : Nat × Nat :=
  let (start, count) :=
    if start < 0 then
      if 0 ≤ start + length then (start + length, count)
      else (0, if count < 0 then 0 else count + start + length)
    else if 0 < start then (start - 1, count)
    else (0, if 0 < count then count - 1 else count)
  let (start, count) :=
    if 0 ≤ count then (start, count)
    else
      let count := if count < -start then start else -count
      (start - count, count)
  (start.toNat, count.toNat)

/-- The items in a range. -/
def part {α : Type} (items : List α) (start count : Int) : List α :=
  let (skipped, taken) := range items.length start count
  (items.drop skipped).take taken

end Bytes
end Engine
end LinkedRows
