/-
# Patterns

| in `LIKE` | in `GLOB` | stands for |
| --- | --- | --- |
| `%` | `*` | any characters, or none |
| `_` | `?` | one character |
| | `[a-z]`, `[^a-z]` | one of these characters, or one that is none of them |
| a character after the escape | | itself |
| any other character | any other character | itself, in `LIKE` also the other case in ASCII |
-/

import LinkedRows.Engine.Function.Bytes

namespace LinkedRows
namespace Engine

/-- A piece of a pattern. -/
inductive Wildcard where
  | anything
  | one
  | exactly (code : Nat)
  | caseless (code : Nat)
  | oneOf (inverted : Bool) (ranges : List (Nat × Nat))
  | never
deriving DecidableEq, Repr

namespace Wildcard

/-- A capital letter of ASCII as a small one. -/
def lowerCode (n : Nat) : Nat := if 65 ≤ n ∧ n ≤ 90 then n + 32 else n

/-- Does a piece stand for a character? -/
def accepts (w : Wildcard) (n : Nat) : Bool :=
  match w with
  | .anything | .never => false
  | .one => true
  | .exactly code => code == n
  | .caseless code => lowerCode code == lowerCode n
  | .oneOf inverted ranges => (ranges.any fun r => r.1 ≤ n && n ≤ r.2) != inverted

/-- Does a pattern stand for a text? -/
def matchAll : List Wildcard → List Nat → Bool
  | [], text => text.isEmpty
  | .anything :: pattern, [] => matchAll pattern []
  | .anything :: pattern, n :: text =>
    matchAll pattern (n :: text) || matchAll (.anything :: pattern) text
  | _ :: _, [] => false
  | w :: pattern, n :: text => w.accepts n && matchAll pattern text
termination_by pattern text => pattern.length + text.length

/-- The pattern of `LIKE`. -/
def ofLike (escape : Option Nat) : List Nat → List Wildcard
  | [] => []
  | n :: rest =>
    if some n = escape then
      match rest with
      | [] => [.never]
      | m :: rest => .caseless m :: ofLike escape rest
    else if n = 37 then .anything :: ofLike escape rest
    else if n = 95 then .one :: ofLike escape rest
    else .caseless n :: ofLike escape rest

/-- The ranges up to the closing bracket, after a character that may begin one, and how many
characters they take. -/
def ranges : (last : Option Nat) → List Nat → Option (List (Nat × Nat) × Nat)
  | _, [] => none
  | last, n :: rest =>
    if n = 93 then some ([], 1)
    else
      let single := (ranges (some n) rest).map fun (rs, k) => ((n, n) :: rs, k + 1)
      match last, rest with
      | some low, high :: rest =>
        if n = 45 ∧ high ≠ 93 then
          (ranges none rest).map fun (rs, k) => ((low, high) :: rs, k + 2)
        else single
      | _, _ => single

/-- The characters between brackets, and how many characters they take. -/
def brackets (cs : List Nat) : Option (Wildcard × Nat) :=
  let (inverted, cs) :=
    match cs with
    | 94 :: cs => (true, cs)
    | cs => (false, cs)
  let sign := if inverted then 1 else 0
  match cs with
  | 93 :: cs => (ranges none cs).map fun (rs, k) => (.oneOf inverted ((93, 93) :: rs), k + 1 + sign)
  | cs => (ranges none cs).map fun (rs, k) => (.oneOf inverted rs, k + sign)

/-- The pattern of `GLOB`. -/
def ofGlob : (fuel : Nat) → List Nat → List Wildcard
  | 0, _ | _, [] => []
  | fuel + 1, n :: rest =>
    if n = 42 then .anything :: ofGlob fuel rest
    else if n = 63 then .one :: ofGlob fuel rest
    else if n = 91 then
      match brackets rest with
      | some (w, k) => w :: ofGlob fuel (rest.drop k)
      | none => [.never]
    else .exactly n :: ofGlob fuel rest

end Wildcard
end Engine
end LinkedRows
