/-
# Locations

```
location := "file:" ("//" authority)? name ("?" option ("&" option)*)? ("#" …)?
option   := key ("=" value)?
```

A byte can be written as `%` with two hexadecimal digits; what follows the byte 0 in a part is left
out.  Options without a key do not count.
-/

import LinkedRows.Text.Utf8

namespace LinkedRows
namespace Engine

/-- Where a database is, and the options of opening it. -/
structure Location where
  name : List UInt8
  options : List (List UInt8 × List UInt8)
deriving DecidableEq, Repr

namespace Location

/-- The byte of a character in ASCII. -/
def byte (c : Char) : UInt8 := UInt8.ofNat c.toNat

/-- The bytes of a text. -/
def bytes (text : String) : List UInt8 := text.toUTF8.toList

/-- The value of a hexadecimal digit. -/
def digit? (b : UInt8) : Option UInt8 :=
  if byte '0' ≤ b ∧ b ≤ byte '9' then some (b - byte '0')
  else if byte 'a' ≤ b ∧ b ≤ byte 'f' then some (b - byte 'a' + 10)
  else if byte 'A' ≤ b ∧ b ≤ byte 'F' then some (b - byte 'A' + 10)
  else none

/-- The byte that two hexadecimal digits write. -/
def pair? (a b : UInt8) : Option UInt8 := do return 16 * (← digit? a) + (← digit? b)

/-- The bytes up to an end, with all escapes read, and what is left from the end on. -/
def decoded (isEnd : UInt8 → Bool) : List UInt8 → List UInt8 × List UInt8
  | [] => ([], [])
  | c :: rest =>
    if isEnd c then ([], c :: rest)
    else
      match c == byte '%', rest with
      | true, a :: b :: more =>
        match pair? a b with
        | some 0 => ([], more.dropWhile fun c => !isEnd c)
        | some octet =>
          let (read, left) := decoded isEnd more
          (octet :: read, left)
        | none =>
          let (read, left) := decoded isEnd (a :: b :: more)
          (c :: read, left)
      | _, rest =>
        let (read, left) := decoded isEnd rest
        (c :: read, left)

/-- The options that some bytes hold. -/
def readOptions : (fuel : Nat) → List UInt8 → List (List UInt8 × List UInt8)
  | 0, _ => []
  | fuel + 1, cs =>
    let isNext (c : UInt8) : Bool := c == byte '&'
    let (key, left) := decoded (fun c => isNext c || c == byte '=') cs
    match left with
    | [] => if key.isEmpty then [] else [(key, [])]
    | c :: rest =>
      if key.isEmpty then
        let skipped := if isNext c then rest else (rest.dropWhile fun c => !isNext c).drop 1
        readOptions fuel skipped
      else if isNext c then (key, []) :: readOptions fuel rest
      else
        let (value, left) := decoded isNext rest
        (key, value) :: readOptions fuel (left.drop 1)

/-- The location that a path is, or the authority that it must not have; none if the path is a plain
name. -/
def read? (path : String) : Option (Except String Location) :=
  let cs := bytes path
  let scheme := bytes "file:"
  let slashes := bytes "//"
  let ofPath (cs : List UInt8) : Location :=
    let (name, left) := decoded (· == byte '?') (cs.takeWhile (· != byte '#'))
    ⟨name, readOptions left.length (left.drop 1)⟩
  if !scheme.isPrefixOf cs then none
  else
    let cs := cs.drop scheme.length
    if slashes.isPrefixOf cs then
      let cs := cs.drop slashes.length
      let authority := cs.takeWhile (· != byte '/')
      if authority.isEmpty || authority == bytes "localhost" then
        some (.ok (ofPath (cs.drop authority.length)))
      else some (.error (Text.readUtf8 authority))
    else some (.ok (ofPath cs))

end Location
end Engine
end LinkedRows
