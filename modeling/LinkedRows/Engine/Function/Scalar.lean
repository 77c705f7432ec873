/-
# Values of functions of one row

A function is given data and has a datum.  Nothing among the arguments mostly makes the result
nothing.  `coalesce` and `iif`, which do not look at all of their arguments, are not here but with
the expressions.
-/

import LinkedRows.Engine.Function
import LinkedRows.Engine.Function.Pattern
import LinkedRows.Engine.Version

namespace LinkedRows
namespace Engine

/-- What functions know beside their arguments: the number of the row that was inserted last, and
how many rows the last change touched. -/
structure Surroundings where
  lastNumber : Int64
  touched : Nat
deriving DecidableEq, Repr

namespace Datum

/-- What a function makes of the bytes of two data, if both are there. -/
def whenBoth (d e : Datum) (result : List UInt8 → List UInt8 → Datum) : Datum :=
  match d.bytes?, e.bytes? with
  | some a, some b => result a b
  | _, _ => .null

/-- What a function of bytes makes of a datum. -/
def ofBytes (d : Datum) (result : List UInt8 → Datum) : Datum := (d.bytes?.map result).getD .null

/-- A natural number as a datum. -/
def ofNat (n : Nat) : Datum := .integer (Int64.ofNat n)

def absolute : Datum → Except Issue Datum
  | .null => .ok .null
  | .integer n =>
    if n = Int64.minValue then .error .integerOverflow
    else .ok (.integer (if n < 0 then -n else n))
  | d =>
    let x := d.toReal
    .ok (.real (if x.lt (.zero false) then x.negate else x))

/-- The bytes of the character with a code. -/
def encoded (d : Datum) : List UInt8 :=
  let n := d.toInteger.toInt
  Bytes.encode (if 0 ≤ n ∧ n ≤ 0x10FFFF then n.toNat else 0xFFFD)

/-- Texts with a separator between them; what is nothing is left out. -/
def joined (separator : List UInt8) (ds : List Datum) : Datum :=
  .text (separator.intercalate (ds.filterMap Datum.bytes?))

/-- The place of a part in a whole, from 1 on, or 0. -/
def place (whole part : Datum) : Datum :=
  whenBoth whole part fun bytes wanted =>
    let pieces :=
      match whole, part with
      | .blob _, .blob _ => bytes.map ([·])
      | _, _ => Bytes.pieces bytes
    if wanted.isEmpty then ofNat 1
    else ofNat (((Bytes.indexOf? wanted pieces).map (· + 1)).getD 0)

/-- How long a datum is: a text in characters, bytes in bytes, a number as its text. -/
def length : Datum → Datum
  | .text bytes => ofNat (Bytes.characters bytes).length
  | d => ofBytes d fun bytes => ofNat bytes.length

/-- Is a text like a pattern? -/
def like (pattern text : Datum) (escape : Option Nat) : Datum :=
  whenBoth pattern text fun pattern text =>
    .ofBool (Wildcard.matchAll (Wildcard.ofLike escape (Bytes.codes pattern)) (Bytes.codes text))

/-- The same with a character that takes the next one as it is. -/
def likeWith (pattern text escape : Datum) : Except Issue Datum :=
  match escape.bytes? with
  | none => .ok .null
  | some bytes =>
    match Bytes.codes bytes with
    | [code] => .ok (like pattern text (some code))
    | _ => .error .escapeLength

/-- Does a text match a pattern of file names? -/
def glob (pattern text : Datum) : Datum :=
  whenBoth pattern text fun pattern text =>
    let codes := Bytes.codes pattern
    .ofBool (Wildcard.matchAll (Wildcard.ofGlob codes.length codes) (Bytes.codes text))

/-- Cuts characters off a text. -/
def trim (left right : Bool) (d : Datum) (cut : List (List UInt8)) : Datum :=
  ofBytes d fun bytes =>
    let bytes := if left then Bytes.trimStart cut bytes.length bytes else bytes
    .text (if right then Bytes.trimEnd cut bytes else bytes)

/-- The least or the greatest datum.  Of equal ones the least is the last, the greatest the first.
-/
def extreme (greatest : Bool) (c : Collation) : Datum → List Datum → Datum
  | best, [] => best
  | best, d :: ds =>
    let better := if greatest then order c best d == .lt else order c best d != .lt
    extreme greatest c (if better then d else best) ds

/-- A datum as it is written in a statement. -/
def quoted : Datum → Datum
  | .null => .ofAscii ['N', 'U', 'L', 'L']
  | .integer n => .text (((Datum.integer n).bytes?).getD [])
  | .real x =>
    if !x.isFinite then .ofString (if x.isNegative then "-9.0e+999" else "9.0e+999")
    else
      let short := Numeral.text x
      .ofAscii (if (Numeral.real short).1.numericEq x then short else Numeral.longText x)
  | .text bytes =>
    let doubled := (Bytes.untilZero bytes).flatMap fun b => if b == 39 then [b, b] else [b]
    .text (39 :: doubled ++ [39])
  | .blob bytes => .text (88 :: 39 :: Bytes.hex bytes ++ [39])

/-- A text with every occurrence of a part replaced. -/
def replace (d part new : Datum) : Datum :=
  whenBoth d part fun bytes wanted =>
    if (wanted.head?).all (· == 0) then d
    else ofBytes new fun new => .text (Bytes.replace wanted new bytes)

/-- A number rounded to places after the point. -/
def round (d : Datum) (places : Int64) : Datum :=
  if d.isNull then .null
  else
    let x := d.toReal
    let limit : Binary64 := .ofNat (pow2 52)
    let count := (max 0 (min 30 places.toInt)).toNat
    if !(x.magnitude.lt limit || x.magnitude == limit) then .ofBinary64 x
    else if count = 0 then
      let half : Binary64 := .ofScaled (x.lt (.zero false)) 1 (-1)
      .real (.ofInt64 (Datum.cut (x.add half)))
    else .real (Numeral.real (Numeral.fixedText count x)).1

/-- The sign of a number. -/
def sign (d : Datum) : Datum :=
  match Affinity.compared d with
  | .integer n => .integer (if n < 0 then -1 else if n = 0 then 0 else 1)
  | .real x =>
    let zero : Binary64 := .zero false
    .integer (if x.lt zero then -1 else if zero.lt x then 1 else 0)
  | _ => .null

/-- A part of a text or of bytes. -/
def part (d start : Datum) (count : Option Datum) : Datum :=
  let count := count.getD (.integer 1000000000)
  if start.isNull || count.isNull then .null
  else
    let start := start.toInteger.toInt
    let count := count.toInteger.toInt
    match d with
    | .blob bytes => if bytes.isEmpty then .null else .blob (Bytes.part bytes start count)
    | d => ofBytes d fun bytes => .text (Bytes.part (Bytes.characters bytes) start count).flatten

/-- The bytes that hexadecimal digits spell, between which some characters may stand. -/
def unhex (d ignored : Datum) : Datum :=
  whenBoth d ignored fun bytes ignored =>
    match Bytes.unhex (Bytes.codes ignored) (Bytes.characters bytes) with
    | some bytes => .blob bytes
    | none => .null

/-- Zeros.  There is no room for very many of them. -/
def zeros (d : Datum) : Except Issue Datum :=
  let n := d.toInteger.toInt
  if n ≤ 1000000 then .ok (.blob (List.replicate n.toNat 0)) else .error .unsupported

end Datum

namespace Scalar

/-- The value of a function of its arguments, whose number is right. -/
def value (f : Scalar) (s : Surroundings) (c : Collation) (arguments : List Datum) :
    Except Issue Datum :=
  match f, arguments with
  | .abs, [d] => d.absolute
  | .changes, _ => .ok (.ofNat s.touched)
  | .char, ds => .ok (.text (ds.flatMap Datum.encoded))
  | .concat, ds => .ok (.joined [] ds)
  | .concatWith, separator :: ds => .ok (separator.ofBytes fun bytes => .joined bytes ds)
  | .glob, [pattern, text] => .ok (.glob pattern text)
  | .hex, [d] => .ok (.text (Bytes.hex (d.bytes?.getD [])))
  | .instr, [whole, part] => .ok (.place whole part)
  | .lastNumber, _ => .ok (.integer s.lastNumber)
  | .length, [d] => .ok d.length
  | .like, [pattern, text] => .ok (.like pattern text none)
  | .like, [pattern, text, escape] => Datum.likeWith pattern text escape
  | .likely, d :: _ => .ok d
  | .lower, [d] => .ok (d.ofBytes fun bytes => .text (bytes.map Collation.lowerByte))
  | .trim left right, [d] => .ok (.trim left right d [[32]])
  | .trim left right, [d, cut] =>
    .ok (cut.ofBytes fun cut => .trim left right d (Bytes.characters cut))
  | .extreme greatest, d :: ds =>
    .ok (if (d :: ds).any Datum.isNull then .null else .extreme greatest c d ds)
  | .nullIf, [d, e] => .ok (if order c d e == .eq then .null else d)
  | .octetLength, [d] => .ok (d.ofBytes fun bytes => .ofNat bytes.length)
  | .quote, [d] => .ok d.quoted
  | .replace, [d, part, new] => .ok (d.replace part new)
  | .round, [d] => .ok (d.round 0)
  | .round, [d, places] => .ok (if places.isNull then .null else d.round places.toInteger)
  | .sign, [d] => .ok d.sign
  | .substr, [d, start] => .ok (d.part start none)
  | .substr, [d, start, count] => .ok (d.part start (some count))
  | .typeName, [d] => .ok (.ofString d.typeName)
  | .unhex, [d] => .ok (d.unhex (.text []))
  | .unhex, [d, ignored] => .ok (d.unhex ignored)
  | .unicode, [d] =>
    .ok (d.ofBytes fun bytes => ((Bytes.codes bytes).head?.map Datum.ofNat).getD .null)
  | .upper, [d] => .ok (d.ofBytes fun bytes => .text (bytes.map Bytes.upperByte))
  | .version, _ => .ok (.ofString Version.current.text)
  | .zeros, [d] => d.zeros
  | .matches, _ => .error (.unusable "MATCH")
  | _, _ => .error .unsupported

end Scalar
end Engine
end LinkedRows
