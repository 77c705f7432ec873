/-
# Rows of a selection

The rows of a table are visited by the route of the selection.  Those on which the condition is true
are shown, each once if only different rows are wanted, in the order that is asked for; then the
window is cut out.

If all rows make one group, there is one row.  What it shows beside the functions of many rows is
that of the first row; or, if there is a least or a greatest datum among these functions, of the row
that has the last one of them.
-/

import LinkedRows.Engine.Selection
import LinkedRows.Row

namespace LinkedRows
namespace Engine

/-- The whole number that a datum of a window is. -/
def Datum.count (d : Datum) : Except Issue Int :=
  match d.wholeNumber? with
  | some n => .ok n.toInt
  | none => .error .mismatch

namespace SortTerm

/-- The order of two data by one term. -/
def compare (t : SortTerm) (d e : Datum) : Ordering :=
  let isTurned := t.descending != (t.nullsMoved && (d.isNull != e.isNull))
  if isTurned then order t.collation e d else order t.collation d e

/-- The order of two lists of data by terms in turn. -/
def compareAll (terms : List SortTerm) (ds es : List Datum) : Ordering :=
  ((terms.zip (ds.zip es)).map fun (t, d, e) => t.compare d e).foldl Ordering.then .eq

end SortTerm

namespace Selection

/-- What is shown of a row, with what it is sorted by. -/
structure Line where
  data : List Datum
  keys : List Datum

/-- The part of a list that a window shows; a negative count shows all of it. -/
def cut {α : Type} (count skipped : Int) (lines : List α) : List α :=
  let rest := lines.drop skipped.toNat
  if count < 0 then rest else rest.take count.toNat

/-- The rows that the condition is true of, in the order of their visit. -/
def found (s : Selection) (scene : Scene) (rows : List Stored) : Except Issue (List Stored) :=
  (s.route.visit rows).filterM fun row => (scene.on row).holds s.condition

/-- The data of the outputs. -/
def data (s : Selection) (scene : Scene) : Except Issue (List Datum) :=
  s.outputs.mapM fun o => scene.value o.2

/-- The data of the outputs and of the terms to sort by. -/
def line (s : Selection) (scene : Scene) : Except Issue Line :=
  return ⟨← s.data scene, ← s.sorting.mapM fun t => scene.value t.formula⟩

/-- The lines that differ from all lines before them. -/
def distinct (collations : List Collation) : (seen : List (List Datum)) → List Line → List Line
  | _, [] => []
  | seen, l :: ls =>
    let isSame (data : List Datum) : Bool :=
      (collations.zip (data.zip l.data)).all fun (c, d, e) => order c d e == .eq
    if seen.any isSame then distinct collations seen ls
    else l :: distinct collations (l.data :: seen) ls

/-- The row that a group shows, for a function that looks for the least or the greatest datum. -/
def extremeRow (scene : Scene) (greatest : Bool) (e : Formula) (rows : List Stored) :
    Except Issue (Option Stored) := do
  let collation := (Formula.collation? scene.traits e).getD .binary
  let step (best : Option (Datum × Stored)) (row : Stored) :
      Except Issue (Option (Datum × Stored)) := do
    let d ← (scene.on row).value e
    match best with
    | none => return some (d, row)
    | some (old, kept) =>
      let isBetter := order collation old d == (if greatest then .lt else .gt)
      if d.isNull then return some (if old.isNull then (d, row) else (old, kept))
      else return some (if old.isNull || isBetter then (d, row) else (old, kept))
  return (← rows.foldlM step none).map Prod.snd

/-- The row that a group shows. -/
def shownRow (s : Selection) (scene : Scene) (rows : List Stored) :
    Except Issue (Option Stored) :=
  let extreme? : Option (Bool × Formula) := s.summaries.reverse.findSome? fun summary =>
    match summary.function, summary.arguments with
    | .extreme greatest, [e] => some (greatest, e)
    | _, _ => none
  match extreme? with
  | some (greatest, e) => extremeRow scene greatest e rows
  | none => .ok rows.head?

/-- The lines of a selection whose rows make one group. -/
def groupLines (s : Selection) (scene : Scene) (rows : List Stored) :
    Except Issue (List (List Datum)) := do
  let rows := if s.route.firstIsEnough then rows.take 1 else rows
  let scene := { scene with row := ← s.shownRow scene rows, group := rows }
  if ← scene.holds s.groupCondition then return [← s.data scene] else return []

/-- The lines of a selection that shows rows. -/
def rowLines (s : Selection) (scene : Scene) (rows : List Stored) :
    Except Issue (List (List Datum)) := do
  let lines ← rows.mapM fun row => s.line (scene.on row)
  let collations := s.outputs.map fun o =>
    (Formula.collation? scene.traits o.2).getD .binary
  let lines := if s.isDistinct then distinct collations [] lines else lines
  let lines :=
    if s.sorting.isEmpty then lines
    else lines.mergeSort fun l m => SortTerm.compareAll s.sorting l.keys m.keys != .gt
  return lines.map Line.data

/-- Rows as far as they are needed to show some of them in the order of their visit. -/
def needed (s : Selection) (count skipped : Int) (rows : List Stored) : List Stored :=
  if count < 0 || s.isGrouped || s.isDistinct || !s.sorting.isEmpty then rows
  else rows.take (count.toNat + skipped.toNat)

/-- The rows of a selection, given all rows of its table. -/
def rows (s : Selection) (scene : Scene) (all : List Stored) : Except Issue (List Row) := do
  let count ← match s.window with
    | some (count, _) => (← scene.value count).count
    | none => pure (-1)
  if count = 0 then return []
  else
    let skipped ← match s.window with
      | some (_, some skipped) => (← scene.value skipped).count
      | _ => pure 0
    let found ← s.found scene all
    let lines ←
      if s.isGrouped then s.groupLines scene found
      else s.rowLines scene (s.needed count skipped found)
    return (cut count skipped lines).map fun data =>
      ⟨s.outputs.map Prod.fst, data.map Datum.toValue⟩

end Selection
end Engine
end LinkedRows
