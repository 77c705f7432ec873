/-
# Values of expressions

A formula is an expression that has been resolved: its names are places in a row, its calls are
functions.  Its value depends on a scene: the row that is looked at, all rows of the group that it
stands for, and the parameters.

Truth is true, false or unknown.  How two data are compared follows from where they come from: their
affinity and their collation.
-/

import LinkedRows.Engine.Function.Aggregate

namespace LinkedRows
namespace Engine

/-- A row with its number. -/
structure Stored where
  number : Int64
  values : List Datum
deriving DecidableEq, Repr

/-- The datum at a position of a row. -/
def Stored.datum (row : Stored) (position : Nat) : Datum := (row.values[position]?).getD .null

/-- Where a name finds its datum: in a column, or it is the number of the row. -/
inductive Place where
  | column (index : Nat)
  | number
deriving DecidableEq, Repr

/-- An expression whose names are places and whose calls are functions. -/
abbrev Formula := Expr Place Callee

/-- How the data of a column are compared. -/
structure Trait where
  affinity : Affinity
  collation : Collation
deriving DecidableEq, Repr

/-- How two data are compared. -/
structure Comparison where
  affinity : Affinity
  collation : Collation
deriving DecidableEq, Repr

namespace Comparison

/-- The order of two data, neither of which is nothing. -/
def order? (c : Comparison) (d e : Datum) : Option Ordering :=
  if d.isNull || e.isNull then none
  else
    let (d, e) := c.affinity.both d e
    some (order c.collation d e)

/-- Is a datum the same as another one?  Nothing is the same as itself. -/
def same (c : Comparison) (d e : Datum) : Bool :=
  match c.order? d e with
  | some o => o == .eq
  | none => d.isNull && e.isNull

end Comparison

namespace Formula

mutual

/-- The affinity of an expression, if it has one. -/
def affinity? (traits : List Trait) : Formula → Option Affinity
  | .name (.column i) => (traits[i]?).map Trait.affinity
  | .name .number => some .integer
  | .apply (.cast a) _ => some a
  | .apply (.collate _) es => firstAffinity? traits es
  | _ => none

/-- The affinity of the first of some expressions. -/
def firstAffinity? (traits : List Trait) : List Formula → Option Affinity
  | [] => none
  | e :: _ => affinity? traits e

end

/-- Is a collation asked for in some part of an expression? -/
def isCollated (e : Formula) : Bool :=
  e.any fun
    | .apply (.collate _) _ => true
    | _ => false

mutual

/-- The collation of an expression: the one that is asked for, or that of the column. -/
def collation? (traits : List Trait) : Formula → Option Collation
  | .name (.column i) => (traits[i]?).map Trait.collation
  | .apply (.collate name) _ => Collation.named? name
  | .apply (.cast _) es | .apply (.unary .positive) es => firstCollation? traits es
  | .apply _ es => askedCollation? traits es
  | _ => none

/-- The collation of the first of some expressions. -/
def firstCollation? (traits : List Trait) : List Formula → Option Collation
  | [] => none
  | e :: _ => collation? traits e

/-- The collation of the first expression in which one is asked for. -/
def askedCollation? (traits : List Trait) : List Formula → Option Collation
  | [] => none
  | e :: es => if e.isCollated then collation? traits e else askedCollation? traits es

end

/-- The collation of the first of some expressions that has one. -/
def sharedCollation (traits : List Trait) (es : List Formula) : Collation :=
  (es.findSome? (collation? traits)).getD .binary

/-- How two expressions are compared. -/
def comparison (traits : List Trait) (e f : Formula) : Comparison :=
  let collation :=
    if e.isCollated then collation? traits e
    else if f.isCollated then collation? traits f
    else (collation? traits e).or (collation? traits f)
  ⟨sharedAffinity (affinity? traits e) (affinity? traits f), collation.getD .binary⟩

/-- How an expression is compared with items that it may be one of. -/
def membership (traits : List Trait) (e : Formula) : Comparison :=
  let affinity := (affinity? traits e).getD .blob
  ⟨if affinity = .real then .numeric else affinity, (collation? traits e).getD .binary⟩

/-- The first function of many rows in an expression. -/
def aggregateName? : Formula → Option String
  | .apply head es =>
    match head with
    | .call (.aggregate _ name _) => some name
    | _ => firstName es
  | _ => none
where
  /-- The first one in some expressions. -/
  firstName : List Formula → Option String
    | [] => none
    | e :: es => (aggregateName? e).or (firstName es)

end Formula

/-- Truth of two conditions together. -/
def both : Option Bool → Option Bool → Option Bool
  | some true, b => b
  | some false, _ => some false
  | none, some false => some false
  | none, _ => none

/-- The opposite of a truth value. -/
def opposite (b : Option Bool) : Option Bool := b.map (!·)

/-- Truth of one of two conditions. -/
def either (a b : Option Bool) : Option Bool := opposite (both (opposite a) (opposite b))

/-- The value of an operator on one argument. -/
def Unary.value (op : Unary) (d : Datum) : Datum :=
  match op with
  | .negative =>
    match d.toNumber with
    | .null => .null
    | .integer n => if n = Int64.minValue then .real (.ofNat (pow2 63)) else .integer (-n)
    | x => .ofBinary64 ((Binary64.zero false).sub x.toReal)
  | .positive => d
  | .complement => if d.isNull then .null else .integer (~~~d.toInteger)
  | .not => .ofTruth (opposite d.truth?)
  | .isNull => .ofBool d.isNull
  | .notNull => .ofBool (!d.isNull)
  | .truth expected negated => .ofBool ((d.truth? == some expected) != negated)

namespace Operator

/-- Does a comparison hold of an order? -/
def accepts (op : Operator) (o : Ordering) : Bool :=
  match op with
  | .equal | .same => o == .eq
  | .unequal | .notSame => o != .eq
  | .less => o == .lt
  | .atMost => o != .gt
  | .greater => o == .gt
  | .atLeast => o != .lt
  | _ => false

/-- Does an operator compare? -/
def isComparison : Operator → Bool
  | .equal | .unequal | .same | .notSame | .less | .atMost | .greater | .atLeast => true
  | _ => false

/-- The value of a comparison. -/
def compared (op : Operator) (c : Comparison) (d e : Datum) : Option Bool :=
  match op with
  | .same => some (c.same d e)
  | .notSame => some !(c.same d e)
  | _ => (c.order? d e).map op.accepts

/-- The value of an operator on whole numbers, if it fits. -/
def ofWhole? (op : Operator) (a b : Int) : Option Datum :=
  match op with
  | .plus => (int64? (a + b)).map .integer
  | .minus => (int64? (a - b)).map .integer
  | .times => (int64? (a * b)).map .integer
  | .divide => if b = 0 then some .null else (int64? (a.tdiv b)).map .integer
  | .remainder => if b = 0 then some .null else (int64? (a.tmod b)).map .integer
  | _ => none

/-- The value of an operator on reals; a remainder is one of whole numbers. -/
def ofReals (op : Operator) (d e : Datum) (x y : Binary64) : Datum :=
  match op with
  | .plus => .ofBinary64 (x.add y)
  | .minus => .ofBinary64 (x.sub y)
  | .times => .ofBinary64 (x.mul y)
  | .divide => if y.isZero then .null else .ofBinary64 (x.div y)
  | .remainder =>
    let b := e.toInteger.toInt
    if b = 0 then .null else .real (.ofInt64 (Int64.ofInt (d.toInteger.toInt.tmod b)))
  | _ => .null

/-- A whole number moved by bits; a negative number of them moves it the other way. -/
def shifted (left : Bool) (a b : Int) : Int64 :=
  let left := if b < 0 then !left else left
  let count := b.natAbs
  if 64 ≤ count then if left || 0 ≤ a then 0 else -1
  else Int64.ofInt (if left then a * pow2 count else a / pow2 count)

/-- The value of an operator that does not compare. -/
def computed (op : Operator) (d e : Datum) : Datum :=
  if d.isNull || e.isNull then .null
  else
    match op with
    | .bitAnd => .integer (d.toInteger &&& e.toInteger)
    | .bitOr => .integer (d.toInteger ||| e.toInteger)
    | .shiftLeft => .integer (shifted true d.toInteger.toInt e.toInteger.toInt)
    | .shiftRight => .integer (shifted false d.toInteger.toInt e.toInteger.toInt)
    | .join => .text (d.bytes?.getD [] ++ e.bytes?.getD [])
    | _ =>
      let x := d.toNumber
      let y := e.toNumber
      let whole? :=
        match x, y with
        | .integer a, .integer b => op.ofWhole? a.toInt b.toInt
        | _, _ => none
      whole?.getD (op.ofReals d e x.toReal y.toReal)

/-- The value of an operator, given how its arguments are compared. -/
def value (op : Operator) (c : Comparison) (d e : Datum) : Datum :=
  match op with
  | .and => .ofTruth (both d.truth? e.truth?)
  | .or => .ofTruth (either d.truth? e.truth?)
  | _ => if op.isComparison then .ofTruth (op.compared c d e) else op.computed d e

end Operator

/-- What a formula is evaluated on: the row that is looked at and all rows of its group. -/
structure Scene where
  traits : List Trait
  parameters : List Datum
  surroundings : Surroundings
  row : Option Stored
  group : List Stored
deriving DecidableEq, Repr

namespace Scene

/-- The datum at a place; there is nothing in no row. -/
def find (s : Scene) : Place → Datum
  | .column i => (s.row.map fun row => row.datum i).getD .null
  | .number => (s.row.map fun row => Datum.integer row.number).getD .null

/-- The scene of another row. -/
def on (s : Scene) (row : Stored) : Scene := { s with row := some row }

/-- A formula and its value. -/
abbrev Valued := Formula × Except Issue Datum

/-- The first datum that is something. -/
def firstOf : List Valued → Except Issue Datum
  | [] => .ok .null
  | (_, v) :: rest => do
    let d ← v
    if d.isNull then firstOf rest else return d

/-- The result after the first condition that holds, or the last one if it stands alone. -/
def chosen (holds : Formula → Datum → Bool) : List Valued → Except Issue Datum
  | [] => .ok .null
  | [(_, v)] => v
  | (e, v) :: (_, result) :: rest => do
    if holds e (← v) then result else chosen holds rest

/-- Is a datum one of some items? -/
def isAmong (c : Comparison) (d : Datum) (items : List Datum) : Option Bool :=
  items.foldl (fun found item => either found ((c.order? d item).map (· == .eq))) (some false)

/-- Does a condition hold on its own? -/
def isTrue (_ : Formula) (d : Datum) : Bool := d.truth? == some true

/-- The value of what is applied to arguments.  Not all of them are looked at by what can tell from
the first ones. -/
def combine (s : Scene) (head : Head Callee) (arguments : List Valued) : Except Issue Datum :=
  match head, arguments with
  | .unary op, [(_, v)] => return op.value (← v)
  | .binary op, [(e, v), (f, w)] => do
    let d ← v
    if op = .and ∧ d.truth? = some false ∨ op = .or ∧ d.truth? = some true then
      return .ofBool (op = .or)
    else return op.value (Formula.comparison s.traits e f) d (← w)
  | .between, [(e, v), (low, w), (high, u)] => do
    let d ← v
    return .ofTruth (both
      (Operator.compared .atLeast (Formula.comparison s.traits e low) d (← w))
      (Operator.compared .atMost (Formula.comparison s.traits e high) d (← u)))
  | .among, (e, v) :: items => do
    let d ← v
    return .ofTruth (isAmong (Formula.membership s.traits e) d (← items.mapM Prod.snd))
  | .choice true _, (e, v) :: arms => do
    let d ← v
    chosen (fun f item => (Formula.comparison s.traits e f).order? d item == some .eq) arms
  | .choice false _, arms => chosen isTrue arms
  | .cast a, [(_, v)] => return a.cast (← v)
  | .collate _, [(_, v)] => v
  | .call (.scalar .coalesce), arguments => firstOf arguments
  | .call (.scalar .choose), arguments => chosen isTrue arguments
  | .call (.scalar f), arguments => do
    let collation := Formula.sharedCollation s.traits (arguments.map Prod.fst)
    f.value s.surroundings collation (← arguments.mapM Prod.snd)
  | .row, _ => .error .rowMisuse
  | _, _ => .error .unsupported

mutual

/-- The value of a formula. -/
def value (s : Scene) : Formula → Except Issue Datum
  | .literal d => .ok d
  | .numeral negative spelling => Numeral.value negative spelling
  | .parameter number => .ok ((s.parameters[number - 1]?).getD .null)
  | .name place => .ok (s.find place)
  | .apply (.call (.aggregate f _ isDistinct)) es => do
    let rows ← s.group.mapM fun row => (values (s.on row) es).mapM Prod.snd
    f.value isDistinct (Formula.sharedCollation s.traits es) rows
  | .apply head es => s.combine head (values s es)
  | .fault issue => .error issue

/-- Formulas with their values. -/
def values (s : Scene) : List Formula → List Valued
  | [] => []
  | e :: es => (e, value s e) :: values s es

end

/-- Is a condition true? -/
def holds (s : Scene) (condition : Formula) : Except Issue Bool :=
  return isTrue condition (← s.value condition)

end Scene
end Engine
end LinkedRows
