import Pewpew.Expression.Functions

/-! The syntax trees of expressions, as the parser of `lib/config` builds them. -/
namespace Pewpew.SelectParser

mutual

inductive ValueOrExpression where
  | value (v : Value)
  | expression (e : Expression)

inductive Value where
  | path (p : Path)
  | json (v : Json)
  | template (t : Template)

inductive Path where
  | mk (start : PathStart) (rest : List PathSegment) (marker : Marker)

inductive PathStart where
  | functionCall (f : FunctionCall)
  | ident (s : String)
  | value (v : Json)

inductive PathSegment where
  | number (n : Nat)
  | string (s : String)
  | template (t : Template)

inductive Template where
  | mk (pieces : List TemplatePiece) (noRecoverableError : Bool)

inductive TemplatePiece where
  | expression (e : ValueOrExpression)
  | notExpression (s : String)

/-- An operand, negated where `not` says so, and the operator and operand after it. -/
inductive Expression where
  | mk (not : Option Bool) (lhs : ExpressionLhs) (op : Option (InfixOperator × Expression))

inductive ExpressionLhs where
  | expression (e : Expression)
  | value (v : Value)

inductive FunctionCall where
  | collect (arg : ValueOrExpression) (min : Nat) (random : Option Nat)
  | encode (arg : ValueOrExpression) (encoding : Encoding)
  | entries (arg : ValueOrExpression)
  | epoch (unit : EpochUnit)
  | ifElse (first second third : ValueOrExpression)
  | join (arg : ValueOrExpression) (sep : String) (sep2 : Option String)
  | jsonPath (provider selector : String) (marker : Marker)
  | matchRegex (arg : ValueOrExpression) (captureNames : List String) (regex : String)
  | minMax (args : List ValueOrExpression) (min : Bool)
  | pad (start : Bool) (arg : ValueOrExpression) (minLength : Nat) (padding : String)
  | randomInteger (low high : Nat)
  | randomFloat (low high : F64)
  | range (first second : ValueOrExpression) (marker : Marker)
  | rangeConstant (r : ReversibleRange)
  | repeatNull (min : Nat) (random : Option Nat)
  | replace (needle haystack replacer : ValueOrExpression)

end

/-- A clone-on-write reference. -/
inductive Cow where
  | borrowed (v : Json)
  | owned (v : Json)

namespace Cow

def val : Cow → Json
  | .borrowed v | .owned v => v

/-- `Cow::Borrowed(&*d)`. -/
def borrow (d : Cow) : Cow := .borrowed d.val

@[simp] theorem val_borrowed (v : Json) : (Cow.borrowed v).val = v := rfl
@[simp] theorem val_owned (v : Json) : (Cow.owned v).val = v := rfl
@[simp] theorem val_borrow (d : Cow) : d.borrow.val = d.val := rfl

/-- The elements of an array are held as the array is. -/
def elements : Cow → List Cow
  | .borrowed (.array a) => a.map .borrowed
  | .owned (.array a) => a.map .owned
  | v => [v]

theorem elements_val (d : Cow) : d.elements.map val = d.val.elements := by
  rcases d with v | v <;> cases v <;> simp [elements, Json.elements, Function.comp_def]

end Cow

/-- The result of evaluating a path segment. -/
inductive Index where
  | key (s : String)
  | position (n : Nat)
  deriving DecidableEq, Repr

/-- One indexing of `index_json` and `index_json2`. -/
def indexStep (json : Cow) (index : Index) (noErr : Bool) (marker : Marker) :
    Except ExecutingError Cow :=
  let found : Except ExecutingError (Option Cow) :=
    match json, index with
    | .borrowed (.object m), .key s => .ok ((Object.get m s).map .borrowed)
    | .borrowed (.object m), .position n => .ok ((Object.get m (toString n)).map .borrowed)
    | .owned (.object m), .key s => .ok ((Object.get m s).map .owned)
    | .borrowed (.array a), .position n => .ok (a[n]?.map .borrowed)
    | .owned (.array a), .position n => .ok (a[n]?.map .owned)
    | json, .key s =>
      match json.val with
      | .array a =>
        if s = "length" then .ok (some (.owned (.ofNat a.length)))
        else if noErr then .ok none else .error (.indexingIntoJson s json.val marker)
      | v => if noErr then .ok none else .error (.indexingIntoJson s v marker)
    | json, .position n =>
      if noErr then .ok none
      else .error (.indexingIntoJson ("[" ++ toString n ++ "]") json.val marker)
  found.map fun o => o.getD (.owned .null)

end Pewpew.SelectParser
