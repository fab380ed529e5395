import Pewpew.Expression.Syntax

/-! Evaluation by value. -/
namespace Pewpew.SelectParser

/-- The logical value that `not` gives an operand. -/
def applyNot (not : Option Bool) (v : Cow) : Cow :=
  match not with
  | some true => .owned (.bool (!v.val.boolValue))
  | some false => .owned (.bool v.val.boolValue)
  | none => v

def evaluateRandom (x : Externals) (min : Nat) : Option Nat → Nat
  | some max => x.sample min max
  | none => min

def invalidRange (marker : Marker) : ExecutingError := .invalidFunctionArguments "range" marker

/-- The two bounds of `range` as integers. -/
def rangeOf (marker : Marker) (first second : Json) : Except ExecutingError ReversibleRange :=
  match first.asU64, second.asU64 with
  | some first, some second => .ok (.new first second)
  | _, _ => .error (invalidRange marker)

section Evaluate

variable (x : Externals)

mutual

def ValueOrExpression.evaluate : ValueOrExpression → Cow → Bool → Option (List Cow) →
    Except ExecutingError Cow
  | .value v, d, noErr, forEach => v.evaluate d noErr forEach
  | .expression e, d, noErr, forEach => e.evaluate d noErr forEach

def Value.evaluate : Value → Cow → Bool → Option (List Cow) → Except ExecutingError Cow
  | .path p, d, noErr, forEach => p.evaluate d noErr forEach
  | .json v, _, _, _ => .ok (.borrowed v)
  | .template t, d, _, forEach => (t.evaluate d forEach).map fun s => .owned (.string s)

/-- `Path::evaluate`; the identifier `for_each` refers to the tuple bound to it. -/
def Path.evaluate : Path → Cow → Bool → Option (List Cow) → Except ExecutingError Cow
  | .mk (.functionCall f) rest marker, d, noErr, forEach =>
    (f.evaluate d noErr forEach).bind fun v => indexJson2 rest v noErr forEach marker
  | .mk (.ident s) rest marker, d, noErr, forEach =>
    match (if s = "for_each" then forEach else none) with
    | some tuple =>
      match rest with
      | [] => .ok (.owned (.array (tuple.map Cow.val)))
      | .number n :: rest =>
        indexJson2 rest (tuple[n]?.getD (.owned .null)) noErr forEach marker
      | _ :: rest => indexJson2 rest (.owned .null) noErr forEach marker
    | none =>
      (indexStep d (.key s) noErr marker).bind fun v => indexJson2 rest v noErr forEach marker
  | .mk (.value v) rest marker, _, noErr, forEach =>
    indexJson2 rest (.borrowed v) noErr forEach marker

/-- `index_json2`: each segment is evaluated on the value it indexes into. -/
def indexJson2 : List PathSegment → Cow → Bool → Option (List Cow) → Marker →
    Except ExecutingError Cow
  | [], json, _, _, _ => .ok json
  | segment :: rest, json, noErr, forEach, marker =>
    (segment.evaluate json.borrow forEach).bind fun index =>
      (indexStep json index noErr marker).bind fun v => indexJson2 rest v noErr forEach marker

def PathSegment.evaluate : PathSegment → Cow → Option (List Cow) → Except ExecutingError Index
  | .number n, _, _ => .ok (.position n)
  | .string s, _, _ => .ok (.key s)
  | .template t, d, forEach => (t.evaluate d forEach).map Index.key

def Template.evaluate : Template → Cow → Option (List Cow) → Except ExecutingError String
  | .mk pieces noRecoverableError, d, forEach =>
    (evaluatePieces pieces d noRecoverableError forEach).map String.join

def evaluatePieces : List TemplatePiece → Cow → Bool → Option (List Cow) →
    Except ExecutingError (List String)
  | [], _, _, _ => .ok []
  | piece :: pieces, d, noErr, forEach =>
    (piece.evaluate d noErr forEach).bind fun s =>
      (evaluatePieces pieces d noErr forEach).map (s :: ·)

def TemplatePiece.evaluate : TemplatePiece → Cow → Bool → Option (List Cow) →
    Except ExecutingError String
  | .expression e, d, noErr, forEach =>
    (e.evaluate d.borrow noErr forEach).map fun v => Json.valueToString x v.val
  | .notExpression s, _, _, _ => .ok s

def Expression.evaluate : Expression → Cow → Bool → Option (List Cow) →
    Except ExecutingError Cow
  | .mk not lhs none, d, noErr, forEach =>
    (lhs.evaluate d noErr forEach).map (applyNot not)
  | .mk not lhs (some (op, rhs)), d, noErr, forEach =>
    (lhs.evaluate d.borrow noErr forEach).bind fun l =>
      (op.evaluate l.val ((rhs.evaluate d.borrow noErr forEach).map Cow.val)).map
        fun v => applyNot not (.owned v)

def ExpressionLhs.evaluate : ExpressionLhs → Cow → Bool → Option (List Cow) →
    Except ExecutingError Cow
  | .expression e, d, noErr, forEach => e.evaluate d noErr forEach
  | .value v, d, noErr, forEach => v.evaluate d noErr forEach

def FunctionCall.evaluate : FunctionCall → Cow → Bool → Option (List Cow) →
    Except ExecutingError Cow
  | .collect arg _ _, d, noErr, forEach => arg.evaluate d noErr forEach
  | .encode arg encoding, d, noErr, forEach =>
    (arg.evaluate d noErr forEach).map fun v =>
      .owned (.string (x.encode encoding (Json.valueToString x v.val)))
  | .entries arg, d, noErr, forEach =>
    (arg.evaluate d noErr forEach).map fun v =>
      match entriesOf x v.val with
      | some es => .owned (.array es)
      | none => v
  | .epoch unit, _, _, _ => .ok (.owned (epochText x unit))
  | .ifElse first second third, d, noErr, forEach =>
    (first.evaluate d.borrow noErr forEach).bind fun v =>
      if v.val.boolValue then second.evaluate d noErr forEach else third.evaluate d noErr forEach
  | .join arg sep sep2, d, noErr, forEach =>
    (arg.evaluate d noErr forEach).map fun v => .owned (joinWith x sep sep2 v.val)
  | .jsonPath _ selector _, d, _, _ => .ok (.owned (.array (x.pathSelect selector d.val)))
  | .matchRegex arg names regex, d, noErr, forEach =>
    (arg.evaluate d noErr forEach).map fun v => .owned (matchWith x regex names v.val)
  | .minMax args min, d, noErr, forEach =>
    (evaluateArgs args d noErr forEach).map fun vs => .owned (MinMax.evaluateValues min vs)
  | .pad start arg minLength padding, d, noErr, forEach =>
    (arg.evaluate d noErr forEach).map fun v => .owned (padWith x padding minLength start v.val)
  | .randomInteger low high, _, _, _ => .ok (.owned (.ofNat (x.sample low high)))
  | .randomFloat low high, _, _, _ => .ok (.owned (.ofF64 (x.sampleF64 low high)))
  | .range first second marker, d, noErr, forEach =>
    (first.evaluate d.borrow noErr forEach).bind fun l =>
      if l.val.asU64.isNone then .error (invalidRange marker)
      else (second.evaluate d noErr forEach).bind fun r =>
        (rangeOf marker l.val r.val).map fun range => .owned (.array range.items)
  | .rangeConstant r, _, _, _ => .ok (.owned (.array r.items))
  | .repeatNull min random, _, _, _ =>
    .ok (.owned (.array (List.replicate (evaluateRandom x min random) .null)))
  | .replace needle haystack replacer, d, noErr, forEach =>
    (needle.evaluate d.borrow noErr forEach).bind fun n =>
      (replacer.evaluate d.borrow noErr forEach).bind fun r =>
        (haystack.evaluate d noErr forEach).map fun h =>
          .owned (replaceIn (Json.valueToString x n.val) (Json.valueToString x r.val) h.val)

/-- The values of the arguments of `min` and `max`, up to the first error. -/
def evaluateArgs : List ValueOrExpression → Cow → Bool → Option (List Cow) →
    Except ExecutingError (List Json)
  | [], _, _, _ => .ok []
  | arg :: args, d, noErr, forEach =>
    (arg.evaluate d.borrow noErr forEach).bind fun v =>
      (evaluateArgs args d noErr forEach).map (v.val :: ·)

end

end Evaluate

end Pewpew.SelectParser
