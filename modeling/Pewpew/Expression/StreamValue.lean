import Pewpew.Expression.IntoStream

/-! The value that the stream of an expression yields, over streams that yield one value each. -/
namespace Pewpew.SelectParser

open Polling ZipAll

/-! ### One value of every stream -/

section StreamValue

variable (x : Externals) (values : Object)

/-- The rest of a path, applied to an owned value. -/
def indexValue (rest : List PathSegment) (noErr : Bool) (marker : Marker) (v : Json) :
    Option Json :=
  (indexJson2 x rest (.owned v) noErr none marker).toOption.map Cow.val

mutual

/-- The value that each item of the stream stands for, where the providers have the given values;
`none` where an item is an error, or the stream ends. -/
def ValueOrExpression.streamValue : ValueOrExpression → Bool → Option Json
  | .value v, noErr => v.streamValue noErr
  | .expression e, noErr => e.streamValue noErr

def Value.streamValue : Value → Bool → Option Json
  | .path p, noErr => p.streamValue noErr
  | .json v, _ => some v
  | .template t, _ => t.streamValue.map Json.string

def Path.streamValue : Path → Bool → Option Json
  | .mk (.functionCall f) rest marker, noErr =>
    (f.streamValue noErr).bind (indexValue x rest noErr marker)
  | .mk (.ident s) rest marker, noErr =>
    (Object.get values s).bind (indexValue x rest noErr marker)
  | .mk (.value v) rest marker, noErr => indexValue x rest noErr marker v

def Template.streamValue : Template → Option String
  | .mk pieces noRecoverableError =>
    (firstRow (piecesStreamValues pieces noRecoverableError)).map String.join

def piecesStreamValues : List TemplatePiece → Bool → List (Option String)
  | [], _ => []
  | piece :: pieces, noErr => piece.streamValue noErr :: piecesStreamValues pieces noErr

def TemplatePiece.streamValue : TemplatePiece → Bool → Option String
  | .expression e, noErr => (e.streamValue noErr).map (Json.valueToString x)
  | .notExpression s, _ => some s

def Expression.streamValue : Expression → Bool → Option Json
  | .mk not lhs none, noErr => (lhs.streamValue noErr).map (negated not)
  | .mk not lhs (some (op, rhs)), noErr =>
    (lhs.streamValue noErr).bind fun l => (rhs.streamValue noErr).bind fun r =>
      (op.evaluate l (.ok r)).toOption.map (negated not)

def ExpressionLhs.streamValue : ExpressionLhs → Bool → Option Json
  | .expression e, noErr => e.streamValue noErr
  | .value v, noErr => v.streamValue noErr

/-- Groups, the clock and random numbers do not have one value. -/
def FunctionCall.streamValue : FunctionCall → Bool → Option Json
  | .collect _ _ _, _ | .epoch _, _ | .randomInteger _ _, _ | .randomFloat _ _, _
  | .repeatNull _ (some _), _ => none
  | .encode arg encoding, noErr =>
    (arg.streamValue noErr).map fun v => .string (x.encode encoding (Json.valueToString x v))
  | .entries arg, noErr =>
    (arg.streamValue noErr).map (entriesValue x)
  | .ifElse first second third, noErr =>
    (first.streamValue noErr).bind fun v =>
      if v.boolValue then second.streamValue noErr else third.streamValue noErr
  | .join arg sep sep2, noErr => (arg.streamValue noErr).map (joinWith x sep sep2)
  | .jsonPath provider selector _, _ =>
    (Object.get values provider).map
      fun v => .array (x.pathSelect selector (.object [(provider, v)]))
  | .matchRegex arg names regex, noErr => (arg.streamValue noErr).map (matchWith x regex names)
  | .minMax args min, noErr => (firstRow (argsStreamValues args noErr)).map (MinMax.evalIter min)
  | .pad start arg minLength padding, noErr =>
    (arg.streamValue noErr).map (padWith x padding minLength start)
  | .range first second marker, noErr =>
    (first.streamValue noErr).bind fun l => (second.streamValue noErr).bind fun r =>
      (rangeOf marker l r).toOption.map fun range => .array range.items
  | .rangeConstant r, _ => some (.array r.items)
  | .repeatNull min none, _ => some (.array (List.replicate min .null))
  | .replace needle haystack replacer, noErr =>
    (haystack.streamValue noErr).bind fun h => (needle.streamValue noErr).bind fun n =>
      (replacer.streamValue noErr).map fun r =>
        replaceIn (Json.valueToString x n) (Json.valueToString x r) h

def argsStreamValues : List ValueOrExpression → Bool → List (Option Json)
  | [], _ => []
  | arg :: args, noErr => arg.streamValue noErr :: argsStreamValues args noErr

end

end StreamValue

mutual

/-- All providers that the expression refers to are known, and it uses no `collect`, `random`,
`epoch` or random count. The template of a path segment is evaluated on the value that it indexes
into, and refers to no provider. -/
def ValueOrExpression.Ordinary (known : String → Prop) : ValueOrExpression → Prop
  | .value v => v.Ordinary known
  | .expression e => e.Ordinary known

def Value.Ordinary (known : String → Prop) : Value → Prop
  | .path p => p.Ordinary known
  | .json _ => True
  | .template t => t.Ordinary known

def Path.Ordinary (known : String → Prop) : Path → Prop
  | .mk start rest _ => start.Ordinary known ∧ segmentsOrdinary rest

def PathStart.Ordinary (known : String → Prop) : PathStart → Prop
  | .functionCall f => f.Ordinary known
  | .ident s => known s
  | .value _ => True

def segmentsOrdinary : List PathSegment → Prop
  | [] => True
  | segment :: rest => segment.Ordinary ∧ segmentsOrdinary rest

def PathSegment.Ordinary : PathSegment → Prop
  | .template t => t.Ordinary fun _ => True
  | _ => True

def Template.Ordinary (known : String → Prop) : Template → Prop
  | .mk pieces _ => piecesOrdinary known pieces

def piecesOrdinary (known : String → Prop) : List TemplatePiece → Prop
  | [] => True
  | piece :: pieces => piece.Ordinary known ∧ piecesOrdinary known pieces

def TemplatePiece.Ordinary (known : String → Prop) : TemplatePiece → Prop
  | .expression e => e.Ordinary known
  | .notExpression _ => True

def Expression.Ordinary (known : String → Prop) : Expression → Prop
  | .mk _ lhs none => lhs.Ordinary known
  | .mk _ lhs (some (_, rhs)) => lhs.Ordinary known ∧ rhs.Ordinary known

def ExpressionLhs.Ordinary (known : String → Prop) : ExpressionLhs → Prop
  | .expression e => e.Ordinary known
  | .value v => v.Ordinary known

def FunctionCall.Ordinary (known : String → Prop) : FunctionCall → Prop
  | .collect _ _ _ | .epoch _ | .randomInteger _ _ | .randomFloat _ _
  | .repeatNull _ (some _) => False
  | .encode arg _ | .entries arg | .join arg _ _ | .matchRegex arg _ _ | .pad _ arg _ _ =>
    arg.Ordinary known
  | .ifElse first second third =>
    first.Ordinary known ∧ second.Ordinary known ∧ third.Ordinary known
  | .jsonPath provider _ _ => known provider
  | .minMax args _ => argsOrdinary known args
  | .range first second _ => first.Ordinary known ∧ second.Ordinary known
  | .rangeConstant _ | .repeatNull _ none => True
  | .replace needle haystack replacer =>
    needle.Ordinary known ∧ haystack.Ordinary known ∧ replacer.Ordinary known

def argsOrdinary (known : String → Prop) : List ValueOrExpression → Prop
  | [] => True
  | arg :: args => arg.Ordinary known ∧ argsOrdinary known args

end

end Pewpew.SelectParser
