import Pewpew.Expression.Evaluate
import Pewpew.Expression.Providers

/-! The function calls that an expression may hold: `FunctionCall::new`. -/
namespace Pewpew.SelectParser

def invalidArguments {α : Type} (function : String) (marker : Marker) : Except Failure α :=
  .error (.executing (.invalidFunctionArguments function marker))

/-- The number of a constant argument. -/
def asU64 : ValueOrExpression → Option Nat
  | .value (.json (.number (.int i))) => if 0 ≤ i then some i.toNat else none
  | .value (.json (.number (.float neg q))) => some (F64.toU64 (.fin neg q))
  | _ => none

/-- `Uniform::new`, which panics on an empty range. -/
def uniform (low high : Nat) : Except Failure Unit := if low < high then .ok () else .error .panic

/-- A constant argument is replaced by the function's value. -/
def foldConstant (arg : ValueOrExpression) (call : FunctionCall) (value : Json → Json) :
    FunctionCall ⊕ Json :=
  match arg with
  | .value (.json v) => .inr (value v)
  | _ => .inl call

section

variable (x : Externals) (marker : Marker)

/-- `as_u64` of an optional last argument, which is the upper bound of a random number. -/
def randomBound (function : String) (min : Nat) : Option ValueOrExpression →
    Except Failure (Option Nat)
  | none => .ok none
  | some arg =>
    match asU64 arg with
    | some max => (uniform min max).map fun _ => some max
    | none => invalidArguments function marker

def Collect.new : List ValueOrExpression → Except Failure FunctionCall
  | first :: second :: rest =>
    if rest.length ≤ 1 then
      match asU64 second with
      | some min => (randomBound marker "collect" min rest.head?).map (.collect first min)
      | none => invalidArguments "collect" marker
    else invalidArguments "collect" marker
  | _ => invalidArguments "collect" marker

/-- `Encoding::try_from`. -/
def Encoding.ofText (s : String) : Option Encoding :=
  if s = "base64" then some .base64
  else if s = "percent-simple" then some .percentSimple
  else if s = "percent-query" then some .percentQuery
  else if s = "percent" then some .percent
  else if s = "percent-path" then some .percentPath
  else if s = "percent-userinfo" then some .percentUserinfo
  else if s = "non-alphanumeric" then some .nonAlphanumeric
  else none

def Encode.new : List ValueOrExpression → Except Failure (FunctionCall ⊕ Json)
  | [arg, .value (.json (.string s))] =>
    match Encoding.ofText s with
    | some encoding => .ok <| foldConstant arg (.encode arg encoding) fun v =>
        .string (x.encode encoding (Json.valueToString x v))
    | none => invalidArguments "encode" marker
  | _ => invalidArguments "encode" marker

def Entries.new : List ValueOrExpression → Except Failure FunctionCall
  | [arg] => .ok (.entries arg)
  | _ => invalidArguments "entries" marker

def Epoch.new : List ValueOrExpression → Except Failure FunctionCall
  | [.value (.json (.string s))] =>
    if s = "s" then .ok (.epoch .seconds)
    else if s = "ms" then .ok (.epoch .milliseconds)
    else if s = "mu" then .ok (.epoch .microseconds)
    else if s = "ns" then .ok (.epoch .nanoseconds)
    else invalidArguments "epoch" marker
  | _ => invalidArguments "epoch" marker

/-- A constant condition is decided if the chosen branch is constant too. -/
def If.new : List ValueOrExpression → Except Failure (FunctionCall ⊕ Json)
  | [first, second, third] =>
    match first with
    | .value (.json c) =>
      .ok <| foldConstant (if c.boolValue then second else third) (.ifElse first second third) id
    | _ => .ok (.inl (.ifElse first second third))
  | _ => invalidArguments "if" marker

def Join.new : List ValueOrExpression → Except Failure (FunctionCall ⊕ Json)
  | [one, .value (.json (.string sep))] =>
    .ok (foldConstant one (.join one sep none) (joinWith x sep none))
  | [one, .value (.json (.string sep)), .value (.json (.string sep2))] =>
    .ok (foldConstant one (.join one sep sep2) (joinWith x sep sep2))
  | _ => invalidArguments "join" marker

/-- The provider that a JSON path starts with: the group of
`^((?:request\.|response\.)?[^\[.]*)`. -/
def JsonPath.provider (path : String) : String :=
  let name (cs : List Char) := cs.takeWhile fun c => c ≠ '[' ∧ c ≠ '.'
  let path := path.toList
  if "request.".toList.isPrefixOf path then
    "request." ++ String.ofList (name (path.drop "request.".length))
  else if "response.".toList.isPrefixOf path then
    "response." ++ String.ofList (name (path.drop "response.".length))
  else String.ofList (name path)

/-- The path of a static variable is selected at once. -/
def JsonPath.new (vars : Object) (args : List ValueOrExpression)
    (providers : RequiredProviders) :
    Except Failure ((FunctionCall ⊕ Json) × RequiredProviders) :=
  match args with
  | [.value (.json (.string path))] =>
    let provider := JsonPath.provider path
    let selector := (if "[".toList.isPrefixOf path.toList then "$" else "$.") ++ path
    if x.pathCompiles selector then
      match vars.get provider with
      | some v =>
        .ok (.inr (.array (x.pathSelect selector (.object [(provider, v)]))), providers)
      | none => .ok (.inl (.jsonPath provider selector marker), providers.insert provider marker)
    else invalidArguments "json_path" marker
  | _ => invalidArguments "json_path" marker

/-- An unnamed group goes by its number. -/
def Match.new : List ValueOrExpression → Except Failure (FunctionCall ⊕ Json)
  | [arg, .value (.json (.string regex))] =>
    match x.captureNames regex with
    | some names =>
      let names := names.mapIdx fun i n => n.getD (toString i)
      .ok (foldConstant arg (.matchRegex arg names regex) (matchWith x regex names))
    | none => invalidArguments "match" marker
  | _ => invalidArguments "match" marker

def ValueOrExpression.constant? : ValueOrExpression → Option Json
  | .value (.json v) => some v
  | _ => none

/-- Without any argument that is not constant, `min` and `max` are constant. -/
def MinMax.new (min : Bool) (args : List ValueOrExpression) : FunctionCall ⊕ Json :=
  let constants := args.filterMap ValueOrExpression.constant?
  if constants.length = args.length then .inr (evalIter min constants) else .inl (.minMax args min)

def Pad.new (start : Bool) : List ValueOrExpression → Except Failure (FunctionCall ⊕ Json)
  | [first, .value (.json (.number n)), .value (.json (.string padding))] =>
    match n.asU64 with
    | some minLength => .ok (foldConstant first (.pad start first minLength padding)
        (padWith x padding minLength start))
    | none => invalidArguments "pad" marker
  | _ => invalidArguments "pad" marker

def Random.new : List ValueOrExpression → Except Failure FunctionCall
  | [.value (.json (.number first)), .value (.json (.number second))] =>
    match first.asU64, second.asU64 with
    | some low, some high => (uniform low high).map fun _ => .randomInteger low high
    | _, _ =>
      let low := first.asF64
      let high := second.asF64
      if low.lt high ∧ (high.sub low).isFinite then .ok (.randomFloat low high)
      else .error .panic
  | _ => invalidArguments "random" marker

def Range.new : List ValueOrExpression → Except Failure FunctionCall
  | [first, second] =>
    match first.constant?, second.constant? with
    | some _, some _ =>
      match asU64 first, asU64 second with
      | some first, some second => .ok (.rangeConstant (.new first second))
      | _, _ => invalidArguments "range" marker
    | _, _ => .ok (.range first second marker)
  | _ => invalidArguments "range" marker

def Repeat.new : List ValueOrExpression → Except Failure FunctionCall
  | first :: rest =>
    if rest.length ≤ 1 then
      match asU64 first with
      | some min => (randomBound marker "repeat" min rest.head?).map (.repeatNull min)
      | none => invalidArguments "repeat" marker
    else invalidArguments "repeat" marker
  | _ => invalidArguments "repeat" marker

/-- Its error names `match`. -/
def Replace.new : List ValueOrExpression → Except Failure (FunctionCall ⊕ Json)
  | [.value (.json (.string needle)), .value (.json haystack),
      .value (.json (.string replacer))] => .ok (.inr (replaceIn needle replacer haystack))
  | [needle, haystack, replacer] => .ok (.inl (.replace needle haystack replacer))
  | _ => invalidArguments "match" marker

/-- `FunctionCall::new`. -/
def FunctionCall.new (vars : Object) (ident : String) (args : List ValueOrExpression)
    (providers : RequiredProviders) :
    Except Failure ((FunctionCall ⊕ Json) × RequiredProviders) :=
  let call (r : Except Failure FunctionCall) := r.map fun f => (Sum.inl f, providers)
  let callOrValue (r : Except Failure (FunctionCall ⊕ Json)) := r.map fun f => (f, providers)
  if ident = "collect" then call (Collect.new marker args)
  else if ident = "encode" then callOrValue (Encode.new x marker args)
  else if ident = "end_pad" then callOrValue (Pad.new x marker false args)
  else if ident = "entries" then call (Entries.new marker args)
  else if ident = "epoch" then call (Epoch.new marker args)
  else if ident = "if" then callOrValue (If.new marker args)
  else if ident = "join" then callOrValue (Join.new x marker args)
  else if ident = "json_path" then JsonPath.new x marker vars args providers
  else if ident = "match" then callOrValue (Match.new x marker args)
  else if ident = "max" then .ok (MinMax.new false args, providers)
  else if ident = "min" then .ok (MinMax.new true args, providers)
  else if ident = "start_pad" then callOrValue (Pad.new x marker true args)
  else if ident = "random" then call (Random.new marker args)
  else if ident = "range" then call (Range.new marker args)
  else if ident = "repeat" then call (Repeat.new marker args)
  else if ident = "replace" then callOrValue (Replace.new marker args)
  else .error (.unknownFunction ident marker)

end

end Pewpew.SelectParser
