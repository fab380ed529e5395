import Pewpew.Expression.Json

/-! What operators and functions compute from the values of their arguments. -/
namespace Pewpew.SelectParser

/-- A position in the config file. -/
structure Marker where
  line : Nat
  col : Nat
  deriving DecidableEq, Repr

inductive ExecutingError where
  | indexingIntoJson (path : String) (json : Json) (marker : Marker)
  | invalidFunctionArguments (function : String) (marker : Marker)

inductive InfixOperator where
  | add | and | divide | eq | gt | gte | lt | lte | mod | multiply | ne | or | subtract
  deriving DecidableEq, Repr

/-- `INFIX_OPERATOR_PRECEDENCE`. -/
def InfixOperator.precedence : InfixOperator → Nat
  | .add => 4
  | .and => 2
  | .divide => 5
  | .eq => 3
  | .gt => 3
  | .gte => 3
  | .lt => 3
  | .lte => 3
  | .mod => 5
  | .multiply => 5
  | .ne => 3
  | .or => 1
  | .subtract => 4

def toJsonNumber (n : F64) : Json :=
  if F64.lt (n.sub n.trunc) F64.epsilon then .ofNat n.toU64 else .ofF64 n

/-- The right operand is an error only where the operator asks for it. -/
def InfixOperator.evaluate (op : InfixOperator) (left : Json) (right : Except ExecutingError Json) :
    Except ExecutingError Json :=
  match op with
  | .add => do return toJsonNumber (left.f64Value.add (← right).f64Value)
  | .and => if left.boolValue then do return .bool (← right).boolValue else return .bool false
  | .divide => do return toJsonNumber (left.f64Value.div (← right).f64Value)
  | .eq => do return .bool (left.eq (← right))
  | .gt => do return .bool ((← right).f64Value.lt left.f64Value)
  | .gte => do return .bool ((← right).f64Value.le left.f64Value)
  | .lt => do return .bool (left.f64Value.lt (← right).f64Value)
  | .lte => do return .bool (left.f64Value.le (← right).f64Value)
  | .mod => do return toJsonNumber (left.f64Value.rem (← right).f64Value)
  | .multiply => do return toJsonNumber (left.f64Value.mul (← right).f64Value)
  | .ne => do return .bool (!left.eq (← right))
  | .or => if left.boolValue then return .bool true else do return .bool (← right).boolValue
  | .subtract => do return toJsonNumber (left.f64Value.sub (← right).f64Value)

/-- `Entries::evaluate_with_arg`: an array, an object and a string have entries. -/
def entriesOf (x : Externals) : Json → Option (List Json)
  | .array a => some (a.mapIdx fun i e => .array [.ofNat i, e])
  | .object o => some (o.map fun e => .array [.string e.1, e.2])
  | .string s => some ((x.graphemes s).mapIdx fun i g => .array [.ofNat i, .string g])
  | _ => none

/-- `Join::evaluate_with_arg`. -/
def joinWith (x : Externals) (sep : String) (sep2 : Option String) : Json → Json
  | .array a => .string (sep.intercalate (a.map (Json.valueToString x)))
  | .object o =>
    match sep2 with
    | some sep2 =>
      .string (sep.intercalate (o.map fun e => e.1 ++ sep2 ++ Json.valueToString x e.2))
    | none => .string (Json.valueToString x (.object o))
  | d => .string (Json.valueToString x d)

/-- `Match::evaluate_with_arg`. -/
def matchWith (x : Externals) (regex : String) (captureNames : List String) (d : Json) : Json :=
  match x.captures regex (Json.valueToString x d) with
  | some captures =>
    .object (Object.ofEntries ((captureNames.zip captures).map fun e =>
      (e.1, (e.2.map Json.string).getD .null)))
  | none => .null

/-- One round of `min` or `max`; a right value that is not a number changes nothing. -/
def MinMax.evaluateStep (min : Bool) (left : Option (F64 × Json)) (right : Json) :
    Option (F64 × Json) :=
  let r := right.f64Value
  match left with
  | some (l, v) =>
    match l.partialCmp r, min, l.isFinite with
    | some .lt, true, _ | some .gt, false, _ | none, _, true => some (l, v)
    | _, _, _ => if r.isFinite then some (r, right) else some (l, v)
  | none => if r.isFinite then some (r, right) else none

/-- The result of `MinMax::evaluate` on the values of its arguments. -/
def MinMax.evaluateValues (min : Bool) (values : List Json) : Json :=
  ((values.foldl (evaluateStep min) none).map (·.2)).getD .null

/-- One round of `MinMax::eval_iter`. -/
def MinMax.iterStep (min : Bool) (left right : Json) : Json :=
  let l := left.f64Value
  let r := right.f64Value
  match l.partialCmp r, min, l.isFinite with
  | some .lt, true, _ | some .gt, false, _ | none, _, true => left
  | _, _, _ => if r.isFinite then right else .null

/-- `MinMax::eval_iter` on values without errors. -/
def MinMax.evalIter (min : Bool) (values : List Json) : Json := values.foldl (iterStep min) .null

/-- `Pad::evaluate_with_arg`. -/
def padWith (x : Externals) (padding : String) (minLength : Nat) (start : Bool) (d : Json) : Json :=
  let s := Json.valueToString x d
  let diff := minLength - (x.graphemes s).length
  let cluster := x.graphemes padding
  let pad := String.join ((List.range diff).filterMap fun i => cluster[i % cluster.length]?)
  .string (if start then pad ++ s else s ++ pad)

/-- `ReversibleRange`: `u64` arithmetic wraps around. -/
structure ReversibleRange where
  first : Nat
  last : Nat
  reverse : Bool
  deriving DecidableEq, Repr

def ReversibleRange.new (first second : Nat) : ReversibleRange :=
  if second < first then ⟨(second + 1) % 2 ^ 64, (first + 1) % 2 ^ 64, true⟩
  else ⟨first, second, false⟩

def ReversibleRange.items (r : ReversibleRange) : List Json :=
  let up := (List.range' r.first (r.last - r.first)).map Json.ofNat
  if r.reverse then up.reverse else up

/-- Where `needle` occurs in a text. -/
def containsChars (needle : List Char) : List Char → Bool
  | [] => needle.isEmpty
  | c :: cs => needle.isPrefixOf (c :: cs) || containsChars needle cs

/-- The replacement of a nonempty needle; `skip` characters belong to the last match. -/
def replaceChars (needle replacer : List Char) : (skip : Nat) → List Char → List Char
  | _, [] => []
  | skip + 1, _ :: cs => replaceChars needle replacer skip cs
  | 0, c :: cs =>
    if needle.isPrefixOf (c :: cs) then
      replacer ++ replaceChars needle replacer (needle.length - 1) cs
    else c :: replaceChars needle replacer 0 cs

/-- `str::replace`: the empty needle occurs around every character. -/
def replaceText (s needle replacer : String) : String :=
  String.ofList <|
    if needle = "" then replacer.toList ++ s.toList.flatMap fun c => c :: replacer.toList
    else replaceChars needle.toList replacer.toList 0 s.toList

def containsText (s needle : String) : Bool := containsChars needle.toList s.toList

/-- One renamed key of an object. -/
def renameKey (o : Object) (change : String × String) : Object :=
  match o.get change.1 with
  | some v => (o.swapRemove change.1).insert change.2 v
  | none => o

mutual
/-- `Replace::replace`. -/
def replaceIn (needle replacer : String) : Json → Json
  | .string s => .string (if containsText s needle then replaceText s needle replacer else s)
  | .array a => .array (replaceInArray needle replacer a)
  | .object o =>
    .object (((o.map (·.1)).filter (containsText · needle)).map
      (fun k => (k, replaceText k needle replacer)) |>.foldl renameKey
        (replaceInObject needle replacer o))
  | v => v
def replaceInArray (needle replacer : String) : List Json → List Json
  | [] => []
  | v :: a => replaceIn needle replacer v :: replaceInArray needle replacer a
def replaceInObject (needle replacer : String) : List (String × Json) → List (String × Json)
  | [] => []
  | e :: o => replaceInEntry needle replacer e :: replaceInObject needle replacer o
def replaceInEntry (needle replacer : String) : String × Json → String × Json
  | (k, v) => (k, replaceIn needle replacer v)
end

inductive EpochUnit where
  | seconds | milliseconds | microseconds | nanoseconds
  deriving DecidableEq, Repr

/-- `Epoch::evaluate`. -/
def epochText (x : Externals) : EpochUnit → Json
  | .seconds => .string (toString (x.epochNanos / 10 ^ 9))
  | .milliseconds => .string (toString (x.epochNanos / 10 ^ 6))
  | .microseconds => .string (toString (x.epochNanos / 10 ^ 3))
  | .nanoseconds => .string (toString x.epochNanos)

end Pewpew.SelectParser
