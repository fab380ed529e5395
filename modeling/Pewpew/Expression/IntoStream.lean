import Pewpew.Expression.Evaluate
import Pewpew.Stream.ZipAll

/-! Evaluation by streams: what an expression makes of the streams of its providers. -/
namespace Pewpew.SelectParser

open Polling

/-- An item of a stream with the values to return to its providers, or an error. -/
abbrev Item (α Ar : Type) := Except ExecutingError (α × List Ar)

section Poll

variable {α β Ar : Type}

/-- `TryStreamExt::map_ok`. -/
def mapOk (f : α → β) : PollStream (Item α Ar) → PollStream (Item β Ar) :=
  mapItems fun i => i.map fun p => (f p.1, p.2)

/-- The variables of the poll function of `If::into_stream`. -/
structure IfState (Ar : Type) where
  first : PollStream (Item Json Ar)
  second : PollStream (Item Json Ar)
  third : PollStream (Item Json Ar)
  holder : Option (Bool × List Ar)
  done : Bool

def IfState.branch (s : IfState Ar) (b : Bool) : PollStream (Item Json Ar) :=
  if b then s.second else s.third

def IfState.setBranch (s : IfState Ar) (b : Bool) (t : PollStream (Item Json Ar)) : IfState Ar :=
  if b then { s with second := t } else { s with third := t }

/-- One branch is polled, the other one is left alone. -/
def IfState.pollBranch (s : IfState Ar) (b : Bool) (returns : List Ar) :
    Poll (Option (Item Json Ar)) × IfState Ar :=
  let t := s.setBranch b (s.branch b).tail
  match (s.branch b).head with
  | .ready (some (.ok (v, returns2))) =>
    (.ready (some (.ok (v, returns ++ returns2))), { t with holder := none })
  | .ready (some (.error e)) => (.ready (some (.error e)), { t with done := true })
  | .ready none => (.ready none, { t with done := true })
  | .pending => (.pending, t)

def IfState.poll (s : IfState Ar) : Poll (Option (Item Json Ar)) × IfState Ar :=
  if s.done then (.ready none, s)
  else match s.holder with
    | some (b, returns) => s.pollBranch b returns
    | none =>
      match s.first.head with
      | .ready (some (.ok (v, returns))) =>
        IfState.pollBranch
          { s with first := s.first.tail, holder := some (v.boolValue, returns) }
          v.boolValue returns
      | .ready (some (.error e)) =>
        (.ready (some (.error e)), { s with first := s.first.tail, done := true })
      | .ready none => (.ready none, { s with first := s.first.tail, done := true })
      | .pending => (.pending, { s with first := s.first.tail })

/-- The group that `Collect::into_stream` fills, with the capacity of its `Vec`. -/
structure Group (Ar : Type) where
  jsons : List Json
  returns : List Ar
  capacity : Nat

/-- A push onto a full `Vec` grows it. -/
def Group.push (g : Group Ar) (v : Json) (returns : List Ar) : Group Ar where
  jsons := g.jsons ++ [v]
  returns := g.returns ++ returns
  capacity := if g.jsons.length < g.capacity then g.capacity else max (2 * g.capacity) 4

/-- The variables of the poll function of `Collect::into_stream`; `counts` are the sizes of the
groups to come. -/
structure CollectState (Ar : Type) where
  value : Option (Group Ar)
  arg : PollStream (Item Json Ar)
  errored : Bool
  counts : Stream' Nat

/-- The loop of `Collect::into_stream`, which leaves it at the latest when the group is full. -/
def CollectState.loop : Nat → Group Ar → CollectState Ar →
    Poll (Option (Item Json Ar)) × CollectState Ar
  | 0, g, s => (.pending, { s with value := some g })
  | rounds + 1, g, s =>
    if s.errored then (.ready none, { s with value := some g })
    else
      let t := { s with arg := s.arg.tail }
      match s.arg.head with
      | .ready (some (.ok (v, returns))) =>
        let g := g.push v returns
        if g.jsons.length = g.capacity then
          (.ready (some (.ok (.array g.jsons, g.returns))), { t with value := none })
        else loop rounds g t
      | .ready none => (.ready none, { t with value := some g })
      | .ready (some (.error e)) =>
        (.ready (some (.error e)), { t with value := some g, errored := true })
      | .pending => (.pending, { t with value := some g })

def CollectState.poll (s : CollectState Ar) : Poll (Option (Item Json Ar)) × CollectState Ar :=
  match s.value with
  | some g => s.loop (max g.capacity 4) g
  | none =>
    CollectState.loop (max s.counts.head 4) ⟨[], [], s.counts.head⟩
      { s with counts := s.counts.tail }

/-- The value of an expression, negated as `not` says. -/
def negated (not : Option Bool) (v : Json) : Json := (applyNot not (.owned v)).val

/-- The operands are in any case unwrapped before the operator is applied to them. -/
def infixItem (not : Option Bool) (op : InfixOperator) (p : Item Json Ar × Item Json Ar) :
    Item Json Ar :=
  p.1.bind fun l => p.2.bind fun r =>
    (op.evaluate l.1 (.ok r.1)).map fun v => (negated not v, l.2 ++ r.2)

def rangeItem (marker : Marker) (p : Item Json Ar × Item Json Ar) : Item Json Ar :=
  p.1.bind fun l => p.2.bind fun r =>
    (rangeOf marker l.1 r.1).map fun range => (.array range.items, l.2 ++ r.2)

/-- The texts of a template's pieces, joined. -/
def joinItem (i : Except ExecutingError (List (String × List Ar))) : Item String Ar :=
  i.map fun values => (String.join (values.map (·.1)), values.flatMap (·.2))

def minMaxItem (min : Bool) (i : Except ExecutingError (List (Json × List Ar))) : Item Json Ar :=
  i.map fun values => (MinMax.evalIter min (values.map (·.1)), values.flatMap (·.2))

end Poll

section IntoStream

variable {Ar : Type} (z : Zip) (x : Externals) (draws : Nat → Externals)
  (providers : String → Option (PollStream (Item Json Ar)))

/-- The rest of a path is applied to an owned value. -/
def indexItem (rest : List PathSegment) (noErr : Bool) (marker : Marker) (i : Item Json Ar) :
    Item Json Ar :=
  i.bind fun p =>
    (indexJson2 x rest (.owned p.1) noErr none marker).map fun v => (v.val, p.2)

/-- The entries of a value, or the value where it has none. -/
def entriesValue (v : Json) : Json :=
  match entriesOf x v with
  | some es => .array es
  | none => v

def replaceItem (p : (Item Json Ar × Item Json Ar) × Item Json Ar) : Item Json Ar :=
  p.1.1.bind fun haystack => p.1.2.bind fun needle => p.2.map fun replacer =>
    (replaceIn (Json.valueToString x needle.1) (Json.valueToString x replacer.1) haystack.1,
      haystack.2 ++ needle.2 ++ replacer.2)

mutual

/-- The stream of an expression; there is none where a provider is not available. The `n`-th item
of a clock or a random number is drawn from `draws n`. -/
def ValueOrExpression.intoStream : ValueOrExpression → Bool →
    Option (PollStream (Item Json Ar))
  | .value v, noErr => v.intoStream noErr
  | .expression e, noErr => e.intoStream noErr

def Value.intoStream : Value → Bool → Option (PollStream (Item Json Ar))
  | .path p, noErr => p.intoStream noErr
  | .json v, _ => some (always (.ok (v, [])))
  | .template t, _ => t.intoStream.map (mapOk Json.string)

def Path.intoStream : Path → Bool → Option (PollStream (Item Json Ar))
  | .mk (.functionCall f) rest marker, noErr =>
    (f.intoStream noErr).map (mapItems (indexItem x rest noErr marker))
  | .mk (.ident s) rest marker, noErr =>
    (providers s).map (mapItems (indexItem x rest noErr marker))
  | .mk (.value v) rest marker, noErr =>
    some (always (indexItem x rest noErr marker (.ok (v, []))))

def Template.intoStream : Template → Option (PollStream (Item String Ar))
  | .mk pieces noRecoverableError =>
    (piecesIntoStream pieces noRecoverableError).map fun streams =>
      mapItems joinItem (ZipAll.zipAll streams)

def piecesIntoStream : List TemplatePiece → Bool → Option (List (PollStream (Item String Ar)))
  | [], _ => some []
  | piece :: pieces, noErr =>
    (piece.intoStream noErr).bind fun s => (piecesIntoStream pieces noErr).map (s :: ·)

def TemplatePiece.intoStream : TemplatePiece → Bool → Option (PollStream (Item String Ar))
  | .expression e, noErr => (e.intoStream noErr).map (mapOk (Json.valueToString x))
  | .notExpression s, _ => some (always (.ok (s, [])))

def Expression.intoStream : Expression → Bool → Option (PollStream (Item Json Ar))
  | .mk not lhs none, noErr => (lhs.intoStream noErr).map (mapOk (negated not))
  | .mk not lhs (some (op, rhs)), noErr =>
    (lhs.intoStream noErr).bind fun l =>
      (rhs.intoStream noErr).map fun r => mapItems (infixItem not op) (z.zip l r)

def ExpressionLhs.intoStream : ExpressionLhs → Bool → Option (PollStream (Item Json Ar))
  | .expression e, noErr => e.intoStream noErr
  | .value v, noErr => v.intoStream noErr

def FunctionCall.intoStream : FunctionCall → Bool → Option (PollStream (Item Json Ar))
  | .collect arg min random, noErr =>
    (arg.intoStream noErr).map fun s =>
      run CollectState.poll ⟨none, s, false, fun n => evaluateRandom (draws n) min random⟩
  | .encode arg encoding, noErr =>
    (arg.intoStream noErr).map
      (mapOk fun v => .string (x.encode encoding (Json.valueToString x v)))
  | .entries arg, noErr =>
    (arg.intoStream noErr).map (mapOk (entriesValue x))
  | .epoch unit, _ => some fun n => .ready (some (.ok (epochText (draws n) unit, [])))
  | .ifElse first second third, noErr =>
    (first.intoStream noErr).bind fun s1 => (second.intoStream noErr).bind fun s2 =>
      (third.intoStream noErr).map fun s3 => run IfState.poll ⟨s1, s2, s3, none, false⟩
  | .join arg sep sep2, noErr => (arg.intoStream noErr).map (mapOk (joinWith x sep sep2))
  | .jsonPath provider selector _, _ =>
    (providers provider).map
      (mapOk fun v => .array (x.pathSelect selector (.object [(provider, v)])))
  | .matchRegex arg names regex, noErr =>
    (arg.intoStream noErr).map (mapOk (matchWith x regex names))
  | .minMax args min, noErr =>
    (argsIntoStream args noErr).map fun streams =>
      mapItems (minMaxItem min) (ZipAll.zipAll streams)
  | .pad start arg minLength padding, noErr =>
    (arg.intoStream noErr).map (mapOk (padWith x padding minLength start))
  | .randomInteger low high, _ =>
    some fun n => .ready (some (.ok (.ofNat ((draws n).sample low high), [])))
  | .randomFloat low high, _ =>
    some fun n => .ready (some (.ok (.ofF64 ((draws n).sampleF64 low high), [])))
  | .range first second marker, noErr =>
    (first.intoStream noErr).bind fun l =>
      (second.intoStream noErr).map fun r => mapItems (rangeItem marker) (z.zip l r)
  | .rangeConstant r, _ => some (always (.ok (.array r.items, [])))
  | .repeatNull min random, _ =>
    some (always (.ok (.array (List.replicate (evaluateRandom x min random) .null), [])))
  | .replace needle haystack replacer, noErr =>
    (haystack.intoStream noErr).bind fun h => (needle.intoStream noErr).bind fun n =>
      (replacer.intoStream noErr).map fun r => mapItems (replaceItem x) (z.zip (z.zip h n) r)

def argsIntoStream : List ValueOrExpression → Bool →
    Option (List (PollStream (Item Json Ar)))
  | [], _ => some []
  | arg :: args, noErr =>
    (arg.intoStream noErr).bind fun s => (argsIntoStream args noErr).map (s :: ·)

end

end IntoStream

end Pewpew.SelectParser
