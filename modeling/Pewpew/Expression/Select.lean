import Pewpew.Expression.Iterate
import Pewpew.Expression.Parser

/-! `Select`: what an endpoint provides or logs. -/
namespace Pewpew.SelectParser

inductive ParsedSelect where
  | null
  | bool (b : Bool)
  | number (n : JsonNumber)
  | expression (e : ValueOrExpression)
  | array (a : List ParsedSelect)
  | object (o : List (String × ParsedSelect))

structure Select where
  join : List ValueOrExpression
  referencesForEach : Bool
  whereReferencesForEach : Bool
  select : ParsedSelect
  whereClause : Option Expression
  noRecoverableError : Bool

/-- A value and its position in the config file. -/
structure WithMarker (α : Type) where
  inner : α
  marker : Marker

structure EndpointProvidesPreProcessed where
  forEach : List (WithMarker String)
  select : WithMarker Json
  whereClause : Option (WithMarker String)

section New

variable (x : Externals) (g : Grammar) (vars : Object) (noErr : Bool) (depth : Nat)

mutual

/-- `parse_select`: every string of the selected value is an expression. -/
def parseSelect (marker : Marker) : Json → RequiredProviders →
    Except Failure (ParsedSelect × RequiredProviders)
  | .null, providers => .ok (.null, providers)
  | .bool b, providers => .ok (.bool b, providers)
  | .number n, providers => .ok (.number n, providers)
  | .string s, providers =>
    (ValueOrExpression.new x g vars noErr marker depth s providers).map fun (e, providers) =>
      (.expression e, providers)
  | .array a, providers =>
    (parseSelectArray marker a providers).map fun (a, providers) => (.array a, providers)
  | .object o, providers =>
    (parseSelectObject marker o providers).map fun (o, providers) => (.object o, providers)

def parseSelectArray (marker : Marker) : List Json → RequiredProviders →
    Except Failure (List ParsedSelect × RequiredProviders)
  | [], providers => .ok ([], providers)
  | v :: a, providers =>
    (parseSelect marker v providers).bind fun (v, providers) =>
      (parseSelectArray marker a providers).map fun (a, providers) => (v :: a, providers)

def parseSelectObject (marker : Marker) : List (String × Json) → RequiredProviders →
    Except Failure (List (String × ParsedSelect) × RequiredProviders)
  | [], providers => .ok ([], providers)
  | e :: o, providers =>
    (parseSelectEntry marker e providers).bind fun (e, providers) =>
      (parseSelectObject marker o providers).map fun (o, providers) => (e :: o, providers)

def parseSelectEntry (marker : Marker) : String × Json → RequiredProviders →
    Except Failure ((String × ParsedSelect) × RequiredProviders)
  | (k, v), providers =>
    (parseSelect marker v providers).map fun (v, providers) => ((k, v), providers)

end

/-- The providers refer to `for_each`. -/
def RequiredProviders.refersToForEach (p : RequiredProviders) : Bool :=
  p.special &&& Special.forEach != 0

/-- One `for_each` expression, which may not refer to `for_each` itself. -/
def Select.newJoin (v : WithMarker String) (providers : RequiredProviders) :
    Except Failure (ValueOrExpression × RequiredProviders) :=
  (parseText x g vars noErr v.marker depth v.inner .new).bind fun (e, providers2) =>
    if providers2.refersToForEach then .error (.recursiveForEachReference v.marker)
    else .ok (.fromExpression e, providers.extend providers2)

def Select.newJoins : List (WithMarker String) → RequiredProviders →
    Except Failure (List ValueOrExpression × RequiredProviders)
  | [], providers => .ok ([], providers)
  | v :: vs, providers =>
    (newJoin x g vars noErr depth v providers).bind fun (e, providers) =>
      (newJoins vs providers).map fun (es, providers) => (e :: es, providers)

/-- The `where` clause, and whether it refers to `for_each`. -/
def Select.newWhere (hasJoin : Bool) (clause : Option (WithMarker String))
    (providers : RequiredProviders) :
    Except Failure ((Option Expression × Bool) × RequiredProviders) :=
  match clause with
  | none => .ok ((none, false), providers)
  | some v =>
    (parseText x g vars noErr v.marker depth v.inner RequiredProviders.new.setIsWhere).bind
      fun (e, providers2) =>
        if providers2.refersToForEach && !hasJoin then .error (.missingForEach v.marker)
        else .ok ((some e, providers2.refersToForEach), providers.extend providers2)

/-- `Select::new`. -/
def Select.new (provides : EndpointProvidesPreProcessed) (providers : RequiredProviders) :
    Except Failure (Select × RequiredProviders) :=
  (newJoins x g vars noErr depth provides.forEach providers).bind fun (join, providers) =>
    (newWhere x g vars noErr depth (!join.isEmpty) provides.whereClause providers).bind
      fun ((whereClause, whereReferencesForEach), providers) =>
        (parseSelect x g vars noErr depth provides.select.marker provides.select.inner .new).bind
          fun (select, providers2) =>
            if providers2.refersToForEach && join.isEmpty then
              .error (.missingForEach provides.select.marker)
            else
              .ok ({ join := join
                     referencesForEach := providers2.refersToForEach
                     whereReferencesForEach := whereReferencesForEach
                     select := select
                     whereClause := whereClause
                     noRecoverableError := noErr },
                providers.extend providers2)

end New

section Evaluate

variable (x : Externals)

mutual

def ParsedSelect.evaluate : ParsedSelect → Cow → Bool → Option (List Cow) →
    Except ExecutingError Cow
  | .null, _, _, _ => .ok (.owned .null)
  | .bool b, _, _, _ => .ok (.owned (.bool b))
  | .number n, _, _, _ => .ok (.owned (.number n))
  | .expression e, d, noErr, forEach => e.evaluate x d noErr forEach
  | .array a, d, noErr, forEach =>
    (evaluateSelects a d noErr forEach).map fun a => .owned (.array a)
  | .object o, d, noErr, forEach =>
    (evaluateEntries o d noErr forEach).map fun o => .owned (.object (Object.ofEntries o))

def evaluateSelects : List ParsedSelect → Cow → Bool → Option (List Cow) →
    Except ExecutingError (List Json)
  | [], _, _, _ => .ok []
  | p :: a, d, noErr, forEach =>
    (p.evaluate d.borrow noErr forEach).bind fun v =>
      (evaluateSelects a d noErr forEach).map (v.val :: ·)

def evaluateEntries : List (String × ParsedSelect) → Cow → Bool → Option (List Cow) →
    Except ExecutingError (List (String × Json))
  | [], _, _, _ => .ok []
  | e :: o, d, noErr, forEach =>
    (evaluateEntry e d noErr forEach).bind fun e =>
      (evaluateEntries o d noErr forEach).map (e :: ·)

def evaluateEntry : String × ParsedSelect → Cow → Bool → Option (List Cow) →
    Except ExecutingError (String × Json)
  | (k, p), d, noErr, forEach =>
    (p.evaluate d.borrow noErr forEach).map fun v => (k, v.val)

end

/-- `multi_cartesian_product`: the last list varies fastest. -/
def cartesianProduct {α : Type} : List (List α) → List (List α)
  | [] => [[]]
  | l :: ls => l.flatMap fun a => (cartesianProduct ls).map (a :: ·)

namespace Select

/-- The value of the `where` clause as a boolean. -/
def whereHolds (s : Select) (d : Json) (forEach : Option (List Cow)) :
    Except ExecutingError Bool :=
  match s.whereClause with
  | none => .ok true
  | some clause =>
    (clause.evaluate x (.borrowed d) s.noRecoverableError forEach).map (·.val.boolValue)

def executeWhere (s : Select) (d : Json) : Except ExecutingError Bool := s.whereHolds x d none

def evaluateSelect (s : Select) (d : Json) (forEach : Option (List Cow)) :
    Except ExecutingError Cow :=
  s.select.evaluate x (.borrowed d) s.noRecoverableError forEach

/-- The items of one `for_each` expression. -/
def joinItems (s : Select) (d : Json) (v : ValueOrExpression) : Items :=
  match v.evaluateAsIter x (.borrowed d) s.noRecoverableError none with
  | .ok items => items
  | .error e => [.error e]

/-- All combinations of the items of the `for_each` expressions. -/
def tuples (s : Select) (d : Json) : List Items := cartesianProduct (s.join.map (s.joinItems x d))

/-- The tuple is bound only if the `select` refers to it. -/
def binding (s : Select) (tuple : Items) : Except ExecutingError (Option (List Cow)) :=
  if s.referencesForEach then (tuple.mapM id).map some else .ok none

/-- One tuple where the `where` clause refers to `for_each`. -/
def filteredItem (s : Select) (d : Json) (tuple : Items) :
    Option (Except ExecutingError Cow) :=
  match s.binding tuple with
  | .error e => some (.error e)
  | .ok forEach =>
    match s.whereHolds x d forEach with
    | .error e => some (.error e)
    | .ok false => none
    | .ok true => some (s.evaluateSelect x d forEach)

/-- `Select::as_iter`. -/
def asIter (s : Select) (d : Json) : Except ExecutingError Items :=
  if s.join = [] then
    (s.whereHolds x d none).map fun b => if b then [s.evaluateSelect x d none] else []
  else if s.whereReferencesForEach then
    .ok ((s.tuples x d).filterMap (s.filteredItem x d))
  else
    (s.whereHolds x d none).map fun b =>
      if b then (s.tuples x d).map fun tuple => (s.binding tuple).bind (s.evaluateSelect x d)
      else []

end Select

end Evaluate

end Pewpew.SelectParser
