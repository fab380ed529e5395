import Pewpew.Stats.Model

/-! The results viewer: how `model.ts` reads the messages of a results file. -/
namespace Pewpew.Viewer

open Std Accumulate StatsCollector

/-- A JSON value of a message, as JavaScript holds it. The order of an object's properties is that
of the text: JavaScript's own order of enumeration plays no part. -/
inductive Value where
  | number (n : Nat)
  | string (s : String)
  | object (properties : List (String × Value))

abbrev Properties := List (String × Value)

/-- The double that is nearest to an integer, ties to even. -/
def toNumber (n : Nat) : Nat :=
  let unit := 2 ^ (Nat.log2 n + 1 - 53)
  let low := n % unit
  let up := unit < 2 * low ∨ unit = 2 * low ∧ n / unit % 2 = 1
  if up then (n / unit + 1) * unit else n / unit * unit

/-- An integer of the results file as `JSON.parse` reads it. -/
def Value.ofNat (n : Nat) : Value := .number (toNumber n)

/-! ### The messages in the file -/

/-- The base64 string of an empty histogram. -/
def emptyHistogram : String := "HISTEwAAAAEAAAAAAAAAAwAAAAAAAAABAAAAAAAAAAI/8AAAAAAAAAA"

/-- How a histogram is written as a string, and read from it. -/
structure HistogramFormat where
  encode : Multiset Nat → String
  decode : String → Multiset Nat
  round_trip : ∀ h, h ≠ 0 → decode (encode h) = h
  encode_ne : ∀ h, h ≠ 0 → encode h ≠ ""
  decode_empty : decode emptyHistogram = 0

/-- A property that is left out of the object under a condition. -/
def skipIf (skip : Bool) (key : String) (value : Value) : Properties :=
  if skip then [] else [(key, value)]

def counts (m : List (String × Nat)) : Value :=
  .object (m.map fun p => (p.1, .ofNat p.2))

def statuses (b : BucketGroupStats) : List (String × Nat) :=
  b.statusCounts.toList.map fun p => (toString p.1, p.2)

def groupJson (fmt : HistogramFormat) (b : BucketGroupStats) : Value :=
  .object (skipIf (b.requestTimeouts = 0) "requestTimeouts" (.ofNat b.requestTimeouts) ++
    skipIf (b.rttHistogram = 0) "rttHistogram" (.string (fmt.encode b.rttHistogram)) ++
    skipIf b.statusCounts.isEmpty "statusCounts" (counts (statuses b)) ++
    skipIf b.testErrors.isEmpty "testErrors" (counts b.testErrors.toList))

def tagsJson (tags : Tags) : Properties := tags.map fun p => (p.1, .string p.2)

/-- The serialized `FileMessage`. -/
def messageJson (fmt : HistogramFormat) : FileMessage → Properties
  | .header h =>
    [("test", .string h.test), ("bin", .string h.bin), ("bucketSize", .ofNat h.bucketSize)]
  | .tags t => [("index", .ofNat t.index), ("tags", .object (tagsJson t.tags))]
  | .buckets b =>
    [("time", .ofNat b.time),
     ("entries", .object (b.entries.toList.map fun p => (toString p.1, groupJson fmt p.2)))]

/-! ### The checks of the viewer -/

/-- What the viewer throws. -/
inductive Thrown where
  | error (message : String)
  | typeError
  deriving DecidableEq, Repr

def Value.typeOf : Value → String
  | .number _ => "number"
  | .string _ => "string"
  | .object _ => "object"

/-- A `CheckType`: the name of a type, or a function. -/
inductive CheckType where
  | type (name : String)
  | function (check : Value → Except Thrown Bool)

def CheckType.failure (key : String) (value : Value) : CheckType → Except Thrown (Option String)
  | .type name => .ok (if value.typeOf = name then none else
      some s!"expected property \"{key}\" to be a \"{name}\" but it was a \"{value.typeOf}\"")
  | .function check => do
    return if ← check value then none else some s!"property \"{key}\" did not pass check"

/-- `valueChecker`: what is wrong with a property. -/
def valueChecker (check unknownCheck : Option CheckType) (key : String) (value : Value) :
    Except Thrown (Option String) :=
  match check <|> unknownCheck with
  | some check => check.failure key value
  | none => .ok none

/-- The first property that fails its check. -/
def firstFailure (requiredChecks : List (String × CheckType)) (unknownCheck : Option CheckType) :
    Properties → Except Thrown (Option String)
  | [] => .ok none
  | (key, value) :: o => do
    match ← valueChecker (requiredChecks.lookup key) unknownCheck key value with
    | some failure => return some failure
    | none => firstFailure requiredChecks unknownCheck o

/-- `propertyChecker`: the first property that fails its check, or else the required properties
that are missing. -/
def propertyChecker (o : Properties) (requiredChecks : List (String × CheckType))
    (unknownCheck : Option CheckType) : Except Thrown (Option String) := do
  match ← firstFailure requiredChecks unknownCheck o with
  | some failure => return some failure
  | none =>
    match requiredChecks.filter fun p => (o.lookup p.1).isNone with
    | [] => return none
    | missing => return some ("missing properties: " ++
        ", ".intercalate (missing.map fun p => "\"" ++ p.1 ++ "\""))

/-- `hasOwnProperty` is the object's own property where it has one of this name, and no function. -/
def hasOwnProperty (o : Properties) (key : String) : Except Thrown Bool :=
  if (o.lookup "hasOwnProperty").isSome then .error .typeError else .ok (o.lookup key).isSome

/-- `parseInt(s, 10)`: the digits at the start, or `NaN`. No key that is written has a sign. -/
def parseInt (s : String) : Option Nat :=
  match s.toList.takeWhile (·.isDigit) with
  | [] => none
  | digits => some (Nat.ofDigitChars 10 digits 0)

def isStatusCounts : Value → Bool
  | .object sc => sc.all fun p => (parseInt p.1).any (0 < ·) && p.2.typeOf = "number"
  | _ => false

def isTestErrors : Value → Bool
  | .object te => te.all fun p => p.2.typeOf = "number"
  | _ => false

/-- An own property, where there is one, that passes no check. -/
def ownFails (o : Properties) (key : String) (check : Value → Bool) : Except Thrown Bool := do
  return (← hasOwnProperty o key) && !(o.lookup key).any check

def isTimeBucketEntry : Value → Except Thrown Bool
  | .object tbe => do
    if ← ownFails tbe "rttHistogram" (·.typeOf = "string") then return false
    if ← ownFails tbe "statusCounts" isStatusCounts then return false
    if ← ownFails tbe "requestTimeouts" (·.typeOf = "number") then return false
    if ← ownFails tbe "testErrors" isTestErrors then return false
    return true
  | _ => .ok false

def isEntries : Value → Except Thrown Bool
  | .object entries => entries.allM fun p => isTimeBucketEntry p.2
  | _ => .ok false

def isHeader (header : Properties) : Except Thrown Bool := do
  let checks := [("test", .type "string"), ("bin", .type "string"), ("bucketSize", .type "number")]
  return (← propertyChecker header checks none).isNone

def isTags (tags : Properties) : Except Thrown Bool :=
  if (tags.lookup "index").any (·.typeOf = "number") then
    match tags.lookup "tags" with
    | none => .error .typeError
    | some (.object tags) => do
      unless tags.all fun p => p.2.typeOf = "string" do return false
      return (← hasOwnProperty tags "_id") && (← hasOwnProperty tags "method") &&
        (← hasOwnProperty tags "url")
    -- the characters of a string are strings, but it has none of the properties
    | some _ => .ok false
  else .ok false

def isBuckets (buckets : Properties) : Except Thrown Bool := do
  let checks := [("time", .type "number"), ("entries", .function isEntries)]
  return (← propertyChecker buckets checks none).isNone

def checkNewJsonEntry (entry : Properties) : Except Thrown Bool := do
  if ← isHeader entry then return true
  if ← isTags entry then return true
  isBuckets entry

/-! ### The data points -/

structure DataPointPreProcessed where
  time : Nat
  duration : Nat
  endTime : Nat
  rttHistogram : String
  startTime : Nat
  statusCounts : List (String × Nat)
  testErrors : List (String × Nat)
  requestTimeouts : Option Nat
  deriving DecidableEq, Repr

/-- A `Date` of an epoch in milliseconds, where it is a valid one. -/
abbrev Date := Option Nat

def date (ms : Nat) : Date := if ms ≤ 8640000000000000 then some ms else none

/-- The date of an epoch in seconds. -/
def dateOfSeconds (s : Nat) : Date := date (toNumber (s * 1000))

structure DataPoint where
  time : Date
  duration : Nat
  endTime : Option Date
  requestTimeouts : Nat
  rttHistogram : Multiset Nat
  startTime : Option Date
  statusCounts : List (String × Nat)
  testErrors : List (String × Nat)

/-- The constructor of `DataPoint`. -/
def DataPoint.new (fmt : HistogramFormat) (p : DataPointPreProcessed) : DataPoint where
  time := dateOfSeconds p.time
  duration := p.duration
  endTime := if p.endTime ≠ 0 then some (dateOfSeconds p.endTime) else none
  requestTimeouts := p.requestTimeouts.getD 0
  rttHistogram := fmt.decode p.rttHistogram
  startTime := if p.startTime ≠ 0 then some (dateOfSeconds p.startTime) else none
  statusCounts := p.statusCounts
  testErrors := p.testErrors

/-- `asBucketId`: `none` is `undefined`. -/
def asBucketId : Option Properties → Except Thrown Properties
  | none => .error (.error "bucket id is not an object")
  | some b => do
    match ← propertyChecker b [("method", .type "string"), ("url", .type "string")]
      (some (.type "string")) with
    | some result => .error (.error ("failed property check for bucket id. " ++ result))
    | none => return b

/-- `asDataPointPreProcessed`: the types of the fields pass the other checks. -/
def asDataPointPreProcessed (dp : DataPointPreProcessed) : Except Thrown DataPointPreProcessed :=
  if dp.statusCounts.all fun p => (parseInt p.1).any (0 < ·) then .ok dp
  else .error (.error ("failed property check for data point. " ++
    "property \"statusCounts\" did not pass check"))

/-- `asBucketEntry`, for entries as `processNewJson` makes them. -/
def asBucketEntry (b : Option Properties × Option (List DataPointPreProcessed)) :
    Except Thrown (Properties × List DataPointPreProcessed) := do
  let id ← asBucketId b.1
  match b.2 with
  | none => .error (.error
      "expected second value in bucket entry array to be an array bug got: undefined")
  | some points => return (id, ← points.mapM asDataPointPreProcessed)

abbrev ParsedFileEntry := Properties × List DataPoint

def processJson (fmt : HistogramFormat)
    (buckets : List (Option Properties × Option (List DataPointPreProcessed))) :
    Except Thrown (List ParsedFileEntry) := do
  return (← buckets.mapM asBucketEntry).map fun b => (b.1, b.2.map (DataPoint.new fmt))

/-! ### The messages one by one -/

/-- `tags` may have holes, and keeps no index from 2^32 - 1 on among its elements. -/
structure State where
  tags : List (Option Properties)
  data : ExtTreeMap Nat (List DataPointPreProcessed)
  bucketSize : Nat
  testName : Option String

def State.initial : State := ⟨[], ∅, 0, none⟩

/-- An assignment to an array at an index. -/
def setIndex (a : List (Option Properties)) (i : Nat) (v : Properties) : List (Option Properties) :=
  if i < 2 ^ 32 - 1 then (a ++ List.replicate (i + 1 - a.length) none).set i (some v) else a

def Properties.number (o : Properties) (key : String) : Nat :=
  match o.lookup key with
  | some (.number n) => n
  | _ => 0

def Properties.string (o : Properties) (key : String) : String :=
  match o.lookup key with
  | some (.string s) => s
  | _ => ""

def Properties.object (o : Properties) (key : String) : Properties :=
  match o.lookup key with
  | some (.object p) => p
  | _ => []

/-- The counts under a key, `{}` where there are none. -/
def Properties.counts (o : Properties) (key : String) : List (String × Nat) :=
  (o.object key).map fun p => (p.1, match p.2 with
    | .number n => n
    | _ => 0)

/-- The data point of an entry: `requestTimeouts` is not among its fields. -/
def dataPoint (time bucketSize : Nat) (values : Properties) : DataPointPreProcessed where
  time := time
  duration := bucketSize
  endTime := toNumber (time + bucketSize)
  rttHistogram :=
    if values.string "rttHistogram" = "" then emptyHistogram else values.string "rttHistogram"
  startTime := time
  statusCounts := values.counts "statusCounts"
  testErrors := values.counts "testErrors"
  requestTimeouts := none

/-- The data points of the entries are pushed under their indices. -/
def pushEntries (time bucketSize : Nat) (data : ExtTreeMap Nat (List DataPointPreProcessed))
    (entries : Properties) : ExtTreeMap Nat (List DataPointPreProcessed) :=
  entries.foldl (fun data p =>
    match parseInt p.1, p.2 with
    | some index2, .object values => bump (· ++ ·) data index2 [dataPoint time bucketSize values]
    | _, _ => data) data

/-- One turn of the loop over the messages. -/
def State.next (s : State) (json : Properties) : Except Thrown State := do
  unless ← checkNewJsonEntry json do throw (.error "failed property checks for entry")
  if (json.lookup "test").isSome then
    return { s with testName := some (json.string "test"), bucketSize := json.number "bucketSize" }
  else if (json.lookup "tags").isSome then
    return { s with tags := setIndex s.tags (json.number "index") (json.object "tags") }
  else
    return { s with data := pushEntries (json.number "time") s.bucketSize s.data
                              (json.object "entries") }

/-- `processNewJson`. -/
def processNewJson (fmt : HistogramFormat) (jsons : List Properties) :
    Except Thrown (List ParsedFileEntry × Option String) := do
  let s ← jsons.foldlM State.next State.initial
  return (← processJson fmt (s.tags.mapIdx fun index tag => (tag, s.data[index]?)), s.testName)

end Pewpew.Viewer
