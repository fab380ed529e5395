import Pewpew.Stats.Bucket
import Mathlib.Algebra.Group.Nat.Defs

/-! The stats collector of `stats.rs`: its buckets, and the task that receives its messages.
A panic is `none`. -/
namespace Pewpew.StatsCollector

/-- The messages of the results file. -/
structure FileHeader where
  test : String
  bin : String
  bucketSize : Nat
  deriving DecidableEq, Repr

structure FileTags where
  index : Nat
  tags : Tags
  deriving DecidableEq, Repr

inductive FileMessage where
  | header (h : FileHeader)
  | tags (t : FileTags)
  | buckets (b : TimeBucket)

/-- What does not change during a run. `overflowChecks` tells whether the build panics on
integer underflow or wraps around. -/
structure Setup where
  bucketSize : Nat
  testName : String
  bin : String
  overflowChecks : Bool

/-- The readings of the two clocks: the epoch in seconds and the `Instant` in nanoseconds. -/
structure Clock where
  epoch : Nat
  instant : Nat
  deriving DecidableEq, Repr

/-- `Stats`. `file` is what was written to the results file; `summaries` records the buckets that
were printed as the summary of the test. -/
structure Stats where
  current : TimeBucket
  duration : Nat
  previous : Option TimeBucket
  tags : List (Tags × Nat)
  totals : TimeBucket
  file : List FileMessage
  summaries : List TimeBucket

/-- The difference of two `u64`s. -/
def subU64 (overflowChecks : Bool) (a b : Nat) : Option Nat :=
  if b ≤ a then some (a - b) else if overflowChecks then none else some (a + 2 ^ 64 - b)

/-- `round_time`: a division by zero panics. -/
def roundTime (time bucketSize : Nat) : Option Nat :=
  if bucketSize = 0 then none else some (time / bucketSize * bucketSize)

def Stats.new (cfg : Setup) (clock : Clock) : Option Stats :=
  (roundTime clock.epoch cfg.bucketSize).map fun time =>
    { current := .new time, duration := 0, previous := none, tags := [],
      totals := .new clock.epoch, file := [], summaries := [] }

def Stats.checkCurrentBucket (cfg : Setup) (clock : Clock) (s : Stats) : Option Stats := do
  let currentBucketTime ← roundTime clock.epoch cfg.bucketSize
  if s.current.time < currentBucketTime then
    let previousBucketTime ← subU64 cfg.overflowChecks currentBucketTime cfg.bucketSize
    if s.current.time = previousBucketTime ∧ s.previous.isNone then
      some { s with totals := s.totals.combine s.current, previous := some s.current,
                    current := .new currentBucketTime }
    else none
  else some s

def Stats.getPreviousBucket (cfg : Setup) (clock : Clock) (testComplete : Bool) (s : Stats) :
    Option (Option TimeBucket × Stats) :=
  if testComplete then
    some (some s.current, { s with totals := s.totals.combine s.current, current := .new 0 })
  else
    match s.previous with
    | some bucket => some (some bucket, { s with previous := none })
    | none =>
      (s.checkCurrentBucket cfg clock).map fun s => (s.previous, { s with previous := none })

def Stats.append (stat : ResponseStat) (s : Stats) : Stats :=
  match s.tags.lookup stat.tags with
  | some index => { s with current := s.current.append stat index }
  | none =>
    let index := s.tags.length
    { s with current := s.current.append stat index, tags := s.tags ++ [(stat.tags, index)],
             file := s.file ++ [.tags ⟨index, stat.tags⟩] }

/-- `close_out_bucket`; `remainingSeconds` is `none` when the test is complete. -/
def Stats.closeOutBucket (cfg : Setup) (clock : Clock) (remainingSeconds : Option Nat)
    (s : Stats) : Option Stats := do
  let rounded ← roundTime clock.epoch cfg.bucketSize
  let _time ← subU64 cfg.overflowChecks rounded cfg.bucketSize
  let testComplete := remainingSeconds.isNone
  let (bucket, s) ← s.getPreviousBucket cfg clock testComplete
  let file := s.file ++ (bucket.map FileMessage.buckets).toList
  if testComplete then
    some { s with file := file, totals := .new 0, summaries := s.summaries ++ [s.totals] }
  else some { s with file := file }

/-- What the stats channel and the timer deliver. -/
inductive Event where
  | start (duration : Nat)
  | responseStat (stat : ResponseStat)
  | newBucket
  deriving DecidableEq, Repr

/-- The state of `stats_receiver_task`. -/
structure Collector where
  stats : Stats
  testStartTime : Option Nat

def nanos : Nat := 10 ^ 9

/-- A `Start` message: the first one starts the test, a later one may change its duration. -/
def Collector.onStart (cfg : Setup) (clock : Clock) (duration : Nat) (c : Collector) : Collector :=
  match c.testStartTime with
  | some startTime =>
    let total := clock.instant - startTime + duration
    if total < (c.stats.duration + 1) * nanos ∧ c.stats.duration * nanos < total + nanos then c
    else { c with stats := { c.stats with duration := total / nanos } }
  | none =>
    let header : FileHeader := ⟨cfg.testName, cfg.bin, cfg.bucketSize⟩
    { stats := { c.stats with duration := duration / nanos,
                              file := c.stats.file ++ [.header header] },
      testStartTime := some clock.instant }

/-- A tick of the bucket timer. Before the first `Start` the test end time is `None`. -/
def Collector.onNewBucket (cfg : Setup) (clock : Clock) (c : Collector) : Option Collector := do
  let testEndTime ← match c.testStartTime with
    | some startTime =>
      (subU64 cfg.overflowChecks c.stats.duration ((clock.instant - startTime) / nanos)).map some
    | none => some none
  (c.stats.closeOutBucket cfg clock testEndTime).map fun stats => { c with stats := stats }

def Collector.step (cfg : Setup) (c : Collector) : Clock × Event → Option Collector
  | (clock, .start duration) => some (c.onStart cfg clock duration)
  | (_, .responseStat stat) => some { c with stats := c.stats.append stat }
  | (clock, .newBucket) => c.onNewBucket cfg clock

/-- The events in the order in which the task receives them. -/
def Collector.receive (cfg : Setup) : Collector → List (Clock × Event) → Option Collector
  | c, [] => some c
  | c, e :: es => (c.step cfg e).bind fun c => c.receive cfg es

/-- The task from its creation to the end of the test. -/
def collect (cfg : Setup) (created : Clock) (events : List (Clock × Event)) (ended : Clock) :
    Option Stats := do
  let stats ← Stats.new cfg created
  let c ← Collector.receive cfg ⟨stats, none⟩ events
  c.stats.closeOutBucket cfg ended none

end Pewpew.StatsCollector
