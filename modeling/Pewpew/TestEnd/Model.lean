import Pewpew.Library.Broadcast
import Pewpew.Library.Transition

/-! How a load test ends: whoever ends it broadcasts why, to the main task, the running load tests,
the watcher of the config file and the collector of the statistics. -/
namespace Pewpew.TestEnd

open Broadcast Transition

/-- `TestEndReason`, without the providers of an update. -/
inductive TestEndReason where
  | completed
  | configUpdate
  | ctrlC
  | killedByLogger
  | providerEnded
  deriving DecidableEq, Repr

abbrev Message (E : Type) := Except E TestEndReason

variable {E : Type}

def isUpdate : Message E → Bool
  | .ok .configUpdate => true
  | _ => false

/-- The capacity of the channel. -/
def capacity : Nat := 1

/-- A future that `create_load_test_future` made; it has subscribed at `start`. -/
structure LoadTest where
  start : Nat
  finished : Bool
  deriving DecidableEq, Repr

/-- Where the main task is: before it creates the statistics, the watcher or the first load test, in
its loop, or at its end. -/
inductive Main (E : Type) where
  | stats
  | watcher
  | test
  | waiting (pos : Nat)
  | failed (e : E)
  | ended (result : Message E)

/-- Where the watcher is: not started or gone, between two looks at the file, or after an update has
been sent. -/
inductive Watcher where
  | off
  | looking (pos : Nat)
  | updated (pos : Nat)
  deriving DecidableEq, Repr

/-- The collector of the statistics, which has subscribed at `start`: it has seen the test complete,
or all its senders gone. -/
inductive Collector where
  | off
  | collecting (start pos : Nat)
  | complete (start : Nat)
  | closed
  deriving DecidableEq, Repr

/-- `log` holds all messages ever sent. `reloadFailed` tells whether the load test of the last
update could not be created; nothing reads it. -/
structure State (E : Type) where
  log : List (Message E)
  main : Main E
  tests : List LoadTest
  watcher : Watcher
  reloadFailed : Bool
  collector : Collector
  ctrlC : Option Nat
  reported : Bool

/-- `create_run`; the main task and the task for ctrl-c have subscribed. -/
def init : State E where
  log := []
  main := .stats
  tests := []
  watcher := .off
  reloadFailed := false
  collector := .off
  ctrlC := some 0
  reported := false

/-- The main task takes its next step, which may fail, or polls; a load test is polled, with what
its endpoints answer and whether its time is up; the watcher sends an update, creates the load test
or polls; the collector polls, its senders gone or not; the task for ctrl-c is polled, with what its
channel answers; a reader, a logger or a writer ends the test; or `create_run` reports an error. -/
inductive Act (E : Type) where
  | begin (watch : Bool) (failure : Option E)
  | main
  | test (i : Nat) (endpoints : Option (Except E Unit)) (timeUp : Bool)
  | update
  | reload (failure : Option E)
  | watch
  | collect (closed : Bool)
  | ctrlC (answer : Option (Option Unit))
  | kill (why : Except E Unit)
  | report

def State.send (s : State E) (m : Message E) : State E := { s with log := s.log ++ [m] }

/-- A load test subscribes. -/
def State.subscribe (s : State E) : State E :=
  { s with tests := s.tests ++ [⟨s.log.length, false⟩] }

/-- The main task up to its loop. -/
def State.begin (s : State E) (watch : Bool) (failure : Option E) : Option (State E) :=
  match s.main, failure with
  | .stats, none =>
    some { s with main := .watcher, collector := .collecting s.log.length s.log.length }
  | .watcher, _ =>
    some { s with main := .test, watcher := if watch then .looking s.log.length else .off }
  | .test, none => some { s.subscribe with main := .waiting 0 }
  | .stats, some e | .test, some e => some { s with main := .failed e }
  | _, _ => none

/-- The loop of the main task: one that has missed messages reports that the test is completed. -/
def State.pollMain (s : State E) (pos : Nat) : State E :=
  match listen isUpdate capacity s.log pos with
  | .nothing => s
  | .goesOn pos => { s with main := .waiting pos }
  | .stops (.item m) => { s with main := .ended m }
  | .stops (.lagged _) => { s with main := .ended (.ok .completed) }

/-- The `poll_fn` of `create_load_test_future`: any message ends it. -/
def State.pollTest (s : State E) (i : Nat) (t : LoadTest) (endpoints : Option (Except E Unit))
    (timeUp : Bool) : State E :=
  let done : State E := { s with tests := s.tests.set i { t with finished := true } }
  match endpoints with
  | some r => done.send (r.map fun _ => .completed)
  | none =>
    match recv capacity s.log t.start with
    | some _ => done
    | none => if timeUp then done.send (.ok .completed) else s

def State.pollWatcher (s : State E) (pos : Nat) : State E :=
  match listen isUpdate capacity s.log pos with
  | .nothing => s
  | .goesOn pos => { s with watcher := .looking pos }
  | .stops _ => { s with watcher := .off }

/-- The stream of the collector. -/
def State.pollCollector (s : State E) (start pos : Nat) (closed : Bool) : State E :=
  match listen isUpdate capacity s.log pos with
  | .nothing => if closed then { s with collector := .closed } else s
  | .goesOn pos => { s with collector := .collecting start pos }
  | .stops _ => { s with collector := .complete start }

def State.pollCtrlC (s : State E) (pos : Nat) : Option (Option Unit) → State E
  | some (some ()) => { s with ctrlC := none }.send (.ok .ctrlC)
  | some none => { s with ctrlC := none }
  | none => if (recv capacity s.log pos).isSome then { s with ctrlC := none } else s

def next (s : State E) : Act E → Option (State E)
  | .begin watch failure => s.begin watch failure
  | .main =>
    match s.main with
    | .waiting pos => some (s.pollMain pos)
    | _ => none
  | .test i endpoints timeUp =>
    (s.tests[i]?.filter fun t => !t.finished).map fun t => s.pollTest i t endpoints timeUp
  | .update =>
    match s.watcher with
    | .looking pos => some ({ s with watcher := .updated pos }.send (.ok .configUpdate))
    | _ => none
  | .reload failure =>
    match s.watcher with
    | .updated pos =>
      some (match failure with
        | none => { s.subscribe with watcher := .looking pos, reloadFailed := false }
        | some _ => { s with watcher := .looking pos, reloadFailed := true })
    | _ => none
  | .watch =>
    match s.watcher with
    | .looking pos => some (s.pollWatcher pos)
    | _ => none
  | .collect closed =>
    match s.collector with
    | .collecting start pos => some (s.pollCollector start pos closed)
    | _ => none
  | .ctrlC answer => s.ctrlC.map fun pos => s.pollCtrlC pos answer
  | .kill why => some (s.send (why.map fun _ => .killedByLogger))
  | .report =>
    match s.main with
    | .failed _ | .ended (.error _) =>
      if s.reported then none else some ({ s with reported := true }.send (.ok .completed))
    | _ => none

abbrev Step (s : State E) (a : Act E) (t : State E) : Prop := next s a = some t

end Pewpew.TestEnd
