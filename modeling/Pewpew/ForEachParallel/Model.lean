import Pewpew.Library.Transition
import Mathlib.Tactic.Common

/-! The crate `for_each_parallel`: polls of the combined future, interleaved with the ends of the
spawned tasks. -/
namespace Pewpew.ForEachParallel

open Transition

variable {I E : Type}

/-- What a poll of the stream answers. -/
inductive Answer (I E : Type) where
  | item (i : I)
  | ended
  | pending
  | failed (e : E)
  deriving DecidableEq, Repr

/-- Where the future is: not polled, before a pull from the stream, among the receivers of a round
with `rest` before it, or resolved. -/
inductive PC (E : Type) where
  | idle
  | pull (limit : Nat)
  | scan (limit : Nat) (madeProgress : Bool) (rest : List Nat)
  | done (result : Except E Unit)

/-- `futures` has the tasks whose receivers are kept, `tasks` the results of all tasks ever spawned.
Nothing reads the fields after `pc`: what the stream yielded and the closure was called with,
whether the stream ended, the errors in the order in which they occurred and in which the future saw
them, and whether one had occurred when the last poll began. -/
structure State (I E : Type) where
  futures : List Nat
  stream : Bool
  error : Option E
  tasks : List (Option (Except E Unit))
  pc : PC E
  yielded : List I
  called : List I
  ended : Bool
  failures : List E
  observed : List E
  failedBefore : Bool

/-- `ForEachParallel::new`. -/
def init : State I E where
  futures := []
  stream := true
  error := none
  tasks := []
  pc := .idle
  yielded := []
  called := []
  ended := false
  failures := []
  observed := []
  failedBefore := false

/-- The future is polled, with the limit that `limit_fn` answers or 0; it takes its next step; or a
task ends. -/
inductive Act (I E : Type) where
  | poll (limit : Nat)
  | pull (answer : Answer I E)
  | skip
  | scan
  | decide
  | complete (i : Nat) (result : Except E Unit)

/-- The stream is pulled from: it is there, and the limit leaves room. -/
def State.pulls (s : State I E) (limit : Nat) : Bool :=
  s.stream && (limit == 0 || limit > s.futures.length)

/-- The round over the receivers begins. -/
def State.startScan (s : State I E) (limit : Nat) (madeProgress : Bool) : State I E :=
  { s with futures := [], pc := .scan limit madeProgress s.futures }

def State.answered (s : State I E) (limit : Nat) : Answer I E → State I E
  | .item i =>
    { s with yielded := s.yielded ++ [i], called := s.called ++ [i], tasks := s.tasks ++ [none],
             futures := s.futures ++ [s.tasks.length] }.startScan limit true
  | .ended => { s with stream := false, ended := true }.startScan limit false
  | .pending => s.startScan limit false
  | .failed e =>
    { s with error := some e, futures := [], stream := false, failures := s.failures ++ [e],
             observed := s.observed ++ [e] }.startScan limit false

/-- A receiver is polled. -/
def State.scanned (s : State I E) (limit : Nat) (madeProgress : Bool) (i : Nat)
    (rest : List Nat) : Option (Except E Unit) → State I E
  | none => { s with futures := s.futures ++ [i], pc := .scan limit madeProgress rest }
  | some (.ok ()) => { s with pc := .scan limit true rest }
  | some (.error e) =>
    { s with error := some e, observed := s.observed ++ [e], pc := .scan limit true rest }

/-- The end of a round. -/
def State.decided (s : State I E) (limit : Nat) (madeProgress : Bool) : State I E :=
  match s.error with
  | some e => { s with futures := [], stream := false, error := none, pc := .done (.error e) }
  | none =>
    if s.futures.isEmpty && !s.stream then { s with pc := .done (.ok ()) }
    else if madeProgress then { s with pc := .pull limit }
    else { s with pc := .idle }

/-- A task ends and tells its receiver the error, if there is one. -/
def State.completed (s : State I E) (i : Nat) (result : Except E Unit) : State I E :=
  { s with tasks := s.tasks.set i (some result),
           failures := match result with
             | .ok () => s.failures
             | .error e => s.failures ++ [e] }

def next (s : State I E) : Act I E → Option (State I E)
  | .poll limit =>
    match s.pc with
    | .idle => some { s with pc := .pull limit, failedBefore := !s.failures.isEmpty }
    | _ => none
  | .pull answer =>
    match s.pc with
    | .pull limit => if s.pulls limit then some (s.answered limit answer) else none
    | _ => none
  | .skip =>
    match s.pc with
    | .pull limit => if s.pulls limit then none else some (s.startScan limit false)
    | _ => none
  | .scan =>
    match s.pc with
    | .scan limit madeProgress (i :: rest) =>
      some (s.scanned limit madeProgress i rest (s.tasks[i]?.join))
    | _ => none
  | .decide =>
    match s.pc with
    | .scan limit madeProgress [] => some (s.decided limit madeProgress)
    | _ => none
  | .complete i result =>
    match s.tasks[i]? with
    | some none => some (s.completed i result)
    | _ => none

def Step (s : State I E) (a : Act I E) (t : State I E) : Prop := next s a = some t

variable {s t : State I E} {limit i : Nat} {madeProgress : Bool} {rest : List Nat}

/-! ### What a step does -/

theorem step_poll (h : Step s (.poll limit) t) : s.pc = .idle ∧
    t = { s with pc := .pull limit, failedBefore := !s.failures.isEmpty } := by
  simp only [Step, next] at h
  split at h
  · next hpc =>
    cases h
    exact ⟨hpc, rfl⟩
  · cases h

theorem step_pull {answer : Answer I E} (h : Step s (.pull answer) t) :
    ∃ limit, s.pc = .pull limit ∧ s.pulls limit = true ∧ t = s.answered limit answer := by
  simp only [Step, next] at h
  split at h
  · next limit hpc =>
    split at h
    · next hp =>
      cases h
      exact ⟨limit, hpc, hp, rfl⟩
    · cases h
  · cases h

theorem step_skip (h : Step s .skip t) :
    ∃ limit, s.pc = .pull limit ∧ s.pulls limit = false ∧ t = s.startScan limit false := by
  simp only [Step, next] at h
  split at h
  · next limit hpc =>
    split at h
    · cases h
    · next hp =>
      cases h
      exact ⟨limit, hpc, by simpa using hp, rfl⟩
  · cases h

theorem step_scan (h : Step s .scan t) : ∃ limit madeProgress i rest,
    s.pc = .scan limit madeProgress (i :: rest) ∧
      t = s.scanned limit madeProgress i rest (s.tasks[i]?.join) := by
  simp only [Step, next] at h
  split at h
  · next limit p i rest hpc =>
    cases h
    exact ⟨limit, p, i, rest, hpc, rfl⟩
  · cases h

theorem step_decide (h : Step s .decide t) : ∃ limit madeProgress,
    s.pc = .scan limit madeProgress [] ∧ t = s.decided limit madeProgress := by
  simp only [Step, next] at h
  split at h
  · next limit p hpc =>
    cases h
    exact ⟨limit, p, hpc, rfl⟩
  · cases h

theorem step_complete {r : Except E Unit} (h : Step s (.complete i r) t) :
    s.tasks[i]? = some none ∧ t = s.completed i r := by
  simp only [Step, next] at h
  split at h
  · next hi =>
    cases h
    exact ⟨hi, rfl⟩
  · cases h

end Pewpew.ForEachParallel
