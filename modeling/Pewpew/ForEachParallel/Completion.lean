import Pewpew.ForEachParallel.Model
import Mathlib.Data.List.Nodup

/-! When the combined future resolves, and with which error. -/
namespace Pewpew.ForEachParallel

open Transition

variable {I E : Type} {s t : State I E} {a : Act I E} {as : List (Act I E)} {limit i : Nat}
  {madeProgress : Bool} {rest : List Nat}

/-- The tasks whose receivers the future still has. -/
def State.kept (s : State I E) : List Nat :=
  match s.pc with
  | .scan _ _ rest => s.futures ++ rest
  | _ => s.futures

/-- The tasks that a round has yet to look at. -/
def State.unseen (s : State I E) : List Nat :=
  match s.pc with
  | .scan _ _ rest => rest
  | _ => s.futures

/-- A task ended with an error. -/
def Failed (s : State I E) (i : Nat) : Prop := ∃ e, s.tasks[i]? = some (some (.error e))

/-- What holds between any two steps. -/
structure Invariant (s : State I E) : Prop where
  called : s.called = s.yielded
  spawned : s.tasks.length = s.called.length
  /-- a task that has not ended well is kept, until an error is seen -/
  tasks : s.observed = [] → ∀ i r, s.tasks[i]? = some r → r ≠ some (.ok ()) → i ∈ s.kept
  ended : s.observed = [] → s.stream = false → s.ended = true
  failures : s.failures ≠ [] → s.observed ≠ [] ∨ ∃ i, Failed s i
  /-- an error that is seen is on its way to be the result -/
  observed : s.observed ≠ [] →
    (∃ limit p rest, s.pc = .scan limit p rest) ∨ ∃ e, s.pc = .done (.error e)
  error : (∀ r, s.pc ≠ .done r) → s.error = s.observed.getLast?
  result : ∀ e, s.pc = .done (.error e) → s.observed.getLast? = some e
  finished : s.pc = .done (.ok ()) → s.observed = [] ∧ s.futures = [] ∧ s.stream = false
  before : s.failedBefore = true → s.observed = [] → s.pc ≠ .idle ∧ ∃ i ∈ s.unseen, Failed s i

theorem invariant_init : Invariant (init : State I E) := by
  constructor <;> simp [init]

/-- Errors are seen in rounds only. -/
theorem Invariant.unseen_of_pc (h : Invariant s) (hscan : ∀ limit p rest, s.pc ≠ .scan limit p rest)
    (hdone : ∀ r, s.pc ≠ .done r) : s.observed = [] ∧ s.error = none := by
  have hnone : s.observed = [] := by
    by_contra hne
    rcases h.observed hne with ⟨limit, p, rest, hpc⟩ | ⟨e, hpc⟩
    · exact hscan limit p rest hpc
    · exact hdone _ hpc
  refine ⟨hnone, ?_⟩
  rw [h.error hdone, hnone]
  rfl

theorem invariant_poll (h : Invariant s) (hs : Step s (.poll limit) t) : Invariant t := by
  obtain ⟨hpc, rfl⟩ := step_poll hs
  obtain ⟨hnone, herror⟩ := h.unseen_of_pc (by simp [hpc]) (by simp [hpc])
  have hkept : s.kept = s.futures := by simp [State.kept, hpc]
  refine ⟨h.called, h.spawned, ?_, h.ended, h.failures, ?_, ?_, ?_, ?_, ?_⟩
  · intro ho i r hi hr
    have hmem := h.tasks ho i r hi hr
    rwa [hkept] at hmem
  · intro hne
    exact absurd hnone hne
  · intro _
    simp [herror, hnone]
  · simp
  · simp
  · intro hbefore _
    refine ⟨by simp, ?_⟩
    have hfail : s.failures ≠ [] := by simpa using hbefore
    rcases h.failures hfail with hne | ⟨i, e, hi⟩
    · exact absurd hnone hne
    · have hmem := h.tasks hnone i _ hi (by simp)
      rw [hkept] at hmem
      exact ⟨i, hmem, e, hi⟩

/-- A round begins. -/
theorem invariant_startScan (h : Invariant s) (hpc : s.pc = .pull limit) :
    Invariant (s.startScan limit madeProgress) := by
  obtain ⟨hnone, herror⟩ := h.unseen_of_pc (by simp [hpc]) (by simp [hpc])
  have hkept : s.kept = s.futures := by simp [State.kept, hpc]
  refine ⟨h.called, h.spawned, ?_, h.ended, h.failures, ?_, ?_, ?_, ?_, ?_⟩
  · intro ho i r hi hr
    have hmem := h.tasks ho i r hi hr
    rw [hkept] at hmem
    simpa [State.kept, State.startScan] using hmem
  · intro hne
    exact absurd hnone hne
  · intro _
    simp [State.startScan, herror, hnone]
  · simp [State.startScan]
  · simp [State.startScan]
  · intro hbefore ho
    obtain ⟨-, i, hi, hfail⟩ := h.before hbefore ho
    refine ⟨by simp [State.startScan], i, ?_, hfail⟩
    simpa [State.unseen, State.startScan, hpc] using hi

theorem Failed.append (h : Failed s i) {ts : List (Option (Except E Unit))} :
    ∃ e, (s.tasks ++ ts)[i]? = some (some (.error e)) := by
  obtain ⟨e, hi⟩ := h
  obtain ⟨hlt, -⟩ := List.getElem?_eq_some_iff.mp hi
  exact ⟨e, by rw [List.getElem?_append_left hlt, hi]⟩

/-- The stream yields an item. -/
theorem invariant_item (h : Invariant s) (hpc : s.pc = .pull limit) (x : I) :
    Invariant { s with yielded := s.yielded ++ [x], called := s.called ++ [x],
                       tasks := s.tasks ++ [none], futures := s.futures ++ [s.tasks.length] } := by
  obtain ⟨hnone, herror⟩ := h.unseen_of_pc (by simp [hpc]) (by simp [hpc])
  refine ⟨by simp [h.called], by simp [h.spawned], ?_, h.ended, ?_, h.observed, h.error, h.result,
    ?_, ?_⟩
  · intro ho i r hi hr
    simp only [State.kept, hpc, List.mem_append, List.mem_singleton]
    by_cases hlt : i < s.tasks.length
    · rw [List.getElem?_append_left hlt] at hi
      have hmem := h.tasks ho i r hi hr
      simp only [State.kept, hpc] at hmem
      exact .inl hmem
    · have hle : i < (s.tasks ++ [none]).length := (List.getElem?_eq_some_iff.mp hi).1
      rw [List.length_append, List.length_singleton] at hle
      right
      omega
  · intro hfail
    rcases h.failures hfail with hne | ⟨i, hi⟩
    · exact .inl hne
    · exact .inr ⟨i, hi.append⟩
  · simp [hpc]
  · intro hbefore ho
    obtain ⟨hidle, i, hi, hfail⟩ := h.before hbefore ho
    refine ⟨hidle, i, ?_, hfail.append⟩
    simp only [State.unseen, hpc, List.mem_append] at hi ⊢
    exact .inl hi

theorem invariant_pull {answer : Answer I E} (h : Invariant s) (hs : Step s (.pull answer) t) :
    Invariant t := by
  obtain ⟨limit, hpc, -, rfl⟩ := step_pull hs
  cases answer with
  | item x => exact invariant_startScan (invariant_item h hpc x) hpc
  | pending => exact invariant_startScan h hpc
  | ended =>
    have hended : Invariant { s with stream := false, ended := true } :=
      { h with
        ended := fun _ _ => rfl
        finished := by simp [hpc] }
    exact invariant_startScan hended hpc
  | failed e =>
    constructor <;> simp [State.answered, State.startScan, h.called, h.spawned]

theorem invariant_skip (h : Invariant s) (hs : Step s .skip t) : Invariant t := by
  obtain ⟨limit, hpc, -, rfl⟩ := step_skip hs
  exact invariant_startScan h hpc

/-- The round goes on where a receiver gives no error, as long as all that may fail are kept. -/
theorem invariant_looked (h : Invariant s) (hpc : s.pc = .scan limit madeProgress (i :: rest))
    (hwell : ¬ Failed s i) (p : Bool) {fs : List Nat}
    (hkept : s.observed = [] → ∀ j r, s.tasks[j]? = some r → r ≠ some (.ok ()) → j ∈ fs ++ rest) :
    Invariant { s with futures := fs, pc := .scan limit p rest } := by
  have herror := h.error (by simp [hpc])
  refine ⟨h.called, h.spawned, hkept, h.ended, h.failures, ?_, ?_, ?_, ?_, ?_⟩
  · intro _
    exact .inl ⟨limit, p, rest, rfl⟩
  · intro _
    exact herror
  · simp
  · simp
  · intro hbefore ho
    obtain ⟨-, j, hj, hfail⟩ := h.before hbefore ho
    have hunseen : s.unseen = i :: rest := by simp [State.unseen, hpc]
    rw [hunseen] at hj
    rcases List.mem_cons.mp hj with rfl | hj
    · exact absurd hfail hwell
    · exact ⟨by simp, j, hj, hfail⟩

theorem invariant_scan (h : Invariant s) (hs : Step s .scan t) : Invariant t := by
  obtain ⟨limit, p, i, rest, hpc, rfl⟩ := step_scan hs
  have hkept : s.kept = s.futures ++ i :: rest := by simp [State.kept, hpc]
  rcases hr : s.tasks[i]?.join with _ | e | ⟨⟩
  · -- the receiver is kept
    refine invariant_looked h hpc ?_ p fun ho j r hj hne => ?_
    · rintro ⟨e, hfail⟩
      simp [hfail] at hr
    · have hmem := h.tasks ho j r hj hne
      rw [hkept] at hmem
      simpa using hmem
  · -- the error is seen
    constructor <;> simp [State.scanned, h.called, h.spawned]
  · -- the task has ended well
    have htask : s.tasks[i]? = some (some (.ok ())) := by
      simpa [Option.join_eq_some_iff] using hr
    refine invariant_looked h hpc ?_ true fun ho j r hj hne => ?_
    · rintro ⟨e, hfail⟩
      simp [hfail] at hr
    · have hmem := h.tasks ho j r hj hne
      rw [hkept] at hmem
      have hji : j ≠ i := by
        rintro rfl
        exact hne (Option.some.inj (htask.symm.trans hj)).symm
      simpa [hji] using hmem

/-- The end of a round in which no error was seen. -/
theorem invariant_quiet (h : Invariant s) (hpc : s.pc = .scan limit madeProgress [])
    (hnone : s.error = none) : s.observed = [] ∧ s.failedBefore = false ∧
      ∀ i r, s.tasks[i]? = some r → r ≠ some (.ok ()) → i ∈ s.futures := by
  have herror := h.error (by simp [hpc])
  have ho : s.observed = [] := by
    rw [hnone] at herror
    exact List.getLast?_eq_none_iff.mp herror.symm
  refine ⟨ho, ?_, ?_⟩
  · by_contra hbefore
    obtain ⟨-, i, hi, -⟩ := h.before (by simpa using hbefore) ho
    simp [State.unseen, hpc] at hi
  · intro i r hi hr
    have hmem := h.tasks ho i r hi hr
    simpa [State.kept, hpc] using hmem

/-- After it the future goes on, or is idle. -/
theorem invariant_rested (h : Invariant s) (hpc : s.pc = .scan limit madeProgress [])
    (hnone : s.error = none) {pc : PC E} (hscan : ∀ limit p rest, pc ≠ .scan limit p rest)
    (hdone : ∀ r, pc ≠ .done r) : Invariant { s with pc } := by
  have herror := h.error (by simp [hpc])
  obtain ⟨ho, hbefore, htasks⟩ := invariant_quiet h hpc hnone
  refine ⟨h.called, h.spawned, ?_, h.ended, h.failures, ?_, ?_, ?_, ?_, ?_⟩
  · intro _
    cases pc with
    | idle => exact htasks
    | pull limit => exact htasks
    | scan limit p rest => exact absurd rfl (hscan limit p rest)
    | done r => exact absurd rfl (hdone r)
  · intro hne
    exact absurd ho hne
  · intro _
    exact herror
  · intro e hpc
    exact absurd hpc (hdone _)
  · intro hpc
    exact absurd hpc (hdone _)
  · simp [hbefore]

theorem invariant_decide (h : Invariant s) (hs : Step s .decide t) : Invariant t := by
  obtain ⟨limit, p, hpc, rfl⟩ := step_decide hs
  have herror := h.error (by simp [hpc])
  unfold State.decided
  split
  · next e he =>
    have hlast : s.observed.getLast? = some e := by rw [← herror, he]
    have hne : s.observed ≠ [] := by
      intro hnil
      simp [hnil] at hlast
    constructor <;> simp [h.called, h.spawned, hne, hlast]
  · next hnone =>
    obtain ⟨ho, hbefore, htasks⟩ := invariant_quiet h hpc hnone
    have hfailures := h.failures
    split
    · next hend =>
      have hfinished : s.futures = [] ∧ s.stream = false := by simpa using hend
      refine ⟨h.called, h.spawned, fun _ => htasks, h.ended, hfailures, ?_, ?_, ?_, ?_, ?_⟩
      · intro hne
        exact absurd ho hne
      · intro hdone
        exact absurd rfl (hdone (.ok ()))
      · simp
      · intro _
        exact ⟨ho, hfinished⟩
      · simp [hbefore]
    · split
      · exact invariant_rested h hpc hnone (by simp) (by simp)
      · exact invariant_rested h hpc hnone (by simp) (by simp)

/-- Only the task itself changes its result. -/
theorem completed_tasks {r : Except E Unit} {j : Nat} :
    (s.completed i r).tasks[j]? =
      if i = j then s.tasks[j]?.map fun _ => some r else s.tasks[j]? := by
  simp only [State.completed, List.getElem?_set]
  by_cases hij : i = j
  · subst hij
    by_cases hlt : i < s.tasks.length
    · simp [hlt]
    · simp [hlt]
  · simp [hij]

theorem invariant_complete {r : Except E Unit} (h : Invariant s) (hs : Step s (.complete i r) t) :
    Invariant t := by
  obtain ⟨hi, rfl⟩ := step_complete hs
  have hfailed {j : Nat} (hj : Failed s j) : Failed (s.completed i r) j := by
    obtain ⟨e, hj⟩ := hj
    have hij : i ≠ j := by
      rintro rfl
      simp [hi] at hj
    exact ⟨e, by rw [completed_tasks, if_neg hij, hj]⟩
  refine ⟨h.called, ?_, ?_, h.ended, ?_, h.observed, h.error, h.result, h.finished, ?_⟩
  · simp [State.completed, h.spawned]
  · intro ho j r' hj hne
    rw [completed_tasks] at hj
    by_cases hij : i = j
    · subst hij
      exact h.tasks ho i none hi (by simp)
    · rw [if_neg hij] at hj
      exact h.tasks ho j r' hj hne
  · intro hne
    cases r with
    | ok u =>
      rcases h.failures hne with ho | ⟨j, hj⟩
      · exact .inl ho
      · exact .inr ⟨j, hfailed hj⟩
    | error e => exact .inr ⟨i, e, by simp [completed_tasks, hi]⟩
  · intro hbefore ho
    obtain ⟨hidle, j, hj, hfail⟩ := h.before hbefore ho
    exact ⟨hidle, j, hj, hfailed hfail⟩

theorem invariant_step (h : Invariant s) (hs : Step s a t) : Invariant t := by
  cases a with
  | poll limit => exact invariant_poll h hs
  | pull answer => exact invariant_pull h hs
  | skip => exact invariant_skip h hs
  | scan => exact invariant_scan h hs
  | decide => exact invariant_decide h hs
  | complete i r => exact invariant_complete h hs

/-! ### The limit -/

/-- The limit of the current poll. -/
def PC.limit? : PC E → Option Nat
  | .pull limit | .scan limit _ _ => some limit
  | _ => none

/-- A poll keeps its limit. -/
theorem limit_step {n : Nat} (hs : Step s a t) (ha : ∀ n, a ≠ .poll n)
    (hn : t.pc.limit? = some n) : s.pc.limit? = some n := by
  cases a with
  | poll limit => exact absurd rfl (ha limit)
  | pull answer =>
    obtain ⟨limit, hpc, -, rfl⟩ := step_pull hs
    rw [hpc]
    cases answer <;> exact hn
  | skip =>
    obtain ⟨limit, hpc, -, rfl⟩ := step_skip hs
    rw [hpc]
    exact hn
  | scan =>
    obtain ⟨limit, p, i, rest, hpc, rfl⟩ := step_scan hs
    rw [hpc]
    rcases hr : s.tasks[i]?.join with _ | e | _ <;> rw [hr] at hn <;> exact hn
  | decide =>
    obtain ⟨limit, p, hpc, rfl⟩ := step_decide hs
    rw [hpc]
    unfold State.decided at hn
    split at hn
    · cases hn
    · split at hn
      · cases hn
      · split at hn
        · exact hn
        · cases hn
  | complete i r =>
    obtain ⟨-, rfl⟩ := step_complete hs
    exact hn

/-- The tasks that have not ended. -/
def State.running (s : State I E) : List Nat :=
  (List.range s.tasks.length).filter fun i => s.tasks[i]?.join.isNone

def State.inFlight (s : State I E) : Nat := s.running.length

/-- A running task is kept, so there are no more of them. -/
theorem Invariant.inFlight_le (h : Invariant s) (ho : s.observed = []) :
    s.inFlight ≤ s.kept.length := by
  have hnodup : s.running.Nodup := List.nodup_range.filter _
  have hsub : s.running ⊆ s.kept := by
    intro i hi
    obtain ⟨hlt, hnone⟩ := List.mem_filter.mp hi
    have hget := List.getElem?_eq_getElem (List.mem_range.mp hlt)
    rw [hget, Option.join_some] at hnone
    refine h.tasks ho i _ hget ?_
    intro hok
    rw [hok] at hnone
    cases hnone
  exact (List.subperm_of_subset hnodup hsub).length_le

/-- The tasks in flight after an item is taken are no more than the limit. -/
theorem inFlight_pull {x : I} (h : Invariant s) (hs : Step s (.pull (.item x)) t)
    (hpc : s.pc = .pull limit) (hpos : 1 ≤ limit) : t.inFlight ≤ limit := by
  have ht := invariant_step h hs
  obtain ⟨limit', hpc', hpulls, rfl⟩ := step_pull hs
  obtain rfl : limit' = limit := by
    rw [hpc] at hpc'
    exact (PC.pull.inj hpc').symm
  have ho := (h.unseen_of_pc (by simp [hpc]) (by simp [hpc])).1
  have hle := ht.inFlight_le ho
  have hroom : s.futures.length < limit' := by
    simp only [State.pulls, Bool.and_eq_true, Bool.or_eq_true, beq_iff_eq,
      decide_eq_true_eq] at hpulls
    omega
  have hlen : (s.answered limit' (.item x)).kept.length = s.futures.length + 1 := by
    simp [State.answered, State.startScan, State.kept]
  omega

/-! ### The result -/

def State.Resolved (s : State I E) : Prop := ∃ r, s.pc = .done r

/-- The closure is called once for each item, in the order of the stream, and no more once an error
is seen; the future resolves well only after the stream and all tasks have ended so; a poll that
begins after an error does not end otherwise than with an error; and that is the first one. -/
structure Correct (s : State I E) : Prop where
  calls : s.called = s.yielded ∧ s.tasks.length = s.called.length
  stops : s.observed ≠ [] → ∀ answer, next s (.pull answer) = none
  ok : s.pc = .done (.ok ()) → s.ended = true ∧ s.failures = [] ∧ ∀ r ∈ s.tasks, r = some (.ok ())
  fails : s.failedBefore = true → s.pc ≠ .idle ∧ s.pc ≠ .done (.ok ())
  first : ∀ e, s.pc = .done (.error e) → s.failures.head? = some e

/-- The error of the receiver that the round polls next, and the receivers behind it. -/
def State.nextError (s : State I E) : Option (E × List Nat) :=
  match s.pc with
  | .scan _ _ (i :: rest) =>
    match s.tasks[i]? with
    | some (some (.error e)) => some (e, rest)
    | _ => none
  | _ => none

/-- An error is taken, from the stream or a receiver, only where it is the first that occurred or
where the round has yet to come to the receiver of that one. -/
def KeepsFirst (s : State I E) : Act I E → Prop
  | .pull (.failed e) => ∀ f ∈ s.failures.head?, f = e
  | .scan => ∀ taken ∈ s.nextError, ∀ f ∈ s.failures.head?,
      f = taken.1 ∨ ∃ i ∈ taken.2, s.tasks[i]? = some (some (.error f))
  | _ => True

instance [DecidableEq E] (s : State I E) : ∀ a, Decidable (KeepsFirst s a)
  | .pull (.failed e) => inferInstanceAs (Decidable (∀ f ∈ s.failures.head?, f = e))
  | .scan => inferInstanceAs (Decidable (∀ taken ∈ s.nextError, ∀ f ∈ s.failures.head?,
      f = taken.1 ∨ ∃ i ∈ taken.2, s.tasks[i]? = some (some (.error f))))
  | .pull (.item _) | .pull .ended | .pull .pending | .poll _ | .skip | .decide | .complete _ _ =>
    isTrue trivial

theorem Invariant.stops (h : Invariant s) (hne : s.observed ≠ []) (answer : Answer I E) :
    next s (.pull answer) = none := by
  rcases h.observed hne with ⟨limit, p, rest, hpc⟩ | ⟨e, hpc⟩
  · simp [next, hpc]
  · simp [next, hpc]

theorem Invariant.ok (h : Invariant s) (hpc : s.pc = .done (.ok ())) :
    s.ended = true ∧ s.failures = [] ∧ ∀ r ∈ s.tasks, r = some (.ok ()) := by
  obtain ⟨ho, hnil, hstream⟩ := h.finished hpc
  have hall : ∀ r ∈ s.tasks, r = some (.ok ()) := by
    intro r hr
    by_contra hne
    obtain ⟨i, hi⟩ := List.mem_iff_getElem?.mp hr
    have hmem := h.tasks ho i r hi hne
    simp [State.kept, hpc, hnil] at hmem
  refine ⟨h.ended ho hstream, ?_, hall⟩
  by_contra hfail
  rcases h.failures hfail with hne | ⟨i, e, hi⟩
  · exact hne ho
  · have heq := hall _ (List.mem_of_getElem? hi)
    cases heq

theorem Invariant.fails (h : Invariant s) (hbefore : s.failedBefore = true) :
    s.pc ≠ .idle ∧ s.pc ≠ .done (.ok ()) := by
  constructor
  · intro hpc
    have ho := (h.unseen_of_pc (by simp [hpc]) (by simp [hpc])).1
    exact (h.before hbefore ho).1 hpc
  · intro hpc
    obtain ⟨ho, hnil, -⟩ := h.finished hpc
    obtain ⟨-, i, hi, -⟩ := h.before hbefore ho
    simp [State.unseen, hpc, hnil] at hi

/-! ### The first error -/

@[simp] theorem decided_tasks : (s.decided limit madeProgress).tasks = s.tasks := by
  unfold State.decided
  split
  · rfl
  · split
    · rfl
    · split <;> rfl

@[simp] theorem decided_failures : (s.decided limit madeProgress).failures = s.failures := by
  unfold State.decided
  split
  · rfl
  · split
    · rfl
    · split <;> rfl

@[simp] theorem scanned_tasks {r : Option (Except E Unit)} :
    (s.scanned limit madeProgress i rest r).tasks = s.tasks := by
  rcases r with _ | _ | _ <;> rfl

@[simp] theorem scanned_failures {r : Option (Except E Unit)} :
    (s.scanned limit madeProgress i rest r).failures = s.failures := by
  rcases r with _ | _ | _ <;> rfl

/-- The error of each task that failed is among those that occurred. -/
def Recorded (s : State I E) : Prop :=
  ∀ (i : Nat) (e : E), s.tasks[i]? = some (some (.error e)) → e ∈ s.failures

theorem recorded_completed {r : Except E Unit} (h : Recorded s) : Recorded (s.completed i r) := by
  intro j e hj
  rw [completed_tasks] at hj
  cases r with
  | ok u =>
    split at hj
    · cases ht : s.tasks[j]? <;> simp [ht] at hj
    · exact h j e hj
  | error f =>
    split at hj
    · obtain rfl : f = e := by cases ht : s.tasks[j]? <;> simp_all
      exact List.mem_append_right _ List.mem_cons_self
    · exact List.mem_append_left _ (h j e hj)

theorem recorded_step (h : Recorded s) (hs : Step s a t) : Recorded t := by
  cases a with
  | poll limit =>
    obtain ⟨-, rfl⟩ := step_poll hs
    exact fun i e hi => h i e hi
  | pull answer =>
    obtain ⟨limit, -, -, rfl⟩ := step_pull hs
    cases answer with
    | item x =>
      intro i e hi
      have hold : s.tasks[i]? = some (some (.error e)) := by
        simp only [State.answered, State.startScan, List.getElem?_append] at hi
        split at hi
        · exact hi
        · cases hsub : i - s.tasks.length <;> simp [hsub] at hi
      exact h i e hold
    | ended => exact fun i e hi => h i e hi
    | pending => exact fun i e hi => h i e hi
    | failed f => exact fun i e hi => List.mem_append_left _ (h i e hi)
  | skip =>
    obtain ⟨limit, -, -, rfl⟩ := step_skip hs
    exact fun i e hi => h i e hi
  | scan =>
    obtain ⟨limit, p, i, rest, -, rfl⟩ := step_scan hs
    simpa only [Recorded, scanned_tasks, scanned_failures] using h
  | decide =>
    obtain ⟨limit, p, -, rfl⟩ := step_decide hs
    simpa only [Recorded, decided_tasks, decided_failures] using h
  | complete i r =>
    obtain ⟨-, rfl⟩ := step_complete hs
    exact recorded_completed h

theorem step_failures (hs : Step s a t) : s.failures <+: t.failures := by
  cases a with
  | poll limit =>
    obtain ⟨-, rfl⟩ := step_poll hs
    exact List.prefix_rfl
  | pull answer =>
    obtain ⟨limit, -, -, rfl⟩ := step_pull hs
    cases answer with
    | failed e => exact List.prefix_append _ _
    | item _ | ended | pending => exact List.prefix_rfl
  | skip =>
    obtain ⟨limit, -, -, rfl⟩ := step_skip hs
    exact List.prefix_rfl
  | scan =>
    obtain ⟨limit, p, i, rest, -, rfl⟩ := step_scan hs
    exact (scanned_failures ..).symm ▸ List.prefix_rfl
  | decide =>
    obtain ⟨limit, p, -, rfl⟩ := step_decide hs
    exact (decided_failures ..).symm ▸ List.prefix_rfl
  | complete i r =>
    obtain ⟨-, rfl⟩ := step_complete hs
    cases r with
    | ok u => exact List.prefix_rfl
    | error e => exact List.prefix_append _ _

theorem run_failures (h : Run Step s as t) : s.failures <+: t.failures := by
  induction h with
  | refl => exact List.prefix_rfl
  | stepL hs _ ih => exact (step_failures hs).trans ih

/-- A round has taken an error, or has ended with one. -/
def State.Erring (s : State I E) : Prop :=
  match s.pc with
  | .scan _ _ _ => s.error ≠ none
  | .done r => ∃ e, r = .error e
  | _ => False

/-- The error is the one that a round has taken last or has yet to take, or has ended with. -/
def State.Awaits (s : State I E) (f : E) : Prop :=
  match s.pc with
  | .scan _ _ rest => s.error = some f ∨ ∃ i ∈ rest, s.tasks[i]? = some (some (.error f))
  | .done r => r = .error f
  | _ => False

def AwaitsFirst (s : State I E) : Prop := s.Erring → ∃ f ∈ s.failures.head?, s.Awaits f

/-- The round goes on behind a receiver that gives no error. -/
theorem awaits_looked {f : E} (hpc : s.pc = .scan limit madeProgress (i :: rest))
    (hwell : ¬ Failed s i) (fs : List Nat) (p : Bool) :
    ({ s with futures := fs, pc := .scan limit p rest } : State I E).Awaits f ↔ s.Awaits f := by
  simp only [State.Awaits, hpc, List.exists_mem_cons_iff]
  constructor
  · rintro (herror | hrest)
    · exact .inl herror
    · exact .inr (.inr hrest)
  · rintro (herror | hfirst | hrest)
    · exact .inl herror
    · exact absurd ⟨f, hfirst⟩ hwell
    · exact .inr hrest

/-- What a step does to a round that has taken an error. -/
theorem scanned_cases {r : Option (Except E Unit)} (hr : s.tasks[i]?.join = r) :
    (¬ Failed s i ∧ ∃ fs p, s.scanned limit madeProgress i rest r =
      { s with futures := fs, pc := .scan limit p rest }) ∨
    ∃ e, s.tasks[i]? = some (some (.error e)) ∧ s.scanned limit madeProgress i rest r =
      { s with error := some e, observed := s.observed ++ [e], pc := .scan limit true rest } := by
  rcases r with _ | e | ⟨⟩
  · refine .inl ⟨?_, s.futures ++ [i], madeProgress, rfl⟩
    rintro ⟨e, hfail⟩
    simp [hfail] at hr
  · exact .inr ⟨e, by simpa [Option.join_eq_some_iff] using hr, rfl⟩
  · refine .inl ⟨?_, s.futures, true, rfl⟩
    rintro ⟨e, hfail⟩
    simp [hfail] at hr

/-- A task that ends changes neither the round nor what other tasks have ended with. -/
theorem State.Awaits.of_tasks {f : E} (h : s.Awaits f) (hpc : t.pc = s.pc)
    (herror : t.error = s.error) (htasks : ∀ j : Nat, s.tasks[j]? = some (some (.error f)) →
      t.tasks[j]? = some (some (.error f))) : t.Awaits f := by
  unfold State.Awaits at h ⊢
  rw [hpc]
  split at h
  · rcases h with hlast | ⟨j, hj, hf⟩
    · exact .inl (herror.trans hlast)
    · exact .inr ⟨j, hj, htasks j hf⟩
  · exact h
  · exact h.elim

theorem decided_quiet (h : s.error = none) (limit : Nat) (madeProgress : Bool) :
    ¬ (s.decided limit madeProgress).Erring := by
  unfold State.decided
  rw [h]
  dsimp only
  split
  · simp [State.Erring]
  · split
    · exact False.elim
    · exact False.elim

/-- A poll that finds no error begins its round with none. -/
theorem awaitsFirst_startScan (hinv : Invariant s) (hpc : s.pc = .pull limit) (p : Bool)
    {answered : State I E} (herror : answered.error = s.error) :
    AwaitsFirst (answered.startScan limit p) := by
  intro herring
  have hnone := (hinv.unseen_of_pc (by simp [hpc]) (by simp [hpc])).2
  exact absurd (herror.trans hnone) herring

theorem awaitsFirst_pull {answer : Answer I E} (hinv : Invariant s)
    (hkeeps : KeepsFirst s (.pull answer)) (hs : Step s (.pull answer) t) : AwaitsFirst t := by
  obtain ⟨limit, hpc, -, rfl⟩ := step_pull hs
  cases answer with
  | item x => exact awaitsFirst_startScan hinv hpc true rfl
  | ended => exact awaitsFirst_startScan hinv hpc false rfl
  | pending => exact awaitsFirst_startScan hinv hpc false rfl
  | failed e =>
    refine fun _ => ⟨e, ?_, .inl rfl⟩
    simp only [State.answered, State.startScan]
    cases hfailures : s.failures with
    | nil => rfl
    | cons f failures =>
      obtain rfl := hkeeps f (by simp [hfailures])
      rfl

theorem awaitsFirst_scan (hrec : Recorded s) (h : AwaitsFirst s) (hkeeps : KeepsFirst s .scan)
    (hs : Step s .scan t) : AwaitsFirst t := by
  obtain ⟨limit, p, i, rest, hpc, rfl⟩ := step_scan hs
  rcases scanned_cases rfl with ⟨hwell, fs, q, heq⟩ | ⟨e, htask, heq⟩
  · rw [heq]
    intro herring
    have hbefore : s.Erring := by
      simp only [State.Erring, hpc]
      exact herring
    obtain ⟨f, hf, hawaits⟩ := h hbefore
    exact ⟨f, hf, (awaits_looked hpc hwell fs q).mpr hawaits⟩
  · rw [heq]
    intro _
    have hmem := hrec i e htask
    have hnext : s.nextError = some (e, rest) := by simp [State.nextError, hpc, htask]
    cases hfailures : s.failures with
    | nil => simp [hfailures] at hmem
    | cons f failures =>
      refine ⟨f, rfl, ?_⟩
      rcases hkeeps _ hnext f (by simp [hfailures]) with rfl | hrest
      · exact .inl rfl
      · exact .inr hrest

theorem awaitsFirst_decide (h : AwaitsFirst s) (hs : Step s .decide t) : AwaitsFirst t := by
  obtain ⟨limit, p, hpc, rfl⟩ := step_decide hs
  cases herror : s.error with
  | none => exact fun herring => absurd herring (decided_quiet herror limit p)
  | some e =>
    intro _
    obtain ⟨f, hf, hawaits⟩ := h (by simp [State.Erring, hpc, herror])
    simp only [State.Awaits, hpc, herror] at hawaits
    refine ⟨f, by rwa [decided_failures], ?_⟩
    obtain rfl : e = f := by simpa using hawaits
    simp [State.decided, herror, State.Awaits]

theorem awaitsFirst_complete {r : Except E Unit} (h : AwaitsFirst s)
    (hs : Step s (.complete i r) t) : AwaitsFirst t := by
  obtain ⟨more, hmore⟩ := step_failures hs
  obtain ⟨hi, rfl⟩ := step_complete hs
  intro herring
  obtain ⟨f, hf, hawaits⟩ := h herring
  have htasks (j : Nat) (hj : s.tasks[j]? = some (some (.error f))) :
      (s.completed i r).tasks[j]? = some (some (.error f)) := by
    rw [completed_tasks]
    split
    · next hij => simp [← hij, hi] at hj
    · exact hj
  refine ⟨f, ?_, hawaits.of_tasks rfl rfl htasks⟩
  rw [← hmore, Option.mem_def, List.head?_append, Option.mem_def.mp hf]
  rfl

/-- A step that keeps the first error. -/
theorem awaitsFirst_step (hinv : Invariant s) (hrec : Recorded s) (h : AwaitsFirst s)
    (hs : Guarded KeepsFirst Step s a t) : AwaitsFirst t := by
  obtain ⟨hkeeps, hs⟩ := hs
  cases a with
  | poll limit =>
    obtain ⟨-, rfl⟩ := step_poll hs
    exact False.elim
  | pull answer => exact awaitsFirst_pull hinv hkeeps hs
  | skip =>
    obtain ⟨limit, hpc, -, rfl⟩ := step_skip hs
    exact awaitsFirst_startScan hinv hpc false rfl
  | scan => exact awaitsFirst_scan hrec h hkeeps hs
  | decide => exact awaitsFirst_decide h hs
  | complete i r => exact awaitsFirst_complete h hs

/-- An error other than the first is taken, and that of the first is not before the round. -/
structure FirstLost (f : E) (s : State I E) : Prop where
  first : s.failures.head? = some f
  erring : s.Erring
  lost : ¬ s.Awaits f

theorem head_of_step {f : E} (hs : Step s a t) (h : s.failures.head? = some f) :
    t.failures.head? = some f := by
  obtain ⟨more, hmore⟩ := step_failures hs
  rw [← hmore, List.head?_append, h]
  rfl

theorem firstLost_of_not_keepsFirst (hs : Step s a t) (h : ¬ KeepsFirst s a) :
    ∃ f, FirstLost f t := by
  cases a with
  | pull answer =>
    obtain ⟨limit, -, -, rfl⟩ := step_pull hs
    cases answer with
    | item _ | ended | pending => exact absurd trivial h
    | failed e =>
      obtain ⟨f, hf, hne⟩ : ∃ f ∈ s.failures.head?, f ≠ e := by simpa [KeepsFirst] using h
      refine ⟨f, head_of_step hs hf, by simp [State.answered, State.startScan, State.Erring], ?_⟩
      simpa [State.answered, State.startScan, State.Awaits] using hne.symm
  | scan =>
    obtain ⟨limit, p, i, rest, hpc, rfl⟩ := step_scan hs
    rcases scanned_cases rfl with ⟨hwell, -⟩ | ⟨e, htask, heq⟩
    · refine absurd (fun taken htaken => ?_) h
      simp only [State.nextError, hpc] at htaken
      split at htaken
      · next e hfail => exact absurd ⟨e, hfail⟩ hwell
      · cases htaken
    · have hnext : s.nextError = some (e, rest) := by simp [State.nextError, hpc, htask]
      simp only [KeepsFirst, hnext, Option.mem_some_iff, forall_eq', not_forall, not_or] at h
      obtain ⟨f, hf, hne, hrest⟩ := h
      have hfirst := head_of_step hs hf
      rw [heq] at hfirst ⊢
      refine ⟨f, hfirst, by simp [State.Erring], ?_⟩
      simp only [State.Awaits, Option.some.injEq]
      exact not_or.mpr ⟨Ne.symm hne, hrest⟩
  | poll _ | skip | decide | complete _ _ => exact absurd trivial h

/-- Where no error comes twice, the first one is not found again. -/
theorem firstLost_step {f : E} (h : FirstLost f s) (hs : Step s a t) (hnodup : t.failures.Nodup) :
    FirstLost f t := by
  have hfirst := head_of_step hs h.first
  have herring := h.erring
  cases a with
  | poll limit =>
    obtain ⟨hpc, -⟩ := step_poll hs
    simp [State.Erring, hpc] at herring
  | pull answer =>
    obtain ⟨limit, hpc, -⟩ := step_pull hs
    simp [State.Erring, hpc] at herring
  | skip =>
    obtain ⟨limit, hpc, -⟩ := step_skip hs
    simp [State.Erring, hpc] at herring
  | scan =>
    obtain ⟨limit, p, i, rest, hpc, rfl⟩ := step_scan hs
    rcases scanned_cases rfl with ⟨hwell, fs, q, heq⟩ | ⟨e, htask, heq⟩
    · rw [heq] at hfirst ⊢
      refine ⟨hfirst, ?_, fun hawaits => h.lost ((awaits_looked hpc hwell fs q).mp hawaits)⟩
      simp only [State.Erring, hpc] at herring
      exact herring
    · rw [heq] at hfirst ⊢
      refine ⟨hfirst, by simp [State.Erring], fun hawaits => h.lost ?_⟩
      simp only [State.Awaits, hpc] at hawaits ⊢
      rcases hawaits with heq | ⟨j, hj, hf⟩
      · obtain rfl := Option.some.inj heq
        exact .inr ⟨i, List.mem_cons_self, htask⟩
      · exact .inr ⟨j, List.mem_cons_of_mem _ hj, hf⟩
  | decide =>
    obtain ⟨limit, p, hpc, rfl⟩ := step_decide hs
    have hlost := h.lost
    simp only [State.Erring, hpc] at herring
    obtain ⟨e, herror⟩ := Option.ne_none_iff_exists'.mp herring
    simp only [State.Awaits, hpc, herror] at hlost
    refine ⟨hfirst, ?_, ?_⟩
    · simp [State.decided, herror, State.Erring]
    · simpa [State.decided, herror, State.Awaits] using hlost
  | complete i r =>
    obtain ⟨hi, rfl⟩ := step_complete hs
    refine ⟨hfirst, herring, fun hawaits => h.lost (hawaits.of_tasks rfl rfl fun j hj => ?_)⟩
    rw [completed_tasks] at hj
    split at hj
    · next hij =>
      obtain rfl : r = .error f := by simpa [← hij, hi] using hj
      have hmem : f ∈ s.failures := List.mem_of_mem_head? h.first
      have hdisjoint := hnodup.disjoint
      exact absurd (List.mem_singleton.mpr rfl) (hdisjoint hmem)
    · exact hj

theorem firstLost_run {f : E} (h : FirstLost f s) (hrun : Run Step s as t)
    (hnodup : t.failures.Nodup) : FirstLost f t := by
  induction hrun with
  | refl => exact h
  | stepL hs hrun ih =>
    exact ih (firstLost_step h hs (hnodup.sublist (run_failures hrun).sublist)) hnodup

theorem FirstLost.wrong {f : E} (h : FirstLost f s) (hresolved : s.Resolved) :
    ∃ e, s.pc = .done (.error e) ∧ s.failures.head? ≠ some e := by
  obtain ⟨r, hpc⟩ := hresolved
  have herring := h.erring
  have hlost := h.lost
  simp only [State.Erring, State.Awaits, hpc] at herring hlost
  obtain ⟨e, rfl⟩ := herring
  exact ⟨e, hpc, fun heq => hlost (by rw [Option.some.inj (heq.symm.trans h.first)])⟩

/-- What holds along a run whose steps keep the first error. -/
structure FirstKept (s : State I E) : Prop where
  invariant : Invariant s
  recorded : Recorded s
  awaits : AwaitsFirst s

theorem firstKept_step (h : FirstKept s) (hs : Guarded KeepsFirst Step s a t) : FirstKept t :=
  ⟨invariant_step h.invariant hs.2, recorded_step h.recorded hs.2,
    awaitsFirst_step h.invariant h.recorded h.awaits hs⟩

theorem firstKept_init : FirstKept (init : State I E) :=
  ⟨invariant_init, by simp [Recorded, init], False.elim⟩

theorem FirstKept.correct (h : FirstKept s) : Correct s := by
  have hinv := h.invariant
  refine ⟨⟨hinv.called, hinv.spawned⟩, hinv.stops, hinv.ok, hinv.fails, fun e hpc => ?_⟩
  obtain ⟨f, hf, hawaits⟩ := h.awaits (by simp [State.Erring, hpc])
  simp only [State.Awaits, hpc] at hawaits
  rw [Except.error.inj hawaits]
  exact hf

/-- Where the errors are told apart, a run that ends with the first one keeps it at each step. -/
theorem guarded_of_correct (h : Run Step s as t) (hc : Correct t) (hr : t.Resolved)
    (hnodup : t.failures.Nodup) : Run (Guarded KeepsFirst Step) s as t := by
  induction h with
  | refl => exact .refl _
  | stepL hs hrun ih =>
    refine .stepL ⟨?_, hs⟩ (ih hc hr hnodup)
    by_contra hkeeps
    obtain ⟨f, hlost⟩ := firstLost_of_not_keepsFirst hs hkeeps
    obtain ⟨e, hpc, hne⟩ := (firstLost_run hlost hrun hnodup).wrong hr
    exact hne (hc.first e hpc)

/-- In every run, whatever the stream, the limits and the order of the ends and polls: all is as
promised where each step keeps the first error. A future that has resolved, with errors that are
told apart, has it so only then. -/
theorem correct_guarded (h : Run Step (init : State I E) as s) :
    (Run (Guarded KeepsFirst Step) init as s → Correct s) ∧
      (s.Resolved → s.failures.Nodup → Correct s → Run (Guarded KeepsFirst Step) init as s) :=
  ⟨fun hrun => (hrun.invariant FirstKept (fun _ _ _ => firstKept_step) firstKept_init).correct,
    fun hr hnodup hc => guarded_of_correct h hc hr hnodup⟩

/-- Two tasks run; `ends` tells how they end before the next poll. -/
def twoTasks (ends : List (Act Nat String)) : List (Act Nat String) :=
  [.poll 0, .pull (.item 1), .scan, .decide, .pull (.item 2), .scan, .scan, .decide,
    .pull .pending, .scan, .scan, .decide] ++ ends ++
      [.poll 0, .pull .pending, .scan, .scan, .decide]

/-- The error of a future that has resolved with one. -/
def State.resultError (s : State I E) : Option E :=
  match s.pc with
  | .done (.error e) => some e
  | _ => none

theorem resultError_eq {e : E} (h : s.resultError = some e) : s.pc = .done (.error e) := by
  unfold State.resultError at h
  split at h
  · next hpc =>
    cases h
    exact hpc
  · cases h

theorem correct_guarded_oneFails : ∃ s : State Nat String, s.pc = .done (.error "first") ∧
    Correct s := by
  obtain ⟨s, hrun, hs⟩ := guarded_run_of_exec KeepsFirst next (init : State Nat String)
    (twoTasks [.complete 1 (.error "first")]) (fun s => s.resultError = some "first") (by decide)
  have hplain : Run Step init _ s := hrun.mono fun _ _ _ hs => hs.2
  exact ⟨s, resultError_eq (by simpa using hs), (correct_guarded hplain).1 hrun⟩

/-- The first task fails first, and the second one before the next poll, whose error wins. -/
theorem not_correct : ¬ ∀ (I E : Type) (as : List (Act I E)) (s : State I E),
    Run Step init as s → Correct s := by
  intro h
  obtain ⟨s, hrun, hs⟩ := run_of_exec_map next (init : State Nat String)
    (twoTasks [.complete 0 (.error "first"), .complete 1 (.error "second")])
    (fun s => s.resultError = some "second" ∧ s.failures = ["first", "second"]) (by decide)
  obtain ⟨hresult, hfailures⟩ :
      s.resultError = some "second" ∧ s.failures = ["first", "second"] := by simpa using hs
  have hfirst := (h _ _ _ s hrun).first _ (resultError_eq hresult)
  rw [hfailures] at hfirst
  exact absurd hfirst (by decide)

end Pewpew.ForEachParallel
