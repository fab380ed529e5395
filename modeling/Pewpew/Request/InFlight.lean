import Pewpew.Request.Parallelism

/-! `max_parallel_requests` over whole runs of an endpoint. -/
namespace Pewpew.ForEachParallel

variable {I E : Type} {s t : State I E} {a : Act I E}

theorem running_congr (h : t.tasks = s.tasks) : t.inFlight = s.inFlight := by
  rw [State.inFlight, State.inFlight, State.running, State.running, h]

/-- Only a request that is started adds to those in flight. -/
theorem inFlight_step (hs : Step s a t) (ha : ∀ x, a ≠ .pull (.item x)) :
    t.inFlight ≤ s.inFlight := by
  cases a with
  | poll limit =>
    obtain ⟨-, rfl⟩ := step_poll hs
    exact (running_congr rfl).le
  | pull answer =>
    obtain ⟨limit, -, -, rfl⟩ := step_pull hs
    cases answer with
    | item x => exact absurd rfl (ha x)
    | _ => exact (running_congr rfl).le
  | skip =>
    obtain ⟨limit, -, -, rfl⟩ := step_skip hs
    exact (running_congr rfl).le
  | scan =>
    obtain ⟨limit, p, i, rest, -, rfl⟩ := step_scan hs
    rcases hr : s.tasks[i]?.join with _ | _ | _ <;> exact (running_congr rfl).le
  | decide =>
    obtain ⟨limit, p, -, rfl⟩ := step_decide hs
    apply le_of_eq
    apply running_congr
    unfold State.decided
    repeat' split
    all_goals rfl
  | complete i r =>
    obtain ⟨hi, rfl⟩ := step_complete hs
    have hlength : (s.completed i r).tasks.length = s.tasks.length := List.length_set ..
    rw [State.inFlight, State.inFlight, State.running, State.running, hlength]
    apply List.Sublist.length_le
    apply List.monotone_filter_right
    intro j hj
    rw [completed_tasks] at hj
    split at hj
    · next hij =>
      subst hij
      rw [hi] at hj
      cases hj
    · exact hj

end Pewpew.ForEachParallel

namespace Pewpew.Request

open ForEachParallel Transition

variable {I E : Type} {l : Limiter} {r r' : Running I E} {m : Move I E} {ms : List (Move I E)}
  {max : {n : Nat // 0 < n}}

/-- The limit of the current poll is no more than `max_parallel_requests`, and no more requests are
in flight. -/
structure AtMost (l : Limiter) (max : Nat) (r : Running I E) : Prop where
  run : RunInvariant l r
  limit : ∀ n, r.future.pc.limit? = some n → n ≤ max
  inFlight : r.future.inFlight ≤ max

theorem atMost_init (l : Limiter) (max : Nat) : AtMost l max (Running.init : Running I E) where
  run := runInvariant_init
  limit := by simp [Running.init, ForEachParallel.init, PC.limit?]
  inFlight := Nat.zero_le _

theorem atMost_poll {txs : List (Nat × Nat)} (hmax : l.max = some max) (h : AtMost l max r)
    (hf : l.Fits r.counters txs r.future.futures.length) (hs : r.Step l (.poll txs) r') :
    (∀ n, r'.future.pc.limit? = some n → n ≤ max) ∧ r'.future.inFlight ≤ max := by
  have hexact : l.Exact r.counters txs r.future.futures.length :=
    fun hb => (exact_iff_fits h.run.counters).mpr (hf hb)
  simp only [Running.Step, Running.next] at hs
  split at hs
  · next limit c' hl =>
    obtain ⟨s, hnext, rfl⟩ := Option.map_eq_some_iff.mp hs
    have hfewer := inFlight_step hnext (by simp)
    obtain ⟨-, rfl⟩ := step_poll hnext
    constructor
    · intro n hn
      obtain rfl := Option.some.inj hn
      exact (bounds_of_exact h.run.counters hexact limit c' hl).2 max hmax
    · exact hfewer.trans h.inFlight
  · next hl =>
    obtain ⟨_ | _, _ | _⟩ := l <;> cases hmax <;> cases hl

theorem atMost_step (hmax : l.max = some max) (h : AtMost l max r)
    (hs : Guarded (Polls l) (Running.Step l) r m r') : AtMost l max r' := by
  have hrun := runInvariant_step h.run hs
  obtain ⟨hpolls, hs⟩ := hs
  cases m with
  | poll txs =>
    obtain ⟨hlimit, hflight⟩ := atMost_poll hmax h hpolls hs
    exact ⟨hrun, hlimit, hflight⟩
  | act a =>
    have hpoll : ∀ n, a ≠ .poll n := by
      rintro n rfl
      cases hs
    obtain ⟨s, hnext, rfl⟩ :
        ∃ s, ForEachParallel.next r.future a = some s ∧ ⟨r.counters, s⟩ = r' := by
      cases a <;> first | exact absurd rfl (hpoll _) | exact Option.map_eq_some_iff.mp hs
    refine ⟨hrun, fun n hn => h.limit n (limit_step hnext hpoll hn), ?_⟩
    by_cases hitem : ∃ x, a = .pull (.item x)
    · obtain ⟨x, rfl⟩ := hitem
      obtain ⟨limit, hpc, -, -⟩ := step_pull hnext
      have hsome : r.future.pc.limit? = some limit := by rw [hpc, PC.limit?]
      have hpos := h.run.limit limit hsome (.inr (by simp [hmax]))
      exact (inFlight_pull h.run.future hnext hpc hpos).trans (h.limit limit hsome)
    · have hother : ∀ x, a ≠ .pull (.item x) := fun x hx => hitem ⟨x, hx⟩
      exact (inFlight_step hnext hother).trans h.inFlight

/-- In every run in which the free slots fit at every poll, errors and the end of the stream
included, no more than `max_parallel_requests` requests are in flight. -/
theorem inFlight_le_max (hmax : l.max = some max)
    (h : Run (Guarded (Polls l) (Running.Step l)) (Running.init : Running I E) ms r) :
    r.future.inFlight ≤ max :=
  (h.invariant (AtMost l max) (fun _ _ _ => atMost_step hmax) (atMost_init l max)).inFlight

/-- At most one request: the second item waits until the first request has ended. -/
def waitTrace : List (Move Nat Nat) :=
  [.poll [(0, 5)], .act (.pull (.item 1)), .act .scan, .act .decide, .act .skip, .act .scan,
    .act .decide, .act (.complete 0 (.ok ())), .poll [(0, 5)], .act .skip, .act .scan,
    .act .decide, .act (.pull (.item 2))]

theorem inFlight_le_max_waitTrace : ∃ r : Running Nat Nat,
    Run (Guarded (Polls ⟨true, some ⟨1, Nat.one_pos⟩⟩) (Running.Step ⟨true, some ⟨1, Nat.one_pos⟩⟩))
      Running.init waitTrace r ∧ r.future.called = [1, 2] ∧ r.future.inFlight ≤ 1 := by
  obtain ⟨r, hrun, hr⟩ := guarded_run_of_exec (Polls ⟨true, some ⟨1, Nat.one_pos⟩⟩)
    (Running.next ⟨true, some ⟨1, Nat.one_pos⟩⟩) (Running.init : Running Nat Nat) waitTrace
    (fun r => r.future.called == [1, 2]) (by decide)
  exact ⟨r, hrun, by simpa using hr, inFlight_le_max rfl hrun⟩

end Pewpew.Request
