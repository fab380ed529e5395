import Pewpew.Library.Transition
import Pewpew.Stats.Conservation

/-! The end of a test as the stats task sees it: the end signal goes before the queued messages. -/
namespace Pewpew.StatsCollector

open Transition

/-- The messages of the stats channel. -/
inductive StatsMessage where
  | start (duration : Nat)
  | responseStat (stat : ResponseStat)
  deriving DecidableEq, Repr

def StatsMessage.event : StatsMessage → Event
  | .start duration => .start duration
  | .responseStat stat => .responseStat stat

def StatsMessage.stats : StatsMessage → List ResponseStat
  | .start _ => []
  | .responseStat stat => [stat]

/-- What is broadcast about the test: its config was updated, or it has ended. -/
inductive Signal where
  | configUpdate
  | ended
  deriving DecidableEq, Repr

/-- A queued message, and whether it was sent before the end signal was raised. -/
structure Sent where
  message : StatsMessage
  inTime : Bool
  deriving DecidableEq, Repr

def Sent.stats (m : Sent) : List ResponseStat := if m.inTime then m.message.stats else []

/-- The task. A finished one has the stats that it closed out, unless it ended with its channel. -/
inductive Task where
  | running (c : Collector)
  | finished (result : Option Stats)

/-- The task and what it polls. `signals` are the broadcasts that it has not received: its channel
holds one, and a receiver that lags behind gets an error. `ended`, `sent` and `received` record
whether the end signal was raised, the stats sent before it and those of them received: the task
does not read them. -/
structure System where
  task : Task
  queue : List Sent
  closed : Bool
  signals : List Signal
  ended : Bool
  sent : List ResponseStat
  received : List ResponseStat

/-- `create_stats_channel`. -/
def System.create (cfg : Setup) (created : Clock) : Option System :=
  (Stats.new cfg created).map fun stats => ⟨.running ⟨stats, none⟩, [], false, [], false, [], []⟩

/-- What may happen: `close` drops the last sender. -/
inductive Act where
  | send (m : StatsMessage)
  | close
  | raise (s : Signal)
  | poll (clock : Clock) (tick : Bool)
  deriving DecidableEq, Repr

/-- One turn of the loop: the stream polls the signals, the timer and the channel in this order. -/
def System.poll (cfg : Setup) (clock : Clock) (tick : Bool) (c : Collector) (s : System) :
    Option System :=
  match s.signals with
  | [] =>
    if tick then (c.onNewBucket cfg clock).map fun c => { s with task := .running c }
    else
      match s.queue with
      | m :: queue => (c.step cfg (clock, m.message.event)).map fun c =>
          { s with task := .running c, queue := queue, received := s.received ++ m.stats }
      | [] => some (if s.closed then { s with task := .finished none } else s)
  | [.configUpdate] => some { s with signals := [] }
  -- an error of the receiver counts as the end of the test, too
  | _ => (c.stats.closeOutBucket cfg clock none).map fun stats =>
      { s with task := .finished (some stats), signals := [] }

/-- A poll of a task that fails an assertion is no step, nor is one of a task that has ended. -/
def next (cfg : Setup) (s : System) : Act → Option System
  | .send m =>
    if s.closed then none
    else some { s with queue := s.queue ++ [⟨m, !s.ended⟩],
                       sent := if s.ended then s.sent else s.sent ++ m.stats }
  | .close => some { s with closed := true }
  | .raise signal =>
    some { s with signals := s.signals ++ [signal], ended := s.ended || signal = .ended }
  | .poll clock tick =>
    match s.task with
    | .running c => s.poll cfg clock tick c
    | .finished _ => none

def Step (cfg : Setup) (s : System) (a : Act) (t : System) : Prop := next cfg s a = some t

/-- The stats sent before the end signal are in the totals and in the results file. -/
def System.Included (s : System) : Prop :=
  match s.task with
  | .running _ => True
  | .finished (some stats) => Conserved stats s.sent
  | .finished none => s.sent = []

def LosesNoStats (cfg : Setup) : Prop :=
  ∀ created s as t, System.create cfg created = some s → Run (Step cfg) s as t → t.Included

/-- The stats in the queue that were sent before the end signal. -/
def System.queued (s : System) : List ResponseStat := s.queue.flatMap Sent.stats

/-- A poll that takes nothing for the end of the test while such stats are to come, that finds the
channel closed before the signal only when nothing was received, and no tick between a stat and the
first `Start`. -/
def System.orderly (s : System) : Act → Bool
  | .poll _ tick =>
    match s.task, s.signals with
    | .running c, [] =>
      if tick then c.testStartTime.isSome || s.received.isEmpty
      else !s.queue.isEmpty || !s.closed || s.received.isEmpty
    | .running _, [.configUpdate] => true
    | .running _, _ => s.ended && s.queued.isEmpty
    | .finished _, _ => true
  | _ => true

/-! ### What every step preserves -/

/-- Where the task is, what was sent before the end signal is received or queued. -/
structure Accounted (s : System) : Prop where
  sent : s.sent = s.received ++ s.queued
  inTime : s.ended = false → ∀ m ∈ s.queue, m.inTime = true
  late : ∀ c, s.task = .running c → s.ended = true → .ended ∈ s.signals
  running : ∀ c, s.task = .running c → Kept c.stats s.received []
  result : ∀ stats, s.task = .finished (some stats) → s.ended = true ∧ Conserved stats s.sent
  stopped : s.task = .finished none → s.closed = true ∧ s.sent = []

variable {cfg : Setup} {s t : System} {a : Act} {as : List Act} {clock created : Clock}
  {c c' : Collector} {tick : Bool}

theorem accounted_create (h : System.create cfg created = some s) : Accounted s := by
  obtain ⟨stats, hnew, rfl⟩ := Option.map_eq_some_iff.mp h
  refine ⟨rfl, by simp, by simp, ?_, by simp, by simp⟩
  intro c hc
  cases hc
  exact kept_new hnew

/-- A received message keeps the stats, its own included. -/
theorem kept_message {stats : List ResponseStat} (hk : Kept c.stats stats [])
    (m : StatsMessage) (h : c.step cfg (clock, m.event) = some c') :
    Kept c'.stats (stats ++ m.stats) [] := by
  cases m with
  | start duration =>
    cases h
    rw [StatsMessage.stats, List.append_nil]
    exact (kept_onStart hk duration).2
  | responseStat stat =>
    cases h
    exact kept_append hk

theorem accounted_send (hs : Accounted s) (m : StatsMessage)
    (h : next cfg s (.send m) = some t) : Accounted t := by
  simp only [next] at h
  split at h
  · cases h
  · cases h
    rename_i hopen
    refine ⟨?_, ?_, hs.late, hs.running, ?_, ?_⟩
    · have hsent := hs.sent
      cases hended : s.ended with
      | false => simp [System.queued, Sent.stats, hsent]
      | true => simpa [System.queued, Sent.stats] using hsent
    · intro hended
      refine List.forall_mem_append.mpr ⟨hs.inTime hended, List.forall_mem_singleton.mpr ?_⟩
      simp only [show s.ended = false from hended, Bool.not_false]
    · intro stats ht
      obtain ⟨hended, hconserved⟩ := hs.result stats ht
      exact ⟨hended, by simpa [hended] using hconserved⟩
    · intro ht
      exact absurd (hs.stopped ht).1 hopen

theorem accounted_raise (hs : Accounted s) (signal : Signal) :
    Accounted { s with signals := s.signals ++ [signal],
                       ended := s.ended || signal = .ended } := by
  refine ⟨hs.sent, ?_, ?_, hs.running, ?_, hs.stopped⟩
  · intro hended
    exact hs.inTime (Bool.or_eq_false_iff.mp hended).1
  · intro c hc hended
    rcases Bool.or_eq_true_iff.mp hended with hended | hsignal
    · exact List.mem_append_left _ (hs.late c hc hended)
    · exact List.mem_append_right _ (by simpa using (of_decide_eq_true hsignal).symm)
  · intro stats ht
    obtain ⟨hended, hconserved⟩ := hs.result stats ht
    exact ⟨by simp [hended], hconserved⟩

theorem accounted_poll (hs : Accounted s) (hc : s.task = .running c)
    (ho : s.orderly (.poll clock tick)) (h : s.poll cfg clock tick c = some t) : Accounted t := by
  have hkept := hs.running c hc
  unfold System.poll at h
  split at h
  · rename_i hsignals
    have hnot : s.ended = false := by
      by_contra hended
      have hmem := hs.late c hc (by simpa using hended)
      simp [hsignals] at hmem
    split at h
    · rename_i htick
      obtain ⟨c₁, hbucket, rfl⟩ := Option.map_eq_some_iff.mp h
      have hkept₁ := (kept_onNewBucket hkept hbucket).2
      have hearly : c.testStartTime.isSome ∨ s.received = [] := by
        simpa [System.orderly, hc, hsignals, htick] using ho
      refine ⟨hs.sent, hs.inTime, by simp [hnot], ?_, by simp, by simp⟩
      intro c₂ hc₂
      cases hc₂
      -- a tick before the test has started loses what was received: nothing
      rcases hearly with hstart | hnone
      · simpa [hstart] using hkept₁
      · simp only [hnone, ite_self] at hkept₁ ⊢
        exact hkept₁
    · split at h
      · rename_i m queue hqueue
        obtain ⟨c₁, hstep, rfl⟩ := Option.map_eq_some_iff.mp h
        have hm : m.stats = m.message.stats := by
          rw [Sent.stats, hs.inTime hnot m (by simp [hqueue]), if_pos rfl]
        refine ⟨?_, ?_, by simp [hnot], ?_, by simp, by simp⟩
        · have hsent := hs.sent
          simp only [System.queued, hqueue, List.flatMap_cons] at hsent ⊢
          rw [hsent, List.append_assoc]
        · intro hended m' hm'
          exact hs.inTime hended m' (by simp [hqueue, hm'])
        · intro c₂ hc₂
          cases hc₂
          rw [hm]
          exact kept_message hkept m.message hstep
      · rename_i htick _ hqueue
        by_cases hclosed : s.closed = true
        · rw [if_pos hclosed] at h
          cases h
          have hnone : s.received = [] := by
            simpa [System.orderly, hc, hsignals, htick, hqueue, hclosed] using ho
          have hsent := hs.sent
          simp only [System.queued, hqueue, hnone, List.flatMap_nil, List.append_nil] at hsent
          exact ⟨hs.sent, hs.inTime, by simp, by simp, by simp, fun _ => ⟨hclosed, hsent⟩⟩
        · rw [if_neg hclosed] at h
          cases h
          exact hs
  · rename_i hsignals
    cases h
    refine ⟨hs.sent, hs.inTime, ?_, hs.running, hs.result, hs.stopped⟩
    intro c' hc' hended
    have hmem := hs.late c' hc' hended
    simp [hsignals] at hmem
  · rename_i hnil hupdate
    obtain ⟨stats, hclose, rfl⟩ := Option.map_eq_some_iff.mp h
    have hall : s.ended = true ∧ s.queued = [] := by
      simp only [System.orderly, hc] at ho
      simpa using ho
    have hsent := hs.sent
    rw [hall.2, List.append_nil] at hsent
    refine ⟨hs.sent, hs.inTime, by simp, by simp, ?_, by simp⟩
    intro stats' hstats'
    cases hstats'
    refine ⟨hall.1, ?_⟩
    change Conserved stats s.sent
    rw [closeOutBucket_none hclose, hsent, conserved_complete hkept]

theorem accounted_step (hs : Accounted s) (ho : s.orderly a) (h : Step cfg s a t) :
    Accounted t := by
  cases a with
  | send m => exact accounted_send hs m h
  | close =>
    cases h
    refine ⟨hs.sent, hs.inTime, hs.late, hs.running, hs.result, ?_⟩
    intro ht
    exact ⟨rfl, (hs.stopped ht).2⟩
  | raise signal =>
    cases h
    exact accounted_raise hs signal
  | poll clock tick =>
    simp only [Step, next] at h
    split at h
    · rename_i c hc
      exact accounted_poll hs hc ho h
    · cases h

theorem Accounted.included (hs : Accounted s) : s.Included := by
  unfold System.Included
  split
  · trivial
  · rename_i stats ht
    exact (hs.result stats ht).2
  · rename_i ht
    exact (hs.stopped ht).2

/-- A run of orderly steps has the stats sent before the end signal in its totals and results
file. -/
theorem included_run (hcreate : System.create cfg created = some s)
    (h : Run (Guarded (fun s a => s.orderly a) (Step cfg)) s as t) : t.Included := by
  have hinv := Run.invariant Accounted (fun _ _ _ hs hst => accounted_step hs hst.1 hst.2) h
    (accounted_create hcreate)
  exact hinv.included

/-- The task receives a stat before the test ends. -/
def drainedRun : List Act :=
  [.send (.start (600 * nanos)), .poll ⟨600, 0⟩ false, .send (.responseStat okStat),
   .raise .configUpdate, .poll ⟨601, nanos⟩ false, .poll ⟨601, nanos⟩ false, .raise .ended,
   .poll ⟨602, 2 * nanos⟩ false]

theorem included_drainedRun : ∃ s t, System.create minuteBuckets ⟨600, 0⟩ = some s ∧
    Run (Guarded (fun s a => s.orderly a) (Step minuteBuckets)) s drainedRun t ∧
    t.sent = [okStat] ∧ t.Included := by
  obtain ⟨s, hs⟩ : ∃ s, System.create minuteBuckets ⟨600, 0⟩ = some s := ⟨_, rfl⟩
  have hexec : (exec (fun s a => if s.orderly a then next minuteBuckets s a else none) s
      drainedRun).map (fun t => decide (t.sent = [okStat])) = some true := by
    cases hs
    decide +kernel
  obtain ⟨t, hrun, ht⟩ := guarded_run_of_exec (fun s a => s.orderly a = true) (next minuteBuckets) s
    drainedRun _ hexec
  exact ⟨s, t, hs, hrun, of_decide_eq_true ht, included_run hs hrun⟩

/-- The stats in the totals that a finished task printed. -/
def System.totalled (s : System) : Option (List ResponseStat) :=
  match s.task with
  | .finished (some stats) => stats.summaries.getLast?.map (·.appended)
  | _ => none

theorem System.Included.totalled (h : s.Included) {stats : List ResponseStat}
    (ht : s.totalled = some stats) : stats = s.sent := by
  unfold System.totalled at ht
  split at ht
  · rename_i result htask
    rw [System.Included, htask] at h
    obtain ⟨totals, hlast, happended, -⟩ := h.totals
    rw [hlast] at ht
    exact (Option.some.inj ht).symm.trans happended
  · cases ht

/-- The end signal is raised while a stat is queued. -/
def queuedRun : List Act :=
  [.send (.start (600 * nanos)), .poll ⟨600, 0⟩ false, .send (.responseStat okStat),
   .raise .ended, .poll ⟨602, 2 * nanos⟩ false]

theorem not_losesNoStats : ¬ LosesNoStats minuteBuckets := by
  intro hall
  obtain ⟨s, hs⟩ : ∃ s, System.create minuteBuckets ⟨600, 0⟩ = some s := ⟨_, rfl⟩
  have hexec : (exec (next minuteBuckets) s queuedRun).map
      (fun t => decide (t.totalled = some [] ∧ t.sent = [okStat])) = some true := by
    cases hs
    decide +kernel
  obtain ⟨t, hrun, ht⟩ := run_of_exec_map (next minuteBuckets) s queuedRun _ hexec
  obtain ⟨htotalled, hsent⟩ := of_decide_eq_true ht
  have hlost := (hall _ s queuedRun t hs hrun).totalled htotalled
  rw [hsent] at hlost
  cases hlost

end Pewpew.StatsCollector
