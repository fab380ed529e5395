import Pewpew.Library.Transition
import Pewpew.Stats.Conservation

/-! The stats task under any clock: its assertions and its subtractions. -/
namespace Pewpew.StatsCollector

open Transition

/-- The build that panics where a subtraction underflows. -/
def Setup.checked (cfg : Setup) : Setup := { cfg with overflowChecks := true }

/-- The task over its whole life. -/
inductive Life where
  | running (c : Collector)
  | ended (s : Stats)
  | panicked

/-- What the task receives next: an event, or the end of the test. -/
abbrev Arrival := Clock × Option Event

def Life.next (cfg : Setup) : Life → Arrival → Life
  | .running c, (clock, some e) =>
    match c.step cfg (clock, e) with
    | some c => .running c
    | none => .panicked
  | .running c, (clock, none) =>
    match c.stats.closeOutBucket cfg clock none with
    | some s => .ended s
    | none => .panicked
  | l, _ => l

def LifeStep (cfg : Setup) (l : Life) (a : Arrival) (l' : Life) : Prop := l' = l.next cfg a

/-- No order of events under nondecreasing clocks fails an assertion or lets a subtraction
underflow: the checked build panics nowhere. -/
def ToleratesClocks (cfg : Setup) : Prop :=
  ∀ created s events l, Stats.new cfg created = some s →
    (created :: events.map (·.1)).Pairwise (fun a b => a.epoch ≤ b.epoch ∧ a.instant ≤ b.instant) →
    Run (LifeStep cfg.checked) (.running ⟨s, none⟩) events l → l ≠ .panicked

/-- The clock is in the current bucket or before it, or in the bucket after it. -/
def Stats.Follows (cfg : Setup) (clock : Clock) (s : Stats) : Prop :=
  clock.epoch / cfg.bucketSize * cfg.bucketSize ≤ s.current.time ∨
    clock.epoch / cfg.bucketSize * cfg.bucketSize = s.current.time + cfg.bucketSize

/-- A tick of the bucket timer comes before the test starts, or its clock follows the buckets and
has not passed the duration. -/
def Collector.Punctual (cfg : Setup) (clock : Clock) (c : Collector) : Prop :=
  match c.testStartTime with
  | none => True
  | some startTime =>
    (clock.instant - startTime) / nanos ≤ c.stats.duration ∧ c.stats.Follows cfg clock

/-- What closes a bucket needs an epoch that has reached a bucket size, and a tick is punctual. -/
def Life.Punctual (cfg : Setup) : Life → Arrival → Prop
  | .running c, (clock, some .newBucket) => cfg.bucketSize ≤ clock.epoch ∧ c.Punctual cfg clock
  | .running _, (clock, none) => cfg.bucketSize ≤ clock.epoch
  | _, _ => True

instance (cfg : Setup) (clock : Clock) (s : Stats) : Decidable (s.Follows cfg clock) :=
  inferInstanceAs (Decidable (_ ∨ _))

instance (cfg : Setup) (clock : Clock) (c : Collector) : Decidable (c.Punctual cfg clock) :=
  match h : c.testStartTime with
  | none => .isTrue (by simp [Collector.Punctual, h])
  | some startTime =>
    decidable_of_iff
      ((clock.instant - startTime) / nanos ≤ c.stats.duration ∧ c.stats.Follows cfg clock)
      (by simp [Collector.Punctual, h])

instance (cfg : Setup) : (l : Life) → (a : Arrival) → Decidable (l.Punctual cfg a)
  | .running _, (_, some .newBucket) => inferInstanceAs (Decidable (_ ∧ _))
  | .running _, (_, none) => inferInstanceAs (Decidable (_ ≤ _))
  | .running _, (_, some (.start _)) | .running _, (_, some (.responseStat _)) | .ended _, _
  | .panicked, _ => .isTrue (by simp [Life.Punctual])

/-! ### One step -/

variable {cfg : Setup} {clock created : Clock} {s s' : Stats} {c c' : Collector} {l l' : Life}
  {a : Arrival} {events : List Arrival}

theorem bucketSize_le_round_iff {time bucketSize : Nat} (hb : 0 < bucketSize) :
    bucketSize ≤ time / bucketSize * bucketSize ↔ bucketSize ≤ time := by
  constructor
  · intro h
    exact h.trans (Nat.div_mul_le_self _ _)
  · intro h
    have hone : 1 ≤ time / bucketSize := (Nat.one_le_div_iff hb).mpr h
    exact Nat.le_mul_of_pos_left _ hone

theorem subU64_checked {a b : Nat} : subU64 true a b = if b ≤ a then some (a - b) else none := by
  unfold subU64
  split <;> rfl

theorem roundTime_pos {time bucketSize : Nat} (hb : 0 < bucketSize) :
    roundTime time bucketSize = some (time / bucketSize * bucketSize) :=
  if_neg hb.ne'

theorem checkCurrentBucket_isSome_iff (hb : 0 < cfg.bucketSize) (hp : s.previous = none) :
    (s.checkCurrentBucket cfg.checked clock).isSome ↔ s.Follows cfg clock := by
  simp only [Stats.checkCurrentBucket, Setup.checked, roundTime_pos hb, subU64_checked,
    Option.bind_eq_bind, Option.bind_some, Stats.Follows]
  by_cases hlt : s.current.time < clock.epoch / cfg.bucketSize * cfg.bucketSize
  · rw [if_pos hlt]
    by_cases hle : cfg.bucketSize ≤ clock.epoch / cfg.bucketSize * cfg.bucketSize
    · simp only [if_pos hle, Option.bind_some, hp, Option.isNone_none, and_true]
      split
      · rename_i heq
        simp only [Option.isSome_some, true_iff]
        omega
      · rename_i hne
        simp only [Option.isSome_none, Bool.false_eq_true, false_iff]
        omega
    · simp only [if_neg hle, Option.bind_none, Option.isSome_none, Bool.false_eq_true, false_iff]
      omega
  · rw [if_neg hlt]
    simp only [Option.isSome_some, true_iff]
    omega

theorem closeOutBucket_none_isSome_iff (hb : 0 < cfg.bucketSize) :
    (s.closeOutBucket cfg.checked clock none).isSome ↔ cfg.bucketSize ≤ clock.epoch := by
  rw [← bucketSize_le_round_iff hb]
  simp only [Stats.closeOutBucket, Setup.checked, roundTime_pos hb, subU64_checked,
    Option.bind_eq_bind, Option.bind_some]
  split <;> simp_all [Stats.getPreviousBucket]

theorem closeOutBucket_some_isSome_iff (hb : 0 < cfg.bucketSize) (hp : s.previous = none)
    (r : Nat) : (s.closeOutBucket cfg.checked clock (some r)).isSome ↔
      cfg.bucketSize ≤ clock.epoch ∧ s.Follows cfg clock := by
  rw [← bucketSize_le_round_iff hb, ← checkCurrentBucket_isSome_iff hb hp]
  simp only [Stats.closeOutBucket, Stats.getPreviousBucket, hp, Option.isNone_some,
    Bool.false_eq_true, if_false]
  cases hcheck : s.checkCurrentBucket cfg.checked clock with
  | none => simp
  | some s' =>
    simp only [Setup.checked, roundTime_pos hb, subU64_checked, Option.bind_eq_bind,
      Option.bind_some, Option.map_some, Option.isSome_some, and_true]
    split <;> simp_all

theorem onNewBucket_isSome_iff (hb : 0 < cfg.bucketSize) (hp : c.stats.previous = none) :
    (c.onNewBucket cfg.checked clock).isSome ↔
      cfg.bucketSize ≤ clock.epoch ∧ c.Punctual cfg clock := by
  unfold Collector.onNewBucket Collector.Punctual
  cases c.testStartTime with
  | none => simpa using closeOutBucket_none_isSome_iff hb
  | some startTime =>
    have hclose (r : Nat) : (c.stats.closeOutBucket cfg.checked clock (some r)).isSome ↔
        cfg.bucketSize ≤ clock.epoch ∧ c.stats.Follows cfg clock :=
      closeOutBucket_some_isSome_iff hb hp r
    by_cases hle : (clock.instant - startTime) / nanos ≤ c.stats.duration
    · simp [Setup.checked, subU64_checked, hle] at hclose ⊢
      exact hclose _
    · simp [Setup.checked, subU64_checked, hle]

/-! ### Whole runs -/

/-- A running task has no bucket left over between two events. -/
def Life.Holds : Life → Prop
  | .running c => ∃ stats lost, Kept c.stats stats lost
  | _ => True

theorem kept_step {stats lost : List ResponseStat} {e : Clock × Event}
    (hk : Kept c.stats stats lost) (h : c.step cfg e = some c') :
    ∃ stats' lost', Kept c'.stats stats' lost' := by
  obtain ⟨clock, event⟩ := e
  cases event with
  | start duration =>
    cases h
    exact ⟨_, _, (kept_onStart hk duration).2⟩
  | responseStat stat =>
    cases h
    exact ⟨_, _, kept_append hk⟩
  | newBucket => exact ⟨_, _, (kept_onNewBucket hk h).2⟩

theorem step_isSome_iff {event : Event} (hb : 0 < cfg.bucketSize) (hp : c.stats.previous = none) :
    (c.step cfg.checked (clock, event)).isSome ↔
      (Life.running c).Punctual cfg (clock, some event) := by
  cases event with
  | newBucket => exact onNewBucket_isSome_iff hb hp
  | start duration => simp [Collector.step, Life.Punctual]
  | responseStat stat => simp [Collector.step, Life.Punctual]

theorem holds_next (hl : l.Holds) : (l.next cfg a).Holds := by
  obtain ⟨clock, event⟩ := a
  cases l with
  | panicked => exact trivial
  | ended s => exact trivial
  | running c =>
    obtain ⟨stats, lost, hk⟩ := hl
    cases event with
    | none =>
      simp only [Life.next]
      split <;> exact trivial
    | some event =>
      simp only [Life.next]
      split
      · rename_i c' hs
        exact kept_step hk hs
      · exact trivial

/-- A task that has not panicked panics exactly at what is not punctual. -/
theorem next_ne_panicked_iff (hb : 0 < cfg.bucketSize) (hl : l.Holds) (hne : l ≠ .panicked) :
    l.next cfg.checked a ≠ .panicked ↔ l.Punctual cfg a := by
  obtain ⟨clock, event⟩ := a
  cases l with
  | panicked => exact absurd rfl hne
  | ended s => simp [Life.next, Life.Punctual]
  | running c =>
    obtain ⟨stats, lost, hk⟩ := hl
    cases event with
    | none =>
      have hiff : (c.stats.closeOutBucket cfg.checked clock none).isSome ↔
          cfg.bucketSize ≤ clock.epoch := closeOutBucket_none_isSome_iff hb
      simp only [Life.next, Life.Punctual, ← hiff]
      split <;> rename_i hs <;> simp [hs]
    | some event =>
      rw [← step_isSome_iff hb hk.previous]
      simp only [Life.next]
      split <;> rename_i hs <;> simp [hs]

theorem run_panicked (h : Run (LifeStep cfg) .panicked events l) : l = .panicked := by
  refine h.invariant (fun l => l = .panicked) ?_ rfl
  intro l a l' hl hstep
  subst hl
  exact hstep

theorem guarded_of_survives (hb : 0 < cfg.bucketSize)
    (h : Run (LifeStep cfg.checked) l events l') (hl : l.Holds) (hne : l' ≠ .panicked) :
    Run (Guarded (Life.Punctual cfg) (LifeStep cfg.checked)) l events l' := by
  induction h with
  | refl => exact .refl _
  | stepL hst hrun ih =>
    subst hst
    rename_i l₁ l₂ a events
    have hmid : l₁.next cfg.checked a ≠ .panicked := by
      intro hpanic
      rw [hpanic] at hrun
      exact hne (run_panicked hrun)
    have hfirst : l₁ ≠ .panicked := by
      intro hpanic
      subst hpanic
      exact hmid rfl
    exact .stepL ⟨(next_ne_panicked_iff hb hl hfirst).mp hmid, rfl⟩ (ih (holds_next hl) hne)

/-- A run fails no assertion and lets no subtraction underflow exactly when all its steps are
punctual. -/
theorem survives_iff_punctual (hcreate : Stats.new cfg created = some s)
    (h : Run (LifeStep cfg.checked) (.running ⟨s, none⟩) events l) :
    l ≠ .panicked ↔
      Run (Guarded (Life.Punctual cfg) (LifeStep cfg.checked)) (.running ⟨s, none⟩) events l := by
  have hb : 0 < cfg.bucketSize := by
    by_contra hzero
    obtain ⟨time, htime, -⟩ := Option.map_eq_some_iff.mp hcreate
    simp [roundTime, Nat.eq_zero_of_not_pos hzero] at htime
  have hstart : (Life.running ⟨s, none⟩).Holds := ⟨[], [], kept_new hcreate⟩
  constructor
  · exact guarded_of_survives hb h hstart
  · intro hrun
    refine (hrun.invariant (fun l => l.Holds ∧ l ≠ .panicked) ?_ ⟨hstart, by simp⟩).2
    rintro l₁ a l₂ ⟨hl, hne⟩ ⟨hpunctual, rfl⟩
    exact ⟨holds_next hl, (next_ne_panicked_iff hb hl hne).mpr hpunctual⟩

/-- Two ticks a bucket apart, the second at the end of the duration. -/
def punctualRun : List Arrival :=
  [(⟨600, 0⟩, some (.start (120 * nanos))), (⟨660, 60 * nanos⟩, some .newBucket),
   (⟨661, 61 * nanos⟩, some (.responseStat okStat)), (⟨720, 120 * nanos⟩, some .newBucket),
   (⟨720, 120 * nanos⟩, none)]

theorem survives_punctualRun : ∃ s l, Stats.new minuteBuckets ⟨600, 0⟩ = some s ∧
    Run (LifeStep minuteBuckets.checked) (.running ⟨s, none⟩) punctualRun l ∧ l ≠ .panicked := by
  obtain ⟨s, hs⟩ : ∃ s, Stats.new minuteBuckets ⟨600, 0⟩ = some s := ⟨_, rfl⟩
  have hexec : (exec (fun (l : Life) a => if l.Punctual minuteBuckets a then
      some (l.next minuteBuckets.checked a) else none) (.running ⟨s, none⟩) punctualRun).map
      (fun _ => true) = some true := by
    cases hs
    decide +kernel
  obtain ⟨l, hrun, -⟩ := guarded_run_of_exec (Life.Punctual minuteBuckets)
    (fun l a => some (l.next minuteBuckets.checked a)) (.running ⟨s, none⟩) punctualRun _ hexec
  have hguarded : Run (Guarded (Life.Punctual minuteBuckets) (LifeStep minuteBuckets.checked))
      (.running ⟨s, none⟩) punctualRun l :=
    hrun.mono fun _ _ _ h => ⟨h.1, (Option.some.inj h.2).symm⟩
  have hrun' := hguarded.mono fun _ _ _ h => h.2
  exact ⟨s, l, hs, hrun', (survives_iff_punctual hs hrun').mpr hguarded⟩

def Life.isPanicked : Life → Bool
  | .panicked => true
  | _ => false

/-- The process is suspended for a bucket. -/
def suspendedRun : List Arrival :=
  [(⟨600, 0⟩, some (.start (600 * nanos))), (⟨780, 180 * nanos⟩, some .newBucket)]

theorem not_toleratesClocks : ¬ ToleratesClocks minuteBuckets := by
  intro hall
  obtain ⟨s, hs⟩ : ∃ s, Stats.new minuteBuckets ⟨600, 0⟩ = some s := ⟨_, rfl⟩
  have hexec : (exec (fun (l : Life) a => some (l.next minuteBuckets.checked a))
      (.running ⟨s, none⟩) suspendedRun).map Life.isPanicked = some true := by
    cases hs
    decide +kernel
  obtain ⟨l, hrun, hl⟩ := run_of_exec_map
    (fun (l : Life) a => some (l.next minuteBuckets.checked a)) (.running ⟨s, none⟩) suspendedRun
    Life.isPanicked hexec
  refine hall ⟨600, 0⟩ s suspendedRun l hs (by decide) ?_ ?_
  · exact hrun.mono fun _ _ _ h => (Option.some.inj h).symm
  · cases l with
    | panicked => rfl
    | running c => cases hl
    | ended s => cases hl

/-! ### The build that wraps around -/

theorem subU64_unchecked {o : Bool} {x y z : Nat} (h : subU64 true x y = some z) :
    subU64 o x y = some z := by
  rw [subU64_checked] at h
  split at h
  · rename_i hle
    rw [subU64, if_pos hle]
    exact h
  · cases h

theorem checkCurrentBucket_unchecked (h : s.checkCurrentBucket cfg.checked clock = some s') :
    s.checkCurrentBucket cfg clock = some s' := by
  simp only [Stats.checkCurrentBucket, Setup.checked, Option.bind_eq_bind] at h ⊢
  obtain ⟨time, htime, h⟩ := Option.bind_eq_some_iff.mp h
  rw [htime, Option.bind_some]
  split
  · rename_i hlt
    rw [if_pos hlt] at h
    obtain ⟨previous, hsub, h⟩ := Option.bind_eq_some_iff.mp h
    rw [subU64_unchecked hsub]
    exact h
  · rename_i hlt
    rwa [if_neg hlt] at h

theorem getPreviousBucket_unchecked {complete : Bool} {b : Option TimeBucket × Stats}
    (h : s.getPreviousBucket cfg.checked clock complete = some b) :
    s.getPreviousBucket cfg clock complete = some b := by
  unfold Stats.getPreviousBucket at h ⊢
  split
  · rename_i hcomplete
    rwa [if_pos hcomplete] at h
  · rename_i hcomplete
    rw [if_neg hcomplete] at h
    split
    · rename_i bucket hprevious
      rwa [hprevious] at h
    · rename_i hprevious
      rw [hprevious] at h
      obtain ⟨s₁, hcheck, rfl⟩ := Option.map_eq_some_iff.mp h
      rw [checkCurrentBucket_unchecked hcheck]
      rfl

theorem closeOutBucket_unchecked {remaining : Option Nat}
    (h : s.closeOutBucket cfg.checked clock remaining = some s') :
    s.closeOutBucket cfg clock remaining = some s' := by
  simp only [Stats.closeOutBucket, Option.bind_eq_bind] at h ⊢
  obtain ⟨rounded, hround, h⟩ := Option.bind_eq_some_iff.mp h
  obtain ⟨time, hsub, h⟩ := Option.bind_eq_some_iff.mp h
  obtain ⟨b, hget, h⟩ := Option.bind_eq_some_iff.mp h
  have hround' : roundTime clock.epoch cfg.bucketSize = some rounded := hround
  have hsub' : subU64 cfg.overflowChecks rounded cfg.bucketSize = some time := subU64_unchecked hsub
  rw [hround', Option.bind_some, hsub', Option.bind_some, getPreviousBucket_unchecked hget]
  exact h

theorem onNewBucket_unchecked (h : c.onNewBucket cfg.checked clock = some c') :
    c.onNewBucket cfg clock = some c' := by
  unfold Collector.onNewBucket at h ⊢
  cases hstart : c.testStartTime with
  | none =>
    simp only [hstart, Option.bind_eq_bind, Option.bind_some] at h ⊢
    obtain ⟨stats, hclose, rfl⟩ := Option.map_eq_some_iff.mp h
    rw [closeOutBucket_unchecked hclose]
    rfl
  | some startTime =>
    simp only [hstart, Option.bind_eq_bind] at h ⊢
    obtain ⟨remaining, hsub, h⟩ := Option.bind_eq_some_iff.mp h
    obtain ⟨r, hr, rfl⟩ := Option.map_eq_some_iff.mp hsub
    obtain ⟨stats, hclose, rfl⟩ := Option.map_eq_some_iff.mp h
    rw [subU64_unchecked hr, Option.map_some, Option.bind_some, closeOutBucket_unchecked hclose]
    rfl

theorem step_unchecked {e : Clock × Event} (h : c.step cfg.checked e = some c') :
    c.step cfg e = some c' := by
  obtain ⟨clock, event⟩ := e
  cases event with
  | newBucket => exact onNewBucket_unchecked h
  | start duration => exact h
  | responseStat stat => exact h

theorem next_unchecked (h : l.next cfg.checked a ≠ .panicked) :
    l.next cfg a = l.next cfg.checked a := by
  obtain ⟨clock, event⟩ := a
  cases l with
  | panicked => rfl
  | ended s => rfl
  | running c =>
    cases event with
    | none =>
      simp only [Life.next] at h ⊢
      cases hclose : c.stats.closeOutBucket cfg.checked clock none with
      | none => simp [hclose] at h
      | some s => rw [closeOutBucket_unchecked hclose]
    | some event =>
      simp only [Life.next] at h ⊢
      cases hstep : c.step cfg.checked (clock, event) with
      | none => simp [hstep] at h
      | some c' => rw [step_unchecked hstep]

/-- Every build takes the run that the checked one takes without a panic. -/
theorem run_unchecked (h : Run (LifeStep cfg.checked) l events l') (hne : l' ≠ .panicked) :
    Run (LifeStep cfg) l events l' := by
  induction h with
  | refl => exact .refl _
  | stepL hst hrun ih =>
    subst hst
    refine .stepL (next_unchecked ?_).symm (ih hne)
    intro hpanic
    rw [hpanic] at hrun
    exact hne (run_panicked hrun)

end Pewpew.StatsCollector
