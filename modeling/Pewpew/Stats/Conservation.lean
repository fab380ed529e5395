import Pewpew.Stats.Model
import Mathlib.Data.List.Basic
import Mathlib.Data.List.Range

/-! Every stat reaches one written bucket and the totals of the test. -/
namespace Pewpew.StatsCollector

open Std Accumulate

variable {cfg : Setup} {clock created ended : Clock} {s s' : Stats} {c c' : Collector}
  {stat : ResponseStat} {stats lost : List ResponseStat} {events : List (Clock × Event)}

/-- The time buckets in the results file. -/
def Stats.written (s : Stats) : List TimeBucket :=
  s.file.filterMap fun
    | .buckets b => some b
    | _ => none

def Stats.index (s : Stats) (tags : Tags) : Nat := (s.tags.lookup tags).getD 0

/-- The stats of a list of events. -/
def received (events : List (Clock × Event)) : List ResponseStat :=
  events.filterMap fun
    | (_, .responseStat stat) => some stat
    | _ => none

/-- Each stat is in one written bucket and once in the totals, and the totals are the
combination of the written buckets and the bucket to which all stats are appended, also for
each tag group by itself. -/
structure Conserved (s : Stats) (stats : List ResponseStat) : Prop where
  written : s.written.flatMap (·.appended) = stats
  totals : ∃ totals, s.summaries.getLast? = some totals ∧ totals.appended = stats ∧
    totals.entries = (s.written.foldl TimeBucket.combine (.new 0)).entries ∧
    totals.entries = entriesOf s.index stats ∧
    ∀ stat ∈ stats, totals.entries[s.index stat.tags]? = some (groupOf stat.tags stats)

/-- Every run without a panic conserves the stats. -/
def ConservesStats (cfg : Setup) : Prop :=
  ∀ created events ended s,
    (created :: events.map (·.1) ++ [ended]).Pairwise
      (fun a b => a.epoch ≤ b.epoch ∧ a.instant ≤ b.instant) →
    collect cfg created events ended = some s → Conserved s (received events)

/-- No bucket timer tick comes between a stat and the first `Start`. `seen` tells whether a stat
has come before. -/
def NoEarlyTick : (seen : Bool) → List Event → Prop
  | _, [] => True
  | _, .start _ :: _ => True
  | _, .responseStat _ :: es => NoEarlyTick true es
  | seen, .newBucket :: es => seen = false ∧ NoEarlyTick seen es

/-! ### What closing a bucket does -/

/-- The current bucket is written and a new one begins. -/
def Stats.rotate (s : Stats) (time : Nat) : Stats :=
  { s with totals := s.totals.combine s.current, current := .new time,
           file := s.file ++ [.buckets s.current] }

/-- The current bucket is written, and the totals are printed and wiped. -/
def Stats.complete (s : Stats) : Stats :=
  { s with totals := .new 0, current := .new 0, file := s.file ++ [.buckets s.current],
           summaries := s.summaries ++ [s.totals.combine s.current] }

theorem closeOutBucket_none (h : s.closeOutBucket cfg clock none = some s') : s' = s.complete := by
  simp only [Stats.closeOutBucket, Option.bind_eq_bind, Option.bind_eq_some_iff] at h
  obtain ⟨rounded, -, time, -, ⟨bucket, s₁⟩, hget, h⟩ := h
  simp only [Stats.getPreviousBucket, Option.isNone_none, if_true, Option.some.injEq,
    Prod.mk.injEq] at hget h
  obtain ⟨rfl, rfl⟩ := hget
  exact h.symm

theorem closeOutBucket_some {r : Nat} (hp : s.previous = none)
    (h : s.closeOutBucket cfg clock (some r) = some s') : s' = s ∨ ∃ time, s' = s.rotate time := by
  simp only [Stats.closeOutBucket, Option.bind_eq_bind, Option.bind_eq_some_iff] at h
  obtain ⟨rounded, -, time, -, ⟨bucket, s₁⟩, hget, h⟩ := h
  simp only [Stats.getPreviousBucket, Option.isNone_some, Bool.false_eq_true, if_false, hp,
    Option.map_eq_some_iff, Prod.mk.injEq] at hget
  obtain ⟨s₂, hcheck, rfl, rfl⟩ := hget
  simp only [Option.isNone_some, Bool.false_eq_true, if_false, Option.some.injEq] at h
  subst h
  simp only [Stats.checkCurrentBucket, Option.bind_eq_bind, Option.bind_eq_some_iff] at hcheck
  obtain ⟨t, -, hcheck⟩ := hcheck
  split at hcheck
  · obtain ⟨u, -, hcheck⟩ := Option.bind_eq_some_iff.mp hcheck
    split at hcheck
    · cases hcheck
      exact .inr ⟨t, by simp [Stats.rotate, hp]⟩
    · cases hcheck
  · cases hcheck
    exact .inl (by cases s; simp_all)

@[simp] theorem written_rotate (s : Stats) (time : Nat) :
    (s.rotate time).written = s.written ++ [s.current] := by
  simp [Stats.rotate, Stats.written]

@[simp] theorem written_complete (s : Stats) : s.complete.written = s.written ++ [s.current] := by
  simp [Stats.complete, Stats.written]

/-! ### The invariant -/

/-- The entries of a bucket are those of its stats. -/
def Valued (index : Tags → Nat) (b : TimeBucket) : Prop := b.entries = entriesOf index b.appended

theorem valued_new (index : Tags → Nat) (time : Nat) : Valued index (.new time) := rfl

theorem valued_combine {index : Tags → Nat} {b₁ b₂ : TimeBucket} (h₁ : Valued index b₁)
    (h₂ : Valued index b₂) : Valued index (b₁.combine b₂) := by
  rw [Valued, TimeBucket.combine, h₁, h₂]
  exact entriesOf_append.symm

theorem valued_append {index : Tags → Nat} {b : TimeBucket} (h : Valued index b) :
    Valued index (b.append stat (index stat.tags)) := by
  have hone : entriesOf index [stat] =
      bump BucketGroupStats.combine ∅ (index stat.tags) (BucketGroupStats.default.append stat) :=
    TimeBucket.append_entries _ _
  rw [Valued, TimeBucket.append_entries, h, bump_eq_merge, ← hone]
  exact entriesOf_append.symm

theorem valued_congr {index index' : Tags → Nat} {b : TimeBucket} (h : Valued index b)
    (hi : ∀ stat ∈ b.appended, index' stat.tags = index stat.tags) : Valued index' b := by
  rw [Valued, h, entriesOf, entriesOf]
  congr 1
  exact List.foldl_ext _ _ _ fun b stat hm => by rw [hi stat hm]

theorem foldl_combine {index : Tags → Nat} {bs : List TimeBucket} {b : TimeBucket}
    (hb : Valued index b) (hbs : ∀ b ∈ bs, Valued index b) :
    (bs.foldl TimeBucket.combine b).entries =
      entriesOf index (b.appended ++ bs.flatMap (·.appended)) := by
  induction bs generalizing b with
  | nil => rwa [List.flatMap_nil, List.append_nil]
  | cons b' bs ih =>
    obtain ⟨hb', hbs⟩ := List.forall_mem_cons.mp hbs
    rw [List.foldl_cons, ih (valued_combine hb hb') hbs, List.flatMap_cons, ← List.append_assoc]
    rfl

/-- What the collector holds after the given stats, the first of which are missing from the
totals. -/
structure Kept (s : Stats) (stats lost : List ResponseStat) : Prop where
  previous : s.previous = none
  written : s.written.flatMap (·.appended) ++ s.current.appended = stats
  totals : lost ++ s.totals.appended = s.written.flatMap (·.appended)
  tagged : ∀ stat ∈ stats, (s.tags.lookup stat.tags).isSome
  indices : s.tags.map (·.2) = List.range s.tags.length
  current_valued : Valued s.index s.current
  totals_valued : Valued s.index s.totals
  written_valued : ∀ b ∈ s.written, Valued s.index b

theorem Kept.lost_prefix (hk : Kept s stats lost) : lost <+: stats :=
  ⟨s.totals.appended ++ s.current.appended, by rw [← List.append_assoc, hk.totals, hk.written]⟩

theorem kept_rotate (hk : Kept s stats lost) (time : Nat) :
    Kept (s.rotate time) stats lost where
  previous := hk.previous
  written := by
    rw [written_rotate, List.flatMap_append, List.flatMap_singleton, hk.written]
    exact List.append_nil _
  totals := by
    rw [written_rotate, List.flatMap_append, ← hk.totals]
    simp [Stats.rotate, TimeBucket.combine]
  tagged := hk.tagged
  indices := hk.indices
  current_valued := valued_new _ _
  totals_valued := valued_combine hk.totals_valued hk.current_valued
  written_valued := by
    rw [written_rotate]
    exact List.forall_mem_append.mpr
      ⟨hk.written_valued, List.forall_mem_singleton.mpr hk.current_valued⟩

/-- Closing as if the test were complete loses the stats so far. -/
theorem kept_complete (hk : Kept s stats lost) : Kept s.complete stats stats where
  previous := hk.previous
  written := by
    rw [written_complete, List.flatMap_append, List.flatMap_singleton, hk.written]
    exact List.append_nil _
  totals := by
    rw [written_complete, List.flatMap_append, ← hk.written]
    simp [Stats.complete, TimeBucket.new]
  tagged := hk.tagged
  indices := hk.indices
  current_valued := valued_new _ _
  totals_valued := valued_new _ _
  written_valued := by
    rw [written_complete]
    exact List.forall_mem_append.mpr
      ⟨hk.written_valued, List.forall_mem_singleton.mpr hk.current_valued⟩

/-- What appending a stat changes: the current bucket, and the index of a new tag group. -/
structure Appends (s : Stats) (stat : ResponseStat) (s' : Stats) : Prop where
  current : s'.current = s.current.append stat (s'.index stat.tags)
  totals : s'.totals = s.totals
  previous : s'.previous = s.previous
  written : s'.written = s.written
  tagged : (s'.tags.lookup stat.tags).isSome
  lookup : ∀ tags, (s.tags.lookup tags).isSome → s'.tags.lookup tags = s.tags.lookup tags
  indices : s.tags.map (·.2) = List.range s.tags.length →
    s'.tags.map (·.2) = List.range s'.tags.length

theorem append_spec (s : Stats) (stat : ResponseStat) : Appends s stat (s.append stat) := by
  unfold Stats.append
  cases hl : s.tags.lookup stat.tags with
  | some index =>
    exact ⟨by simp [Stats.index, hl], rfl, rfl, rfl, by simp [hl], fun _ _ => rfl, id⟩
  | none =>
    have hself : (s.tags ++ [(stat.tags, s.tags.length)]).lookup stat.tags =
        some s.tags.length := by simp [List.lookup_append, hl]
    refine ⟨by simp [Stats.index, hself], rfl, rfl, by simp [Stats.written], by simp [hself],
      fun tags h => ?_, fun h => ?_⟩
    · rw [List.lookup_append, Option.or_of_isSome h]
    · simp [h, List.range_succ]

theorem kept_append (hk : Kept s stats lost) : Kept (s.append stat) (stats ++ [stat]) lost := by
  have ha := append_spec s stat
  have hindex : ∀ st ∈ stats, (s.append stat).index st.tags = s.index st.tags := fun st hst => by
    rw [Stats.index, ha.lookup _ (hk.tagged st hst), Stats.index]
  have hcurrent : Valued (s.append stat).index s.current := by
    refine valued_congr hk.current_valued fun st hst => hindex st ?_
    rw [← hk.written]
    exact List.mem_append_right _ hst
  refine ⟨ha.previous.trans hk.previous, ?_, ?_, ?_, ha.indices hk.indices, ?_, ?_, ?_⟩
  · rw [ha.written, ha.current, ← hk.written]
    exact (List.append_assoc _ _ _).symm
  · rw [ha.totals, ha.written, hk.totals]
  · refine List.forall_mem_append.mpr ⟨fun st hst => ?_, List.forall_mem_singleton.mpr ha.tagged⟩
    rw [ha.lookup _ (hk.tagged st hst)]
    exact hk.tagged st hst
  · rw [ha.current]
    exact valued_append hcurrent
  · rw [ha.totals]
    refine valued_congr hk.totals_valued fun st hst => hindex st ?_
    rw [← hk.written, ← hk.totals]
    exact List.mem_append_left _ (List.mem_append_right _ hst)
  · rw [ha.written]
    refine fun b hb => valued_congr (hk.written_valued b hb) fun st hst => hindex st ?_
    rw [← hk.written]
    exact List.mem_append_left _ (List.mem_flatMap.mpr ⟨b, hb, hst⟩)

/-! ### Whole runs -/

theorem kept_onStart (hk : Kept c.stats stats lost) (duration : Nat) :
    (c.onStart cfg clock duration).testStartTime.isSome ∧
      Kept (c.onStart cfg clock duration).stats stats lost := by
  unfold Collector.onStart
  cases hs : c.testStartTime with
  | some startTime =>
    simp only
    split
    · exact ⟨by simp [hs], hk⟩
    · exact ⟨rfl, { hk with }⟩
  | none =>
    refine ⟨rfl, { hk with written := ?_, totals := ?_, written_valued := ?_ }⟩
    · simpa [Stats.written] using hk.written
    · simpa [Stats.written] using hk.totals
    · exact fun b hb => hk.written_valued b (by simpa [Stats.written] using hb)

/-- A tick loses what came before it exactly when the test has not started. -/
theorem kept_onNewBucket (hk : Kept c.stats stats lost)
    (h : c.onNewBucket cfg clock = some c') : c'.testStartTime = c.testStartTime ∧
      Kept c'.stats stats (if c.testStartTime.isSome then lost else stats) := by
  unfold Collector.onNewBucket at h
  cases hs : c.testStartTime with
  | none =>
    simp only [hs, Option.bind_eq_bind, Option.bind_some, Option.map_eq_some_iff] at h
    obtain ⟨stats', hclose, rfl⟩ := h
    rw [closeOutBucket_none hclose]
    exact ⟨rfl, kept_complete hk⟩
  | some startTime =>
    simp only [hs, Option.bind_eq_bind, Option.bind_eq_some_iff, Option.map_eq_some_iff] at h
    obtain ⟨remaining, ⟨r, -, rfl⟩, stats', hclose, rfl⟩ := h
    refine ⟨rfl, ?_⟩
    rcases closeOutBucket_some hk.previous hclose with rfl | ⟨time, rfl⟩
    · exact hk
    · exact kept_rotate hk time

/-- A run keeps the invariant, and loses nothing exactly when no tick comes early. -/
theorem receive_kept (hk : Kept c.stats stats lost) (h : c.receive cfg events = some c') :
    ∃ lost', Kept c'.stats (stats ++ received events) lost' ∧
      (lost' = [] ↔ lost = [] ∧
        (c.testStartTime.isSome ∨ NoEarlyTick (!stats.isEmpty) (events.map (·.2)))) := by
  induction events generalizing c stats lost with
  | nil =>
    cases h
    exact ⟨lost, by simpa [received] using hk, by simp [NoEarlyTick]⟩
  | cons e es ih =>
    obtain ⟨c₁, hstep, hrun⟩ := Option.bind_eq_some_iff.mp h
    obtain ⟨clock, event⟩ := e
    cases event with
    | start duration =>
      cases hstep
      obtain ⟨hs, hkept⟩ : (c.onStart cfg clock duration).testStartTime.isSome ∧
          Kept (c.onStart cfg clock duration).stats stats lost := kept_onStart hk duration
      obtain ⟨lost', hk', hiff⟩ := ih hkept hrun
      exact ⟨lost', hk', by simpa [hs, NoEarlyTick] using hiff⟩
    | responseStat stat =>
      cases hstep
      obtain ⟨lost', hk', hiff⟩ := ih (c := { c with stats := _ }) (kept_append hk) hrun
      refine ⟨lost', ?_, ?_⟩
      · simpa [received] using hk'
      · rw [show (!(stats ++ [stat]).isEmpty) = true by simp] at hiff
        exact hiff
    | newBucket =>
      obtain ⟨hs, hk₁⟩ := kept_onNewBucket hk hstep
      obtain ⟨lost', hk', hiff⟩ := ih hk₁ hrun
      refine ⟨lost', hk', ?_⟩
      rw [hs] at hiff
      cases hstart : c.testStartTime with
      | some startTime => simpa [hstart] using hiff
      | none =>
        -- the stats so far are lost, unless there are none
        rw [hiff]
        cases stats with
        | nil => simp [hstart, NoEarlyTick, List.prefix_nil.mp hk.lost_prefix]
        | cons stat stats => simp [hstart, NoEarlyTick]

theorem kept_new (h : Stats.new cfg clock = some s) : Kept s [] [] := by
  obtain ⟨time, -, rfl⟩ := Option.map_eq_some_iff.mp h
  exact ⟨rfl, rfl, rfl, by simp, rfl, rfl, rfl, by simp [Stats.written]⟩

/-- Distinct tag groups have distinct indices. -/
theorem Kept.index_inj (hk : Kept s stats lost) {st st' : ResponseStat} (hst : st ∈ stats)
    (hst' : st' ∈ stats) (h : s.index st.tags = s.index st'.tags) : st.tags = st'.tags := by
  have hmem : ∀ st ∈ stats, (st.tags, s.index st.tags) ∈ s.tags := fun st hst => by
    obtain ⟨i, hi⟩ := Option.isSome_iff_exists.mp (hk.tagged st hst)
    obtain ⟨l₁, l₂, heq, -⟩ := List.lookup_eq_some_iff.mp hi
    rw [Stats.index, hi, heq]
    simp
  have hnodup : (s.tags.map (·.2)).Nodup := hk.indices ▸ List.nodup_range
  exact congrArg Prod.fst (List.inj_on_of_nodup_map hnodup (hmem st hst) (hmem st' hst') h)

/-- The end of the test prints totals that lack exactly what was lost before. -/
theorem conserved_complete (hk : Kept s stats lost) : Conserved s.complete stats ↔ lost = [] := by
  have hcomplete := kept_complete hk
  have hlast : s.complete.summaries.getLast? = some (s.totals.combine s.current) := by
    simp [Stats.complete]
  have hsplit : lost ++ (s.totals.combine s.current).appended = stats := by
    rw [← hk.written, ← hk.totals, List.append_assoc]
    rfl
  have hwritten : s.complete.written.flatMap (·.appended) = stats := by
    simpa [Stats.complete, TimeBucket.new] using hcomplete.written
  constructor
  · rintro ⟨-, totals, htotals, happended, -⟩
    rw [hlast, Option.some.injEq] at htotals
    rw [← htotals] at happended
    rw [happended] at hsplit
    exact List.self_eq_append_left.mp hsplit.symm
  · rintro rfl
    have hvalued : (s.totals.combine s.current).entries = entriesOf s.index stats := by
      rw [← hsplit]
      exact valued_combine hk.totals_valued hk.current_valued
    refine ⟨hwritten, _, hlast, hsplit, ?_, hvalued, fun st hst => ?_⟩
    · rw [foldl_combine (valued_new _ _) hcomplete.written_valued, hwritten, hvalued]
      rfl
    · rw [hvalued]
      exact entriesOf_getElem? (fun st' hst' h => hk.index_inj hst' hst h) ⟨st, hst, rfl⟩

/-- The stats of a run without a panic are conserved exactly when no tick comes between a stat
and the first `Start`. -/
theorem conserved_iff (h : collect cfg created events ended = some s) :
    Conserved s (received events) ↔ NoEarlyTick false (events.map (·.2)) := by
  simp only [collect, Option.bind_eq_bind, Option.bind_eq_some_iff] at h
  obtain ⟨s₀, hnew, c, hrun, hclose⟩ := h
  obtain ⟨lost, hk, hiff⟩ := receive_kept (c := ⟨s₀, none⟩) (kept_new hnew) hrun
  rw [List.nil_append] at hk
  rw [closeOutBucket_none hclose, conserved_complete hk, hiff]
  simp

def minuteBuckets : Setup := ⟨60, "load", "0.5.9", true⟩

def okStat : ResponseStat := ⟨.response 200, some 1500, [("method", "GET"), ("url", "/")]⟩

/-- The test starts, two stats arrive with a tick between them, and the test ends. -/
def startedRun : List (Clock × Event) :=
  [(⟨600, 0⟩, .start (600 * nanos)), (⟨601, nanos⟩, .responseStat okStat),
   (⟨660, 60 * nanos⟩, .newBucket), (⟨661, 61 * nanos⟩, .responseStat okStat)]

theorem conserved_startedRun : ∃ s, collect minuteBuckets ⟨600, 0⟩ startedRun ⟨670, 70 * nanos⟩ =
    some s ∧ Conserved s [okStat, okStat] := by
  obtain ⟨s, hs⟩ := Option.isSome_iff_exists.mp
    (show (collect minuteBuckets ⟨600, 0⟩ startedRun ⟨670, 70 * nanos⟩).isSome by decide +kernel)
  exact ⟨s, hs, (conserved_iff hs).mpr (by simp [startedRun, NoEarlyTick])⟩

/-- A tick comes after a stat and before the test has started. -/
def earlyTickRun : List (Clock × Event) :=
  [(⟨600, 0⟩, .responseStat okStat), (⟨660, 60 * nanos⟩, .newBucket)]

theorem not_conservesStats : ¬ ConservesStats minuteBuckets := by
  intro hall
  obtain ⟨s, hs, hlast⟩ := Option.map_eq_some_iff.mp
    (show (collect minuteBuckets ⟨600, 0⟩ earlyTickRun ⟨661, 61 * nanos⟩).map
      (fun s => s.summaries.getLast?.map (·.appended)) = some (some []) by decide +kernel)
  obtain ⟨totals, htotals, happended, -⟩ :=
    (hall ⟨600, 0⟩ earlyTickRun ⟨661, 61 * nanos⟩ s (by decide) hs).totals
  rw [htotals] at hlast
  simp [happended, received, earlyTickRun] at hlast

end Pewpew.StatsCollector
