import Pewpew.Viewer.Merged
import Pewpew.Viewer.Recorded
import Mathlib.Algebra.BigOperators.Fin

/-! What the viewer shows of all endpoints together is what the load test has received. -/
namespace Pewpew.Viewer

open Std Accumulate StatsCollector

/-- Something that adds up: over the stats of a group, and, as far as a sum is fine, over the data
points that the viewer merges. -/
structure Measure (M : Type) [AddCommMonoid M] where
  ofStat : ResponseStat → M
  ofGroup : BucketGroupStats → M
  ofPoint : DataPoint → M
  fine : M → Prop
  fine_of_add : ∀ a b, fine (a + b) → fine a
  group_default : ofGroup .default = 0
  group_append : ∀ b stat, ofGroup (b.append stat) = ofGroup b + ofStat stat
  shows : ∀ p t b, DataPoint.Shows p t b → ofPoint p = ofGroup b ∧ Adds ofPoint fine p

variable {M : Type} [AddCommMonoid M] {α : Type} {cfg : Setup} {clock created ended : Clock}
  {s : Stats} {stats : List ResponseStat} {ms : List FileMessage} {index : Tags → Nat} {n : Nat}

/-- The buckets among the messages. -/
def bucketsOf (ms : List FileMessage) : List TimeBucket :=
  ms.filterMap fun
    | .buckets b => some b
    | _ => none

/-! ### Sums over the tag groups -/

theorem sum_eq_range (l : List α) (g : α → M) :
    (l.map g).sum = ∑ i ∈ Finset.range l.length, l[i]?.elim 0 g := by
  induction l with
  | nil => rfl
  | cons a l ih =>
    rw [List.map_cons, List.sum_cons, List.length_cons, Finset.sum_range_succ', ih, add_comm]
    rfl

/-- What is sorted by an index comes to the same. -/
theorem sum_fibers (l : List α) (key : α → Nat) (g : α → M) (h : ∀ a ∈ l, key a < n) :
    ∑ i ∈ Finset.range n, ((l.filter (key · = i)).map g).sum = (l.map g).sum := by
  induction l with
  | nil => simp
  | cons a l ih =>
    obtain ⟨ha, hl⟩ := List.forall_mem_cons.mp h
    have hsplit : ∀ i, (((a :: l).filter (key · = i)).map g).sum =
        (if key a = i then g a else 0) + ((l.filter (key · = i)).map g).sum := by
      intro i
      by_cases hi : key a = i <;> simp [hi]
    simp only [hsplit]
    rw [Finset.sum_add_distrib, ih hl, Finset.sum_ite_eq, if_pos (Finset.mem_range.mpr ha),
      List.map_cons, List.sum_cons]

namespace Measure

variable (μ : Measure M)

/-- What an entry that may be absent comes to. -/
def ofEntry (e : Option BucketGroupStats) : M := e.elim 0 μ.ofGroup

theorem ofEntry_foldl (l : List ResponseStat) (e : Option BucketGroupStats) :
    μ.ofEntry (l.foldl (fun e stat => some ((e.getD .default).append stat)) e) =
      μ.ofEntry e + (l.map μ.ofStat).sum := by
  induction l generalizing e with
  | nil => simp
  | cons stat l ih =>
    have hone : μ.ofEntry (some ((e.getD .default).append stat)) = μ.ofEntry e + μ.ofStat stat := by
      cases e with
      | none => exact (μ.group_append _ _).trans (congrArg (· + _) μ.group_default)
      | some b => exact μ.group_append b stat
    rw [List.foldl_cons, ih, hone, List.map_cons, List.sum_cons, add_assoc]

/-- The entries of a bucket come to what its stats come to. -/
theorem sum_entries {b : TimeBucket} (hb : Valued index b)
    (hindex : ∀ stat ∈ b.appended, index stat.tags < n) :
    ∑ i ∈ Finset.range n, μ.ofEntry b.entries[i]? = (b.appended.map μ.ofStat).sum := by
  have hentry : ∀ i, μ.ofEntry b.entries[i]? =
      ((b.appended.filter fun stat => index stat.tags = i).map μ.ofStat).sum := by
    intro i
    rw [hb, entriesOf, foldl_append_getElem?, ofEntry_foldl]
    simp [TimeBucket.new, ofEntry]
  simp only [hentry]
  exact sum_fibers b.appended (fun stat : ResponseStat => index stat.tags) _ hindex

/-- What a bucket of the given time comes to. -/
def atBucket (time : Nat) (g : TimeBucket → M) (b : TimeBucket) : M :=
  if b.time = time then g b else 0

theorem sum_atBucket (time : Nat) (bs : List TimeBucket) :
    (bs.map (atBucket time fun b => (b.appended.map μ.ofStat).sum)).sum =
      (((bs.filter (·.time = time)).flatMap (·.appended)).map μ.ofStat).sum := by
  induction bs with
  | nil => rfl
  | cons b bs ih =>
    rw [List.map_cons, List.sum_cons, ih, atBucket]
    by_cases hb : b.time = time <;> simp [hb]

/-- The entries of all buckets of a time come to what the stats in these buckets come to. -/
theorem sum_buckets (time : Nat) {bs : List TimeBucket} (hvalued : ∀ b ∈ bs, Valued index b)
    (hindex : ∀ b ∈ bs, ∀ stat ∈ b.appended, index stat.tags < n) :
    ∑ i ∈ Finset.range n, (bs.map (atBucket time fun b => μ.ofEntry b.entries[i]?)).sum =
      (((bs.filter (·.time = time)).flatMap (·.appended)).map μ.ofStat).sum := by
  rw [← sum_atBucket]
  induction bs with
  | nil => simp
  | cons b bs ih =>
    obtain ⟨hb, hvalued⟩ := List.forall_mem_cons.mp hvalued
    obtain ⟨hi, hindex⟩ := List.forall_mem_cons.mp hindex
    have hone : ∑ i ∈ Finset.range n, atBucket time (fun b => μ.ofEntry b.entries[i]?) b =
        atBucket time (fun b => (b.appended.map μ.ofStat).sum) b := by
      unfold atBucket
      split
      · exact μ.sum_entries hb hi
      · exact Finset.sum_const_zero
    simp only [List.map_cons, List.sum_cons]
    rw [Finset.sum_add_distrib, ih hvalued hindex, hone]

/-! ### Sums over the data points -/

theorem sum_shows (time : Nat) {points : List DataPoint} {es : List (Nat × BucketGroupStats)}
    (h : List.Forall₂ (fun (p : DataPoint) e => p.Shows e.1 e.2) points es) :
    (points.map (atTime (some (time * 1000)) μ.ofPoint)).sum =
      (es.map fun e => if e.1 = time then μ.ofGroup e.2 else 0).sum := by
  induction h with
  | nil => rfl
  | cons hp _ ih =>
    rw [List.map_cons, List.sum_cons, ih, List.map_cons, List.sum_cons, atTime, hp.time,
      (μ.shows _ _ _ hp).1]
    simp

theorem sum_entriesAt (time i : Nat) (ms : List FileMessage) :
    ((entriesAt ms i).map fun e => if e.1 = time then μ.ofGroup e.2 else 0).sum =
      ((bucketsOf ms).map (atBucket time fun b => μ.ofEntry b.entries[i]?)).sum := by
  induction ms with
  | nil => rfl
  | cons m ms ih =>
    rw [entriesAt_cons, List.map_append, List.sum_append, ih]
    cases m with
    | header h => simp [entriesAt, bucketsOf]
    | tags t => simp [entriesAt, bucketsOf]
    | buckets b =>
      rw [entriesAt_buckets]
      cases hentry : b.entries[i]? <;> simp [bucketsOf, atBucket, ofEntry, hentry]

end Measure

section Shown

variable {fmt : HistogramFormat} {entries : List ParsedFileEntry}

/-- The entries of the viewer, one for each tag group of the file. -/
structure ShowsFile (ms : List FileMessage) (entries : List ParsedFileEntry) : Prop where
  length : entries.length = (tagsOf ms).length
  points : ∀ t ∈ tagsOf ms, ∃ points, entries[t.index]? = some (tagsJson t.tags, points) ∧
    List.Forall₂ (fun p e => p.Shows e.1 e.2) points (entriesAt ms t.index)

theorem ShowsFile.entry (h : ShowsFile ms entries) (hw : Written ms) {i : Nat}
    (hi : i < entries.length) : ∃ tags points, entries[i]? = some (tags, points) ∧
      List.Forall₂ (fun (p : DataPoint) e => p.Shows e.1 e.2) points (entriesAt ms i) := by
  rw [h.length] at hi
  have hindex := congrArg (·[i]?) hw.indices
  have heq : (tagsOf ms)[i].index = i := by simpa [hi] using hindex
  obtain ⟨points, hpoints, hshows⟩ := h.points _ (List.getElem_mem hi)
  rw [heq] at hpoints hshows
  exact ⟨_, points, hpoints, hshows⟩

/-- Each data point shows an entry. -/
theorem ShowsFile.shows (h : ShowsFile ms entries) (hw : Written ms) {p : DataPoint}
    (hp : p ∈ entries.flatMap Prod.snd) : ∃ t b, p.Shows t b := by
  obtain ⟨entry, hentry, hp⟩ := List.mem_flatMap.mp hp
  obtain ⟨i, hi, rfl⟩ := List.getElem_of_mem hentry
  obtain ⟨tags, points, hpoints, hshows⟩ := h.entry hw hi
  have heq : entries[i] = (tags, points) := by simpa [hi] using hpoints
  rw [heq] at hp
  generalize entriesAt ms i = es at hshows
  clear hpoints heq
  induction hshows with
  | nil => cases hp
  | cons hone _ ih =>
    rcases List.mem_cons.mp hp with rfl | hp
    · exact ⟨_, _, hone⟩
    · exact ih hp

/-- The data points of a time come to what the stats in the buckets of that time come to. -/
theorem ShowsFile.sum (h : ShowsFile ms entries) (hw : Written ms) (μ : Measure M) (time : Nat)
    (hvalued : ∀ b ∈ bucketsOf ms, Valued index b)
    (hindex : ∀ b ∈ bucketsOf ms, ∀ stat ∈ b.appended, index stat.tags < (tagsOf ms).length) :
    ((entries.flatMap Prod.snd).map (atTime (some (time * 1000)) μ.ofPoint)).sum =
      ((((bucketsOf ms).filter (·.time = time)).flatMap (·.appended)).map μ.ofStat).sum := by
  rw [← μ.sum_buckets time hvalued hindex, List.flatMap_def, List.map_flatten, List.sum_flatten,
    List.map_map, List.map_map, sum_eq_range, h.length]
  refine Finset.sum_congr rfl fun i hi => ?_
  have hi : i < entries.length := h.length ▸ Finset.mem_range.mp hi
  obtain ⟨tags, points, hpoints, hshows⟩ := h.entry hw hi
  rw [hpoints, ← μ.sum_entriesAt time i ms]
  exact μ.sum_shows time hshows

/-- So do the merged ones, where the sum is fine. -/
theorem ShowsFile.merged (h : ShowsFile ms entries) (hw : Written ms) (μ : Measure M) (time : Nat)
    (hvalued : ∀ b ∈ bucketsOf ms, Valued index b)
    (hindex : ∀ b ∈ bucketsOf ms, ∀ stat ∈ b.appended, index stat.tags < (tagsOf ms).length)
    (hfine : μ.fine ((((bucketsOf ms).filter (·.time = time)).flatMap (·.appended)).map
      μ.ofStat).sum) :
    ((mergeAllDataPoints (entries.flatMap Prod.snd)).map
      (atTime (some (time * 1000)) μ.ofPoint)).sum =
      ((((bucketsOf ms).filter (·.time = time)).flatMap (·.appended)).map μ.ofStat).sum := by
  have hsum := h.sum hw μ time hvalued hindex
  rw [sum_mergeAllDataPoints μ.fine_of_add, hsum]
  · intro p hp
    obtain ⟨t, b, hshows⟩ := h.shows hw hp
    exact adds_atTime _ (μ.shows p t b hshows).2
  · rwa [hsum]

end Shown

/-! ### What is counted -/

theorem nodup_keys {κ V : Type} {cmp : κ → κ → Ordering} [TransCmp cmp] [LawfulEqCmp cmp]
    (m : ExtTreeMap κ V cmp) {f : κ → String} (hf : f.Injective) :
    ((m.toList.map fun p => (f p.1, p.2)).map Prod.fst).Nodup := by
  rw [List.map_map, List.Nodup, List.pairwise_map]
  exact m.distinct_keys_toList.imp fun h heq =>
    h (LawfulEqCmp.compare_eq_iff_eq.mpr (hf heq))

theorem count_of_mem {counts : List (String × Nat)} {key : String}
    (hnodup : (counts.map Prod.fst).Nodup) (hmem : (key, n) ∈ counts) : count counts key = n := by
  induction counts with
  | nil => cases hmem
  | cons entry counts ih =>
    obtain ⟨k, m⟩ := entry
    obtain ⟨hk, hnodup⟩ := List.nodup_cons.mp hnodup
    rw [count_cons]
    rcases List.mem_cons.mp hmem with heq | hmem
    · obtain ⟨rfl, rfl⟩ := Prod.mk.inj heq
      exact if_pos rfl
    · have hne : key ≠ k := fun heq => hk (List.mem_map.mpr ⟨_, hmem, heq⟩)
      rw [if_neg hne, ih hnodup hmem]

theorem count_of_not_mem {counts : List (String × Nat)} {key : String}
    (h : key ∉ counts.map Prod.fst) : count counts key = 0 := by
  induction counts with
  | nil => rfl
  | cons entry counts ih =>
    rw [List.map_cons, List.mem_cons, not_or] at h
    rw [count_cons, if_neg h.1, ih h.2]

/-- The entries of a map, with texts for its keys, have the number of each key. -/
theorem count_toList {κ : Type} {cmp : κ → κ → Ordering} [TransCmp cmp] [LawfulEqCmp cmp]
    (m : ExtTreeMap κ Nat cmp) {f : κ → String} (hf : f.Injective) (k : κ) :
    count (m.toList.map fun p => (f p.1, p.2)) (f k) = m[k]?.getD 0 := by
  cases hget : m[k]? with
  | some n =>
    have hmem := ExtTreeMap.mem_toList_iff_getElem?_eq_some.mpr hget
    exact count_of_mem (nodup_keys m hf) (List.mem_map_of_mem hmem)
  | none =>
    refine count_of_not_mem fun hmem => ?_
    obtain ⟨p, hp, heq⟩ := List.mem_map.mp hmem
    obtain ⟨⟨k', n⟩, hentry, rfl⟩ := List.mem_map.mp hp
    rw [← hf heq] at hget
    have hsome := ExtTreeMap.mem_toList_iff_getElem?_eq_some.mp hentry
    rw [hsome] at hget
    cases hget

theorem toString_injective : Function.Injective (toString : Nat → String) := by
  intro a b h
  have := congrArg parseInt h
  rw [parseInt_toString, parseInt_toString] at this
  exact Option.some.inj this

theorem fine_of_add_lt (a b : Nat) (h : a + b < 2 ^ 53) : a < 2 ^ 53 := by omega

/-- The responses with a status. -/
def responses (status : Nat) : Measure Nat where
  ofStat stat := (decide (stat.kind = .response status)).toNat
  ofGroup b := b.statusCounts[status]?.getD 0
  ofPoint p := count p.statusCounts (toString status)
  fine := (· < 2 ^ 53)
  fine_of_add := fine_of_add_lt
  group_default := by simp [BucketGroupStats.default]
  group_append b stat := by
    obtain ⟨kind, rtt, tags⟩ := stat
    rcases kind with (_ | message) | status' <;> cases rtt <;>
      simp [BucketGroupStats.append, getElem?_bump]
    all_goals
      by_cases h : status' = status <;> cases b.statusCounts[status]? <;> simp [h]
  shows p t b h := by
    rw [h.statusCounts]
    refine ⟨count_toList b.statusCounts toString_injective status, adds_statusCounts _ ?_⟩
    rw [h.statusCounts]
    exact nodup_keys b.statusCounts toString_injective

/-- The recoverable errors with a message, other than timeouts. -/
def failures (message : String) : Measure Nat where
  ofStat stat := (decide (stat.kind = .recoverableError (.other message))).toNat
  ofGroup b := b.testErrors[message]?.getD 0
  ofPoint p := count p.testErrors message
  fine := (· < 2 ^ 53)
  fine_of_add := fine_of_add_lt
  group_default := by simp [BucketGroupStats.default]
  group_append b stat := by
    obtain ⟨kind, rtt, tags⟩ := stat
    rcases kind with (_ | message') | status <;> cases rtt <;>
      simp [BucketGroupStats.append, getElem?_bump]
    all_goals
      by_cases h : message' = message <;> cases b.testErrors[message]? <;> simp [h]
  shows p t b h := by
    have hkeys : b.testErrors.toList = b.testErrors.toList.map fun p => (p.1, p.2) := by simp
    rw [h.testErrors, hkeys]
    refine ⟨count_toList b.testErrors Function.injective_id message, adds_testErrors _ ?_⟩
    rw [h.testErrors, hkeys]
    exact nodup_keys b.testErrors Function.injective_id

/-- The round trip times. -/
def roundTrips : Measure (Multiset Nat) where
  ofStat stat := stat.rtt.elim 0 ({·})
  ofGroup b := b.rttHistogram
  ofPoint p := p.rttHistogram
  fine _ := True
  fine_of_add _ _ _ := trivial
  group_default := rfl
  group_append b stat := by
    obtain ⟨kind, rtt, tags⟩ := stat
    rcases kind with (_ | message) | status <;> cases rtt <;> simp [BucketGroupStats.append]
  shows p t b h := ⟨h.rttHistogram, adds_rttHistogram⟩

/-! ### From the collector to the viewer -/

/-- At the end of a test each stat that has been received is in one of the written buckets. -/
theorem kept_collect {events : List (Clock × Event)}
    (h : collect cfg created events ended = some s) :
    Kept s (received events) (received events) ∧
      s.written.flatMap (·.appended) = received events := by
  simp only [collect, Option.bind_eq_bind, Option.bind_eq_some_iff] at h
  obtain ⟨s₀, hnew, c, hrun, hclose⟩ := h
  obtain ⟨lost, hk, -⟩ := receive_kept (c := ⟨s₀, none⟩) (kept_new hnew) hrun
  rw [closeOutBucket_none hclose]
  have hcomplete := kept_complete hk
  exact ⟨hcomplete, by simpa [Stats.complete, TimeBucket.new] using hcomplete.written⟩

/-- The index of a stat in a bucket is that of a tag group of the file. -/
theorem index_lt {lost : List ResponseStat} (hk : Kept s stats lost) (hw : Written ms)
    {b : TimeBucket} (hb : b ∈ bucketsOf ms) (hvalued : Valued s.index b)
    (hstats : ∀ stat ∈ b.appended, stat ∈ stats) {stat : ResponseStat} (hstat : stat ∈ b.appended) :
    s.index stat.tags < (tagsOf ms).length := by
  have hentry : b.entries[s.index stat.tags]? = some (groupOf stat.tags b.appended) := by
    rw [hvalued]
    exact entriesOf_getElem?
      (fun st hst heq => hk.index_inj (hstats st hst) (hstats stat hstat) heq) ⟨stat, hstat, rfl⟩
  obtain ⟨m, hm, hbucket⟩ := List.mem_filterMap.mp hb
  refine hw.entries _ (List.ne_nil_of_mem (a := (b.time, groupOf stat.tags b.appended)) ?_)
  refine List.mem_filterMap.mpr ⟨m, hm, ?_⟩
  cases m with
  | header h => cases hbucket
  | tags t => cases hbucket
  | buckets b' =>
    obtain rfl := Option.some.inj hbucket
    simp [hentry]

/-- Data points that together show each of some stats once. -/
structure Tallies (points : List DataPoint) (stats : List ResponseStat) : Prop where
  statuses : ∀ status, (points.map fun p => count p.statusCounts (toString status)).sum =
    stats.countP (·.kind = .response status)
  errors : ∀ message, (points.map fun p => count p.testErrors message).sum =
    stats.countP (·.kind = .recoverableError (.other message))
  rtts : (points.map DataPoint.rttHistogram).sum = (stats.filterMap ResponseStat.rtt : List Nat)

theorem sum_filter (t : Date) (f : DataPoint → M) (points : List DataPoint) :
    ((points.filter (·.time = t)).map f).sum = (points.map (atTime t f)).sum := by
  induction points with
  | nil => rfl
  | cons p points ih =>
    rw [List.map_cons, List.sum_cons, ← ih, atTime]
    by_cases h : p.time = t <;> simp [h]

theorem sum_rtts (stats : List ResponseStat) :
    (stats.map roundTrips.ofStat).sum = (stats.filterMap ResponseStat.rtt : List Nat) := by
  induction stats with
  | nil => rfl
  | cons stat stats ih =>
    rw [List.map_cons, List.sum_cons, ih]
    cases h : stat.rtt <;> simp [roundTrips, h]

theorem sum_toNat (l : List α) (P : α → Bool) : (l.map fun a => (P a).toNat).sum = l.countP P := by
  induction l with
  | nil => rfl
  | cons a l ih => cases h : P a <;> simp [h, ih, Nat.add_comm]

/-- The file of a test without timeouts is read; and where all data points are merged there is one
for each time, which shows each stat in the buckets of that time once. Each stat that the collector
has received is in one bucket. -/
theorem merged_collect (fmt : HistogramFormat) {duration : Nat} {events : List (Clock × Event)}
    (h : collect cfg created ((clock, .start duration) :: events) ended = some s)
    (hfile : s.file = .header ⟨cfg.testName, cfg.bin, cfg.bucketSize⟩ :: ms) (hl : Legible ms)
    (hfew : (received events).length < 2 ^ 53) :
    ∃ entries, processNewJson fmt (s.file.map (messageJson fmt)) =
        .ok (entries, some cfg.testName) ∧
      (mergeAllDataPoints (entries.flatMap Prod.snd)).Pairwise
        (fun a b => a.time.getD 0 < b.time.getD 0) ∧
      (∀ time, Tallies
        ((mergeAllDataPoints (entries.flatMap Prod.snd)).filter (·.time = some (time * 1000)))
        ((s.written.filter (·.time = time)).flatMap (·.appended))) ∧
      s.written.flatMap (·.appended) = received events := by
  have hreceived : received ((clock, .start duration) :: events) = received events := rfl
  obtain ⟨hk, hall⟩ := kept_collect h
  rw [hreceived] at hk hall
  obtain ⟨ms', hfile', hw⟩ := written_collect h
  obtain rfl : ms = ms' := (List.cons.inj (hfile.symm.trans hfile')).2
  have hreconstructs : Reconstructs fmt ⟨cfg.testName, cfg.bin, cfg.bucketSize⟩ ms :=
    reconstructs_of_legible hw _ hl
  obtain ⟨entries, hok, hlength, hpoints⟩ := hreconstructs
  have hshows : ShowsFile ms entries := ⟨hlength, hpoints⟩
  have hbuckets : bucketsOf ms = s.written := by
    rw [Stats.written, hfile]
    rfl
  have hvalued : ∀ b ∈ bucketsOf ms, Valued s.index b := by
    rw [hbuckets]
    exact hk.written_valued
  have hindex : ∀ b ∈ bucketsOf ms, ∀ stat ∈ b.appended,
      s.index stat.tags < (tagsOf ms).length := by
    intro b hb stat hstat
    refine index_lt hk hw hb (hvalued b hb) (fun st hst => ?_) hstat
    rw [← hall, ← hbuckets]
    exact List.mem_flatMap.mpr ⟨b, hb, hst⟩
  have hmeasure {M : Type} [AddCommMonoid M] (μ : Measure M) (time : Nat) (hfine : μ.fine
      (((s.written.filter (·.time = time)).flatMap (·.appended)).map μ.ofStat).sum) :=
    hshows.merged hw μ time hvalued hindex (by rwa [hbuckets])
  have hless (time : Nat) (P : ResponseStat → Bool) :
      ((s.written.filter (·.time = time)).flatMap (·.appended)).countP P < 2 ^ 53 := by
    refine ((List.countP_le_length).trans ?_).trans_lt hfew
    rw [← hall]
    exact (List.filter_sublist.flatMap _).length_le
  rw [hbuckets] at hmeasure
  refine ⟨entries, by rw [hfile]; exact hok, ?_, fun time => ⟨?_, ?_, ?_⟩, hall⟩
  · refine (times_mergeAllDataPoints fun p hp => ?_).1
    obtain ⟨t, b, hp⟩ := hshows.shows hw hp
    rw [hp.time]
    rfl
  · intro status
    have hsum := sum_toNat ((s.written.filter (·.time = time)).flatMap (·.appended))
      fun stat => decide (stat.kind = .response status)
    rw [← hsum, sum_filter]
    exact hmeasure (responses status) time (hsum.trans_lt (hless time _))
  · intro message
    have hsum := sum_toNat ((s.written.filter (·.time = time)).flatMap (·.appended))
      fun stat => decide (stat.kind = .recoverableError (.other message))
    rw [← hsum, sum_filter]
    exact hmeasure (failures message) time (hsum.trans_lt (hless time _))
  · rw [sum_filter, ← sum_rtts]
    exact hmeasure roundTrips time trivial

theorem legible_fileOf_response : Legible (fileOf (.response 200)) := by
  have htags : ∀ t ∈ tagsOf (fileOf (.response 200)), t = ⟨0, getTags⟩ := by
    intro t ht
    simpa [fileOf, tagsOf] using ht
  refine ⟨by decide, ?_, ?_, ?_⟩
  · intro t ht
    rw [htags t ht]
    exact ⟨by decide, by decide, by decide, by decide⟩
  · intro t ht
    rw [htags t ht]
    simp [entriesAt_fileOf]
  · intro i e he
    rw [entriesAt_fileOf] at he
    split at he
    · obtain rfl := List.mem_singleton.mp he
      refine ⟨by decide, rfl, fun p hp => ?_, fun p hp => ?_⟩
      · have hget := ExtTreeMap.mem_toList_iff_getElem?_eq_some.mp hp
        simp only [BucketGroupStats.append, BucketGroupStats.default, getElem?_bump,
          ExtTreeMap.getElem?_empty, Option.merge_none_left] at hget
        split at hget
        · next hstatus =>
          obtain hone : 1 = p.2 := Option.some.inj hget
          rw [← hstatus, ← hone]
          exact ⟨by decide, toNumber_of_lt (by decide)⟩
        · cases hget
      · have hget := ExtTreeMap.mem_toList_iff_getElem?_eq_some.mp hp
        simp [BucketGroupStats.append, BucketGroupStats.default] at hget
    · cases he

/-- A test with one response. -/
def respondedRun : List (Clock × Event) :=
  [(⟨601, nanos⟩, .responseStat ⟨.response 200, none, getTags⟩)]

theorem merged_collect_respondedRun : ∃ s entries,
    collect minuteBuckets ⟨600, 0⟩ ((⟨600, 0⟩, .start (60 * nanos)) :: respondedRun)
        ⟨660, 60 * nanos⟩ = some s ∧
      processNewJson numberedFormat (s.file.map (messageJson numberedFormat)) =
        .ok (entries, some "load") ∧
      Tallies
        ((mergeAllDataPoints (entries.flatMap Prod.snd)).filter (·.time = some (600 * 1000)))
        ((s.written.filter (·.time = 600)).flatMap (·.appended)) ∧
      s.written.flatMap (·.appended) = received respondedRun := by
  obtain ⟨s, hs, hfile⟩ : ∃ s, collect minuteBuckets ⟨600, 0⟩
      ((⟨600, 0⟩, .start (60 * nanos)) :: respondedRun) ⟨660, 60 * nanos⟩ = some s ∧
        s.file = .header ⟨"load", "0.5.9", 60⟩ :: fileOf (.response 200) := ⟨_, rfl, rfl⟩
  obtain ⟨entries, hok, -, htallies, hall⟩ := merged_collect numberedFormat hs hfile
    legible_fileOf_response (by decide)
  exact ⟨s, entries, hs, hok, htallies 600, hall⟩

end Pewpew.Viewer
