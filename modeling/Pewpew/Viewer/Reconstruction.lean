import Pewpew.Library.Fallible
import Pewpew.Viewer.Checks
import Mathlib.Data.List.Range
import Mathlib.Logic.Equiv.Multiset

/-! What the viewer shows of a results file is what the load test wrote. -/
namespace Pewpew.Viewer

open Std Accumulate StatsCollector Fallible

variable {fmt : HistogramFormat} {ms : List FileMessage} {m : FileMessage} {s s' : State}

/-- The tag definitions of a file. -/
def tagsOf (ms : List FileMessage) : List FileTags :=
  ms.filterMap fun
    | .tags t => some t
    | _ => none

/-- The entries of a tag group, each with the time of its bucket. -/
def entriesAt (ms : List FileMessage) (i : Nat) : List (Nat × BucketGroupStats) :=
  ms.filterMap fun
    | .buckets b => b.entries[i]?.map (b.time, ·)
    | _ => none

/-- The messages after the header: the tag groups are numbered in the order of their definitions,
and no bucket has an entry of another. -/
structure Written (ms : List FileMessage) : Prop where
  no_header : ∀ h, .header h ∉ ms
  indices : (tagsOf ms).map (·.index) = List.range (tagsOf ms).length
  entries : ∀ i, entriesAt ms i ≠ [] → i < (tagsOf ms).length

/-- A data point shows an entry of the bucket at a time. -/
structure DataPoint.Shows (p : DataPoint) (time : Nat) (b : BucketGroupStats) : Prop where
  time : p.time = some (time * 1000)
  requestTimeouts : p.requestTimeouts = b.requestTimeouts
  statusCounts : p.statusCounts = statuses b
  testErrors : p.testErrors = b.testErrors.toList
  rttHistogram : p.rttHistogram = b.rttHistogram

/-- The viewer shows each tag group, and for each time the entry that was written. -/
def Reconstructs (fmt : HistogramFormat) (h : FileHeader) (ms : List FileMessage) : Prop :=
  ∃ entries,
    processNewJson fmt ((.header h :: ms).map (messageJson fmt)) = .ok (entries, some h.test) ∧
    entries.length = (tagsOf ms).length ∧
    ∀ t ∈ tagsOf ms, ∃ points, entries[t.index]? = some (tagsJson t.tags, points) ∧
      List.Forall₂ (fun p e => p.Shows e.1 e.2) points (entriesAt ms t.index)

/-- An entry that a data point can show: doubles hold its counts, the time is a date, and it has
no request timeouts. -/
structure LegibleEntry (time : Nat) (b : BucketGroupStats) : Prop where
  time : time ≤ 8640000000000
  requestTimeouts : b.requestTimeouts = 0
  statuses : ∀ p ∈ b.statusCounts.toList, 0 < p.1 ∧ toNumber p.2 = p.2
  testErrors : ∀ p ∈ b.testErrors.toList, toNumber p.2 = p.2

/-- The messages that the viewer shows as they are: besides, there are not too many tag groups for
an array, and each is in a bucket. -/
structure Legible (ms : List FileMessage) : Prop where
  array : (tagsOf ms).length ≤ 2 ^ 32 - 1
  tags : ∀ t ∈ tagsOf ms, LegibleTags t.tags
  recorded : ∀ t ∈ tagsOf ms, entriesAt ms t.index ≠ []
  entries : ∀ i, ∀ e ∈ entriesAt ms i, LegibleEntry e.1 e.2

/-! ### The loop over the messages -/

theorem foldlM_next_iff : (ms.map (messageJson fmt)).foldlM State.next s = .ok s' ↔
    (∀ m ∈ ms, Readable m) ∧ s' = ms.foldl (State.after fmt) s := by
  induction ms generalizing s with
  | nil => exact ⟨fun h => ⟨by simp, (Except.ok.inj h).symm⟩, fun h => h.2 ▸ rfl⟩
  | cons m ms ih =>
    rw [List.map_cons, List.foldlM_cons, List.foldl_cons, List.forall_mem_cons]
    cases hnext : s.next (messageJson fmt m) with
    | error e =>
      have hm : ¬ Readable m := fun hm => by
        have hok : s.next (messageJson fmt m) = .ok (s.after fmt m) := next_iff.mpr ⟨hm, rfl⟩
        rw [hnext] at hok
        cases hok
      simp only [hm, false_and, iff_false]
      intro h
      cases h
    | ok s₁ =>
      obtain ⟨hm, rfl⟩ := next_iff.mp hnext
      rw [and_iff_right hm]
      exact ih

theorem entriesAt_cons (m : FileMessage) (ms : List FileMessage) (i : Nat) :
    entriesAt (m :: ms) i = entriesAt [m] i ++ entriesAt ms i := by
  rw [← List.singleton_append, entriesAt, List.filterMap_append]
  rfl

theorem setIndex_length_le {a : List (Option Properties)} (h : a.length ≤ 2 ^ 32 - 1) (i : Nat)
    (v : Properties) : (setIndex a i v).length ≤ 2 ^ 32 - 1 := by
  unfold setIndex
  split
  · rw [List.length_set, List.length_append, List.length_replicate]
    omega
  · exact h

theorem setIndex_end {a : List (Option Properties)} (h : a.length < 2 ^ 32 - 1) (v : Properties) :
    setIndex a a.length v = a ++ [some v] := by
  rw [setIndex, if_pos h, show a.length + 1 - a.length = 1 by omega]
  simp

theorem tags_length_le (h : s.tags.length ≤ 2 ^ 32 - 1) :
    (ms.foldl (State.after fmt) s).tags.length ≤ 2 ^ 32 - 1 := by
  induction ms generalizing s with
  | nil => exact h
  | cons m ms ih =>
    refine ih ?_
    cases m with
    | header h' => exact h
    | tags t => exact setIndex_length_le h _ _
    | buckets b => exact h

/-- The tags are kept in the order of their definitions. -/
theorem tags_foldl
    (hi : (tagsOf ms).map (·.index) = List.range' s.tags.length (tagsOf ms).length)
    (hlen : s.tags.length + (tagsOf ms).length ≤ 2 ^ 32 - 1) :
    (ms.foldl (State.after fmt) s).tags =
      s.tags ++ (tagsOf ms).map fun t => some (tagsJson t.tags) := by
  induction ms generalizing s with
  | nil => exact (List.append_nil _).symm
  | cons m ms ih =>
    rw [List.foldl_cons]
    cases m with
    | header h => exact ih hi hlen
    | buckets b => exact ih hi hlen
    | tags t =>
      have hcons : tagsOf (.tags t :: ms) = t :: tagsOf ms := rfl
      rw [hcons] at hi hlen ⊢
      simp only [List.map_cons, List.length_cons, List.range'_succ, List.cons.injEq] at hi hlen ⊢
      obtain ⟨hindex, hi⟩ := hi
      have htags : (s.after fmt (.tags t)).tags = s.tags ++ [some (tagsJson t.tags)] := by
        have hnumber : toNumber t.index = s.tags.length := by
          rw [hindex]
          exact toNumber_of_lt (by omega)
        rw [State.after, hnumber]
        exact setIndex_end (by omega) _
      have hlength : (s.after fmt (.tags t)).tags.length = s.tags.length + 1 := by
        rw [htags, List.length_append, List.length_singleton]
      rw [ih (by rw [hlength]; exact hi) (by rw [hlength]; omega), htags, List.append_assoc]
      rfl

/-- A list that is not empty. -/
def listed {α : Type} (l : List α) : Option (List α) := if l.isEmpty then none else some l

theorem listed_append {α : Type} (l₁ l₂ : List α) :
    listed (l₁ ++ l₂) = (listed l₁).merge (· ++ ·) (listed l₂) := by
  cases l₁ <;> cases l₂ <;> simp [listed, Option.merge]

/-- The data point of an entry at a time. -/
def point (fmt : HistogramFormat) (bucketSize : Nat) (e : Nat × BucketGroupStats) :
    DataPointPreProcessed :=
  dataPoint (toNumber e.1) bucketSize (groupProperties fmt e.2)

theorem entriesAt_buckets (b : TimeBucket) (i : Nat) :
    entriesAt [.buckets b] i = (b.entries[i]?.map (b.time, ·)).toList := by
  simp only [entriesAt, List.filterMap_cons, List.filterMap_nil]
  cases b.entries[i]? <;> rfl

theorem getElem?_pushGroups (b : TimeBucket) (bucketSize : Nat)
    (data : ExtTreeMap Nat (List DataPointPreProcessed)) (i : Nat) :
    (pushGroups fmt (toNumber b.time) bucketSize data b.entries.toList)[i]? =
      data[i]?.merge (· ++ ·) (listed ((entriesAt [.buckets b] i).map (point fmt bucketSize))) := by
  have hdistinct : (b.entries.toList.map fun p =>
      (p.1, [point fmt bucketSize (b.time, p.2)])).Pairwise fun a b => ¬ compare a.1 b.1 = .eq := by
    rw [List.pairwise_map]
    exact ExtTreeMap.distinct_keys_toList
  obtain ⟨hsome, hnone⟩ := getElem?_foldl_bump (f := (· ++ ·)) (m := data) (k := i) _ hdistinct
  rw [List.foldl_map] at hsome hnone
  rw [entriesAt_buckets]
  cases he : b.entries[i]? with
  | none =>
    refine (hnone ?_).trans (Option.merge_none_right).symm
    intro v hv
    obtain ⟨p, hp, heq⟩ := List.mem_map.mp hv
    obtain ⟨rfl, -⟩ := Prod.mk.inj heq
    have hmem : b.entries[p.1]? = some p.2 := ExtTreeMap.mem_toList_iff_getElem?_eq_some.mp hp
    rw [he] at hmem
    cases hmem
  | some e =>
    refine hsome _ (List.mem_map.mpr ⟨(i, e), ?_, rfl⟩)
    exact ExtTreeMap.mem_toList_iff_getElem?_eq_some.mpr he

/-- The data points are kept in the order in which their buckets were written. -/
theorem data_foldl (hno : ∀ h, .header h ∉ ms) (i : Nat) :
    (ms.foldl (State.after fmt) s).data[i]? =
      s.data[i]?.merge (· ++ ·) (listed ((entriesAt ms i).map (point fmt s.bucketSize))) := by
  induction ms generalizing s with
  | nil => exact Option.merge_none_right.symm
  | cons m ms ih =>
    have hrest : ∀ h, .header h ∉ ms := fun h hm => hno h (List.mem_cons_of_mem _ hm)
    rw [List.foldl_cons, ih hrest, entriesAt_cons, List.map_append, listed_append]
    cases m with
    | header h => exact absurd List.mem_cons_self (hno h)
    | tags t => exact congrArg _ Option.merge_none_left.symm
    | buckets b =>
      have hpush : (s.after fmt (.buckets b)).data[i]? = s.data[i]?.merge (· ++ ·)
          (listed ((entriesAt [.buckets b] i).map (point fmt s.bucketSize))) :=
        getElem?_pushGroups b s.bucketSize s.data i
      rw [hpush]
      exact (Option.associative_merge _).assoc _ _ _

/-! ### The result -/

/-- The counts of an object as JavaScript reads them. -/
def numbers (l : List (String × Nat)) : List (String × Nat) := l.map fun p => (p.1, toNumber p.2)

theorem numbers_eq_iff (l : List (String × Nat)) :
    numbers l = l ↔ ∀ p ∈ l, toNumber p.2 = p.2 := by
  have hid : numbers l = l ↔ numbers l = l.map id := by rw [List.map_id]
  rw [hid, numbers, List.map_inj_left]
  refine forall₂_congr fun p _ => ?_
  rw [id, Prod.ext_iff]
  exact and_iff_right rfl

theorem counts_of_some {o : Properties} {key : String} {l : List (String × Nat)}
    (h : o.lookup key = some (counts l)) : o.counts key = numbers l := by
  rw [Properties.counts, Properties.object, h]
  simp only [counts, List.map_map]
  rfl

theorem counts_of_none {o : Properties} {key : String} (h : o.lookup key = none) :
    o.counts key = [] := by
  rw [Properties.counts, Properties.object, h]
  rfl

theorem counts_statusCounts (b : BucketGroupStats) :
    (groupProperties fmt b).counts "statusCounts" = numbers (statuses b) := by
  have hlookup := lookup_statusCounts fmt b
  split at hlookup
  · rename_i hempty
    have hnone : b.statusCounts = ∅ := by simpa using hempty
    rw [counts_of_none hlookup, statuses, hnone]
    rfl
  · exact counts_of_some hlookup

theorem counts_testErrors (b : BucketGroupStats) :
    (groupProperties fmt b).counts "testErrors" = numbers b.testErrors.toList := by
  have hlookup := lookup_testErrors fmt b
  split at hlookup
  · rename_i hempty
    have hnone : b.testErrors = ∅ := by simpa using hempty
    rw [counts_of_none hlookup, hnone]
    rfl
  · exact counts_of_some hlookup

/-- A histogram is read as it was written, or as empty where it was left out. -/
theorem decode_rttHistogram (time bucketSize : Nat) (b : BucketGroupStats) :
    fmt.decode (dataPoint time bucketSize (groupProperties fmt b)).rttHistogram =
      b.rttHistogram := by
  have hlookup := lookup_rttHistogram fmt b
  split at hlookup
  · rename_i hempty
    have hstring : (groupProperties fmt b).string "rttHistogram" = "" := by
      rw [Properties.string, hlookup]
    rw [dataPoint, hstring, if_pos rfl, hempty]
    exact fmt.decode_empty
  · rename_i hne
    have hstring : (groupProperties fmt b).string "rttHistogram" = fmt.encode b.rttHistogram := by
      rw [Properties.string, hlookup]
    rw [dataPoint, hstring, if_neg (fmt.encode_ne _ hne)]
    exact fmt.round_trip _ hne

/-- What it takes for a data point to show its entry. -/
theorem shows_iff (bucketSize time : Nat) (b : BucketGroupStats) :
    (DataPoint.new fmt (point fmt bucketSize (time, b))).Shows time b ↔
      time ≤ 8640000000000 ∧ b.requestTimeouts = 0 ∧
      (∀ p ∈ b.statusCounts.toList, toNumber p.2 = p.2) ∧
      ∀ p ∈ b.testErrors.toList, toNumber p.2 = p.2 := by
  have hstatuses : numbers (statuses b) = statuses b ↔
      ∀ p ∈ b.statusCounts.toList, toNumber p.2 = p.2 := by
    rw [numbers_eq_iff, statuses, List.forall_mem_map]
  rw [← dateOfSeconds_iff, ← hstatuses, ← numbers_eq_iff]
  constructor
  · intro h
    exact ⟨h.time, h.requestTimeouts.symm, (counts_statusCounts b).symm.trans h.statusCounts,
      (counts_testErrors b).symm.trans h.testErrors⟩
  · rintro ⟨htime, htimeouts, hcounts, herrors⟩
    exact ⟨htime, htimeouts.symm, (counts_statusCounts b).trans hcounts,
      (counts_testErrors b).trans herrors, decode_rttHistogram _ _ b⟩

theorem firstFailure_tagsJson (checks : List (String × CheckType))
    (h : ∀ key, checks.lookup key = none ∨ checks.lookup key = some (.type "string"))
    (tags : Tags) : firstFailure checks (some (.type "string")) (tagsJson tags) = .ok none := by
  induction tags with
  | nil => rfl
  | cons p tags ih =>
    have hvalue : valueChecker (checks.lookup p.1) (some (.type "string")) p.1 (.string p.2) =
        .ok none := by
      rcases h p.1 with hnone | hsome
      · rw [hnone]
        rfl
      · rw [hsome]
        rfl
    rw [tagsJson, List.map_cons, firstFailure, hvalue]
    exact ih

theorem asBucketId_ok {tags : Tags} (h : LegibleTags tags) :
    asBucketId (some (tagsJson tags)) = .ok (tagsJson tags) := by
  have hfirst := firstFailure_tagsJson [("method", .type "string"), ("url", .type "string")]
    (fun key => ?_) tags
  · have hmethod : ((tagsJson tags).lookup "method").isNone = false := by
      simpa [lookup_tagsJson] using h.method
    have hurl : ((tagsJson tags).lookup "url").isNone = false := by
      simpa [lookup_tagsJson] using h.url
    have hchecks : propertyChecker (tagsJson tags) [("method", .type "string"),
        ("url", .type "string")] (some (.type "string")) = .ok none := by
      rw [propertyChecker, hfirst]
      simp [hmethod, hurl]
      rfl
    rw [asBucketId, hchecks]
    rfl
  · by_cases hm : key = "method"
    · subst hm
      exact .inr rfl
    · by_cases hu : key = "url"
      · subst hu
        exact .inr rfl
      · simp [List.lookup_cons, beq_eq_false_iff_ne.mpr hm, beq_eq_false_iff_ne.mpr hu]

theorem asDataPoint_ok (bucketSize time : Nat) {b : BucketGroupStats} (h : PositiveStatuses b) :
    asDataPointPreProcessed (point fmt bucketSize (time, b)) =
      .ok (point fmt bucketSize (time, b)) := by
  have hcounts : (point fmt bucketSize (time, b)).statusCounts = numbers (statuses b) :=
    counts_statusCounts b
  rw [asDataPointPreProcessed, hcounts, if_pos]
  simp only [numbers, statuses, List.map_map, List.all_map, List.all_eq_true]
  intro p hp
  simp only [Function.comp, parseInt_toString]
  simpa using h p hp

/-- The statuses of all entries of a readable file are positive. -/
theorem positive_of_readable (h : ∀ m ∈ ms, Readable m) {i : Nat} {e : Nat × BucketGroupStats}
    (he : e ∈ entriesAt ms i) : PositiveStatuses e.2 := by
  obtain ⟨m, hm, hentry⟩ := List.mem_filterMap.mp he
  cases m with
  | header h' => cases hentry
  | tags t => cases hentry
  | buckets b =>
    obtain ⟨g, hg, rfl⟩ := Option.map_eq_some_iff.mp hentry
    exact h _ hm (i, g) (ExtTreeMap.mem_toList_iff_getElem?_eq_some.mpr hg)

theorem asBucketEntry_iff {tags : Tags} {points : List DataPointPreProcessed}
    {r : Properties × List DataPointPreProcessed} (ht : LegibleTags tags)
    (hp : ∀ p ∈ points, asDataPointPreProcessed p = .ok p) :
    asBucketEntry (some (tagsJson tags), listed points) = .ok r ↔
      points ≠ [] ∧ r = (tagsJson tags, points) := by
  rw [asBucketEntry, asBucketId_ok ht]
  cases points with
  | nil =>
    simp only [ne_eq, not_true_eq_false, false_and, iff_false]
    intro h
    cases h
  | cons p ps =>
    have hpoints : (p :: ps).mapM asDataPointPreProcessed = .ok (p :: ps) := by
      rw [mapM_ok_iff, List.forall₂_same]
      exact hp
    rw [and_iff_right (List.cons_ne_nil p ps)]
    change (do
      let ps ← (p :: ps).mapM asDataPointPreProcessed
      return (tagsJson tags, ps)) = Except.ok r ↔ _
    rw [hpoints]
    exact ⟨fun h => (Except.ok.inj h).symm, fun h => h ▸ rfl⟩

/-- What the viewer makes of a file that it can read. -/
def shown (fmt : HistogramFormat) (bucketSize : Nat) (ms : List FileMessage) :
    List ParsedFileEntry :=
  (tagsOf ms).map fun t =>
    (tagsJson t.tags, (entriesAt ms t.index).map (DataPoint.new fmt ∘ point fmt bucketSize))

theorem getElem?_tagsOf (hw : Written ms) {t : FileTags} (ht : t ∈ tagsOf ms) :
    (tagsOf ms)[t.index]? = some t := by
  obtain ⟨i, hi, rfl⟩ := List.mem_iff_getElem.mp ht
  have hindex : ((tagsOf ms).map (·.index))[i]? = some i := by
    rw [hw.indices, List.getElem?_range hi]
  have heq : (tagsOf ms)[i].index = i := by simpa [hi] using hindex
  rw [heq, List.getElem?_eq_getElem hi]

/-- The elements of the two arrays, paired by their indices. -/
theorem mapIdx_tags (hw : Written ms) {α : Type} (f : Option Properties → Nat → α) :
    ((tagsOf ms).map fun t => some (tagsJson t.tags)).mapIdx (fun i tag => f tag i) =
      (tagsOf ms).map fun t => f (some (tagsJson t.tags)) t.index := by
  refine List.ext_getElem? fun i => ?_
  rw [List.getElem?_mapIdx, List.getElem?_map, List.getElem?_map]
  cases ht : (tagsOf ms)[i]? with
  | none => rfl
  | some t =>
    obtain ⟨hi, hget⟩ := List.getElem?_eq_some_iff.mp ht
    have hindex := congrArg (·[i]?) hw.indices
    have heq : t.index = i := by simpa [hi, hget] using hindex
    subst heq
    rfl

theorem mem_tagsOf {t : FileTags} : t ∈ tagsOf ms ↔ .tags t ∈ ms := by
  rw [tagsOf, List.mem_filterMap]
  constructor
  · rintro ⟨m, hm, hsome⟩
    cases m with
    | header h => cases hsome
    | buckets b => cases hsome
    | tags t' =>
      cases hsome
      exact hm
  · intro h
    exact ⟨_, h, rfl⟩

theorem mapM_asBucketEntry_iff {ts : List FileTags} (points : FileTags → List DataPointPreProcessed)
    {l : List (Properties × List DataPointPreProcessed)} (ht : ∀ t ∈ ts, LegibleTags t.tags)
    (hp : ∀ t ∈ ts, ∀ p ∈ points t, asDataPointPreProcessed p = .ok p) :
    (ts.map fun t => (some (tagsJson t.tags), listed (points t))).mapM asBucketEntry = .ok l ↔
      (∀ t ∈ ts, points t ≠ []) ∧ l = ts.map fun t => (tagsJson t.tags, points t) := by
  rw [mapM_ok_iff]
  induction ts generalizing l with
  | nil => simp
  | cons t ts ih =>
    obtain ⟨hfirst, ht⟩ := List.forall_mem_cons.mp ht
    obtain ⟨hpoints, hp⟩ := List.forall_mem_cons.mp hp
    rw [List.map_cons, List.forall₂_cons_left_iff, List.forall_mem_cons, List.map_cons]
    constructor
    · rintro ⟨r, rest, hr, hrest, rfl⟩
      obtain ⟨hne, rfl⟩ := (asBucketEntry_iff hfirst hpoints).mp hr
      obtain ⟨hall, rfl⟩ := (ih ht hp).mp hrest
      exact ⟨⟨hne, hall⟩, rfl⟩
    · rintro ⟨⟨hne, hall⟩, rfl⟩
      exact ⟨_, _, (asBucketEntry_iff hfirst hpoints).mpr ⟨hne, rfl⟩, (ih ht hp).mpr ⟨hall, rfl⟩,
        rfl⟩

theorem processJson_iff {bucketSize : Nat} {entries : List ParsedFileEntry}
    (hr : ∀ m ∈ ms, Readable m) :
    processJson fmt ((tagsOf ms).map fun t => (some (tagsJson t.tags),
      listed ((entriesAt ms t.index).map (point fmt bucketSize)))) = .ok entries ↔
      (∀ t ∈ tagsOf ms, entriesAt ms t.index ≠ []) ∧ entries = shown fmt bucketSize ms := by
  have hmapM (l : List (Properties × List DataPointPreProcessed)) :=
    mapM_asBucketEntry_iff (fun t => (entriesAt ms t.index).map (point fmt bucketSize))
      (l := l) (fun t ht => hr _ (mem_tagsOf.mp ht)) (fun t _ p hp => by
        obtain ⟨e, he, rfl⟩ := List.mem_map.mp hp
        exact asDataPoint_ok bucketSize e.1 (positive_of_readable hr he))
  simp only [ne_eq, List.map_eq_nil_iff] at hmapM
  rw [processJson]
  cases hres : ((tagsOf ms).map fun t => (some (tagsJson t.tags),
      listed ((entriesAt ms t.index).map (point fmt bucketSize)))).mapM asBucketEntry with
  | error e =>
    have hno : ¬ ∀ t ∈ tagsOf ms, entriesAt ms t.index ≠ [] := fun hall => by
      have hok := (hmapM _).mpr ⟨hall, rfl⟩
      rw [hres] at hok
      cases hok
    simp only [hno, false_and, iff_false]
    intro h
    cases h
  | ok l =>
    obtain ⟨hall, rfl⟩ := (hmapM l).mp hres
    rw [and_iff_right hall, shown]
    change Except.ok (List.map _ (List.map _ (tagsOf ms))) = Except.ok entries ↔ _
    rw [List.map_map, Except.ok.injEq]
    simp only [Function.comp_def, List.map_map]
    exact eq_comm

theorem processJson_length
    {buckets : List (Option Properties × Option (List DataPointPreProcessed))}
    {entries : List ParsedFileEntry} (h : processJson fmt buckets = .ok entries) :
    entries.length = buckets.length := by
  rw [processJson] at h
  cases hres : buckets.mapM asBucketEntry with
  | error e =>
    rw [hres] at h
    cases h
  | ok l =>
    rw [hres] at h
    cases h
    rw [List.length_map]
    exact (mapM_ok_iff.mp hres).length_eq.symm

theorem testName_foldl (hno : ∀ h, .header h ∉ ms) :
    (ms.foldl (State.after fmt) s).testName = s.testName := by
  induction ms generalizing s with
  | nil => rfl
  | cons m ms ih =>
    have hrest : ∀ h, .header h ∉ ms := fun h hm => hno h (List.mem_cons_of_mem _ hm)
    rw [List.foldl_cons, ih hrest]
    cases m with
    | header h => exact absurd List.mem_cons_self (hno h)
    | tags t => rfl
    | buckets b => rfl

/-- The state of the loop after the header. -/
def headed (h : FileHeader) : State := ⟨[], ∅, toNumber h.bucketSize, some h.test⟩

theorem processNewJson_ok_iff {h : FileHeader} {r : List ParsedFileEntry × Option String}
    (hno : ∀ h, .header h ∉ ms) :
    processNewJson fmt ((.header h :: ms).map (messageJson fmt)) = .ok r ↔
      (∀ m ∈ ms, Readable m) ∧ r.2 = some h.test ∧
      processJson fmt ((ms.foldl (State.after fmt) (headed h)).tags.mapIdx fun i tag =>
        (tag, (ms.foldl (State.after fmt) (headed h)).data[i]?)) = .ok r.1 := by
  have hfold (s' : State) : ((FileMessage.header h :: ms).map (messageJson fmt)).foldlM State.next
      State.initial = .ok s' ↔
      (∀ m ∈ ms, Readable m) ∧ s' = ms.foldl (State.after fmt) (headed h) := by
    have hheader : Readable (.header h) := trivial
    rw [foldlM_next_iff, List.forall_mem_cons, and_iff_right hheader]
    rfl
  rw [processNewJson]
  cases hres : ((FileMessage.header h :: ms).map (messageJson fmt)).foldlM State.next
      State.initial with
  | error e =>
    have hno : ¬ ∀ m ∈ ms, Readable m := fun hall => by
      have hok := (hfold _).mpr ⟨hall, rfl⟩
      rw [hres] at hok
      cases hok
    simp only [hno, false_and, iff_false]
    intro h
    cases h
  | ok s' =>
    obtain ⟨hall, rfl⟩ := (hfold s').mp hres
    rw [and_iff_right hall]
    change (do
      let entries ← processJson fmt _
      return (entries, (ms.foldl (State.after fmt) (headed h)).testName)) = Except.ok r ↔ _
    rw [testName_foldl hno]
    cases processJson fmt ((ms.foldl (State.after fmt) (headed h)).tags.mapIdx fun i tag =>
        (tag, (ms.foldl (State.after fmt) (headed h)).data[i]?)) with
    | error e =>
      simp only [reduceCtorEq, and_false, iff_false]
      intro h
      cases h
    | ok entries =>
      constructor
      · intro h
        cases h
        exact ⟨rfl, rfl⟩
      · rintro ⟨hname, hentries⟩
        obtain ⟨r₁, r₂⟩ := r
        cases hname
        cases hentries
        rfl

/-- A file with few enough tag groups is read exactly when each message can be read and each tag
group is in a bucket. -/
theorem processNewJson_iff {h : FileHeader} {r : List ParsedFileEntry × Option String}
    (hw : Written ms) (hlen : (tagsOf ms).length ≤ 2 ^ 32 - 1) :
    processNewJson fmt ((.header h :: ms).map (messageJson fmt)) = .ok r ↔
      (∀ m ∈ ms, Readable m) ∧ r.2 = some h.test ∧
      (∀ t ∈ tagsOf ms, entriesAt ms t.index ≠ []) ∧
      r.1 = shown fmt (toNumber h.bucketSize) ms := by
  have htags : (ms.foldl (State.after fmt) (headed h)).tags =
      (tagsOf ms).map fun t => some (tagsJson t.tags) := by
    refine (tags_foldl ?_ ?_).trans (List.nil_append _)
    · rw [hw.indices, List.range_eq_range']
      rfl
    · simpa [headed] using hlen
  have hdata (i : Nat) : (ms.foldl (State.after fmt) (headed h)).data[i]? =
      listed ((entriesAt ms i).map (point fmt (toNumber h.bucketSize))) := by
    refine (data_foldl hw.no_header i).trans ?_
    rw [headed, ExtTreeMap.getElem?_empty]
    exact Option.merge_none_left
  rw [processNewJson_ok_iff hw.no_header]
  refine and_congr_right fun hr => and_congr_right fun _ => ?_
  simp only [htags, hdata]
  rw [mapIdx_tags hw fun tag i =>
    (tag, listed ((entriesAt ms i).map (point fmt (toNumber h.bucketSize)))), processJson_iff hr]

theorem readable_of_legible (hl : Legible ms) (m : FileMessage) (hm : m ∈ ms) : Readable m := by
  cases m with
  | header h => trivial
  | tags t => exact hl.tags t (mem_tagsOf.mpr hm)
  | buckets b =>
    rintro ⟨i, g⟩ hg p hp
    have hentry : (b.time, g) ∈ entriesAt ms i := by
      have hget := ExtTreeMap.mem_toList_iff_getElem?_eq_some.mp hg
      exact List.mem_filterMap.mpr ⟨_, hm, congrArg (Option.map (b.time, ·)) hget⟩
    exact ((hl.entries i _ hentry).statuses p hp).1

theorem getElem?_shown (hw : Written ms) (bucketSize : Nat) {t : FileTags} (ht : t ∈ tagsOf ms) :
    (shown fmt bucketSize ms)[t.index]? = some (tagsJson t.tags,
      (entriesAt ms t.index).map (DataPoint.new fmt ∘ point fmt bucketSize)) := by
  rw [shown, List.getElem?_map, getElem?_tagsOf hw ht]
  rfl

theorem shows_points_iff (bucketSize : Nat) (entries : List (Nat × BucketGroupStats)) :
    List.Forall₂ (fun (p : DataPoint) e => p.Shows e.1 e.2)
      (entries.map (DataPoint.new fmt ∘ point fmt bucketSize)) entries ↔
    ∀ e ∈ entries, (DataPoint.new fmt (point fmt bucketSize e)).Shows e.1 e.2 := by
  rw [List.forall₂_map_left_iff, List.forall₂_same]
  rfl

theorem legible_of_reconstructs {h : FileHeader} (hw : Written ms) (h : Reconstructs fmt h ms) :
    Legible ms := by
  obtain ⟨entries, hok, hlength, hshown⟩ := h
  obtain ⟨hr, -, hjson⟩ := (processNewJson_ok_iff hw.no_header).mp hok
  have hlen : (tagsOf ms).length ≤ 2 ^ 32 - 1 := by
    rw [← hlength, processJson_length hjson, List.length_mapIdx]
    exact tags_length_le (Nat.zero_le _)
  obtain ⟨-, -, hrecorded, hentries⟩ := (processNewJson_iff hw hlen).mp hok
  refine ⟨hlen, fun t ht => hr _ (mem_tagsOf.mp ht), hrecorded, ?_⟩
  intro i e he
  have hi : i < (tagsOf ms).length := hw.entries i (List.ne_nil_of_mem he)
  have hindex := congrArg (·[i]?) hw.indices
  have heq : (tagsOf ms)[i].index = i := by simpa [hi] using hindex
  have hmem : (tagsOf ms)[i] ∈ tagsOf ms := List.getElem_mem hi
  obtain ⟨points, hpoints, hshows⟩ := hshown _ hmem
  rw [show entries = _ from hentries, getElem?_shown hw _ hmem] at hpoints
  obtain ⟨-, rfl⟩ := Prod.mk.inj (Option.some.inj hpoints)
  rw [heq, shows_points_iff] at hshows
  obtain ⟨htime, htimeouts, hcounts, herrors⟩ := (shows_iff _ _ _).mp (hshows e he)
  have hpositive := positive_of_readable hr he
  exact ⟨htime, htimeouts, fun p hp => ⟨hpositive p hp, hcounts p hp⟩, herrors⟩

theorem reconstructs_of_legible (hw : Written ms) (h : FileHeader) (hl : Legible ms) :
    Reconstructs fmt h ms := by
  refine ⟨_, (processNewJson_iff hw hl.array).mpr
    ⟨readable_of_legible hl, rfl, hl.recorded, rfl⟩, List.length_map .., ?_⟩
  intro t ht
  refine ⟨_, getElem?_shown hw _ ht, ?_⟩
  rw [shows_points_iff]
  intro e he
  have hentry := hl.entries _ e he
  exact (shows_iff _ _ _).mpr ⟨hentry.time, hentry.requestTimeouts,
    fun p hp => (hentry.statuses p hp).2, hentry.testErrors⟩

/-- The viewer shows what the load test wrote exactly when the file is legible. -/
theorem reconstructs_iff (hw : Written ms) (h : FileHeader) :
    Reconstructs fmt h ms ↔ Legible ms :=
  ⟨legible_of_reconstructs hw, reconstructs_of_legible hw h⟩

/-- A format that numbers the histograms. -/
def numberedFormat : HistogramFormat where
  encode h := String.ofList (List.replicate (Encodable.encode h + 1) 'h')
  decode s := if s = emptyHistogram then 0 else (Encodable.decode (s.length - 1)).getD 0
  round_trip h _ := by
    have hne : String.ofList (List.replicate (Encodable.encode h + 1) 'h') ≠ emptyHistogram := by
      intro heq
      have hmem : 'H' ∈ List.replicate (Encodable.encode h + 1) 'h' := by
        rw [← String.toList_ofList (l := List.replicate (Encodable.encode h + 1) 'h'), heq]
        decide
      exact absurd (List.eq_of_mem_replicate hmem) (by decide)
    rw [if_neg hne, String.length_ofList, List.length_replicate, Nat.add_sub_cancel,
      Encodable.encodek]
    rfl
  encode_ne h _ := by
    intro heq
    have hlength := congrArg String.length heq
    rw [String.length_ofList, List.length_replicate] at hlength
    exact absurd hlength (by simp)
  decode_empty := if_pos rfl

def getTags : Tags := [("_id", "0"), ("method", "GET"), ("url", "/")]

/-- The file of a test with one outcome of a request. -/
def fileOf (kind : StatKind) : List FileMessage :=
  [.tags ⟨0, getTags⟩, .buckets ((TimeBucket.new 600).append ⟨kind, none, getTags⟩ 0)]

theorem entriesAt_fileOf (kind : StatKind) (i : Nat) : entriesAt (fileOf kind) i =
    if i = 0 then [(600, BucketGroupStats.default.append ⟨kind, none, getTags⟩)] else [] := by
  have hentry : ((TimeBucket.new 600).append ⟨kind, none, getTags⟩ 0).entries[i]? =
      if i = 0 then some (BucketGroupStats.default.append ⟨kind, none, getTags⟩) else none := by
    rw [TimeBucket.append, ExtTreeMap.getElem?_alter]
    by_cases hi : i = 0
    · simp [hi, TimeBucket.new]
    · simp [hi, Ne.symm hi, TimeBucket.new]
  change entriesAt (_ :: [FileMessage.buckets _]) i = _
  rw [entriesAt_cons, entriesAt_buckets, hentry]
  by_cases hi : i = 0
  · simp [hi, entriesAt]
    rfl
  · simp [hi, entriesAt]

theorem written_fileOf (kind : StatKind) : Written (fileOf kind) := by
  refine ⟨by simp [fileOf], rfl, ?_⟩
  intro i hi
  rw [entriesAt_fileOf] at hi
  by_cases hzero : i = 0
  · rw [hzero]
    exact Nat.zero_lt_one
  · exact absurd (if_neg hzero) hi

/-- A connection error. -/
theorem reconstructs_fileOf_error : Reconstructs numberedFormat ⟨"load", "0.5.9", 60⟩
    (fileOf (.recoverableError (.other "refused"))) := by
  refine (reconstructs_iff (written_fileOf _) _).mpr ⟨by decide, ?_, ?_, ?_⟩
  · intro t ht
    obtain rfl : t = ⟨0, getTags⟩ := by simpa [fileOf, tagsOf] using ht
    exact ⟨by decide, by decide, by decide, by decide⟩
  · intro t ht
    obtain rfl : t = ⟨0, getTags⟩ := by simpa [fileOf, tagsOf] using ht
    simp [entriesAt_fileOf]
  · intro i e he
    rw [entriesAt_fileOf] at he
    by_cases hi : i = 0
    · obtain rfl : e = _ := by simpa [hi] using he
      refine ⟨by decide, rfl, fun p hp => ?_, fun p hp => ?_⟩
      · have hget := ExtTreeMap.mem_toList_iff_getElem?_eq_some.mp hp
        simp [BucketGroupStats.append, BucketGroupStats.default] at hget
      · have hone : p.2 = 1 := by
          have hget := ExtTreeMap.mem_toList_iff_getElem?_eq_some.mp hp
          simp only [BucketGroupStats.append, BucketGroupStats.default, getElem?_bump,
            ExtTreeMap.getElem?_empty, Option.merge_none_left] at hget
          split at hget
          · exact (Option.some.inj hget).symm
          · cases hget
        rw [hone]
        exact toNumber_of_lt (by decide)
    · simp [hi] at he

/-- A request timeout is in the file, and not in its data point. -/
theorem not_reconstructs_timeout : ¬ ∀ (fmt : HistogramFormat) (h : FileHeader)
    (ms : List FileMessage), Written ms → Reconstructs fmt h ms := by
  intro hall
  have hl := legible_of_reconstructs (written_fileOf (.recoverableError .timeout))
    (hall numberedFormat ⟨"load", "0.5.9", 60⟩ _ (written_fileOf _))
  have hentry := hl.entries 0 _ (by rw [entriesAt_fileOf]; exact List.mem_singleton_self _)
  exact absurd hentry.requestTimeouts (by decide)

end Pewpew.Viewer
