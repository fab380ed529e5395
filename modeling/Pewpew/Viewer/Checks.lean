import Pewpew.Viewer.Model
import Mathlib.Data.List.TakeWhile
import Mathlib.Tactic.Basic

/-! The messages of the stats writer under the checks of the viewer. -/
namespace Pewpew.Viewer

open Std Accumulate StatsCollector

variable {fmt : HistogramFormat} {m : FileMessage} {s s' : State}

/-- Tags that pass the viewer's checks. -/
structure LegibleTags (tags : Tags) : Prop where
  id : (tags.lookup "_id").isSome
  method : (tags.lookup "method").isSome
  url : (tags.lookup "url").isSome
  no_method : tags.lookup "hasOwnProperty" = none

/-! ### Numbers -/

theorem toNumber_of_lt {n : Nat} (h : n < 2 ^ 53) : toNumber n = n := by
  have hunit : 2 ^ (Nat.log2 n + 1 - 53) = 1 := by
    rcases Nat.eq_zero_or_pos n with rfl | hpos
    · rfl
    · have hlog : n.log2 < 53 := (Nat.log2_lt hpos.ne').mpr h
      rw [show n.log2 + 1 - 53 = 0 by omega, pow_zero]
  have hexact : ¬ (1 < 2 * (n % 1) ∨ 1 = 2 * (n % 1) ∧ n / 1 % 2 = 1) := by omega
  rw [toNumber, hunit, if_neg hexact, Nat.div_one, mul_one]

theorem parseInt_toString (n : Nat) : parseInt (toString n) = some n := by
  have hdigits : ∀ c ∈ Nat.toDigits 10 n, c.isDigit := fun c hc =>
    Nat.isDigit_of_mem_toDigits (by decide) (by decide) hc
  have hwhile : (toString n).toList.takeWhile (·.isDigit) = Nat.toDigits 10 n := by
    rw [Nat.toString_eq_ofList_toDigits, String.toList_ofList]
    exact List.takeWhile_eq_self_iff.mpr hdigits
  have hvalue : Nat.ofDigitChars 10 (Nat.toDigits 10 n) 0 = n := Nat.ofDigitChars_ten_toDigits
  rw [parseInt, hwhile]
  cases hd : Nat.toDigits 10 n with
  | nil => exact absurd hd Nat.toDigits_ne_nil
  | cons c cs =>
    rw [hd] at hvalue
    exact congrArg some hvalue

theorem dateOfSeconds_iff {time : Nat} :
    dateOfSeconds (toNumber time) = some (time * 1000) ↔ time ≤ 8640000000000 := by
  constructor
  · intro h
    unfold dateOfSeconds date at h
    split at h
    · have heq := Option.some.inj h
      omega
    · cases h
  · intro h
    rw [toNumber_of_lt (by omega), dateOfSeconds, toNumber_of_lt (by omega), date,
      if_pos (by omega)]

/-! ### The checks of a written message -/

theorem lookup_skipIf (skip : Bool) (key k : String) (v : Value) :
    (skipIf skip key v).lookup k = if k = key ∧ skip = false then some v else none := by
  unfold skipIf
  cases skip with
  | true => simp
  | false =>
    by_cases hk : k = key
    · simp [hk]
    · have hne : (k == key) = false := by simpa using hk
      simp [List.lookup_cons, hk, hne]

theorem lookup_tagsJson (tags : Tags) (k : String) :
    (tagsJson tags).lookup k = (tags.lookup k).map .string := by
  induction tags with
  | nil => rfl
  | cons p tags ih =>
    obtain ⟨name, value⟩ := p
    simp only [tagsJson, List.map_cons, List.lookup_cons]
    cases k == name with
    | true => rfl
    | false => exact ih

/-- The properties of a serialized group. -/
def groupProperties (fmt : HistogramFormat) (b : BucketGroupStats) : Properties :=
  skipIf (b.requestTimeouts = 0) "requestTimeouts" (.ofNat b.requestTimeouts) ++
    skipIf (b.rttHistogram = 0) "rttHistogram" (.string (fmt.encode b.rttHistogram)) ++
    skipIf b.statusCounts.isEmpty "statusCounts" (counts (statuses b)) ++
    skipIf b.testErrors.isEmpty "testErrors" (counts b.testErrors.toList)

theorem isHeader_tags (t : FileTags) : isHeader (messageJson fmt (.tags t)) = .ok false := by
  rfl

theorem isHeader_buckets (b : TimeBucket) :
    isHeader (messageJson fmt (.buckets b)) = .ok false := by
  rfl

theorem isTags_buckets (b : TimeBucket) : isTags (messageJson fmt (.buckets b)) = .ok false := by
  rfl

theorem isBuckets_tags (t : FileTags) : isBuckets (messageJson fmt (.tags t)) = .ok false := by
  rfl

theorem isTags_tags (t : FileTags) : isTags (messageJson fmt (.tags t)) =
    if (t.tags.lookup "hasOwnProperty").isSome then .error .typeError
    else .ok ((t.tags.lookup "_id").isSome && (t.tags.lookup "method").isSome &&
      (t.tags.lookup "url").isSome) := by
  have hstrings : (tagsJson t.tags).all (fun p => p.2.typeOf = "string") = true := by
    simp [tagsJson, Value.typeOf]
  have hown (key : String) : hasOwnProperty (tagsJson t.tags) key =
      if (t.tags.lookup "hasOwnProperty").isSome then .error .typeError
      else .ok (t.tags.lookup key).isSome := by
    simp only [hasOwnProperty, lookup_tagsJson, Option.isSome_map]
  have hindex : (messageJson fmt (.tags t)).lookup "index" = some (.ofNat t.index) := rfl
  have htags : (messageJson fmt (.tags t)).lookup "tags" = some (.object (tagsJson t.tags)) := rfl
  have hnumber : (some (Value.ofNat t.index)).any (fun v => v.typeOf = "number") = true := rfl
  rw [isTags, hindex, if_pos hnumber, htags]
  simp only [hstrings, hown]
  cases (t.tags.lookup "hasOwnProperty").isSome <;> rfl

/-- Every status of a group is positive. -/
def PositiveStatuses (b : BucketGroupStats) : Prop := ∀ p ∈ b.statusCounts.toList, 0 < p.1

instance (b : BucketGroupStats) : Decidable (PositiveStatuses b) :=
  inferInstanceAs (Decidable (∀ p ∈ b.statusCounts.toList, 0 < p.1))

theorem isTestErrors_counts (m : List (String × Nat)) : isTestErrors (counts m) = true := by
  simp [isTestErrors, counts, Value.ofNat, Value.typeOf]

theorem isStatusCounts_counts (b : BucketGroupStats) :
    isStatusCounts (counts (statuses b)) = decide (PositiveStatuses b) := by
  rw [Bool.eq_iff_iff, decide_eq_true_iff, PositiveStatuses, counts, statuses, isStatusCounts,
    List.map_map, List.all_map, List.all_eq_true]
  refine forall₂_congr fun p _ => ?_
  simp only [Function.comp, parseInt_toString, Value.ofNat, Value.typeOf]
  simp

theorem hasOwnProperty_group (b : BucketGroupStats) (key : String) :
    hasOwnProperty (groupProperties fmt b) key =
      .ok ((groupProperties fmt b).lookup key).isSome := by
  simp [hasOwnProperty, groupProperties, List.lookup_append, lookup_skipIf]

theorem ownFails_group (b : BucketGroupStats) (key : String) (check : Value → Bool) :
    ownFails (groupProperties fmt b) key check =
      .ok !((groupProperties fmt b).lookup key).all check := by
  rw [ownFails, hasOwnProperty_group]
  cases (groupProperties fmt b).lookup key <;> rfl

theorem lookup_requestTimeouts (fmt : HistogramFormat) (b : BucketGroupStats) :
    (groupProperties fmt b).lookup "requestTimeouts" =
      if b.requestTimeouts = 0 then none else some (.ofNat b.requestTimeouts) := by
  simp [groupProperties, List.lookup_append, lookup_skipIf]

theorem lookup_rttHistogram (fmt : HistogramFormat) (b : BucketGroupStats) :
    (groupProperties fmt b).lookup "rttHistogram" =
      if b.rttHistogram = 0 then none else some (.string (fmt.encode b.rttHistogram)) := by
  simp [groupProperties, List.lookup_append, lookup_skipIf]

theorem lookup_statusCounts (fmt : HistogramFormat) (b : BucketGroupStats) :
    (groupProperties fmt b).lookup "statusCounts" =
      if b.statusCounts.isEmpty then none else some (counts (statuses b)) := by
  simp [groupProperties, List.lookup_append, lookup_skipIf]

theorem lookup_testErrors (fmt : HistogramFormat) (b : BucketGroupStats) :
    (groupProperties fmt b).lookup "testErrors" =
      if b.testErrors.isEmpty then none else some (counts b.testErrors.toList) := by
  simp [groupProperties, List.lookup_append, lookup_skipIf]

/-- A serialized entry passes the viewer's check where its statuses are positive. -/
theorem isTimeBucketEntry_group (b : BucketGroupStats) :
    isTimeBucketEntry (groupJson fmt b) = .ok (decide (PositiveStatuses b)) := by
  have hhistogram : ((groupProperties fmt b).lookup "rttHistogram").all
      (fun v => v.typeOf = "string") = true := by
    rw [lookup_rttHistogram]
    split <;> rfl
  have htimeouts : ((groupProperties fmt b).lookup "requestTimeouts").all
      (fun v => v.typeOf = "number") = true := by
    rw [lookup_requestTimeouts]
    split <;> rfl
  have herrors : ((groupProperties fmt b).lookup "testErrors").all isTestErrors = true := by
    rw [lookup_testErrors]
    split
    · rfl
    · exact isTestErrors_counts _
  have hstatuses : ((groupProperties fmt b).lookup "statusCounts").all isStatusCounts =
      decide (PositiveStatuses b) := by
    rw [lookup_statusCounts]
    split
    · rename_i hempty
      have hnone : b.statusCounts = ∅ := by simpa using hempty
      simp [PositiveStatuses, hnone]
    · exact isStatusCounts_counts b
  change isTimeBucketEntry (.object (groupProperties fmt b)) = _
  simp only [isTimeBucketEntry, ownFails_group, hhistogram, htimeouts, herrors, hstatuses]
  cases decide (PositiveStatuses b) <;> rfl

/-- The entries of a bucket pass their check where all statuses are positive. -/
theorem isEntries_entries (l : List (Nat × BucketGroupStats)) :
    isEntries (.object (l.map fun p => (toString p.1, groupJson fmt p.2))) =
      .ok (decide (∀ p ∈ l, PositiveStatuses p.2)) := by
  unfold isEntries
  induction l with
  | nil => rfl
  | cons p l ih =>
    simp only [List.map_cons, List.allM_cons, isTimeBucketEntry_group]
    by_cases hp : PositiveStatuses p.2
    · simp only [hp, decide_true, List.forall_mem_cons, true_and] at ih ⊢
      exact ih
    · simp only [hp, decide_false, List.forall_mem_cons, false_and]
      rfl

theorem isBuckets_iff {n : Nat} {entries : Value} {ok : Bool} (h : isEntries entries = .ok ok) :
    isBuckets [("time", .ofNat n), ("entries", entries)] = .ok ok := by
  have hfailure : (CheckType.function isEntries).failure "entries" entries =
      .ok (if ok then none else some "property \"entries\" did not pass check") := by
    rw [CheckType.failure, h]
    rfl
  have hfirst : firstFailure [("time", .type "number"), ("entries", .function isEntries)] none
      [("time", .ofNat n), ("entries", entries)] =
      .ok (if ok then none else some "property \"entries\" did not pass check") := by
    have htime : valueChecker ([("time", CheckType.type "number"),
        ("entries", .function isEntries)].lookup "time") none "time" (.ofNat n) = .ok none := rfl
    have hentries : valueChecker ([("time", CheckType.type "number"),
        ("entries", .function isEntries)].lookup "entries") none "entries" entries =
        .ok (if ok then none else some "property \"entries\" did not pass check") := hfailure
    simp only [firstFailure, htime, hentries]
    cases ok <;> rfl
  rw [isBuckets, propertyChecker, hfirst]
  cases ok <;> rfl

theorem isBuckets_buckets (b : TimeBucket) : isBuckets (messageJson fmt (.buckets b)) =
    .ok (decide (∀ p ∈ b.entries.toList, PositiveStatuses p.2)) :=
  isBuckets_iff (isEntries_entries b.entries.toList)

/-- The data points of groups are pushed under their indices. -/
def pushGroups (fmt : HistogramFormat) (time bucketSize : Nat)
    (data : ExtTreeMap Nat (List DataPointPreProcessed)) (l : List (Nat × BucketGroupStats)) :
    ExtTreeMap Nat (List DataPointPreProcessed) :=
  l.foldl (fun data p =>
    bump (· ++ ·) data p.1 [dataPoint time bucketSize (groupProperties fmt p.2)]) data

theorem pushEntries_entries (time bucketSize : Nat)
    (data : ExtTreeMap Nat (List DataPointPreProcessed)) (l : List (Nat × BucketGroupStats)) :
    pushEntries time bucketSize data (l.map fun p => (toString p.1, groupJson fmt p.2)) =
      pushGroups fmt time bucketSize data l := by
  rw [pushEntries, pushGroups, List.foldl_map]
  congr 1
  funext data p
  rw [parseInt_toString]
  rfl

/-- A message that passes the viewer's checks. -/
def Readable : FileMessage → Prop
  | .header _ => True
  | .tags t => LegibleTags t.tags
  | .buckets b => ∀ p ∈ b.entries.toList, PositiveStatuses p.2

/-- What a readable message does to the state of the loop. -/
def State.after (fmt : HistogramFormat) (s : State) : FileMessage → State
  | .header h => { s with testName := some h.test, bucketSize := toNumber h.bucketSize }
  | .tags t => { s with tags := setIndex s.tags (toNumber t.index) (tagsJson t.tags) }
  | .buckets b =>
    { s with data := pushGroups fmt (toNumber b.time) s.bucketSize s.data b.entries.toList }

theorem next_header (h : FileHeader) :
    s.next (messageJson fmt (.header h)) = .ok (s.after fmt (.header h)) := by
  rfl

theorem next_tags_iff (t : FileTags) : s.next (messageJson fmt (.tags t)) = .ok s' ↔
    LegibleTags t.tags ∧ s' = s.after fmt (.tags t) := by
  rw [State.next, checkNewJsonEntry, isHeader_tags, isTags_tags, isBuckets_tags]
  cases hmethod : t.tags.lookup "hasOwnProperty" with
  | some v =>
    have hno : ¬ LegibleTags t.tags := fun hl => by simpa [hmethod] using hl.no_method
    simp only [hno, false_and, iff_false]
    intro h
    cases h
  | none =>
    have hl : LegibleTags t.tags ↔ ((t.tags.lookup "_id").isSome &&
        (t.tags.lookup "method").isSome && (t.tags.lookup "url").isSome) = true := by
      simp only [Bool.and_eq_true]
      exact ⟨fun h => ⟨⟨h.id, h.method⟩, h.url⟩, fun h => ⟨h.1.1, h.1.2, h.2, hmethod⟩⟩
    rw [hl]
    generalize ((t.tags.lookup "_id").isSome && (t.tags.lookup "method").isSome &&
        (t.tags.lookup "url").isSome) = ok
    cases ok with
    | false =>
      simp only [Bool.false_eq_true, false_and, iff_false]
      intro h
      cases h
    | true =>
      simp only [true_and]
      exact ⟨fun h => (Except.ok.inj h).symm, fun h => h ▸ rfl⟩

theorem next_buckets_iff (b : TimeBucket) : s.next (messageJson fmt (.buckets b)) = .ok s' ↔
    (∀ p ∈ b.entries.toList, PositiveStatuses p.2) ∧ s' = s.after fmt (.buckets b) := by
  have hcheck : checkNewJsonEntry (messageJson fmt (.buckets b)) =
      .ok (decide (∀ p ∈ b.entries.toList, PositiveStatuses p.2)) := by
    rw [checkNewJsonEntry, isHeader_buckets, isTags_buckets, isBuckets_buckets]
    rfl
  rw [State.next, hcheck]
  by_cases hpos : ∀ p ∈ b.entries.toList, PositiveStatuses p.2
  · rw [decide_eq_true hpos]
    rw [and_iff_right hpos, State.after, ← pushEntries_entries]
    exact ⟨fun h => (Except.ok.inj h).symm, fun h => h ▸ rfl⟩
  · rw [decide_eq_false hpos]
    simp only [hpos, false_and, iff_false]
    intro h
    cases h

theorem next_iff : s.next (messageJson fmt m) = .ok s' ↔ Readable m ∧ s' = s.after fmt m := by
  cases m with
  | header h =>
    rw [next_header, Except.ok.injEq]
    exact ⟨fun h => ⟨trivial, h.symm⟩, fun h => h.2.symm⟩
  | tags t => exact next_tags_iff t
  | buckets b => exact next_buckets_iff b

end Pewpew.Viewer
