import Pewpew.Library.Accumulate
import Mathlib.Data.Multiset.AddSub
import Mathlib.Data.Multiset.Basic

/-! The time buckets of `stats.rs`: what one response adds to a bucket, and how buckets combine. -/
namespace Pewpew.StatsCollector

open Std Accumulate

/-- A `RecoverableError` as the statistics see it: `message` is its rendered text. -/
inductive RecoverableError where
  | timeout
  | other (message : String)
  deriving DecidableEq, Repr

inductive StatKind where
  | recoverableError (e : RecoverableError)
  | response (status : Nat)
  deriving DecidableEq, Repr

/-- The tags of an endpoint, sorted by name. -/
abbrev Tags := List (String × String)

structure ResponseStat where
  kind : StatKind
  rtt : Option Nat
  tags : Tags
  deriving DecidableEq, Repr

/-- The aggregates of one bucket group. The histogram is the multiset of recorded values. -/
structure BucketGroupStats where
  requestTimeouts : Nat
  rttHistogram : Multiset Nat
  statusCounts : ExtTreeMap Nat Nat
  testErrors : ExtTreeMap String Nat
  deriving DecidableEq

def BucketGroupStats.default : BucketGroupStats := ⟨0, 0, ∅, ∅⟩

def BucketGroupStats.append (b : BucketGroupStats) (stat : ResponseStat) : BucketGroupStats :=
  let b := match stat.kind with
    | .recoverableError .timeout => { b with requestTimeouts := b.requestTimeouts + 1 }
    | .recoverableError (.other msg) => { b with testErrors := bump (· + ·) b.testErrors msg 1 }
    | .response status => { b with statusCounts := bump (· + ·) b.statusCounts status 1 }
  match stat.rtt with
  | some rtt => { b with rttHistogram := b.rttHistogram + {rtt} }
  | none => b

def BucketGroupStats.combine (b rhs : BucketGroupStats) : BucketGroupStats where
  requestTimeouts := b.requestTimeouts + rhs.requestTimeouts
  rttHistogram := b.rttHistogram + rhs.rttHistogram
  statusCounts := merge (· + ·) b.statusCounts rhs.statusCounts
  testErrors := merge (· + ·) b.testErrors rhs.testErrors

/-- The statistics of all endpoints at one time. `appended` records the stats that a bucket
holds: nothing reads it. -/
structure TimeBucket where
  time : Nat
  entries : ExtTreeMap Nat BucketGroupStats
  appended : List ResponseStat

def TimeBucket.new (time : Nat) : TimeBucket := ⟨time, ∅, []⟩

def TimeBucket.append (b : TimeBucket) (stat : ResponseStat) (index : Nat) : TimeBucket where
  time := b.time
  entries := b.entries.alter index fun e => some ((e.getD .default).append stat)
  appended := b.appended ++ [stat]

def TimeBucket.combine (b rhs : TimeBucket) : TimeBucket where
  time := b.time
  entries := merge BucketGroupStats.combine b.entries rhs.entries
  appended := b.appended ++ rhs.appended

variable {b b₁ b₂ b₃ : BucketGroupStats} {stat : ResponseStat}

@[ext] theorem BucketGroupStats.ext' (ht : b₁.requestTimeouts = b₂.requestTimeouts)
    (hr : b₁.rttHistogram = b₂.rttHistogram) (hs : b₁.statusCounts = b₂.statusCounts)
    (he : b₁.testErrors = b₂.testErrors) : b₁ = b₂ := by
  cases b₁
  cases b₂
  simp_all

instance : Std.Associative BucketGroupStats.combine where
  assoc b₁ b₂ b₃ := by
    ext1
    · exact Nat.add_assoc _ _ _
    · exact Multiset.add_assoc _ _ _
    · exact merge_assoc
    · exact merge_assoc

/-- Appending a stat combines with the group that holds this stat alone. -/
theorem BucketGroupStats.append_eq_combine :
    b.append stat = b.combine (BucketGroupStats.default.append stat) := by
  obtain ⟨kind, rtt, tags⟩ := stat
  rcases kind with (_ | msg) | status <;> cases rtt <;>
    simp [append, combine, default, ← bump_eq_merge]

/-- Appending a stat to a bucket merges the group that holds this stat alone. -/
theorem TimeBucket.append_entries (b : TimeBucket) (index : Nat) :
    (b.append stat index).entries =
      bump BucketGroupStats.combine b.entries index (BucketGroupStats.default.append stat) := by
  refine congrArg (b.entries.alter index) (funext fun e => ?_)
  cases e with
  | none => rfl
  | some e => exact congrArg some BucketGroupStats.append_eq_combine

/-- The entries of a bucket to which stats are appended in order, under an assignment of
indices to tags. -/
def entriesOf (index : Tags → Nat) (stats : List ResponseStat) : ExtTreeMap Nat BucketGroupStats :=
  (stats.foldl (fun b stat => b.append stat (index stat.tags)) (TimeBucket.new 0)).entries

variable {index : Tags → Nat} {stats stats₁ stats₂ : List ResponseStat}

theorem foldl_append_entries (b : TimeBucket) :
    (stats.foldl (fun b stat => b.append stat (index stat.tags)) b).entries =
      merge BucketGroupStats.combine b.entries (entriesOf index stats) := by
  induction stats generalizing b with
  | nil => simp [entriesOf, TimeBucket.new]
  | cons stat stats ih =>
    have hone : (TimeBucket.append (.new 0) stat (index stat.tags)).entries =
        bump BucketGroupStats.combine ∅ (index stat.tags)
          (BucketGroupStats.default.append stat) := TimeBucket.append_entries _ _
    rw [entriesOf, List.foldl_cons, List.foldl_cons, ih, ih, TimeBucket.append_entries, hone,
      bump_eq_merge, merge_assoc]

/-- Appending two lists of stats combines their buckets. -/
theorem entriesOf_append : entriesOf index (stats₁ ++ stats₂) =
    merge BucketGroupStats.combine (entriesOf index stats₁) (entriesOf index stats₂) := by
  rw [entriesOf, List.foldl_append, foldl_append_entries]
  rfl

/-- The statistics of one tag group: its stats appended in order. -/
def groupOf (tags : Tags) (stats : List ResponseStat) : BucketGroupStats :=
  (stats.filter (·.tags = tags)).foldl BucketGroupStats.append .default

theorem foldl_append_getElem? (b : TimeBucket) (i : Nat) :
    (stats.foldl (fun b stat => b.append stat (index stat.tags)) b).entries[i]? =
      (stats.filter fun s => index s.tags = i).foldl
        (fun e stat => some ((e.getD .default).append stat)) b.entries[i]? := by
  induction stats generalizing b with
  | nil => rfl
  | cons stat stats ih =>
    rw [List.foldl_cons, ih, TimeBucket.append, ExtTreeMap.getElem?_alter]
    by_cases h : index stat.tags = i
    · simp [h]
    · simp [h]

theorem foldl_some_append (stats : List ResponseStat) (e : BucketGroupStats) :
    stats.foldl (fun e stat => some ((e.getD .default).append stat)) (some e) =
      some (stats.foldl BucketGroupStats.append e) := by
  induction stats generalizing e with
  | nil => rfl
  | cons stat stats ih => exact ih _

/-- A tag group that no other tags share the index of is found under its index. -/
theorem entriesOf_getElem? {tags : Tags}
    (hi : ∀ s ∈ stats, index s.tags = index tags → s.tags = tags)
    (hm : ∃ s ∈ stats, s.tags = tags) :
    (entriesOf index stats)[index tags]? = some (groupOf tags stats) := by
  have hfilter : stats.filter (fun s => index s.tags = index tags) =
      stats.filter (·.tags = tags) :=
    List.filter_congr fun s hs => by
      simp only [decide_eq_decide]
      exact ⟨hi s hs, fun h => by rw [h]⟩
  obtain ⟨s, hs, htags⟩ := hm
  have hne : stats.filter (·.tags = tags) ≠ [] :=
    List.ne_nil_of_mem (List.mem_filter.mpr ⟨hs, by simpa using htags⟩)
  obtain ⟨first, rest, hcons⟩ := List.exists_cons_of_ne_nil hne
  rw [entriesOf, foldl_append_getElem?, hfilter, groupOf, hcons, List.foldl_cons,
    foldl_some_append]
  simp [TimeBucket.new]

end Pewpew.StatsCollector
