import Pewpew.Viewer.Reconstruction
import Mathlib.Algebra.BigOperators.Group.List.Basic

/-! `mergeAllDataPoints`: the data points of many endpoints as one for each time. -/
namespace Pewpew.Viewer

/-- The sum of two numbers of JavaScript. -/
def addNumbers (a b : Nat) : Nat := toNumber (a + b)

/-- The number of a property, or 0 where there is none. -/
def count (counts : List (String × Nat)) (key : String) : Nat := (counts.lookup key).getD 0

/-- An assignment to a property. -/
def setCount : List (String × Nat) → String → Nat → List (String × Nat)
  | [], key, n => [(key, n)]
  | (k, m) :: counts, key, n =>
    if k = key then (k, n) :: counts else (k, m) :: setCount counts key n

/-- A loop of `mergeInto` over the keys of the other object. -/
def mergeCounts (this other : List (String × Nat)) : List (String × Nat) :=
  (other.map Prod.fst).foldl
    (fun this key => setCount this key (addNumbers (count this key) (count other key))) this

def DataPoint.mergeInto (this other : DataPoint) : DataPoint :=
  { this with
    requestTimeouts := addNumbers this.requestTimeouts other.requestTimeouts
    rttHistogram := this.rttHistogram + other.rttHistogram
    statusCounts := mergeCounts this.statusCounts other.statusCounts
    testErrors := mergeCounts this.testErrors other.testErrors }

/-- A data point comes to the one of its time, or becomes the last entry of `combinedData`. -/
def combine (combinedData : List DataPoint) (dp : DataPoint) : List DataPoint :=
  match combinedData with
  | [] => [dp]
  | dp2 :: rest => if dp2.time = dp.time then dp2.mergeInto dp :: rest else dp2 :: combine rest dp

/-- The order in which data points are sorted. A date that is not valid may come anywhere. -/
def notLater (a b : DataPoint) : Bool := a.time.getD 0 ≤ b.time.getD 0

/-- The entries of `combinedData` in the order of their times. -/
def mergeAllDataPoints (dataPoints : List DataPoint) : List DataPoint :=
  (dataPoints.foldl combine []).mergeSort notLater

variable {counts this other : List (String × Nat)} {key k : String} {n : Nat}
  {l points : List DataPoint} {p q dp : DataPoint} {M : Type*}

/-! ### Counts -/

@[simp] theorem count_nil : count [] k = 0 := rfl

theorem count_cons : count ((key, n) :: counts) k = if k = key then n else count counts k := by
  by_cases h : k = key
  · simp [count, h]
  · have hne : (k == key) = false := by simpa using h
    rw [count, List.lookup_cons, hne, if_neg h]
    rfl

theorem count_setCount :
    count (setCount counts key n) k = if k = key then n else count counts k := by
  induction counts with
  | nil => rw [setCount, count_cons]
  | cons entry counts ih =>
    obtain ⟨k', m⟩ := entry
    rw [setCount]
    by_cases hk' : k' = key
    · rw [if_pos hk', count_cons, count_cons, hk']
      split <;> rfl
    · rw [if_neg hk', count_cons, count_cons, ih]
      by_cases h : k = key
      · rw [if_neg (h.trans_ne (Ne.symm hk')), if_pos h, if_pos h]
      · simp only [if_neg h]

/-- Merging adds up the numbers of each key, where their sum is exact. -/
theorem count_mergeCounts (hkeys : (other.map Prod.fst).Nodup)
    (hsum : count this k + count other k < 2 ^ 53) :
    count (mergeCounts this other) k = count this k + count other k := by
  have hloop : ∀ (keys : List String) (this : List (String × Nat)), keys.Nodup →
      count (keys.foldl (fun this key =>
        setCount this key (addNumbers (count this key) (count other key))) this) k =
        if k ∈ keys then addNumbers (count this k) (count other k) else count this k := by
    intro keys
    induction keys with
    | nil => intro this _; rfl
    | cons key keys ih =>
      intro this hnodup
      obtain ⟨hkey, hnodup⟩ := List.nodup_cons.mp hnodup
      rw [List.foldl_cons, ih _ hnodup, count_setCount]
      by_cases h : k = key
      · simp [h, hkey]
      · simp [h]
  rw [mergeCounts, hloop _ _ hkeys]
  split
  · exact toNumber_of_lt hsum
  · next hnone =>
    have hzero : other.lookup k = none := by
      rw [List.lookup_eq_none_iff]
      intro entry hentry
      have hne : k ≠ entry.1 := fun heq => hnone (heq ▸ List.mem_map_of_mem hentry)
      simpa using hne
    rw [count.eq_def other, hzero, Option.getD_none, Nat.add_zero]

/-! ### Merged data points -/

/-- Merging adds up a measure of the data points of one time, where the sum is fine. -/
def Adds [Add M] (f : DataPoint → M) (fine : M → Prop) (q : DataPoint) : Prop :=
  ∀ p : DataPoint, p.time = q.time → fine (f p + f q) → f (p.mergeInto q) = f p + f q

theorem adds_statusCounts (key : String) (hq : (q.statusCounts.map Prod.fst).Nodup) :
    Adds (fun p : DataPoint => count p.statusCounts key) (· < 2 ^ 53) q :=
  fun _ _ => count_mergeCounts hq

theorem adds_testErrors (key : String) (hq : (q.testErrors.map Prod.fst).Nodup) :
    Adds (fun p : DataPoint => count p.testErrors key) (· < 2 ^ 53) q :=
  fun _ _ => count_mergeCounts hq

theorem adds_rttHistogram : Adds DataPoint.rttHistogram (fun _ => True) q := fun _ _ _ => rfl

section Sums

variable [AddCommMonoid M] {f : DataPoint → M} {fine : M → Prop}

theorem sum_combine (hfine : ∀ a b, fine (a + b) → fine a) (hadds : Adds f fine dp)
    (hsum : fine ((l.map f).sum + f dp)) : ((combine l dp).map f).sum = (l.map f).sum + f dp := by
  induction l with
  | nil => simp [combine]
  | cons dp2 l ih =>
    rw [List.map_cons, List.sum_cons] at hsum ⊢
    rw [combine]
    split
    · next htime =>
      have hboth : f dp2 + (l.map f).sum + f dp = (f dp2 + f dp) + (l.map f).sum :=
        add_right_comm ..
      rw [hboth] at hsum ⊢
      rw [List.map_cons, List.sum_cons, hadds dp2 htime (hfine _ _ hsum)]
    · have hrest : f dp2 + (l.map f).sum + f dp = ((l.map f).sum + f dp) + f dp2 := by
        rw [add_assoc, add_comm]
      rw [hrest] at hsum ⊢
      rw [List.map_cons, List.sum_cons, ih (hfine _ _ hsum), add_comm]

theorem sum_foldl_combine (hfine : ∀ a b, fine (a + b) → fine a)
    (hadds : ∀ q ∈ points, Adds f fine q) (hsum : fine ((l.map f).sum + (points.map f).sum)) :
    ((points.foldl combine l).map f).sum = (l.map f).sum + (points.map f).sum := by
  induction points generalizing l with
  | nil => simp
  | cons q points ih =>
    obtain ⟨hq, hadds⟩ := List.forall_mem_cons.mp hadds
    rw [List.map_cons, List.sum_cons, ← add_assoc] at hsum ⊢
    have hone := sum_combine hfine hq (hfine _ _ hsum)
    rw [List.foldl_cons, ih hadds (by rwa [hone]), hone]

/-- What the data points of one time come to. -/
def atTime (t : Date) (f : DataPoint → M) (p : DataPoint) : M := if p.time = t then f p else 0

theorem adds_atTime (t : Date) (h : Adds f fine q) : Adds (atTime t f) fine q := by
  intro p htime hsum
  have hmerged : (p.mergeInto q).time = p.time := rfl
  simp only [atTime, hmerged, htime] at hsum ⊢
  split at hsum
  · next hq =>
    rw [if_pos hq, if_pos hq, if_pos hq] at *
    exact h p htime hsum
  · next hq =>
    rw [if_neg hq, if_neg hq, if_neg hq, add_zero]

/-- What all merged data points come to is what all data points come to. -/
theorem sum_mergeAllDataPoints (hfine : ∀ a b, fine (a + b) → fine a)
    (hadds : ∀ q ∈ points, Adds f fine q) (hsum : fine (points.map f).sum) :
    ((mergeAllDataPoints points).map f).sum = (points.map f).sum := by
  rw [mergeAllDataPoints, ((List.mergeSort_perm _ _).map f).sum_eq,
    sum_foldl_combine hfine hadds (by simpa using hsum)]
  simp

end Sums

/-! ### The times -/

theorem mem_combine_time {t : Date} :
    t ∈ (combine l dp).map DataPoint.time ↔ t ∈ l.map DataPoint.time ∨ t = dp.time := by
  induction l with
  | nil => simp [combine]
  | cons dp2 l ih =>
    rw [combine]
    split
    · next htime =>
      rw [List.map_cons, List.map_cons, ← htime]
      simp only [DataPoint.mergeInto, List.mem_cons]
      tauto
    · rw [List.map_cons, List.mem_cons, ih, List.map_cons, List.mem_cons, or_assoc]

theorem nodup_combine (h : (l.map DataPoint.time).Nodup) :
    ((combine l dp).map DataPoint.time).Nodup := by
  induction l with
  | nil => simp [combine]
  | cons dp2 l ih =>
    obtain ⟨hhead, htail⟩ := List.nodup_cons.mp h
    rw [combine]
    split
    · exact h
    · next htime =>
      refine List.nodup_cons.mpr ⟨fun hmem => ?_, ih htail⟩
      rcases mem_combine_time.mp hmem with hmem | heq
      · exact hhead hmem
      · exact htime heq

theorem times_foldl_combine (h : (l.map DataPoint.time).Nodup) :
    ((points.foldl combine l).map DataPoint.time).Nodup ∧
      ∀ t, t ∈ (points.foldl combine l).map DataPoint.time ↔
        t ∈ l.map DataPoint.time ∨ t ∈ points.map DataPoint.time := by
  induction points generalizing l with
  | nil => exact ⟨h, fun t => by simp⟩
  | cons q points ih =>
    obtain ⟨hnodup, hmem⟩ := ih (nodup_combine h)
    refine ⟨hnodup, fun t => ?_⟩
    rw [List.foldl_cons, hmem, mem_combine_time, List.map_cons, List.mem_cons, or_assoc]

theorem notLater_trans (a b c : DataPoint) (hab : notLater a b = true)
    (hbc : notLater b c = true) : notLater a c = true :=
  decide_eq_true ((of_decide_eq_true hab).trans (of_decide_eq_true hbc))

theorem notLater_total (a b : DataPoint) : (notLater a b || notLater b a) = true := by
  simp only [notLater, Bool.or_eq_true, decide_eq_true_eq]
  omega

/-- Among data points with valid dates there is one for each time, in the order of the times. -/
theorem times_mergeAllDataPoints (hvalid : ∀ p ∈ points, p.time.isSome = true) :
    (mergeAllDataPoints points).Pairwise (fun a b => a.time.getD 0 < b.time.getD 0) ∧
      ∀ t, t ∈ (mergeAllDataPoints points).map DataPoint.time ↔
        t ∈ points.map DataPoint.time := by
  have hempty : (([] : List DataPoint).map DataPoint.time).Nodup := List.nodup_nil
  obtain ⟨hnodup, hmem⟩ :
      ((points.foldl combine []).map DataPoint.time).Nodup ∧ _ := times_foldl_combine hempty
  have hperm := List.mergeSort_perm (points.foldl combine []) notLater
  have hmerged : ∀ t, t ∈ (mergeAllDataPoints points).map DataPoint.time ↔
      t ∈ points.map DataPoint.time := by
    intro t
    rw [mergeAllDataPoints, (hperm.map _).mem_iff, hmem]
    simp
  refine ⟨?_, hmerged⟩
  have hsorted : (mergeAllDataPoints points).Pairwise fun a b =>
      a.time.getD 0 ≤ b.time.getD 0 := by
    have hpairwise := List.pairwise_mergeSort notLater_trans notLater_total
      (points.foldl combine [])
    exact hpairwise.imp fun h => of_decide_eq_true h
  have hdistinct : ((mergeAllDataPoints points).map DataPoint.time).Nodup :=
    ((hperm.map _).nodup_iff).mpr hnodup
  rw [List.Nodup, List.pairwise_map] at hdistinct
  refine (hsorted.and hdistinct).imp_of_mem fun {a b} ha hb h => ?_
  have hsome : ∀ p ∈ mergeAllDataPoints points, ∃ ms, p.time = some ms := by
    intro p hp
    obtain ⟨q, hq, htime⟩ := List.mem_map.mp ((hmerged p.time).mp (List.mem_map_of_mem hp))
    rw [← htime]
    exact Option.isSome_iff_exists.mp (hvalid q hq)
  obtain ⟨t, ht⟩ := hsome a ha
  obtain ⟨u, hu⟩ := hsome b hb
  rw [ht, hu] at h ⊢
  have hne : t ≠ u := fun heq => h.2 (congrArg some heq)
  simp only [Option.getD_some] at h ⊢
  omega

end Pewpew.Viewer
