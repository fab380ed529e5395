import Pewpew.LoadPattern.Model
import Mathlib.Tactic.Linarith
import Mathlib.Tactic.Positivity
import Mathlib.Tactic.Ring

/-! When the next request starts, compared with the segment that the elapsed time falls into. -/
namespace Pewpew.LoadPattern

variable {Line : Type} {hps : Rate Line} {m : ModInterval Line} {s : StreamState Line}
  {segments rest : List (LinearSegment Line)} {segment : LinearSegment Line}
  {startAt now t x : ℚ} {ts : List ℚ}

/-- One interval of the rate at the offset `x` of a segment; a rate of zero waits for the
segment's end, if it is not the last. -/
def startAfter (hps : Rate Line) (t : ℚ) :
    LinearSegment Line × ℚ × List (LinearSegment Line) → Option ℚ
  | (segment, x, rest) =>
    if 0 < hps segment x then some (t + 1 / hps segment x)
    else if rest = [] then none
    else some (t + (segment.duration - x))

/-- The start that follows the instant `t`: its elapsed time selects the segment. -/
def ModInterval.expected (hps : Rate Line) (m : ModInterval Line) (startAt now t : ℚ) : Option ℚ :=
  ((Timeline.locate LinearSegment.duration m.segments (t - (now - startAt))).bind
    (startAfter hps t)).filter (· ≤ now + m.duration)

/-- Calls at the instants `ts`, made on the state that the first poll sets up, answer the
expected starts and do not panic. -/
def ModInterval.FollowsPattern (hps : Rate Line) (m : ModInterval Line) (startAt now : ℚ)
    (ts : List ℚ) : Prop :=
  ∀ s ∈ m.setup startAt now, s.calls hps ts = some (ts.map (m.expected hps startAt now))

instance (hps : Rate Line) (m : ModInterval Line) (startAt now : ℚ) (ts : List ℚ) :
    Decidable (m.FollowsPattern hps startAt now ts) :=
  inferInstanceAs (Decidable (∀ s ∈ _, _))

/-- How many segments end at or before the elapsed time. -/
abbrev ModInterval.index (m : ModInterval Line) (elapsed : ℚ) : Nat :=
  Timeline.index LinearSegment.duration m.segments elapsed

/-- No call skips a segment: each falls into the segment of the call before or into the one
after it, or past the stream's end when that one is the last. `k` counts the segments that
ended before the previous call. -/
def ModInterval.NoneSkipped (m : ModInterval Line) (startAt now : ℚ) : Nat → List ℚ → Prop
  | _, [] => True
  | k, t :: ts =>
    (m.index (t - (now - startAt)) ≤ k + 1 ∨ now + m.duration ≤ t ∧ k + 2 = m.segments.length) ∧
      m.NoneSkipped startAt now (min (m.index (t - (now - startAt))) (m.segments.length - 1)) ts

instance (m : ModInterval Line) (startAt now : ℚ) :
    (k : Nat) → (ts : List ℚ) → Decidable (m.NoneSkipped startAt now k ts)
  | _, [] => .isTrue trivial
  | _, t :: ts =>
    have := instDecidableNoneSkipped m startAt now
      (min (m.index (t - (now - startAt))) (m.segments.length - 1)) ts
    inferInstanceAs (Decidable (_ ∧ _))

/-! ### The expected starts -/

theorem durations_nonneg (segments : List (LinearSegment Line)) :
    ∀ b ∈ segments, 0 ≤ LinearSegment.duration b := fun b _ => b.duration_nonneg

/-- At or past the end of all segments nothing starts. -/
theorem expected_past (h : total m.segments ≤ t - (now - startAt)) :
    m.expected hps startAt now t = none := by
  rw [ModInterval.expected,
    (Timeline.locate_eq_none_iff (durations_nonneg _)).mpr (.inr h)]
  rfl

/-- Inside a segment its rate at the offset counts. -/
theorem expected_within {pre : List (LinearSegment Line)}
    (hm : m.segments = pre ++ segment :: rest) (ht : t - (now - startAt) = total pre + x)
    (hx : 0 ≤ x) (hlt : x < segment.duration) :
    m.expected hps startAt now t =
      (startAfter hps t (segment, x, rest)).filter (· ≤ now + m.duration) := by
  rw [ModInterval.expected, hm, ht, Timeline.locate_of_lt (durations_nonneg _) hx hlt]
  rfl

/-- A rate that is zero past the end of each segment, and slower than the gap within it. -/
def tooSlow (gap : ℚ) : Rate Line :=
  fun s x => if x < s.duration then (|gap| + 1)⁻¹.toNNRat else 0

theorem expected_tooSlow (he : 0 ≤ t - (now - startAt)) :
    m.expected (tooSlow (now + m.duration - t)) startAt now t = none := by
  rw [ModInterval.expected]
  cases hl : Timeline.locate LinearSegment.duration m.segments (t - (now - startAt)) with
  | none => rfl
  | some found =>
    obtain ⟨segment, x, rest⟩ := found
    obtain ⟨-, -, -, -, hx⟩ := Timeline.locate_eq_some he hl
    have hslow : 0 < |now + m.duration - t| + 1 := by positivity
    have hrate : tooSlow (now + m.duration - t) segment x =
        (|now + m.duration - t| + 1)⁻¹.toNNRat := if_pos hx
    have := le_abs_self (now + m.duration - t)
    rw [Option.bind_some, startAfter, hrate, if_pos (Rat.toNNRat_pos.mpr (inv_pos.mpr hslow)),
      Rat.coe_toNNRat _ (inv_pos.mpr hslow).le, one_div, inv_inv, Option.filter_some, if_neg]
    simp only [decide_eq_true_eq]
    linarith

/-! ### One call -/

theorem untilEnd_eq (s : StreamState Line) (t : ℚ) :
    s.untilEnd t = (some t).filter (· ≤ s.endTime) := by
  by_cases h : t ≤ s.endTime <;> simp [StreamState.untilEnd, Option.filter, h]

/-- Within the current segment the code waits as expected. -/
theorem nextFrom_within (h : x < s.currentSegment.duration) :
    s.nextFrom hps t x =
      some ((startAfter hps t (s.currentSegment, x, s.segments)).filter (· ≤ s.endTime)) := by
  unfold StreamState.nextFrom startAfter
  by_cases hz : hps s.currentSegment x = 0
  · by_cases hr : s.segments = []
    · simp [hz, hr]
    · simp [hz, hr, durationSub, h.le, untilEnd_eq]
  · simp [hz, pos_iff_ne_zero, untilEnd_eq]

/-- Past the end of a last segment the code follows its rate on. -/
theorem nextFrom_last (hr : s.segments = []) :
    s.nextFrom hps t x = some (if hps s.currentSegment x = 0 then none
      else s.untilEnd (t + (hps s.currentSegment x : ℚ)⁻¹)) := by
  unfold StreamState.nextFrom
  by_cases hz : hps s.currentSegment x = 0 <;> simp [hz, hr]

/-- The state stands at the segment number `k`. -/
structure Aligned (m : ModInterval Line) (startAt now : ℚ) (s : StreamState Line) (k : Nat) :
    Prop where
  endTime : s.endTime = now + m.duration
  startTime : s.startTime = now - startAt
  segments : ∃ pre, m.segments = pre ++ s.currentSegment :: s.segments ∧ pre.length = k ∧
    s.xOffset = total pre

/-- The time since the current segment began. -/
abbrev StreamState.waited (s : StreamState Line) (t : ℚ) : ℚ := t - s.startTime - s.xOffset

section Call

variable {k : Nat} (ha : Aligned m startAt now s k) (hw : 0 ≤ s.waited t)
include ha hw

theorem Aligned.locate : Timeline.locate LinearSegment.duration m.segments (t - (now - startAt)) =
    Timeline.locate LinearSegment.duration (s.currentSegment :: s.segments) (s.waited t) := by
  obtain ⟨pre, hm, -, hx⟩ := ha.segments
  rw [StreamState.waited, ha.startTime, hx] at hw ⊢
  rw [hm, Timeline.locate_append (durations_nonneg _) (by linarith)]

theorem Aligned.index : m.index (t - (now - startAt)) =
    k + Timeline.index LinearSegment.duration (s.currentSegment :: s.segments) (s.waited t) := by
  obtain ⟨pre, hm, hk, hx⟩ := ha.segments
  rw [StreamState.waited, ha.startTime, hx] at hw ⊢
  rw [ModInterval.index, hm, Timeline.index_append (durations_nonneg _) (by linarith), hk]

omit hw in
theorem Aligned.length : m.segments.length = k + 1 + s.segments.length := by
  obtain ⟨pre, hm, hk, -⟩ := ha.segments
  rw [hm, List.length_append, List.length_cons, hk]
  omega

omit hw in
theorem Aligned.enter {segment : LinearSegment Line} {rest : List (LinearSegment Line)}
    (hs : s.segments = segment :: rest) : Aligned m startAt now (s.enter segment rest) (k + 1) := by
  obtain ⟨pre, hm, hk, hx⟩ := ha.segments
  refine ⟨ha.endTime, ha.startTime, pre ++ [s.currentSegment], ?_, by simp [hk], ?_⟩
  · simp [StreamState.enter, hm, hs]
  · simp [StreamState.enter, hx]

omit ha hw in
theorem waited_enter (s : StreamState Line) (segment : LinearSegment Line)
    (rest : List (LinearSegment Line)) (t : ℚ) :
    (s.enter segment rest).waited t = s.waited t - s.currentSegment.duration := by
  simp only [StreamState.waited, StreamState.enter]
  ring

theorem Aligned.calculate (hps : Rate Line) : s.calculateNextStart hps t =
    if s.currentSegment.duration ≤ s.waited t then
      match s.segments with
      | [] => some (none, s)
      | segment :: rest =>
        ((s.enter segment rest).nextFrom hps t ((s.enter segment rest).waited t)).map
          fun r => (r, s.enter segment rest)
    else (s.nextFrom hps t (s.waited t)).map fun r => (r, s) := by
  obtain ⟨pre, -, -, hx⟩ := ha.segments
  have hoff : 0 ≤ s.xOffset := hx ▸ Timeline.total_nonneg (durations_nonneg _)
  have hpos : max 0 (t - s.startTime) = t - s.startTime :=
    max_eq_right (by simp only [StreamState.waited] at hw; linarith)
  have hsub : durationSub (t - s.startTime) s.xOffset = some (s.waited t) :=
    if_pos (by simp only [StreamState.waited] at hw; linarith)
  cases hs : s.segments <;> simp [StreamState.calculateNextStart, hpos, hsub, waited_enter, hs]

/-- Within the current segment the code answers the expected start. -/
theorem Aligned.within (hlt : s.waited t < s.currentSegment.duration) :
    m.index (t - (now - startAt)) = k ∧
      ∀ hps, s.nextFrom hps t (s.waited t) = some (m.expected hps startAt now t) := by
  refine ⟨by rw [ha.index hw, Timeline.index_cons_of_lt hlt, Nat.add_zero], fun hps => ?_⟩
  rw [nextFrom_within hlt, ModInterval.expected, ha.locate hw, Timeline.locate_cons_of_lt hlt,
    ha.endTime]
  rfl

/-- Past the last segment nothing is expected to start. -/
theorem Aligned.past (hle : s.currentSegment.duration ≤ s.waited t) (hs : s.segments = []) :
    m.index (t - (now - startAt)) = k + 1 ∧ ∀ hps, m.expected hps startAt now t = none := by
  refine ⟨by rw [ha.index hw, Timeline.index_cons_of_le hle, hs]; rfl, fun hps => ?_⟩
  rw [ModInterval.expected, ha.locate hw, Timeline.locate_cons_of_le hle, hs]
  rfl

theorem Aligned.enter_call {next : LinearSegment Line}
    (hle : s.currentSegment.duration ≤ s.waited t) (hs : s.segments = next :: rest) :
    0 ≤ (s.enter next rest).waited t ∧ ∀ hps, s.calculateNextStart hps t =
      ((s.enter next rest).nextFrom hps t ((s.enter next rest).waited t)).map
        fun r => (r, s.enter next rest) := by
  refine ⟨by rw [waited_enter]; exact sub_nonneg.mpr hle, fun hps => ?_⟩
  rw [ha.calculate hw, if_pos hle, hs]

/-- A call that skips no segment answers the expected start, whatever the rate. -/
theorem Aligned.call (hk : m.index (t - (now - startAt)) ≤ k + 1 ∨
      now + m.duration ≤ t ∧ k + 2 = m.segments.length) :
    ∃ s', (∀ hps, s.calculateNextStart hps t = some (m.expected hps startAt now t, s')) ∧
      Aligned m startAt now s' (min (m.index (t - (now - startAt))) (m.segments.length - 1)) ∧
      0 ≤ s'.waited t := by
  have hlen := ha.length
  rcases lt_or_ge (s.waited t) s.currentSegment.duration with hlt | hle
  · obtain ⟨hidx, hnext⟩ := ha.within hw hlt
    refine ⟨s, fun hps => ?_, ?_, hw⟩
    · rw [ha.calculate hw, if_neg hlt.not_ge, hnext, Option.map_some]
    · rwa [hidx, show min k (m.segments.length - 1) = k by omega]
  cases hs : s.segments with
  | nil =>
    obtain ⟨hidx, hnone⟩ := ha.past hw hle hs
    rw [hs, List.length_nil] at hlen
    refine ⟨s, fun hps => ?_, ?_, hw⟩
    · rw [ha.calculate hw, if_pos hle, hs, hnone]
    · rwa [hidx, show min (k + 1) (m.segments.length - 1) = k by omega]
  | cons next rest =>
    obtain ⟨hw', hcalc⟩ := ha.enter_call hw hle hs
    replace ha := ha.enter hs
    rw [hs, List.length_cons] at hlen
    rcases lt_or_ge ((s.enter next rest).waited t) next.duration with hlt | hle
    · obtain ⟨hidx, hnext⟩ := ha.within hw' hlt
      refine ⟨_, fun hps => ?_, ?_, hw'⟩
      · rw [hcalc, hnext, Option.map_some]
      · rwa [hidx, show min (k + 1) (m.segments.length - 1) = k + 1 by omega]
    · -- two segments have ended, so the call is past the stream's end and the last segment
      have hidx := ha.index hw'
      rw [StreamState.enter_currentSegment, Timeline.index_cons_of_le hle] at hidx
      obtain ⟨hend, hlast⟩ := hk.resolve_left (by omega)
      obtain rfl : rest = [] := List.length_eq_zero_iff.mp (by omega)
      obtain ⟨hidx, hnone⟩ := ha.past hw' hle rfl
      refine ⟨_, fun hps => ?_, ?_, hw'⟩
      · rw [hcalc, nextFrom_last rfl, hnone, Option.map_some]
        split
        · rfl
        · rename_i hpos
          have : (0 : ℚ) < (hps next ((s.enter next []).waited t) : ℚ)⁻¹ :=
            inv_pos.mpr (NNRat.cast_pos.mpr (pos_iff_ne_zero.mpr hpos))
          rw [StreamState.untilEnd, if_neg]
          rw [ha.endTime, StreamState.enter_currentSegment]
          linarith
      · rwa [hidx, show min (k + 1 + 1) (m.segments.length - 1) = k + 1 by omega]

/-- A call that skips a segment answers something else, or panics, at some rate. -/
theorem Aligned.call_skips (hnow : now ≤ t) (hstart : 0 ≤ startAt)
    (hk : ¬ (m.index (t - (now - startAt)) ≤ k + 1 ∨
      now + m.duration ≤ t ∧ k + 2 = m.segments.length)) :
    ∃ hps, ∀ s', s.calculateNextStart hps t ≠ some (m.expected hps startAt now t, s') := by
  obtain ⟨hfar, hend⟩ := not_or.mp hk
  have hlen := ha.length
  rcases lt_or_ge (s.waited t) s.currentSegment.duration with hlt | hle
  · exact absurd (ha.within hw hlt).1 (by omega)
  cases hs : s.segments with
  | nil => exact absurd (ha.past hw hle hs).1 (by omega)
  | cons next rest =>
    obtain ⟨hw', hcalc⟩ := ha.enter_call hw hle hs
    replace ha := ha.enter hs
    rw [hs, List.length_cons] at hlen
    rcases lt_or_ge ((s.enter next rest).waited t) next.duration with hlt | hle
    · exact absurd (ha.within hw' hlt).1 (by omega)
    cases rest with
    | nil =>
      -- a rate that starts a request at the very end of the stream
      have hlt : t < now + m.duration := not_le.mp fun h => hend ⟨h, by simpa using hlen.symm⟩
      refine ⟨fun _ _ => (now + m.duration - t)⁻¹.toNNRat, fun s' => ?_⟩
      have hrate : (((now + m.duration - t)⁻¹.toNNRat : ℚ≥0) : ℚ) = (now + m.duration - t)⁻¹ :=
        Rat.coe_toNNRat _ (inv_nonneg.mpr (by linarith))
      have hne : (now + m.duration - t)⁻¹.toNNRat ≠ 0 := by
        rw [Ne, Rat.toNNRat_eq_zero, not_le]
        exact inv_pos.mpr (by linarith)
      rw [hcalc, nextFrom_last rfl, (ha.past hw' hle rfl).2, if_neg hne, hrate, inv_inv,
        StreamState.untilEnd, if_pos (by rw [ha.endTime]; linarith)]
      simp
    | cons after rest =>
      refine ⟨tooSlow (now + m.duration - t), fun s' => ?_⟩
      have hzero : tooSlow (now + m.duration - t) next
          ((s.enter next (after :: rest)).waited t) = 0 := if_neg hle.not_gt
      rw [hcalc, expected_tooSlow (by linarith), StreamState.nextFrom]
      simp only [StreamState.enter_currentSegment, StreamState.enter_segments, hzero]
      by_cases heq : (s.enter next (after :: rest)).waited t ≤ next.duration
      · -- exactly at the end of the segment the code starts a request at once
        have hend : t ≤ now + m.duration := by
          obtain ⟨pre, hm, -, hoff⟩ := ha.segments
          have hrest := Timeline.total_nonneg (durations_nonneg (after :: rest))
          rw [m.duration_eq, hm]
          simp only [StreamState.waited, ha.startTime, hoff, Timeline.total_append,
            Timeline.total_cons, StreamState.enter_currentSegment, StreamState.enter_segments]
            at heq hrest ⊢
          linarith
        have hwait : next.duration - (s.enter next (after :: rest)).waited t = 0 := by linarith
        simp [durationSub, heq, hwait, StreamState.untilEnd, ha.endTime, hend]
      · simp [durationSub, heq]

end Call

/-- Calls in order of time answer the expected starts at every rate exactly when none of them
skips a segment. -/
theorem calls_iff {k : Nat} (hstart : 0 ≤ startAt) (ha : Aligned m startAt now s k)
    (hw : ∀ t ∈ ts, 0 ≤ s.waited t) (hsorted : ts.Pairwise (· ≤ ·)) (hnow : ∀ t ∈ ts, now ≤ t) :
    (∀ hps, s.calls hps ts = some (ts.map (m.expected hps startAt now))) ↔
      m.NoneSkipped startAt now k ts := by
  induction ts generalizing s k with
  | nil => simp [StreamState.calls, ModInterval.NoneSkipped]
  | cons t ts ih =>
    obtain ⟨hwt, hw⟩ := List.forall_mem_cons.mp hw
    obtain ⟨hle, hsorted⟩ := List.pairwise_cons.mp hsorted
    obtain ⟨hnowt, hnow⟩ := List.forall_mem_cons.mp hnow
    rw [ModInterval.NoneSkipped]
    by_cases hk : m.index (t - (now - startAt)) ≤ k + 1 ∨
        now + m.duration ≤ t ∧ k + 2 = m.segments.length
    · obtain ⟨s', hcall, ha', hw'⟩ := ha.call hwt hk
      have hw'' : ∀ t' ∈ ts, 0 ≤ s'.waited t' := fun t' hm => by
        have := hle t' hm
        simp only [StreamState.waited] at hw' ⊢
        linarith
      rw [and_iff_right hk, ← ih ha' hw'' hsorted hnow]
      refine forall_congr' fun hps => ?_
      simp [StreamState.calls, hcall, Option.map_eq_some_iff]
    · refine iff_of_false (fun hall => ?_) fun h => hk h.1
      obtain ⟨hps, hne⟩ := ha.call_skips hwt hnowt hstart hk
      obtain ⟨⟨r, s'⟩, hcall, hrest⟩ := Option.bind_eq_some_iff.mp (hall hps)
      obtain ⟨rs, -, heq⟩ := Option.map_eq_some_iff.mp hrest
      rw [List.map_cons, List.cons.injEq] at heq
      exact hne s' (by rw [hcall, heq.1])

theorem aligned_setup (h : m.setup startAt now = some s) : Aligned m startAt now s 0 := by
  unfold ModInterval.setup at h
  cases hs : m.segments with
  | nil => simp [hs] at h
  | cons segment segments =>
    simp only [hs, Option.some.injEq] at h
    subst h
    exact ⟨rfl, rfl, [], hs, rfl, rfl⟩

/-- A stream follows its load pattern exactly as long as no call skips a segment. -/
theorem followsPattern_iff (hm : m.segments ≠ []) (hstart : 0 ≤ startAt)
    (hsorted : ts.Pairwise (· ≤ ·)) (hnow : ∀ t ∈ ts, now ≤ t) :
    (∀ hps, m.FollowsPattern hps startAt now ts) ↔ m.NoneSkipped startAt now 0 ts := by
  obtain ⟨segment, segments, hsegs⟩ := List.exists_cons_of_ne_nil hm
  obtain ⟨s, hs⟩ : ∃ s, m.setup startAt now = some s := by simp [ModInterval.setup, hsegs]
  have ha := aligned_setup hs
  have hw : ∀ t ∈ ts, 0 ≤ s.waited t := fun t ht => by
    have := hnow t ht
    obtain ⟨pre, -, hpre, hoff⟩ := ha.segments
    obtain rfl := List.length_eq_zero_iff.mp hpre
    simp only [StreamState.waited, ha.startTime, hoff, Timeline.total_nil]
    linarith
  rw [← calls_iff hstart ha hw hsorted hnow]
  simp [ModInterval.FollowsPattern, hs]

/-- Thirty seconds each: from 0 to 5, to 30 and to 10 hits per second. -/
def threeSegments : ModInterval (ℚ × ℚ) :=
  ((ModInterval.new.appendSegment ⟨(1 / 6, 0), 30, by norm_num⟩).appendSegment
    ⟨(5 / 6, 5), 30, by norm_num⟩).appendSegment ⟨(-2 / 3, 30), 30, by norm_num⟩

/-- The rate of a line `m * x + b`. -/
def lineRate : Rate (ℚ × ℚ) := fun s x => (s.line.1 * x + s.line.2).toNNRat

theorem followsPattern_threeSegments :
    threeSegments.FollowsPattern lineRate 15 100 [100, 114, 116, 150, 174, 175] :=
  (followsPattern_iff (by decide) (by norm_num) (by decide +kernel) (by decide +kernel)).mpr
    (by decide +kernel) lineRate

/-- Started 75 seconds in, the first call reads the rate of the second segment, or panics where
that rate is zero. -/
theorem not_followsPattern_startAt :
    ¬ threeSegments.FollowsPattern lineRate 75 0 [0] ∧
      (threeSegments.setup 75 0).bind (fun s => s.calls (fun _ _ => 0) [0]) = none := by
  decide +kernel

end Pewpew.LoadPattern
