import Pewpew.LoadPattern.Timing
import Mathlib.Data.NNRat.Lemmas
import Mathlib.Tactic.FieldSimp

/-! The transition from an old load pattern to a new one. -/
namespace Pewpew.LoadPattern

/-- What `LinearSegment` holds besides its duration. `none` is a number that is not finite. -/
structure Linear where
  m : ℚ
  b : ℚ
  minY : Option ℚ
  yLimit : ℚ

namespace LinearSegment

/-- The line of the segment, the floor aside. -/
def lineAt (s : LinearSegment Linear) (x : ℚ) : ℚ := s.line.m * x + s.line.b

/-- `get_hps_at`; the line of a segment that takes no time is `NaN` or infinite. -/
def getHpsAt (s : LinearSegment Linear) (x : ℚ) : ℚ :=
  if s.duration = 0 then 0
  else if s.lineAt x < s.line.yLimit then s.line.minY.getD 0
  else s.lineAt x

/-- `LinearSegment::new`; `zeroX` is the floor of a slope that is not zero. -/
def new (zeroX : ℚ → ℚ) (startHps endHps duration : ℚ) (h : 0 ≤ duration) :
    LinearSegment Linear where
  line :=
    let m := (endHps - startHps) / duration
    ⟨m, startHps, if m = 0 then none else some (zeroX |m|), duration⁻¹⟩
  duration := duration
  duration_nonneg := h

end LinearSegment

/-- `find_segment`, from the index `i` and the offset of its segment on. -/
def findSegment (time : ℚ) : Nat → ℚ → List (LinearSegment Linear) →
    Option (Nat × LinearSegment Linear × ℚ)
  | _, _, [] => none
  | i, xOffset, segment :: segments =>
    if time < segment.duration + xOffset ∨ segments = [] then some (i, segment, xOffset)
    else findSegment time (i + 1) (xOffset + segment.duration) segments

/-- How long the transition takes. -/
def overOf (duration start overTime : ℚ) : ℚ :=
  if duration < start + overTime then duration - start else overTime

theorem overOf_nonneg {duration start overTime : ℚ} (hstart : start ≤ duration)
    (hover : 0 ≤ overTime) :
    0 ≤ overOf duration start overTime := by
  rw [overOf]
  split
  · exact sub_nonneg.mpr hstart
  · exact hover

section Transition

variable (zeroX : ℚ → ℚ)

/-- The rate at the end of the transition, and the segments after it: what is left of the segment
number `i`, and those behind it. `none` is a panic. -/
def afterTransition (segments : List (LinearSegment Linear)) (i : Nat)
    (post : LinearSegment Linear) (segmentX : ℚ) : Option (ℚ × List (LinearSegment Linear)) :=
  if h : segmentX ≤ post.duration then
    let endHps := post.getHpsAt segmentX
    let segments :=
      if post.duration - segmentX = 0 then segments.dropLast
      else segments.set i (.new zeroX endHps (post.getHpsAt post.duration)
        (post.duration - segmentX) (sub_nonneg.mpr h))
    if i ≤ segments.length then some (endHps, segments.drop i) else none
  else none

/-- `transition_from`: the segments and the duration that the new pattern gets; `none` is a
panic. -/
def ModInterval.transitionFrom (new old : ModInterval Linear) (start overTime : ℚ≥0) :
    Option (List (LinearSegment Linear) × ℚ) :=
  if h : old.duration < start ∨ new.duration < start then some (new.segments, new.duration)
  else
    let overTime' := overOf new.duration start overTime
    (findSegment start 0 0 old.segments).bind fun (_, segment, xOffset) =>
      (durationSub start xOffset).bind fun x =>
        (findSegment (start + overTime') 0 0 new.segments).bind fun (i, post, xOffset) =>
          (durationSub (start + overTime') xOffset).bind fun segmentX =>
            (afterTransition zeroX new.segments i post segmentX).map fun (endHps, segments) =>
              (.new zeroX (segment.getHpsAt x) endHps overTime'
                (overOf_nonneg (not_lt.mp fun hlt => h (.inr hlt)) overTime.2) :: segments,
                new.duration - start)

end Transition

/-! ### What a transition should be -/

/-- The segment that a time falls into, and the offset in it; the end is that of the last one. -/
def pieceAt : List (LinearSegment Linear) → ℚ → Option (LinearSegment Linear × ℚ)
  | [], _ => none
  | segment :: segments, t =>
    if t < segment.duration ∨ segments = [] then some (segment, t)
    else pieceAt segments (t - segment.duration)

/-- The exact rate of the segments at a time. -/
def rateIn (segments : List (LinearSegment Linear)) (t : ℚ) : ℚ :=
  ((pieceAt segments t).map fun (s, x) => s.lineAt x).getD 0

/-- The exact rate of a pattern at a time. -/
def ModInterval.rateAt (p : ModInterval Linear) (t : ℚ) : ℚ := rateIn p.segments t

/-- The pattern `r` runs from the rate of `old` at `start` to that of `new` at `start + overTime`,
and then as `new` does, to its end. -/
structure Transitioned (old new r : ModInterval Linear) (start overTime : ℚ) : Prop where
  duration : r.duration = new.duration - start
  ramp : ∀ x, 0 ≤ x → x < overTime → r.rateAt x =
    old.rateAt start + (new.rateAt (start + overTime) - old.rateAt start) * (x / overTime)
  rest : ∀ x, 0 ≤ x → overTime + x ≤ r.duration →
    r.rateAt (overTime + x) = new.rateAt (start + overTime + x)

/-- The transition is made without a panic, unless one of the patterns is too short for it. -/
def ModInterval.TransitionsFrom (zeroX : ℚ → ℚ) (new old : ModInterval Linear)
    (start overTime : ℚ≥0) : Prop :=
  ∃ r : ModInterval Linear,
    new.transitionFrom zeroX old start overTime = some (r.segments, r.duration) ∧
      (old.duration < start ∨ new.duration < start → r = new) ∧
      ((start : ℚ) ≤ old.duration → (start : ℚ) < new.duration →
        Transitioned old new r start (min overTime (new.duration - start)))

/-- The floor leaves the rate at the offset alone. -/
def LinearSegment.Exact (s : LinearSegment Linear) (x : ℚ) : Prop := s.getHpsAt x = s.lineAt x

/-- The floor leaves the rates alone that a transition reads: that of `old` at `start`, that of
`new` at the end of the transition, and that at the end of the segment cut there. -/
structure ReadsExact (old new : ModInterval Linear) (start overTime : ℚ) : Prop where
  old : ∀ s x, pieceAt old.segments start = some (s, x) → s.Exact x
  new : ∀ s x, pieceAt new.segments (start + overTime) = some (s, x) →
    s.Exact x ∧ (x < s.duration → s.Exact s.duration)

variable {zeroX : ℚ → ℚ} {old new r : ModInterval Linear} {start overTime : ℚ≥0}
  {segments pre rest : List (LinearSegment Linear)} {s : LinearSegment Linear} {t x y : ℚ}

/-! ### The pieces of a pattern -/

theorem durations_cons : total (s :: rest) = s.duration + total rest := Timeline.total_cons

theorem durations_append : total (pre ++ rest) = total pre + total rest := Timeline.total_append

theorem durations_nil : total ([] : List (LinearSegment Linear)) = 0 := Timeline.total_nil

theorem overOf_eq_min (duration start overTime : ℚ) :
    overOf duration start overTime = min overTime (duration - start) := by
  rw [overOf]
  split
  · next h => rw [min_eq_right (by linarith)]
  · next h => rw [min_eq_left (by linarith)]

theorem pieceAt_of_lt (h : x < s.duration) : pieceAt (s :: rest) x = some (s, x) :=
  if_pos (.inl h)

theorem pieceAt_last : pieceAt [s] x = some (s, x) := if_pos (.inr rfl)

theorem pieceAt_of_le (h : s.duration ≤ x) (hrest : rest ≠ []) :
    pieceAt (s :: rest) x = pieceAt rest (x - s.duration) :=
  if_neg (not_or.mpr ⟨h.not_gt, hrest⟩)

theorem pieceAt_append (hrest : rest ≠ []) (hx : 0 ≤ x) :
    pieceAt (pre ++ rest) (total pre + x) = pieceAt rest x := by
  induction pre with
  | nil => simp
  | cons b pre ih =>
    have hpre := Timeline.total_nonneg (durations_nonneg pre)
    rw [List.cons_append, pieceAt_of_le _ (List.append_ne_nil_of_right_ne_nil pre hrest), ← ih]
    · rw [durations_cons]
      ring_nf
    · rw [durations_cons]
      linarith

theorem pieceAt_cons_add (a : LinearSegment Linear) (hrest : rest ≠ []) (hx : 0 ≤ x) :
    pieceAt (a :: rest) (a.duration + x) = pieceAt rest x := by
  have happend : pieceAt ([a] ++ rest) (total [a] + x) = pieceAt rest x :=
    pieceAt_append hrest hx
  rw [durations_cons, durations_nil, add_zero] at happend
  exact happend

/-- The segment that is found contains the time, or is the last one. -/
theorem findSegment_eq (hne : segments ≠ []) (i : Nat) (hx : x ≤ t) :
    ∃ pre s rest, segments = pre ++ s :: rest ∧ x + total pre ≤ t ∧
      findSegment t i x segments = some (i + pre.length, s, x + total pre) ∧
      (t - (x + total pre) < s.duration ∨ rest = []) := by
  induction segments generalizing i x with
  | nil => exact absurd rfl hne
  | cons s segments ih =>
    rw [findSegment]
    by_cases h : t < s.duration + x ∨ segments = []
    · refine ⟨[], s, segments, rfl, by simpa using hx, by simp [if_pos h], h.imp_left fun h => ?_⟩
      rw [durations_nil]
      linarith
    · obtain ⟨hle, hne⟩ := not_or.mp h
      obtain ⟨pre, s', rest, rfl, hle', hfind, hlast⟩ :=
        ih hne (i + 1) (x := x + s.duration) (by linarith)
      refine ⟨s :: pre, s', rest, rfl, ?_, ?_, hlast.imp_left fun h => ?_⟩
      · rw [durations_cons]
        linarith
      · rw [if_neg h, hfind, List.length_cons, durations_cons, add_assoc x, add_assoc i,
          Nat.add_comm 1]
      · rw [durations_cons]
        linarith

/-! ### The pattern that a transition makes -/

/-- What is left of a segment that is cut, and the segments behind it. -/
def cutAt (zeroX : ℚ → ℚ) (s : LinearSegment Linear) (rest : List (LinearSegment Linear)) (x : ℚ) :
    List (LinearSegment Linear) :=
  if h : x < s.duration then
    .new zeroX (s.getHpsAt x) (s.getHpsAt s.duration) (s.duration - x) (sub_nonneg.mpr h.le) :: rest
  else []

theorem afterTransition_eq (hx : x ≤ s.duration) (hlast : x < s.duration ∨ rest = []) :
    afterTransition zeroX (pre ++ s :: rest) pre.length s x =
      some (s.getHpsAt x, cutAt zeroX s rest x) := by
  rw [afterTransition, dif_pos hx, cutAt]
  rcases hx.lt_or_eq with hlt | rfl
  · dsimp only
    rw [if_neg (sub_ne_zero.mpr hlt.ne'), dif_pos hlt]
    simp
  · obtain rfl := hlast.resolve_left (lt_irrefl _)
    simp

theorem total_cutAt (hx : x ≤ s.duration) (hlast : x < s.duration ∨ rest = []) :
    total (cutAt zeroX s rest x) = s.duration - x + total rest := by
  rw [cutAt]
  rcases hx.lt_or_eq with hlt | rfl
  · rw [dif_pos hlt, durations_cons]
    rfl
  · obtain rfl := hlast.resolve_left (lt_irrefl _)
    rw [dif_neg (lt_irrefl _), durations_nil]
    ring

/-- Where a transition leads, in the segments of `old` and `new` that it reads. -/
structure Found (p : ModInterval Linear) (t : ℚ) (pre : List (LinearSegment Linear))
    (s : LinearSegment Linear) (rest : List (LinearSegment Linear)) (x : ℚ) : Prop where
  segments : p.segments = pre ++ s :: rest
  time : t = total pre + x
  nonneg : 0 ≤ x
  last : x < s.duration ∨ rest = []

theorem exists_found {p : ModInterval Linear} (hp : p.segments ≠ []) (ht : 0 ≤ t) :
    ∃ pre s rest x, Found p t pre s rest x ∧
      findSegment t 0 0 p.segments = some (pre.length, s, total pre) ∧
      durationSub t (total pre) = some x := by
  obtain ⟨pre, s, rest, hsegs, hle, hfind, hlast⟩ := findSegment_eq hp 0 ht
  rw [zero_add] at hle hlast
  rw [Nat.zero_add, zero_add] at hfind
  refine ⟨pre, s, rest, t - total pre, ⟨hsegs, by ring, sub_nonneg.mpr hle, hlast⟩, hfind, ?_⟩
  exact if_pos hle

theorem Found.pieceAt {p : ModInterval Linear} (h : Found p t pre s rest x) :
    pieceAt p.segments t = some (s, x) := by
  rw [h.segments, h.time, pieceAt_append (List.cons_ne_nil s rest) h.nonneg]
  rcases h.last with hlt | rfl
  · exact pieceAt_of_lt hlt
  · exact pieceAt_last

theorem Found.rateAt {p : ModInterval Linear} (h : Found p t pre s rest x) :
    p.rateAt t = s.lineAt x := by
  rw [ModInterval.rateAt, rateIn, h.pieceAt]
  rfl

/-- A time of the pattern is in the segment that is found. -/
theorem Found.le {p : ModInterval Linear} (h : Found p t pre s rest x) (ht : t ≤ p.duration) :
    x ≤ s.duration := by
  rcases h.last with hlt | rfl
  · exact hlt.le
  · rw [p.duration_eq, h.segments, h.time, durations_append, durations_cons, durations_nil] at ht
    linarith

/-- The pattern that a transition of a given length makes, of what it finds. -/
def madeOf (zeroX : ℚ → ℚ) (startHps overTime : ℚ) (hover : 0 ≤ overTime) (s : LinearSegment Linear)
    (rest : List (LinearSegment Linear)) (x : ℚ) : ModInterval Linear where
  segments := .new zeroX startHps (s.getHpsAt x) overTime hover :: cutAt zeroX s rest x
  duration := total (.new zeroX startHps (s.getHpsAt x) overTime hover :: cutAt zeroX s rest x)
  duration_eq := rfl

theorem duration_madeOf {startHps d : ℚ} {hd : 0 ≤ d} (hx : x ≤ s.duration)
    (hlast : x < s.duration ∨ rest = []) :
    (madeOf zeroX startHps d hd s rest x).duration = d + (s.duration - x + total rest) := by
  have hcons : (madeOf zeroX startHps d hd s rest x).duration = d + total (cutAt zeroX s rest x) :=
    durations_cons
  rw [hcons, total_cutAt hx hlast]

/-- Where both patterns are long enough, the transition is made of what it finds in them. -/
theorem transitionFrom_eq (zeroX : ℚ → ℚ) (overTime : ℚ≥0) (hold : old.segments ≠ [])
    (hnew : new.segments ≠ []) (hstart : (start : ℚ) ≤ old.duration)
    (hstart' : (start : ℚ) ≤ new.duration) :
    ∃ pre s rest x pre' s' rest' x', ∃ hd : 0 ≤ overOf new.duration start overTime,
      Found old start pre s rest x ∧
      Found new (start + overOf new.duration start overTime) pre' s' rest' x' ∧ x' ≤ s'.duration ∧
      (madeOf zeroX (s.getHpsAt x) _ hd s' rest' x').duration = new.duration - start ∧
      new.transitionFrom zeroX old start overTime =
        some ((madeOf zeroX (s.getHpsAt x) _ hd s' rest' x').segments,
          (madeOf zeroX (s.getHpsAt x) _ hd s' rest' x').duration) := by
  have hd : 0 ≤ overOf new.duration start overTime := overOf_nonneg hstart' overTime.2
  have hd' : start + overOf new.duration start overTime ≤ new.duration := by
    rw [overOf_eq_min]
    linarith [min_le_right (overTime : ℚ) (new.duration - start)]
  have hs : (0 : ℚ) ≤ start := start.cast_nonneg
  obtain ⟨pre, s, rest, x, hfound, hfind, hsub⟩ := exists_found hold hs
  obtain ⟨pre', s', rest', x', hfound', hfind', hsub'⟩ :=
    exists_found (t := start + overOf new.duration start overTime) hnew (add_nonneg hs hd)
  have hx' := hfound'.le hd'
  have hduration : (madeOf zeroX (s.getHpsAt x) _ hd s' rest' x').duration =
      new.duration - start := by
    have htotal : new.duration = total pre' + (s'.duration + total rest') := by
      rw [new.duration_eq, hfound'.segments, durations_append, durations_cons]
    rw [duration_madeOf hx' hfound'.last]
    linarith [hfound'.time]
  refine ⟨pre, s, rest, x, pre', s', rest', x', hd, hfound, hfound', hx', hduration, ?_⟩
  have hlong : ¬ (old.duration < start ∨ new.duration < start) :=
    not_or.mpr ⟨hstart.not_gt, hstart'.not_gt⟩
  have hafter : afterTransition zeroX (pre' ++ s' :: rest') pre'.length s' x' =
      some (s'.getHpsAt x', cutAt zeroX s' rest' x') := afterTransition_eq hx' hfound'.last
  rw [← hfound'.segments] at hafter
  rw [ModInterval.transitionFrom, dif_neg hlong]
  simp only [hfind, hsub, hfind', hsub', hafter, Option.bind_some, Option.map_some]
  rw [hduration]
  rfl

theorem lineAt_new {startHps endHps d : ℚ} {hd : 0 ≤ d} :
    (LinearSegment.new zeroX startHps endHps d hd).lineAt x =
      startHps + (endHps - startHps) * (x / d) := by
  rw [LinearSegment.lineAt, LinearSegment.new]
  ring

/-- The rates at two places determine a line. -/
theorem line_eq_iff {a b a' b' d : ℚ} (hd : 0 < d) :
    (∀ x, 0 ≤ x → x < d → a + (b - a) * (x / d) = a' + (b' - a') * (x / d)) ↔
      a = a' ∧ b = b' := by
  constructor
  · intro h
    have hzero := h 0 le_rfl hd
    have hhalf := h (d / 2) (by positivity) (by linarith)
    rw [div_div_cancel_left' hd.ne'] at hhalf
    rw [zero_div, mul_zero, mul_zero, add_zero, add_zero] at hzero
    exact ⟨hzero, by linarith⟩
  · rintro ⟨rfl, rfl⟩ x - -
    rfl

section Made

variable {startHps d : ℚ} {hd : 0 ≤ d}

theorem rateAt_madeOf : (madeOf zeroX startHps d hd s rest y).rateAt x =
    rateIn (.new zeroX startHps (s.getHpsAt y) d hd :: cutAt zeroX s rest y) x := rfl

theorem rateAt_ramp (hx : x < d) : (madeOf zeroX startHps d hd s rest y).rateAt x =
    startHps + (s.getHpsAt y - startHps) * (x / d) := by
  rw [rateAt_madeOf, rateIn, pieceAt_of_lt hx]
  exact lineAt_new

/-- Where the transition reaches the end of the new pattern, it is all of it. -/
theorem rateAt_end (hd' : 0 < d) (hy : ¬ y < s.duration) :
    (madeOf zeroX startHps d hd s rest y).rateAt d = s.getHpsAt y := by
  have hcut : cutAt zeroX s rest y = [] := dif_neg hy
  rw [rateAt_madeOf, hcut, rateIn, pieceAt_last]
  refine lineAt_new.trans ?_
  rw [div_self hd'.ne']
  ring

/-- After the transition the rest of the pattern counts, with the line of the cut segment drawn
anew. -/
theorem rateAt_rest (hx : 0 ≤ x) (hy : y < s.duration) :
    (madeOf zeroX startHps d hd s rest y).rateAt (d + x) =
      if x < s.duration - y ∨ rest = [] then
        s.getHpsAt y + (s.getHpsAt s.duration - s.getHpsAt y) * (x / (s.duration - y))
      else rateIn rest (x - (s.duration - y)) := by
  have hcut : cutAt zeroX s rest y =
      .new zeroX (s.getHpsAt y) (s.getHpsAt s.duration) (s.duration - y)
        (sub_nonneg.mpr hy.le) :: rest := dif_pos hy
  have hbehind := pieceAt_cons_add (.new zeroX startHps (s.getHpsAt y) d hd)
    (List.cons_ne_nil (.new zeroX (s.getHpsAt y) (s.getHpsAt s.duration) (s.duration - y)
      (sub_nonneg.mpr hy.le)) rest) hx
  rw [rateAt_madeOf, hcut, rateIn]
  by_cases h : x < s.duration - y ∨ rest = []
  · rw [if_pos h]
    exact (congrArg (fun o => (Option.map _ o).getD 0) (hbehind.trans (if_pos h))).trans lineAt_new
  · rw [if_neg h]
    exact congrArg (fun o => (Option.map _ o).getD 0) (hbehind.trans (if_neg h))

end Made

theorem Found.rateAt_add {p : ModInterval Linear} (h : Found p t pre s rest y) (hx : 0 ≤ x) :
    p.rateAt (t + x) = if y + x < s.duration ∨ rest = [] then s.lineAt (y + x)
      else rateIn rest (y + x - s.duration) := by
  rw [ModInterval.rateAt, rateIn, h.segments, h.time, add_assoc,
    pieceAt_append (List.cons_ne_nil s rest) (add_nonneg h.nonneg hx), LoadPattern.pieceAt]
  split
  · rfl
  · rfl

/-- A transition keeps the rates exactly where the floor leaves alone those that it reads. -/
theorem transitioned_iff {pre' rest' : List (LinearSegment Linear)} {s' : LinearSegment Linear}
    {x' d : ℚ} {hd : 0 ≤ d} (hpos : 0 < d) (hfound : Found old start pre s rest x)
    (hfound' : Found new (start + d) pre' s' rest' x') (hx' : x' ≤ s'.duration)
    (hduration : (madeOf zeroX (s.getHpsAt x) d hd s' rest' x').duration = new.duration - start) :
    Transitioned old new (madeOf zeroX (s.getHpsAt x) d hd s' rest' x') start d ↔
      s.Exact x ∧ s'.Exact x' ∧ (x' < s'.duration → s'.Exact s'.duration) := by
  have hramp : (∀ t, 0 ≤ t → t < d → (madeOf zeroX (s.getHpsAt x) d hd s' rest' x').rateAt t =
      old.rateAt start + (new.rateAt (start + d) - old.rateAt start) * (t / d)) ↔
      s.Exact x ∧ s'.Exact x' := by
    rw [hfound.rateAt, hfound'.rateAt, LinearSegment.Exact, LinearSegment.Exact,
      ← line_eq_iff hpos]
    exact forall_congr' fun t => forall_congr' fun _ => forall_congr' fun ht => by
      rw [rateAt_ramp ht]
  constructor
  · intro h
    obtain ⟨hold, hnew⟩ := hramp.mp h.ramp
    refine ⟨hold, hnew, fun hlt => ?_⟩
    have hhalf : 0 < (s'.duration - x') / 2 := by linarith
    have hin : (s'.duration - x') / 2 < s'.duration - x' := by linarith
    have hbound := h.rest ((s'.duration - x') / 2) hhalf.le (by
      have htotal := Timeline.total_nonneg (durations_nonneg rest')
      rw [duration_madeOf hx' hfound'.last]
      linarith)
    rw [rateAt_rest hhalf.le hlt, if_pos (.inl hin), hfound'.rateAt_add hhalf.le,
      if_pos (.inl (by linarith)), div_div_cancel_left' (sub_pos.mpr hlt).ne', hnew] at hbound
    simp only [LinearSegment.Exact, LinearSegment.lineAt] at hbound ⊢
    linarith
  · rintro ⟨hold, hnew, hend⟩
    refine ⟨hduration, hramp.mpr ⟨hold, hnew⟩, fun t ht hle => ?_⟩
    rw [duration_madeOf hx' hfound'.last] at hle
    by_cases hlt : x' < s'.duration
    · rw [rateAt_rest ht hlt, hfound'.rateAt_add ht]
      by_cases h : t < s'.duration - x' ∨ rest' = []
      · rw [if_pos h, if_pos (h.imp_left fun h => by linarith), hnew, hend hlt]
        have hne : s'.duration - x' ≠ 0 := (sub_pos.mpr hlt).ne'
        simp only [LinearSegment.lineAt]
        field_simp
        ring
      · rw [if_neg h, if_neg fun h' => h (h'.imp_left fun h' => by linarith)]
        congr 1
        ring
    · -- the transition reaches the end of the new pattern
      obtain rfl := hfound'.last.resolve_left hlt
      rw [durations_nil] at hle
      obtain rfl : t = 0 := by linarith [not_lt.mp hlt]
      rw [add_zero, add_zero, rateAt_end hpos hlt, hfound'.rateAt, hnew]

theorem readsExact_iff {pre' rest' : List (LinearSegment Linear)} {s' : LinearSegment Linear}
    {x' d : ℚ} (hfound : Found old start pre s rest x)
    (hfound' : Found new (start + d) pre' s' rest' x') : ReadsExact old new start d ↔
      s.Exact x ∧ s'.Exact x' ∧ (x' < s'.duration → s'.Exact s'.duration) := by
  constructor
  · intro h
    exact ⟨h.old s x hfound.pieceAt, h.new s' x' hfound'.pieceAt⟩
  · rintro ⟨hold, hnew⟩
    refine ⟨fun u y hu => ?_, fun u y hu => ?_⟩
    · obtain ⟨rfl, rfl⟩ := Prod.mk.inj (Option.some.inj (hfound.pieceAt.symm.trans hu))
      exact hold
    · obtain ⟨rfl, rfl⟩ := Prod.mk.inj (Option.some.inj (hfound'.pieceAt.symm.trans hu))
      exact hnew

theorem ModInterval.eq_of_segments {p q : ModInterval Linear} (h : p.segments = q.segments) :
    p = q := by
  obtain ⟨segments, duration, rfl⟩ := p
  obtain ⟨segments', duration', rfl⟩ := q
  obtain rfl : segments = segments' := h
  rfl

/-- A transition is as it should be exactly where the floor leaves alone the rates that it reads. -/
theorem transitionsFrom_iff (zeroX : ℚ → ℚ) (hold : old.segments ≠ []) (hnew : new.segments ≠ [])
    (hover : 0 < overTime) : new.TransitionsFrom zeroX old start overTime ↔
      ((start : ℚ) ≤ old.duration → (start : ℚ) < new.duration →
        ReadsExact old new start (min overTime (new.duration - start))) := by
  rw [ModInterval.TransitionsFrom]
  by_cases hshort : old.duration < start ∨ new.duration < start
  · have hmade : new.transitionFrom zeroX old start overTime = some (new.segments, new.duration) :=
      dif_pos hshort
    have hvacuous {P : Prop} (ho : (start : ℚ) ≤ old.duration) (hn : (start : ℚ) < new.duration) :
        P := by
      rcases hshort with h | h <;> linarith
    exact iff_of_true ⟨new, hmade, fun _ => rfl, hvacuous⟩ hvacuous
  · obtain ⟨ho, hn⟩ := not_or.mp hshort
    obtain ⟨pre, s, rest, x, pre', s', rest', x', hd, hfound, hfound', hx', hduration, hmade⟩ :=
      transitionFrom_eq zeroX overTime hold hnew (not_lt.mp ho) (not_lt.mp hn)
    have hiff (hlt : (start : ℚ) < new.duration) :
        Transitioned old new (madeOf zeroX (s.getHpsAt x) _ hd s' rest' x') start
            (overOf new.duration start overTime) ↔
          ReadsExact old new start (overOf new.duration start overTime) := by
      have hpos : 0 < overOf new.duration start overTime := by
        rw [overOf_eq_min]
        exact lt_min (NNRat.cast_pos.mpr hover) (sub_pos.mpr hlt)
      rw [transitioned_iff hpos hfound hfound' hx' hduration, readsExact_iff hfound hfound']
    rw [← overOf_eq_min]
    constructor
    · rintro ⟨r, hr, -, htrans⟩ hle hlt
      have hsame := ModInterval.eq_of_segments
        (Prod.mk.inj (Option.some.inj (hr.symm.trans hmade))).1
      exact (hiff hlt).mp (hsame ▸ htrans hle hlt)
    · intro hreads
      exact ⟨_, hmade, fun h => absurd h hshort, fun hle hlt => (hiff hlt).mpr (hreads hle hlt)⟩

/-- One segment of ten seconds; the floor is that of a slope of two. -/
def tenSeconds (startHps endHps : ℚ) : ModInterval Linear :=
  ModInterval.new.appendSegment (.new (fun _ => 1) startHps endHps 10 (Nat.ofNat_nonneg 10))

theorem transitionsFrom_iff_rising :
    (tenSeconds 10 20).TransitionsFrom (fun _ => 1) (tenSeconds 5 5) 2 2 := by
  refine (transitionsFrom_iff _ (List.cons_ne_nil _ _) (List.cons_ne_nil _ _) (by norm_num)).mpr
    fun _ _ => ⟨fun s x h => ?_, fun s x h => ?_⟩
  · obtain ⟨rfl, rfl⟩ := Prod.mk.inj (Option.some.inj (pieceAt_last.symm.trans h))
    unfold LinearSegment.Exact
    decide +kernel
  · obtain ⟨rfl, rfl⟩ := Prod.mk.inj (Option.some.inj (pieceAt_last.symm.trans h))
    unfold LinearSegment.Exact
    decide +kernel

/-- The new pattern falls from 20 to 0: after the transition its end is drawn at the floor. -/
theorem not_transitionsFrom : ¬ ∀ (zeroX : ℚ → ℚ) (old new : ModInterval Linear)
    (start overTime : ℚ≥0), old.segments ≠ [] → new.segments ≠ [] →
      (∀ s ∈ old.segments, 0 < s.duration) → (∀ s ∈ new.segments, 0 < s.duration) → 0 < overTime →
        new.TransitionsFrom zeroX old start overTime := by
  intro h
  obtain ⟨r, hr, -, htrans⟩ := h (fun _ => 1) (tenSeconds 5 5) (tenSeconds 20 0) 2 2
    (List.cons_ne_nil _ _) (List.cons_ne_nil _ _) (by decide +kernel) (by decide +kernel)
    (by norm_num)
  have hmade : ((tenSeconds 20 0).transitionFrom (fun _ => 1) (tenSeconds 5 5) 2 2).map
      (fun p => rateIn p.1 5) = some (13 / 2) := by decide +kernel
  have hlong : ((2 : ℚ≥0) : ℚ) ≤ (tenSeconds 5 5).duration ∧
      ((2 : ℚ≥0) : ℚ) < (tenSeconds 20 0).duration := by decide +kernel
  have hmin : min ((2 : ℚ≥0) : ℚ) ((tenSeconds 20 0).duration - (2 : ℚ≥0)) = 2 := by
    decide +kernel
  have htrans := htrans hlong.1 hlong.2
  rw [hmin] at htrans
  have hrest := htrans.rest 3 (by norm_num) (by rw [htrans.duration]; decide +kernel)
  have hnew : (tenSeconds 20 0).rateAt ((2 : ℚ≥0) + 2 + 3) = 6 := by decide +kernel
  have hr5 : r.rateAt (2 + 3) = 13 / 2 := by
    rw [hr, Option.map_some] at hmade
    rw [show (2 : ℚ) + 3 = 5 by norm_num]
    exact Option.some.inj hmade
  rw [hnew, hr5] at hrest
  norm_num at hrest

end Pewpew.LoadPattern
