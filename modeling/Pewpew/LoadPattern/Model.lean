import Pewpew.Library.Timeline
import Mathlib.Data.NNRat.Defs
import Mathlib.Algebra.Order.Field.Rat

/-! The load pattern of `lib/mod_interval`: its segments, and when the next request starts.
Durations and instants are exact rational numbers of seconds. -/
namespace Pewpew.LoadPattern

/-- `LinearSegment`: `line` is what `get_hps_at` reads besides the offset into the segment. -/
structure LinearSegment (Line : Type) where
  line : Line
  duration : ℚ
  duration_nonneg : 0 ≤ duration

variable {Line : Type}

/-- `get_hps_at`: a rate of hits per second for each segment and offset. -/
abbrev Rate (Line : Type) := LinearSegment Line → ℚ → ℚ≥0

/-- The time that a queue of segments takes. -/
abbrev total (segments : List (LinearSegment Line)) : ℚ :=
  Timeline.total LinearSegment.duration segments

/-- `ModInterval`. -/
structure ModInterval (Line : Type) where
  segments : List (LinearSegment Line)
  duration : ℚ
  duration_eq : duration = total segments

def ModInterval.new : ModInterval Line := ⟨[], 0, rfl⟩

def ModInterval.appendSegment (m : ModInterval Line) (segment : LinearSegment Line) :
    ModInterval Line where
  segments := m.segments ++ [segment]
  duration := m.duration + segment.duration
  duration_eq := by simp [m.duration_eq]

/-- `ModIntervalStreamState`. -/
structure StreamState (Line : Type) where
  endTime : ℚ
  currentSegment : LinearSegment Line
  segments : List (LinearSegment Line)
  startTime : ℚ
  xOffset : ℚ
  nextStart : ℚ
  followingStart : Option ℚ

/-- The state that the first poll of `into_stream` sets up, at the instant `now`. -/
def ModInterval.setup (m : ModInterval Line) (startAt now : ℚ) : Option (StreamState Line) :=
  match m.segments with
  | [] => none
  | segment :: segments =>
    some { endTime := now + m.duration, currentSegment := segment, segments := segments,
           startTime := now - startAt, xOffset := 0, nextStart := now, followingStart := none }

/-- Subtraction of `Duration`s: it panics on underflow. -/
def durationSub (a b : ℚ) : Option ℚ := if b ≤ a then some (a - b) else none

/-- An instant, unless it is past the end. -/
def StreamState.untilEnd (s : StreamState Line) (t : ℚ) : Option ℚ :=
  if t ≤ s.endTime then some t else none

/-- The end of `calculate_next_start`, once the current segment is settled. The outer `none` is
a panic. -/
def StreamState.nextFrom (hps : Rate Line) (s : StreamState Line) (time waitTime : ℚ) :
    Option (Option ℚ) :=
  let targetHitsPerSecond := hps s.currentSegment waitTime
  if targetHitsPerSecond = 0 then
    -- scaling from 0 to 0
    if s.segments.isEmpty then some none
    else (durationSub s.currentSegment.duration waitTime).map fun rest => s.untilEnd (time + rest)
  else some (s.untilEnd (time + (targetHitsPerSecond : ℚ)⁻¹))

/-- The next segment becomes the current one. -/
def StreamState.enter (s : StreamState Line) (segment : LinearSegment Line)
    (segments : List (LinearSegment Line)) : StreamState Line :=
  { s with xOffset := s.xOffset + s.currentSegment.duration, currentSegment := segment,
           segments := segments }

@[simp] theorem StreamState.enter_currentSegment (s : StreamState Line)
    (segment : LinearSegment Line) (segments : List (LinearSegment Line)) :
    (s.enter segment segments).currentSegment = segment := rfl

@[simp] theorem StreamState.enter_segments (s : StreamState Line)
    (segment : LinearSegment Line) (segments : List (LinearSegment Line)) :
    (s.enter segment segments).segments = segments := rfl

/-- `calculate_next_start`; `none` is a panic. The difference of two `Instant`s saturates. -/
def StreamState.calculateNextStart (hps : Rate Line) (s : StreamState Line) (time : ℚ) :
    Option (Option ℚ × StreamState Line) :=
  (durationSub (max 0 (time - s.startTime)) s.xOffset).bind fun waitTime =>
    if s.currentSegment.duration ≤ waitTime then
      match s.segments with
      | [] => some (none, s)
      | segment :: segments =>
        ((s.enter segment segments).nextFrom hps time (waitTime - s.currentSegment.duration)).map
          fun r => (r, s.enter segment segments)
    else (s.nextFrom hps time waitTime).map fun r => (r, s)

/-- What successive calls answer; `none` where one of them panics. -/
def StreamState.calls (hps : Rate Line) : StreamState Line → List ℚ → Option (List (Option ℚ))
  | _, [] => some []
  | s, t :: ts =>
    (s.calculateNextStart hps t).bind fun (r, s') => (s'.calls hps ts).map (r :: ·)

end Pewpew.LoadPattern
