import Pewpew.LoadPattern.Timing

/-! The calls on a clock: an interval that is no `Duration`, and an instant past the last one, are
panics. -/
namespace Pewpew.LoadPattern

variable {Line : Type}

/-- The first and the last `Instant`. -/
structure Clock where
  first : ℚ
  last : ℚ

/-- The sum of an `Instant` and a `Duration`. -/
def Clock.add (c : Clock) (t wait : ℚ) : Option ℚ :=
  if t + wait ≤ c.last then some (t + wait) else none

/-- `Duration::from_secs_f64`. -/
def fromSecs (secs : ℚ) : Option ℚ := if secs < 2 ^ 64 then some secs else none

/-- The instant after a wait, unless it is past the end. -/
def StreamState.startOn (c : Clock) (s : StreamState Line) (time wait : ℚ) : Option (Option ℚ) :=
  (c.add time wait).map s.untilEnd

/-- The end of `calculate_next_start`. -/
def StreamState.nextFromOn (c : Clock) (hps : Rate Line) (s : StreamState Line)
    (time waitTime : ℚ) : Option (Option ℚ) :=
  let targetHitsPerSecond := hps s.currentSegment waitTime
  if targetHitsPerSecond = 0 then
    if s.segments.isEmpty then some none
    else (durationSub s.currentSegment.duration waitTime).bind (s.startOn c time)
  else (fromSecs (targetHitsPerSecond : ℚ)⁻¹).bind (s.startOn c time)

/-- `calculate_next_start`. -/
def StreamState.calculateNextStartOn (c : Clock) (hps : Rate Line) (s : StreamState Line)
    (time : ℚ) : Option (Option ℚ × StreamState Line) :=
  (durationSub (max 0 (time - s.startTime)) s.xOffset).bind fun waitTime =>
    if s.currentSegment.duration ≤ waitTime then
      match s.segments with
      | [] => some (none, s)
      | segment :: segments =>
        ((s.enter segment segments).nextFromOn c hps time
          (waitTime - s.currentSegment.duration)).map fun r => (r, s.enter segment segments)
    else (s.nextFromOn c hps time waitTime).map fun r => (r, s)

def StreamState.callsOn (c : Clock) (hps : Rate Line) :
    StreamState Line → List ℚ → Option (List (Option ℚ))
  | _, [] => some []
  | s, t :: ts =>
    (s.calculateNextStartOn c hps t).bind fun (r, s') => (s'.callsOn c hps ts).map (r :: ·)

/-- The state that the first poll sets up; the outer `none` is a panic. -/
def ModInterval.setupOn (c : Clock) (m : ModInterval Line) (startAt now : ℚ) :
    Option (Option (StreamState Line)) :=
  if m.segments.isEmpty ∨ now + m.duration ≤ c.last ∧ c.first ≤ now - startAt then
    some (m.setup startAt now)
  else none

/-- No wait in a segment is longer than a bound. -/
structure LinearSegment.WaitsAtMost (hps : Rate Line) (longest : ℚ) (s : LinearSegment Line) :
    Prop where
  whole : s.duration ≤ longest
  interval : ∀ x, 0 ≤ x → hps s x ≠ 0 → (hps s x : ℚ)⁻¹ ≤ longest

variable {c : Clock} {hps : Rate Line} {s s' : StreamState Line} {r : Option ℚ}
  {longest t waitTime secs : ℚ} {ts : List ℚ}

theorem startOn_of_le (hlast : t + longest ≤ c.last) (h : secs ≤ longest) :
    s.startOn c t secs = some (s.untilEnd (t + secs)) := by
  have hle : t + secs ≤ c.last := by linarith
  rw [StreamState.startOn, Clock.add, if_pos hle]
  rfl

theorem durationSub_some {a b d : ℚ} (h : durationSub a b = some d) : 0 ≤ d ∧ d = a - b := by
  rw [durationSub] at h
  split at h
  · next hle =>
    cases h
    exact ⟨sub_nonneg.mpr hle, rfl⟩
  · cases h

/-- With waits that are short enough the clock is not noticed. -/
theorem nextFromOn_eq (hlong : longest < 2 ^ 64) (hlast : t + longest ≤ c.last)
    (hwait : 0 ≤ waitTime) (hs : s.currentSegment.WaitsAtMost hps longest) :
    s.nextFromOn c hps t waitTime = s.nextFrom hps t waitTime := by
  unfold StreamState.nextFromOn StreamState.nextFrom
  by_cases hz : hps s.currentSegment waitTime = 0
  · rw [if_pos hz, if_pos hz]
    split
    · rfl
    · cases hsub : durationSub s.currentSegment.duration waitTime with
      | none => rfl
      | some rest =>
        obtain ⟨-, rfl⟩ := durationSub_some hsub
        have hle : s.currentSegment.duration - waitTime ≤ longest := by linarith [hs.whole]
        rw [Option.bind_some, startOn_of_le hlast hle]
        rfl
  · have hle := hs.interval waitTime hwait hz
    have hsecs : fromSecs (hps s.currentSegment waitTime : ℚ)⁻¹ =
        some (hps s.currentSegment waitTime : ℚ)⁻¹ := if_pos (by linarith)
    rw [if_neg hz, if_neg hz, hsecs, Option.bind_some, startOn_of_le hlast hle]

/-- The segments that a state still has. -/
def StreamState.left (s : StreamState Line) : List (LinearSegment Line) :=
  s.currentSegment :: s.segments

theorem left_setup {m : ModInterval Line} {startAt now : ℚ} (h : s ∈ m.setup startAt now) :
    s.left = m.segments := by
  rw [ModInterval.setup] at h
  split at h
  · cases h
  · next hsegments =>
    cases h
    exact hsegments.symm

theorem waited_setup {m : ModInterval Line} {startAt now : ℚ} (h : s ∈ m.setup startAt now)
    (t : ℚ) : s.waited t = t - (now - startAt) := by
  rw [ModInterval.setup] at h
  split at h
  · cases h
  · cases h
    exact sub_zero _

theorem calculateNextStartOn_eq (hlong : longest < 2 ^ 64) (hlast : t + longest ≤ c.last)
    (hs : ∀ segment ∈ s.left, segment.WaitsAtMost hps longest) :
    s.calculateNextStartOn c hps t = s.calculateNextStart hps t := by
  unfold StreamState.calculateNextStartOn StreamState.calculateNextStart
  cases hsub : durationSub (max 0 (t - s.startTime)) s.xOffset with
  | none => rfl
  | some waitTime =>
    obtain ⟨hwait, -⟩ := durationSub_some hsub
    rw [Option.bind_some, Option.bind_some]
    split
    · next hle =>
      cases hsegments : s.segments with
      | nil => rfl
      | cons segment segments =>
        have hmem : segment ∈ s.left := by simp [StreamState.left, hsegments]
        simp only [nextFromOn_eq (s := s.enter segment segments) hlong hlast
          (sub_nonneg.mpr hle) (hs segment hmem)]
    · rw [nextFromOn_eq hlong hlast hwait (hs _ List.mem_cons_self)]

/-- A call never brings back a segment. -/
theorem left_of_call (h : s.calculateNextStart hps t = some (r, s')) :
    ∀ segment ∈ s'.left, segment ∈ s.left := by
  obtain ⟨waitTime, -, h⟩ := Option.bind_eq_some_iff.mp h
  split at h
  · cases hsegments : s.segments with
    | nil =>
      rw [hsegments] at h
      cases h
      exact fun _ h => h
    | cons segment segments =>
      rw [hsegments] at h
      obtain ⟨r', -, heq⟩ := Option.map_eq_some_iff.mp h
      cases heq
      intro segment' hmem
      rw [StreamState.left, hsegments]
      exact List.mem_cons_of_mem _ hmem
  · obtain ⟨r', -, heq⟩ := Option.map_eq_some_iff.mp h
    cases heq
    exact fun _ h => h

/-- Nor is it noticed by any number of calls. -/
theorem callsOn_eq (hlong : longest < 2 ^ 64) (hlast : ∀ t ∈ ts, t + longest ≤ c.last)
    (hs : ∀ segment ∈ s.left, segment.WaitsAtMost hps longest) :
    s.callsOn c hps ts = s.calls hps ts := by
  induction ts generalizing s with
  | nil => rfl
  | cons t ts ih =>
    obtain ⟨ht, hts⟩ := List.forall_mem_cons.mp hlast
    rw [StreamState.callsOn, StreamState.calls, calculateNextStartOn_eq hlong ht hs]
    cases hcall : s.calculateNextStart hps t with
    | none => rfl
    | some p =>
      obtain ⟨r, s'⟩ := p
      have hrest := ih hts fun segment hmem => hs segment (left_of_call hcall segment hmem)
      simp only [Option.bind_some, hrest]

end Pewpew.LoadPattern
