import Pewpew.LoadPattern.Timing

/-! The instants that the stream of a load pattern yields, poll by poll. -/
namespace Pewpew.LoadPattern

variable {Line : Type}

/-- An item of the stream, and how long the poll sleeps before it. -/
structure Tick where
  instant : ℚ
  following : Option ℚ
  sleep : Option ℚ

/-- The start after `nextStart` is computed. -/
def StreamState.advance (hps : Rate Line) (s : StreamState Line) (nextStart : ℚ) :
    Option (StreamState Line) :=
  let s := { s with nextStart }
  (s.calculateNextStart hps nextStart).map fun (followingStart, s) => { s with followingStart }

/-- One poll of `into_stream` at the instant `now`, once the state is set up: `some none` is the
end of the stream, `none` a panic. -/
def StreamState.poll (hps : Rate Line) (s : StreamState Line) (now : ℚ) :
    Option (Option (Tick × StreamState Line)) :=
  -- the time between the expected instant and the actual one
  let latency := max 0 (now - s.nextStart)
  match s.followingStart with
  | none => some none
  | some nextStart =>
    (s.advance hps nextStart).map fun s =>
      let sleep := if now ≤ nextStart - latency then some (nextStart - latency - now) else none
      some (⟨nextStart, s.followingStart, sleep⟩, s)

/-- What polls at the given instants yield, up to the end of the stream. -/
def StreamState.polls (hps : Rate Line) : StreamState Line → List ℚ → Option (List Tick)
  | _, [] => some []
  | s, now :: nows =>
    (s.poll hps now).bind fun
      | none => some []
      | some (tick, s) => (s.polls hps nows).map (tick :: ·)

/-- `into_stream`: the first poll sets up the state. -/
def ModInterval.intoStream (hps : Rate Line) (m : ModInterval Line) (startAt : ℚ) :
    List ℚ → Option (List Tick)
  | [] => some []
  | now :: nows =>
    match m.setup startAt now with
    | none => some []
    | some s => (s.advance hps now).bind fun s => s.polls hps (now :: nows)

/-- The instants increase, and none of them is past the end of the pattern. -/
structure StaysInside (patternEnd : ℚ) (ticks : List Tick) : Prop where
  increasing : (ticks.map Tick.instant).Pairwise (· < ·)
  inside : ∀ tick ∈ ticks, tick.instant ≤ patternEnd
  following : ∀ tick ∈ ticks, ∀ f ∈ tick.following, tick.instant < f ∧ f ≤ patternEnd

/-- The segment and the offset in it whose rate a call at `t` reads, and the segments after it. -/
def StreamState.reading (s : StreamState Line) (t : ℚ) :
    Option (LinearSegment Line × ℚ × List (LinearSegment Line)) :=
  if s.waited t < s.currentSegment.duration then some (s.currentSegment, s.waited t, s.segments)
  else match s.segments with
    | [] => none
    | segment :: segments => some (segment, s.waited t - s.currentSegment.duration, segments)

/-- One interval of the rate that a call at `t` reads does not end between the end of the pattern
and that of the stream. -/
def StreamState.KeepsEnd (hps : Rate Line) (patternEnd : ℚ) (s : StreamState Line) (t : ℚ) : Prop :=
  ∀ segment x rest, s.reading t = some (segment, x, rest) → hps segment x ≠ 0 →
    t + (hps segment x : ℚ)⁻¹ ≤ patternEnd ∨ s.endTime < t + (hps segment x : ℚ)⁻¹

/-- A call at `t` that reads a rate of zero has not passed over a whole segment, unless that is the
last one. -/
def StreamState.KeepsPace (hps : Rate Line) (s : StreamState Line) (t : ℚ) : Prop :=
  ∀ segment x rest, s.reading t = some (segment, x, rest) → hps segment x = 0 → rest ≠ [] →
    x ≠ segment.duration

/-- Each call of the polls keeps the pattern's end and the pace. -/
def StreamState.Keeps (hps : Rate Line) (patternEnd : ℚ) : StreamState Line → List ℚ → Prop
  | _, [] => True
  | s, _ :: nows => ∀ t ∈ s.followingStart, s.KeepsEnd hps patternEnd t ∧ s.KeepsPace hps t ∧
    ∀ s' ∈ s.advance hps t, s'.Keeps hps patternEnd nows

/-- The first call keeps the pattern's end, and the calls of the polls keep that and the pace. -/
def ModInterval.Keeps (hps : Rate Line) (m : ModInterval Line) (startAt now : ℚ)
    (nows : List ℚ) : Prop :=
  ∀ s ∈ m.setup startAt now, s.KeepsEnd hps (now - startAt + m.duration) now ∧
    ∀ s' ∈ s.advance hps now, s'.Keeps hps (now - startAt + m.duration) (now :: nows)

variable {hps : Rate Line} {m : ModInterval Line} {s s' : StreamState Line} {r : Option ℚ}
  {startAt now t x patternEnd : ℚ} {nows : List ℚ} {k : Nat} {tick : Tick} {ticks : List Tick}

/-! ### One call -/

theorem mem_untilEnd {f : ℚ} : f ∈ s.untilEnd t ↔ t ≤ s.endTime ∧ t = f := by
  rw [StreamState.untilEnd]
  split <;> simp [*]

/-- What a call answers, by the rate that it reads. -/
theorem nextFrom_cases (h : s.nextFrom hps t x = some r) :
    hps s.currentSegment x ≠ 0 ∧ r = s.untilEnd (t + (hps s.currentSegment x : ℚ)⁻¹) ∨
      hps s.currentSegment x = 0 ∧ s.segments = [] ∧ r = none ∨
      hps s.currentSegment x = 0 ∧ s.segments ≠ [] ∧ x ≤ s.currentSegment.duration ∧
        r = s.untilEnd (t + (s.currentSegment.duration - x)) := by
  rw [StreamState.nextFrom] at h
  by_cases hz : hps s.currentSegment x = 0
  · rw [if_pos hz] at h
    cases hs : s.segments with
    | nil =>
      rw [hs] at h
      exact .inr (.inl ⟨hz, rfl, (Option.some.inj h).symm⟩)
    | cons next rest =>
      rw [hs] at h
      obtain ⟨wait, hwait, hr⟩ := Option.map_eq_some_iff.mp h
      rw [durationSub] at hwait
      split at hwait
      · next hle =>
        obtain rfl := Option.some.inj hwait
        exact .inr (.inr ⟨hz, List.cons_ne_nil next rest, hle, hr.symm⟩)
      · cases hwait
  · rw [if_neg hz] at h
    exact .inl ⟨hz, (Option.some.inj h).symm⟩

/-- A call settles the current segment, and reads its rate unless all segments have ended. -/
theorem Aligned.settle (ha : Aligned m startAt now s k) (hw : 0 ≤ s.waited t)
    (hcall : s.calculateNextStart hps t = some (r, s')) :
    s.reading t = none ∧ r = none ∧ s' = s ∨
      ∃ k', Aligned m startAt now s' k' ∧ 0 ≤ s'.waited t ∧
        s.reading t = some (s'.currentSegment, s'.waited t, s'.segments) ∧
        s'.nextFrom hps t (s'.waited t) = some r := by
  rw [ha.calculate hw] at hcall
  rw [StreamState.reading]
  rcases lt_or_ge (s.waited t) s.currentSegment.duration with hlt | hle
  · rw [if_neg hlt.not_ge] at hcall
    obtain ⟨r', hr', heq⟩ := Option.map_eq_some_iff.mp hcall
    obtain ⟨rfl, rfl⟩ := Prod.mk.inj heq
    exact .inr ⟨k, ha, hw, if_pos hlt, hr'⟩
  · rw [if_pos hle] at hcall
    rw [if_neg hle.not_gt]
    cases hs : s.segments with
    | nil =>
      rw [hs] at hcall
      obtain ⟨rfl, rfl⟩ := Prod.mk.inj (Option.some.inj hcall)
      exact .inl ⟨rfl, rfl, rfl⟩
    | cons next rest =>
      rw [hs] at hcall
      obtain ⟨r', hr', heq⟩ := Option.map_eq_some_iff.mp hcall
      obtain ⟨rfl, rfl⟩ := Prod.mk.inj heq
      refine .inr ⟨k + 1, ha.enter hs, ?_, ?_, hr'⟩
      · rw [waited_enter]
        exact sub_nonneg.mpr hle
      · rw [waited_enter]
        rfl

/-- The end of the current segment is inside the pattern. -/
theorem Aligned.segment_end_le (ha : Aligned m startAt now s k) :
    t + (s.currentSegment.duration - s.waited t) ≤ now - startAt + m.duration := by
  obtain ⟨pre, hm, -, hx⟩ := ha.segments
  have hrest := Timeline.total_nonneg (durations_nonneg s.segments)
  rw [StreamState.waited, ha.startTime, hx, m.duration_eq, hm]
  simp only [Timeline.total_append, Timeline.total_cons]
  linarith

/-- No call answers an instant before its own, or after the end of the stream. -/
theorem Aligned.answer_ge (ha : Aligned m startAt now s k) (hw : 0 ≤ s.waited t)
    (hcall : s.calculateNextStart hps t = some (r, s')) :
    (∃ k', Aligned m startAt now s' k') ∧
      ∀ f ∈ r, t ≤ f ∧ f ≤ now + m.duration ∧ 0 ≤ s'.waited f := by
  rcases ha.settle hw hcall with ⟨-, rfl, rfl⟩ | ⟨k', ha', hw', -, hnext⟩
  · exact ⟨⟨k, ha⟩, by simp⟩
  · refine ⟨⟨k', ha'⟩, fun f hf => ?_⟩
    have hge : t ≤ f ∧ f ≤ s'.endTime := by
      rcases nextFrom_cases hnext with ⟨-, rfl⟩ | ⟨-, -, rfl⟩ | ⟨-, -, hle, rfl⟩
      · obtain ⟨hend, rfl⟩ := mem_untilEnd.mp hf
        exact ⟨le_add_of_nonneg_right (by positivity), hend⟩
      · cases hf
      · obtain ⟨hend, rfl⟩ := mem_untilEnd.mp hf
        exact ⟨le_add_of_nonneg_right (sub_nonneg.mpr hle), hend⟩
    refine ⟨hge.1, ha'.endTime ▸ hge.2, ?_⟩
    simp only [StreamState.waited] at hw' ⊢
    linarith [hge.1]

theorem Aligned.keepsEnd_iff (ha : Aligned m startAt now s k) (hw : 0 ≤ s.waited t)
    (hcall : s.calculateNextStart hps t = some (r, s')) :
    (∀ f ∈ r, f ≤ now - startAt + m.duration) ↔
      s.KeepsEnd hps (now - startAt + m.duration) t := by
  rw [StreamState.KeepsEnd]
  rcases ha.settle hw hcall with ⟨hread, rfl, rfl⟩ | ⟨k', ha', hw', hread, hnext⟩
  · simp [hread]
  · rw [hread, ha.endTime, ← ha'.endTime]
    rcases nextFrom_cases hnext with ⟨hne, rfl⟩ | ⟨hz, -, rfl⟩ | ⟨hz, -, -, rfl⟩
    · refine ⟨fun h segment x rest heq _ => ?_, fun h f hf => ?_⟩
      · obtain ⟨rfl, rfl, rfl⟩ := by simpa using heq
        rcases le_or_gt (t + (hps s'.currentSegment (s'.waited t) : ℚ)⁻¹) s'.endTime with hle | hgt
        · exact .inl (h _ (mem_untilEnd.mpr ⟨hle, rfl⟩))
        · exact .inr hgt
      · obtain ⟨hle, rfl⟩ := mem_untilEnd.mp hf
        exact (h _ _ _ rfl hne).resolve_right hle.not_gt
    · refine iff_of_true (by simp) fun segment x rest heq hne => ?_
      obtain ⟨rfl, rfl, rfl⟩ := by simpa using heq
      exact absurd hz hne
    · refine iff_of_true (fun f hf => ?_) fun segment x rest heq hne => ?_
      · obtain ⟨-, rfl⟩ := mem_untilEnd.mp hf
        exact ha'.segment_end_le
      · obtain ⟨rfl, rfl, rfl⟩ := by simpa using heq
        exact absurd hz hne

theorem Aligned.keepsPace_iff (ha : Aligned m startAt now s k) (hw : 0 ≤ s.waited t)
    (ht : t ≤ now + m.duration) (hcall : s.calculateNextStart hps t = some (r, s')) :
    (∀ f ∈ r, t < f) ↔ s.KeepsPace hps t := by
  rw [StreamState.KeepsPace]
  rcases ha.settle hw hcall with ⟨hread, rfl, rfl⟩ | ⟨k', ha', hw', hread, hnext⟩
  · simp [hread]
  · rw [hread]
    rcases nextFrom_cases hnext with ⟨hne, rfl⟩ | ⟨hz, hnil, rfl⟩ | ⟨hz, hmore, hle, rfl⟩
    · refine iff_of_true (fun f hf => ?_) fun segment x rest heq hz => ?_
      · obtain ⟨-, rfl⟩ := mem_untilEnd.mp hf
        have : (0 : ℚ) < (hps s'.currentSegment (s'.waited t) : ℚ)⁻¹ :=
          inv_pos.mpr (NNRat.cast_pos.mpr (pos_iff_ne_zero.mpr hne))
        linarith
      · obtain ⟨rfl, rfl, rfl⟩ := by simpa using heq
        exact absurd hz hne
    · refine iff_of_true (by simp) fun segment x rest heq _ hmore => ?_
      obtain ⟨rfl, rfl, rfl⟩ := by simpa using heq
      exact absurd hnil hmore
    · refine ⟨fun h segment x rest heq _ _ hend => ?_, fun h f hf => ?_⟩
      · obtain ⟨rfl, rfl, rfl⟩ := by simpa using heq
        rw [hend, sub_self, add_zero] at h
        exact lt_irrefl t (h t (mem_untilEnd.mpr ⟨ha'.endTime ▸ ht, rfl⟩))
      · obtain ⟨-, rfl⟩ := mem_untilEnd.mp hf
        have := lt_of_le_of_ne hle (h _ _ _ rfl hz hmore)
        linarith

/-! ### Runs -/

theorem Aligned.advance (ha : Aligned m startAt now s k) (hw : 0 ≤ s.waited t)
    (h : s.advance hps t = some s') :
    (∃ k', Aligned m startAt now s' k') ∧
      (∀ f ∈ s'.followingStart, t ≤ f ∧ f ≤ now + m.duration ∧ 0 ≤ s'.waited f) ∧
      ((∀ f ∈ s'.followingStart, f ≤ now - startAt + m.duration) ↔
        s.KeepsEnd hps (now - startAt + m.duration) t) ∧
      (t ≤ now + m.duration → ((∀ f ∈ s'.followingStart, t < f) ↔ s.KeepsPace hps t)) := by
  obtain ⟨⟨r, s''⟩, hcall, rfl⟩ := Option.map_eq_some_iff.mp h
  have ha' : Aligned m startAt now { s with nextStart := t } k :=
    ⟨ha.endTime, ha.startTime, ha.segments⟩
  obtain ⟨⟨k', hk'⟩, hge⟩ := ha'.answer_ge hw hcall
  exact ⟨⟨k', hk'.endTime, hk'.startTime, hk'.segments⟩, hge, ha'.keepsEnd_iff hw hcall,
    fun ht => ha'.keepsPace_iff hw ht hcall⟩

theorem staysInside_cons : StaysInside patternEnd (tick :: ticks) ↔
    tick.instant ≤ patternEnd ∧ (∀ f ∈ tick.following, tick.instant < f ∧ f ≤ patternEnd) ∧
      (∀ tick' ∈ ticks, tick.instant < tick'.instant) ∧ StaysInside patternEnd ticks := by
  constructor
  · rintro ⟨hinc, hin, hfol⟩
    obtain ⟨hlt, hinc⟩ := List.pairwise_cons.mp hinc
    obtain ⟨hin, hins⟩ := List.forall_mem_cons.mp hin
    obtain ⟨hfol, hfols⟩ := List.forall_mem_cons.mp hfol
    exact ⟨hin, hfol, fun tick' h => hlt _ (List.mem_map_of_mem h), hinc, hins, hfols⟩
  · rintro ⟨hin, hfol, hlt, hinc, hins, hfols⟩
    refine ⟨List.pairwise_cons.mpr ⟨fun t ht => ?_, hinc⟩, List.forall_mem_cons.mpr ⟨hin, hins⟩,
      List.forall_mem_cons.mpr ⟨hfol, hfols⟩⟩
    obtain ⟨tick', h, rfl⟩ := List.mem_map.mp ht
    exact hlt tick' h

/-- What the polls yield begins with the start that follows. -/
theorem polls_head (h : s.polls hps nows = some (tick :: ticks)) :
    s.followingStart = some tick.instant := by
  cases nows with
  | nil => cases h
  | cons now nows =>
    obtain ⟨o, ho, h⟩ := Option.bind_eq_some_iff.mp h
    rw [StreamState.poll] at ho
    cases hf : s.followingStart with
    | none =>
      rw [hf] at ho
      obtain rfl := Option.some.inj ho
      cases h
    | some f =>
      rw [hf] at ho
      obtain ⟨s', -, rfl⟩ := Option.map_eq_some_iff.mp ho
      obtain ⟨ticks', -, heq⟩ := Option.map_eq_some_iff.mp h
      rw [← (List.cons.inj heq).1]

/-- A poll yields the start that follows. -/
theorem polls_yields {f n : ℚ} (hf : f ∈ s.followingStart)
    (h : s.polls hps (n :: nows) = some ticks) : ∃ tick ∈ ticks, tick.instant = f := by
  obtain ⟨o, ho, h⟩ := Option.bind_eq_some_iff.mp h
  rw [StreamState.poll, Option.mem_def.mp hf] at ho
  obtain ⟨s', -, rfl⟩ := Option.map_eq_some_iff.mp ho
  obtain ⟨ticks', -, rfl⟩ := Option.map_eq_some_iff.mp h
  exact ⟨_, List.mem_cons_self, rfl⟩

/-- Where the first instant is later than `t`, all are. -/
theorem StaysInside.later (h : StaysInside patternEnd ticks)
    (hp : s.polls hps nows = some ticks) (ht : ∀ f ∈ s.followingStart, t < f) :
    ∀ tick ∈ ticks, t < tick.instant := by
  cases ticks with
  | nil => exact List.forall_mem_nil _
  | cons tick ticks =>
    have hfirst : t < tick.instant := ht _ (polls_head hp)
    obtain ⟨-, -, hlt, -⟩ := staysInside_cons.mp h
    exact List.forall_mem_cons.mpr ⟨hfirst, fun tick' h' => hfirst.trans (hlt tick' h')⟩

theorem polls_staysInside (ha : Aligned m startAt now s k)
    (hfollows : ∀ f ∈ s.followingStart, f ≤ now + m.duration ∧ 0 ≤ s.waited f)
    (hend : ∀ f ∈ s.followingStart, f ≤ now - startAt + m.duration)
    (h : s.polls hps nows = some ticks) :
    StaysInside (now - startAt + m.duration) ticks ↔
      s.Keeps hps (now - startAt + m.duration) nows := by
  induction nows generalizing s k ticks with
  | nil =>
    obtain rfl := Option.some.inj h
    exact iff_of_true ⟨List.Pairwise.nil, by simp, by simp⟩ trivial
  | cons n nows ih =>
    obtain ⟨o, ho, h⟩ := Option.bind_eq_some_iff.mp h
    rw [StreamState.poll] at ho
    rw [StreamState.Keeps]
    cases hf : s.followingStart with
    | none =>
      rw [hf] at ho
      obtain rfl := Option.some.inj ho
      obtain rfl := Option.some.inj h
      exact iff_of_true ⟨List.Pairwise.nil, by simp, by simp⟩ (by simp)
    | some t =>
      rw [hf] at ho
      obtain ⟨s', hs', rfl⟩ := Option.map_eq_some_iff.mp ho
      obtain ⟨ticks', hticks, rfl⟩ := Option.map_eq_some_iff.mp h
      obtain ⟨hle, hw⟩ := hfollows t hf
      obtain ⟨⟨k', ha'⟩, hge, hkeepsEnd, hkeepsPace⟩ := ha.advance hw hs'
      rw [staysInside_cons, and_iff_right (hend t hf)]
      have hstep := fun hend' => ih ha' (fun f hf' => (hge f hf').2) hend' hticks
      constructor
      · rintro ⟨hfol, -, hinside⟩ t' ht'
        obtain rfl := Option.mem_some_iff.mp ht'
        have hend' : ∀ f ∈ s'.followingStart, f ≤ now - startAt + m.duration :=
          fun f hf' => (hfol f hf').2
        refine ⟨hkeepsEnd.mp hend', (hkeepsPace hle).mp fun f hf' => (hfol f hf').1, fun u hu => ?_⟩
        obtain rfl := Option.some.inj (hs'.symm.trans hu)
        exact (hstep hend').mp hinside
      · intro hkeeps
        obtain ⟨hkeepsEnd', hpace, hrest⟩ := hkeeps t rfl
        have hend' := hkeepsEnd.mpr hkeepsEnd'
        have hlater := (hkeepsPace hle).mpr hpace
        have hinside := (hstep hend').mpr (hrest s' hs')
        exact ⟨fun f hf' => ⟨hlater f hf', hend' f hf'⟩, hinside.later hticks hlater, hinside⟩

/-- A stream stays inside its pattern exactly where each call that its polls make keeps the end of
the pattern, and each but the first keeps the pace. -/
theorem staysInside_iff (hstart : 0 ≤ startAt)
    (h : m.intoStream hps startAt (now :: nows) = some ticks) :
    StaysInside (now - startAt + m.duration) ticks ↔ m.Keeps hps startAt now nows := by
  rw [ModInterval.intoStream] at h
  rw [ModInterval.Keeps]
  cases hs : m.setup startAt now with
  | none =>
    rw [hs] at h
    obtain rfl := Option.some.inj h
    exact iff_of_true ⟨List.Pairwise.nil, by simp, by simp⟩ (by simp)
  | some s =>
    rw [hs] at h
    obtain ⟨s', hs', h⟩ := Option.bind_eq_some_iff.mp h
    have ha := aligned_setup hs
    have hw : 0 ≤ s.waited now := by
      obtain ⟨pre, -, hpre, hoff⟩ := ha.segments
      obtain rfl := List.length_eq_zero_iff.mp hpre
      simp only [StreamState.waited, ha.startTime, hoff, Timeline.total_nil]
      linarith
    obtain ⟨⟨k', ha'⟩, hge, hkeepsEnd, -⟩ := ha.advance hw hs'
    have hstep := fun hend => polls_staysInside ha' (fun f hf => (hge f hf).2) hend h
    constructor
    · rintro hinside s₀ hs₀
      obtain rfl := Option.mem_some_iff.mp hs₀
      have hend : ∀ f ∈ s'.followingStart, f ≤ now - startAt + m.duration := by
        intro f hf
        obtain ⟨tick, hmem, rfl⟩ := polls_yields hf h
        exact hinside.inside tick hmem
      refine ⟨hkeepsEnd.mp hend, fun u hu => ?_⟩
      obtain rfl := Option.some.inj (hs'.symm.trans hu)
      exact (hstep hend).mp hinside
    · intro hkeeps
      obtain ⟨hkeepsEnd', hrest⟩ := hkeeps s rfl
      exact (hstep (hkeepsEnd.mpr hkeepsEnd')).mpr (hrest s' hs')

/-- Eleven seconds of one hit in two seconds, one second of none, and ten of one each second. -/
def pausingPattern : ModInterval (ℚ × ℚ) :=
  ((ModInterval.new.appendSegment ⟨(0, 1 / 2), 11, by norm_num⟩).appendSegment
    ⟨(0, 0), 1, by norm_num⟩).appendSegment ⟨(0, 1), 10, by norm_num⟩

theorem staysInside_iff_threeSegments : ∃ ticks,
    ticks.map Tick.instant = [101, 102, 103] ∧
      (StaysInside (100 - 15 + threeSegments.duration) ticks ↔
        threeSegments.Keeps (fun _ _ => 1) 15 100 [101, 103]) := by
  have hticks : (threeSegments.intoStream (fun _ _ => 1) 15 [100, 101, 103]).map
      (·.map Tick.instant) = some [101, 102, 103] := by decide +kernel
  obtain ⟨ticks, hticks, hinstants⟩ := Option.map_eq_some_iff.mp hticks
  exact ⟨ticks, hinstants, staysInside_iff (by norm_num) hticks⟩

/-- The tick at the end of the pause comes twice. -/
theorem not_staysInside : ¬ ∀ (m : ModInterval (ℚ × ℚ)) (hps : Rate (ℚ × ℚ)) (startAt now : ℚ)
    (nows : List ℚ) (ticks : List Tick), 0 ≤ startAt → (now :: nows).Pairwise (· ≤ ·) →
      m.intoStream hps startAt (now :: nows) = some ticks →
        StaysInside (now - startAt + m.duration) ticks := by
  intro h
  have hticks : (pausingPattern.intoStream lineRate 0 [0, 2, 4, 6, 8, 10, 12]).map
      (·.map Tick.instant) = some [2, 4, 6, 8, 10, 12, 12] := by decide +kernel
  obtain ⟨ticks, hticks, hinstants⟩ := Option.map_eq_some_iff.mp hticks
  have hinside := h pausingPattern lineRate 0 0 _ ticks le_rfl (by decide +kernel) hticks
  have hincreasing := hinside.increasing
  rw [hinstants] at hincreasing
  exact absurd hincreasing (by decide +kernel)

end Pewpew.LoadPattern
