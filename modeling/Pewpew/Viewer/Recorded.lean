import Pewpew.Stats.Conservation
import Pewpew.Viewer.Reconstruction

/-! The collector writes files of the shape that the viewer is given. -/
namespace Pewpew.Viewer

open Std Accumulate StatsCollector

variable {fmt : HistogramFormat} {cfg : Setup} {clock created ended : Clock} {s s' : Stats}
  {c c' : Collector} {stat : ResponseStat} {ms : List FileMessage}

/-- What has been written after the header: each tag group of the collector is defined, and the
entries of all buckets have an index among them. -/
structure Recorded (h : FileHeader) (s : Stats) : Prop where
  previous : s.previous = none
  indices : s.tags.map (·.2) = List.range s.tags.length
  current : ∀ i, s.current.entries[i]?.isSome → i < s.tags.length
  file : ∃ ms, s.file = .header h :: ms ∧ (∀ h, .header h ∉ ms) ∧
    tagsOf ms = s.tags.map (fun p => ⟨p.2, p.1⟩) ∧
    ∀ i, entriesAt ms i ≠ [] → i < s.tags.length

theorem tagsOf_append (ms ms' : List FileMessage) : tagsOf (ms ++ ms') = tagsOf ms ++ tagsOf ms' :=
  List.filterMap_append

theorem entriesAt_append (ms ms' : List FileMessage) (i : Nat) :
    entriesAt (ms ++ ms') i = entriesAt ms i ++ entriesAt ms' i :=
  List.filterMap_append

theorem Recorded.written {h : FileHeader} (hr : Recorded h s) :
    ∃ ms, s.file = .header h :: ms ∧ Written ms := by
  obtain ⟨ms, hfile, hno, htags, hentries⟩ := hr.file
  refine ⟨ms, hfile, hno, ?_, ?_⟩
  · rw [htags, List.map_map, List.length_map]
    exact hr.indices
  · rw [htags, List.length_map]
    exact hentries

/-- A bucket that is written has entries of the known tag groups only. -/
theorem recorded_buckets {h : FileHeader} (hr : Recorded h s) (time : Nat) :
    Recorded h { s with current := .new time, file := s.file ++ [.buckets s.current] } := by
  obtain ⟨ms, hfile, hno, htags, hentries⟩ := hr.file
  refine ⟨hr.previous, hr.indices, by simp [TimeBucket.new], ms ++ [.buckets s.current], ?_, ?_, ?_,
    ?_⟩
  · simp [hfile]
  · simpa using hno
  · rw [tagsOf_append, htags]
    exact List.append_nil _
  · intro i hi
    rw [entriesAt_append, entriesAt_buckets] at hi
    cases he : s.current.entries[i]? with
    | some e => exact hr.current i (by simp [he])
    | none => exact hentries i (by simpa [he] using hi)

theorem recorded_rotate {h : FileHeader} (hr : Recorded h s) (time : Nat) :
    Recorded h (s.rotate time) :=
  { recorded_buckets hr time with }

theorem recorded_complete {h : FileHeader} (hr : Recorded h s) : Recorded h s.complete :=
  { recorded_buckets hr 0 with }

theorem recorded_append {h : FileHeader} (hr : Recorded h s) : Recorded h (s.append stat) := by
  obtain ⟨ms, hfile, hno, htags, hentries⟩ := hr.file
  unfold Stats.append
  cases hl : s.tags.lookup stat.tags with
  | some index =>
    have hindex : index < s.tags.length := by
      obtain ⟨l₁, l₂, heq, -⟩ := List.lookup_eq_some_iff.mp hl
      have hmem : index ∈ s.tags.map (·.2) := by simp [heq]
      rw [hr.indices] at hmem
      exact List.mem_range.mp hmem
    refine ⟨hr.previous, hr.indices, ?_, ms, hfile, hno, htags, hentries⟩
    intro i hi
    by_cases hsame : index = i
    · exact hsame ▸ hindex
    · refine hr.current i ?_
      simpa [TimeBucket.append, ExtTreeMap.getElem?_alter, hsame] using hi
  | none =>
    refine ⟨hr.previous, ?_, ?_, ms ++ [.tags ⟨s.tags.length, stat.tags⟩], ?_, ?_, ?_, ?_⟩
    · simp [hr.indices, List.range_succ]
    · intro i hi
      rw [List.length_append, List.length_singleton]
      by_cases hsame : s.tags.length = i
      · omega
      · have hold := hr.current i (by
          simpa [TimeBucket.append, ExtTreeMap.getElem?_alter, hsame] using hi)
        omega
    · simp [hfile]
    · simpa using hno
    · rw [tagsOf_append, htags, List.map_append]
      rfl
    · intro i hi
      rw [entriesAt_append] at hi
      have hold := hentries i (by simpa [entriesAt] using hi)
      rw [List.length_append]
      omega

/-- A started collector goes on recording. -/
theorem recorded_step {h : FileHeader} {e : Clock × Event} (hr : Recorded h c.stats)
    (hstart : c.testStartTime.isSome) (hstep : c.step cfg e = some c') :
    Recorded h c'.stats ∧ c'.testStartTime.isSome := by
  obtain ⟨startTime, hs⟩ := Option.isSome_iff_exists.mp hstart
  obtain ⟨clock, event⟩ := e
  cases event with
  | responseStat stat =>
    cases hstep
    exact ⟨recorded_append hr, hstart⟩
  | start duration =>
    cases hstep
    simp only [Collector.onStart, hs]
    split
    · exact ⟨hr, hstart⟩
    · exact ⟨{ hr with }, rfl⟩
  | newBucket =>
    simp only [Collector.step, Collector.onNewBucket, hs, Option.bind_eq_bind,
      Option.bind_eq_some_iff, Option.map_eq_some_iff] at hstep
    obtain ⟨remaining, ⟨r, -, rfl⟩, stats, hclose, rfl⟩ := hstep
    refine ⟨?_, by simp⟩
    rcases closeOutBucket_some hr.previous hclose with rfl | ⟨time, rfl⟩
    · exact hr
    · exact recorded_rotate hr time

theorem recorded_receive {h : FileHeader} {events : List (Clock × Event)}
    (hr : Recorded h c.stats) (hstart : c.testStartTime.isSome)
    (hrun : c.receive cfg events = some c') : Recorded h c'.stats := by
  induction events generalizing c with
  | nil =>
    cases hrun
    exact hr
  | cons e events ih =>
    obtain ⟨c₁, hstep, hrest⟩ := Option.bind_eq_some_iff.mp hrun
    obtain ⟨hr₁, hstart₁⟩ := recorded_step hr hstart hstep
    exact ih hr₁ hstart₁ hrest

/-- The file of a test whose collector first receives `Start` is a header and messages as the
viewer expects them. -/
theorem written_collect {duration : Nat} {events : List (Clock × Event)}
    (h : collect cfg created ((clock, .start duration) :: events) ended = some s) :
    ∃ ms, s.file = .header ⟨cfg.testName, cfg.bin, cfg.bucketSize⟩ :: ms ∧ Written ms := by
  simp only [collect, Option.bind_eq_bind, Option.bind_eq_some_iff] at h
  obtain ⟨s₀, hnew, c, hrun, hclose⟩ := h
  obtain ⟨time, -, rfl⟩ := Option.map_eq_some_iff.mp hnew
  have hr : Recorded ⟨cfg.testName, cfg.bin, cfg.bucketSize⟩ c.stats := by
    obtain ⟨c₁, hstep, hrest⟩ := Option.bind_eq_some_iff.mp hrun
    cases hstep
    refine recorded_receive ?_ ?_ hrest
    · exact ⟨rfl, rfl, by simp [Collector.onStart, TimeBucket.new], [], rfl, by simp, rfl,
        by simp [entriesAt]⟩
    · rfl
  rw [closeOutBucket_none hclose]
  exact (recorded_complete hr).written

/-- After such a test the viewer shows what was written exactly when the file is legible. -/
theorem reconstructs_collect {duration : Nat} {events : List (Clock × Event)}
    (h : collect cfg created ((clock, .start duration) :: events) ended = some s) :
    ∃ ms, s.file = .header ⟨cfg.testName, cfg.bin, cfg.bucketSize⟩ :: ms ∧
      (Legible ms → Reconstructs fmt ⟨cfg.testName, cfg.bin, cfg.bucketSize⟩ ms) ∧
      (Reconstructs fmt ⟨cfg.testName, cfg.bin, cfg.bucketSize⟩ ms → Legible ms) := by
  obtain ⟨ms, hfile, hw⟩ := written_collect h
  exact ⟨ms, hfile, reconstructs_of_legible hw _, legible_of_reconstructs hw⟩

end Pewpew.Viewer
