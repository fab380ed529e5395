import Pewpew.TestEnd.Verdict

/-! The load tests of one run follow each other. -/
namespace Pewpew.TestEnd

open Broadcast Transition

variable {E : Type} {s t : State E} {a : Act E} {as : List (Act E)} {log : List (Message E)}
  {tests : List LoadTest} {i : Nat} {x : LoadTest}

/-- The main task has not created its load test yet. -/
def Opening : Main E → Prop
  | .stats | .watcher | .test => True
  | _ => False

/-- The watcher sends no update before the first load test has been created. -/
def Begun (s : State E) : Act E → Prop
  | .update => ¬ Opening s.main
  | _ => True

instance : DecidablePred (Opening : Main E → Prop)
  | .stats | .watcher | .test => inferInstanceAs (Decidable True)
  | .waiting _ | .failed _ | .ended _ => inferInstanceAs (Decidable False)

instance (s : State E) : (a : Act E) → Decidable (Begun s a)
  | .update => inferInstanceAs (Decidable (¬ _))
  | .begin _ _ | .main | .test _ _ _ | .reload _ | .watch | .collect _ | .ctrlC _ | .kill _
  | .report => inferInstanceAs (Decidable True)

/-- The load test is over, or there is a message for it. -/
def Told (log : List (Message E)) (x : LoadTest) : Prop := x.finished = true ∨ x.start < log.length

/-- Whoever has told the load tests of an update has told all of them; and all but the last one have
been told. -/
structure Succeeds (s : State E) : Prop where
  starts : ∀ x ∈ s.tests, x.start ≤ s.log.length
  opening : Opening s.main → s.tests = [] ∧ ∀ pos, s.watcher ≠ .updated pos
  updated : ∀ pos, s.watcher = .updated pos → ∀ x ∈ s.tests, Told s.log x
  told : ∀ i x, s.tests[i]? = some x → i + 1 < s.tests.length → Told s.log x

theorem Told.append (h : Told log x) (more : List (Message E)) : Told (log ++ more) x := by
  rcases h with hover | hlt
  · exact .inl hover
  · right
    rw [List.length_append]
    omega

/-- A load test that has been told is over after its next poll. -/
theorem over_of_told (hi : s.tests[i]? = some x) (hx : x.finished = false) (htold : Told s.log x)
    (endpoints : Option (Except E Unit)) (timeUp : Bool) :
    ∃ t, Step s (.test i endpoints timeUp) t ∧ t.tests[i]? = some { x with finished := true } := by
  obtain ⟨hlt, -⟩ := List.getElem?_eq_some_iff.mp hi
  have hunread : x.start < s.log.length := by
    rcases htold with hover | hunread
    · rw [hx] at hover
      cases hover
    · exact hunread
  refine ⟨s.pollTest i x endpoints timeUp, ?_, ?_⟩
  · simp [Step, next, hi, hx]
  · unfold State.pollTest
    split
    · exact List.getElem?_set_self hlt
    · split
      · exact List.getElem?_set_self hlt
      · next hnone => exact absurd (recv_none hnone) (by omega)

theorem succeeds_init : Succeeds (init : State E) where
  starts := List.forall_mem_nil _
  opening _ := ⟨rfl, by simp [init]⟩
  updated _ h := by cases h
  told i x hi := by cases hi

/-- A step that sends messages, and does nothing else that concerns the load tests. -/
theorem Succeeds.frame (h : Succeeds s) {more : List (Message E)} (hlog : t.log = s.log ++ more)
    (htests : t.tests = s.tests) (hopening : Opening t.main → Opening s.main)
    (hwatch : ∀ pos, t.watcher = .updated pos → s.watcher = .updated pos) : Succeeds t := by
  refine ⟨?_, ?_, ?_, ?_⟩
  · intro x hx
    rw [htests] at hx
    have := h.starts x hx
    rw [hlog, List.length_append]
    omega
  · intro hopen
    obtain ⟨hnil, hnone⟩ := h.opening (hopening hopen)
    exact ⟨htests.trans hnil, fun pos hpos => hnone pos (hwatch pos hpos)⟩
  · intro pos hpos x hx
    rw [htests] at hx
    rw [hlog]
    exact (h.updated pos (hwatch pos hpos) x hx).append more
  · intro i x hi hlt
    rw [htests] at hi hlt
    rw [hlog]
    exact (h.told i x hi hlt).append more

/-- The same of a step that sends nothing. -/
theorem Succeeds.quiet (h : Succeeds s) (hlog : t.log = s.log) (htests : t.tests = s.tests)
    (hopening : Opening t.main → Opening s.main)
    (hwatch : ∀ pos, t.watcher = .updated pos → s.watcher = .updated pos) : Succeeds t :=
  h.frame (hlog.trans (List.append_nil _).symm) htests hopening hwatch

/-- A load test subscribes after all others have been told. -/
theorem Succeeds.subscribe (hstarts : ∀ x ∈ s.tests, x.start ≤ s.log.length)
    (hall : ∀ x ∈ s.tests, Told s.log x) (hmain : ¬ Opening t.main)
    (hlog : t.log = s.log) (htests : t.tests = s.tests ++ [⟨s.log.length, false⟩])
    (hwatch : ∀ pos, t.watcher ≠ .updated pos) : Succeeds t := by
  refine ⟨?_, fun hopen => (hmain hopen).elim, fun pos hpos => (hwatch pos hpos).elim, ?_⟩
  · intro x hx
    rw [htests] at hx
    rw [hlog]
    rcases List.mem_append.mp hx with hx | hx
    · exact hstarts x hx
    · obtain rfl := List.mem_singleton.mp hx
      exact Nat.le_refl _
  · intro i x hi hlt
    rw [htests, List.length_append, List.length_singleton] at hlt
    rw [htests, List.getElem?_append_left (by omega)] at hi
    rw [hlog]
    exact hall x (List.mem_of_getElem? hi)

theorem succeeds_test {endpoints : Option (Except E Unit)} {timeUp : Bool} (h : Succeeds s)
    (hs : Step s (.test i endpoints timeUp) t) : Succeeds t := by
  obtain ⟨x, hi, -, rfl⟩ := step_test hs
  have hx : x ∈ s.tests := List.mem_of_getElem? hi
  rcases pollTest_cases s i (h.starts x hx) endpoints timeUp with hsame | ⟨more, -, -, heq⟩
  · rwa [hsame]
  · rw [heq]
    have hover : Told (s.log ++ more) { x with finished := true } := .inl rfl
    refine ⟨?_, ?_, ?_, ?_⟩
    · intro y hy
      rw [List.length_append]
      rcases List.mem_or_eq_of_mem_set hy with hy | rfl
      · have := h.starts y hy
        omega
      · have := h.starts x hx
        dsimp only
        omega
    · intro hopen
      rw [(h.opening hopen).1] at hi
      cases hi
    · intro pos hpos y hy
      rcases List.mem_or_eq_of_mem_set hy with hy | rfl
      · exact (h.updated pos hpos y hy).append more
      · exact hover
    · intro j y hj hlt
      rw [List.length_set] at hlt
      by_cases hij : i = j
      · subst hij
        obtain ⟨hlen, -⟩ := List.getElem?_eq_some_iff.mp hi
        rw [List.getElem?_set_self hlen] at hj
        obtain rfl := Option.some.inj hj
        exact hover
      · rw [List.getElem?_set_ne hij] at hj
        exact (h.told j y hj hlt).append more

theorem succeeds_begin {watch : Bool} {failure : Option E} (h : Succeeds s)
    (hs : s.begin watch failure = some t) : Succeeds t := by
  unfold State.begin at hs
  split at hs
  · next hmain =>
    cases hs
    exact h.quiet rfl rfl (fun _ => by rw [hmain]; trivial) fun _ hpos => hpos
  · next hmain =>
    cases hs
    refine h.quiet rfl rfl (fun _ => by rw [hmain]; trivial) ?_
    intro pos hpos
    dsimp only at hpos
    split at hpos <;> cases hpos
  · next hmain =>
    cases hs
    obtain ⟨hnil, hnone⟩ := h.opening (by rw [hmain]; trivial)
    refine Succeeds.subscribe h.starts ?_ id rfl rfl hnone
    rw [hnil]
    exact List.forall_mem_nil _
  · cases hs
    exact h.quiet rfl rfl (fun hopen => hopen.elim) fun _ hpos => hpos
  · cases hs
    exact h.quiet rfl rfl (fun hopen => hopen.elim) fun _ hpos => hpos
  · cases hs

theorem succeeds_update {pos : Nat} (h : Succeeds s) (hmain : ¬ Opening s.main) :
    Succeeds ({ s with watcher := .updated pos }.send (.ok .configUpdate)) := by
  have htold : ∀ x ∈ s.tests, Told (s.log ++ [.ok .configUpdate]) x := by
    intro x hx
    have := h.starts x hx
    right
    rw [List.length_append, List.length_singleton]
    omega
  refine ⟨?_, fun hopen => (hmain hopen).elim, fun _ _ => htold, ?_⟩
  · intro x hx
    have := h.starts x hx
    simp only [State.send, List.length_append]
    omega
  · intro i x hi _
    exact htold x (List.mem_of_getElem? hi)

theorem succeeds_reload {pos : Nat} {failure : Option E} (h : Succeeds s)
    (hwatch : s.watcher = .updated pos) (hs : Step s (.reload failure) t) : Succeeds t := by
  have hmain : ¬ Opening s.main := fun hopen => (h.opening hopen).2 pos hwatch
  simp only [Step, next, hwatch, Option.some.injEq] at hs
  subst hs
  cases failure with
  | none => exact Succeeds.subscribe h.starts (h.updated pos hwatch) hmain rfl rfl (by simp)
  | some e =>
    exact h.quiet rfl rfl (fun hopen => (hmain hopen).elim)
      (fun _ hpos => by cases hpos)

theorem succeeds_main {pos : Nat} (h : Succeeds s) (hmain : s.main = .waiting pos) :
    Succeeds (s.pollMain pos) := by
  have hlate : ¬ Opening (s.pollMain pos).main := by
    unfold State.pollMain
    split
    · rw [hmain]
      exact id
    all_goals exact id
  refine h.quiet ?_ ?_ (fun hopen => (hlate hopen).elim) ?_
  all_goals
    unfold State.pollMain
    split <;> simp

theorem succeeds_step (h : Succeeds s) (hs : Guarded Begun Step s a t) : Succeeds t := by
  obtain ⟨hbegun, hs⟩ := hs
  cases a with
  | begin watch failure => exact succeeds_begin h hs
  | main =>
    simp only [Step, next] at hs
    split at hs
    · next hmain =>
      cases hs
      exact succeeds_main h hmain
    · cases hs
  | test i endpoints timeUp => exact succeeds_test h hs
  | update =>
    simp only [Step, next] at hs
    split at hs
    · cases hs
      exact succeeds_update h hbegun
    · cases hs
  | reload failure =>
    cases hwatch : s.watcher with
    | updated pos => exact succeeds_reload h hwatch hs
    | _ => simp [Step, next, hwatch] at hs
  | watch =>
    simp only [Step, next] at hs
    split at hs
    · cases hs
      refine h.quiet ?_ ?_ ?_ ?_
      all_goals
        unfold State.pollWatcher
        split <;> simp
    · cases hs
  | collect closed =>
    simp only [Step, next] at hs
    split at hs
    · cases hs
      refine h.quiet ?_ ?_ ?_ ?_
      all_goals
        unfold State.pollCollector
        repeat' split
      all_goals simp
    · cases hs
  | ctrlC answer =>
    obtain ⟨pos, -, rfl⟩ := Option.map_eq_some_iff.mp hs
    have hframe : ∃ more, (s.pollCtrlC pos answer).log = s.log ++ more ∧
        (s.pollCtrlC pos answer).tests = s.tests ∧ (s.pollCtrlC pos answer).main = s.main ∧
          (s.pollCtrlC pos answer).watcher = s.watcher := by
      unfold State.pollCtrlC
      repeat' split
      · exact ⟨_, rfl, rfl, rfl, rfl⟩
      all_goals exact ⟨[], (List.append_nil _).symm, rfl, rfl, rfl⟩
    obtain ⟨more, hlog, htests, hmain, hwatch⟩ := hframe
    exact h.frame hlog htests (by rw [hmain]; exact id) (by rw [hwatch]; exact fun _ hpos => hpos)
  | kill why =>
    cases hs
    exact h.frame rfl rfl id fun _ hpos => hpos
  | report =>
    simp only [Step, next] at hs
    repeat' split at hs
    all_goals cases hs
    all_goals exact h.frame rfl rfl id fun _ hpos => hpos

/-- In every interleaving in which no update comes before the first load test has been created:
every load test but the last one is over, or its next poll is its end, whatever its endpoints do. -/
theorem one_load_test (h : Run (Guarded Begun Step) (init : State E) as s)
    (hi : s.tests[i]? = some x) (hlt : i + 1 < s.tests.length) :
    x.finished = true ∨ ∀ endpoints timeUp, ∃ t, Step s (.test i endpoints timeUp) t ∧
      t.tests[i]? = some { x with finished := true } := by
  have hsucceeds : Succeeds s :=
    h.invariant Succeeds (fun _ _ _ => succeeds_step) succeeds_init
  cases hx : x.finished with
  | true => exact .inl rfl
  | false =>
    right
    intro endpoints timeUp
    exact over_of_told hi hx (hsucceeds.told i x hi hlt) endpoints timeUp

/-- The second of two load tests is running, and the first one has not been polled. -/
def replaceTrace : List (Act String) :=
  [.begin true none, .begin true none, .begin true none, .update, .reload none]

theorem one_load_test_replaceTrace : ∃ s : State String,
    Run (Guarded Begun Step) init replaceTrace s ∧ s.tests = [⟨0, false⟩, ⟨1, false⟩] ∧
      ∃ t, Step s (.test 0 none false) t ∧ t.tests[0]? = some ⟨0, true⟩ := by
  obtain ⟨s, hrun, hs⟩ := guarded_run_of_exec Begun next init replaceTrace
    (fun s => s.tests == [⟨0, false⟩, ⟨1, false⟩]) rfl
  have htests : s.tests = [⟨0, false⟩, ⟨1, false⟩] := by simpa using hs
  have hfirst : s.tests[0]? = some ⟨0, false⟩ := by rw [htests]; rfl
  rcases one_load_test hrun hfirst (by rw [htests]; decide) with hover | hall
  · cases hover
  · exact ⟨s, hrun, htests, hall none false⟩

end Pewpew.TestEnd
