import Pewpew.TestEnd.Model

/-! What the main task reports, and that it does not wait for a test that nobody runs. -/
namespace Pewpew.TestEnd

open Broadcast Transition

variable {E : Type} {s t : State E} {a : Act E} {as : List (Act E)} {log more : List (Message E)}
  {m : Message E} {tests : List LoadTest} {i : Nat} {x : LoadTest}

/-! ### What each party knows of the messages -/

/-- The result of the main task: the first message that is no update, or else, where it has missed
messages after some updates, that the test is completed. -/
def Verdict (log : List (Message E)) (m : Message E) : Prop :=
  ∃ k, Passed isUpdate log 0 k ∧
    (log[k]? = some m ∧ isUpdate m = false ∨ m = .ok .completed ∧ k + capacity < log.length)

def MainSound (log : List (Message E)) : Main E → Prop
  | .waiting pos => Passed isUpdate log 0 pos
  | .ended m => Verdict log m
  | _ => True

def CollectorSound (log : List (Message E)) : Collector → Prop
  | .collecting start pos => Passed isUpdate log start pos
  | .complete start => Stopped isUpdate capacity log start
  | _ => True

/-- A load test that is over has not been the last to send or has been told. -/
def TestsSound (log : List (Message E)) (tests : List LoadTest) : Prop :=
  ∀ x ∈ tests, x.start ≤ log.length ∧ (x.finished = true → x.start < log.length)

/-- Since the last load test subscribed no update has been sent. -/
def NoUpdate (log : List (Message E)) (tests : List LoadTest) : Prop :=
  ∀ x ∈ tests.getLast?, ∀ k m, x.start ≤ k → log[k]? = some m → isUpdate m = false

theorem Verdict.append (h : Verdict log m) (more : List (Message E)) : Verdict (log ++ more) m := by
  obtain ⟨k, hpassed, ⟨hm, hend⟩ | ⟨hm, hlag⟩⟩ := h
  · obtain ⟨hlt, -⟩ := List.getElem?_eq_some_iff.mp hm
    exact ⟨k, hpassed.append more, .inl ⟨by rw [List.getElem?_append_left hlt, hm], hend⟩⟩
  · exact ⟨k, hpassed.append more, .inr ⟨hm, by rw [List.length_append]; omega⟩⟩

theorem MainSound.append {main : Main E} (h : MainSound log main) (more : List (Message E)) :
    MainSound (log ++ more) main := by
  cases main with
  | waiting pos => exact Passed.append h more
  | ended m => exact Verdict.append h more
  | _ => trivial

theorem CollectorSound.append {c : Collector} (h : CollectorSound log c)
    (more : List (Message E)) : CollectorSound (log ++ more) c := by
  cases c with
  | collecting start pos => exact Passed.append h more
  | complete start => exact Stopped.append h more
  | _ => trivial

theorem TestsSound.append (h : TestsSound log tests) (more : List (Message E)) :
    TestsSound (log ++ more) tests := by
  intro x hx
  obtain ⟨hle, hlt⟩ := h x hx
  rw [List.length_append]
  exact ⟨by omega, fun hover => Nat.lt_add_right _ (hlt hover)⟩

theorem TestsSound.subscribe (h : TestsSound log tests) :
    TestsSound log (tests ++ [⟨log.length, false⟩]) := by
  intro x hx
  rcases List.mem_append.mp hx with hx | hx
  · exact h x hx
  · obtain rfl := List.mem_singleton.mp hx
    exact ⟨Nat.le_refl _, fun hover => by cases hover⟩

theorem noUpdate_subscribe (log : List (Message E)) (tests : List LoadTest) :
    NoUpdate log (tests ++ [⟨log.length, false⟩]) := by
  intro x hx k m hk hm
  rw [List.getLast?_append, List.getLast?_singleton] at hx
  obtain rfl : ⟨log.length, false⟩ = x := Option.some.inj hx
  obtain ⟨hlt, -⟩ := List.getElem?_eq_some_iff.mp hm
  dsimp only at hk
  omega

/-- Messages that are no updates. -/
theorem NoUpdate.append (h : NoUpdate log tests) (hmore : ∀ m ∈ more, isUpdate m = false) :
    NoUpdate (log ++ more) tests := by
  intro x hx k m hk hm
  by_cases hlt : k < log.length
  · rw [List.getElem?_append_left hlt] at hm
    exact h x hx k m hk hm
  · rw [List.getElem?_append_right (by omega)] at hm
    exact hmore m (List.mem_of_getElem? hm)

/-- The end of a load test keeps where it subscribed. -/
theorem NoUpdate.finish (h : NoUpdate log tests) (hi : tests[i]? = some x) :
    NoUpdate log (tests.set i { x with finished := true }) := by
  intro y hy
  have hstart : ∃ y' ∈ tests.getLast?, y'.start = y.start := by
    rw [List.getLast?_eq_getElem?, List.length_set] at hy
    by_cases hlast : i = tests.length - 1
    · subst hlast
      obtain ⟨hlt, -⟩ := List.getElem?_eq_some_iff.mp hi
      rw [List.getElem?_set_self hlt] at hy
      obtain rfl := Option.some.inj hy
      exact ⟨x, by rw [List.getLast?_eq_getElem?, hi]; rfl, rfl⟩
    · rw [List.getElem?_set_ne hlast] at hy
      exact ⟨y, by rw [List.getLast?_eq_getElem?]; exact hy, rfl⟩
  obtain ⟨y', hy', heq⟩ := hstart
  rw [← heq]
  exact h y' hy'

theorem TestsSound.finish (h : TestsSound log tests) (hlt : x.start < log.length) :
    TestsSound log (tests.set i { x with finished := true }) := by
  intro y hy
  rcases List.mem_or_eq_of_mem_set hy with hy | rfl
  · exact h y hy
  · exact ⟨Nat.le_of_lt hlt, fun _ => hlt⟩

/-! ### One step -/

/-- A poll of a load test sends nothing but its end, and is its end only after a message. -/
theorem pollTest_cases (s : State E) (i : Nat) {x : LoadTest} (hx : x.start ≤ s.log.length)
    (endpoints : Option (Except E Unit)) (timeUp : Bool) :
    s.pollTest i x endpoints timeUp = s ∨
      ∃ more : List (Message E), (∀ m ∈ more, isUpdate m = false) ∧
        x.start < (s.log ++ more).length ∧
        s.pollTest i x endpoints timeUp =
          { s with log := s.log ++ more, tests := s.tests.set i { x with finished := true } } := by
  unfold State.pollTest
  split
  · next r =>
    refine .inr ⟨[r.map fun _ => .completed], ?_, by simp; omega, rfl⟩
    intro m hm
    obtain rfl := List.mem_singleton.mp hm
    cases r <;> rfl
  · split
    · next answer hr =>
      refine .inr ⟨[], List.forall_mem_nil _, ?_, by simp⟩
      rw [List.append_nil]
      by_contra hle
      have hnone : s.log[x.start]? = none := List.getElem?_eq_none (by omega)
      rw [recv, if_neg (by omega), hnone] at hr
      cases hr
    · split
      · refine .inr ⟨[.ok .completed], ?_, by simp; omega, rfl⟩
        intro m hm
        obtain rfl := List.mem_singleton.mp hm
        rfl
      · exact .inl rfl

theorem step_test {endpoints : Option (Except E Unit)} {timeUp : Bool}
    (h : Step s (.test i endpoints timeUp) t) :
    ∃ x, s.tests[i]? = some x ∧ x.finished = false ∧ t = s.pollTest i x endpoints timeUp := by
  obtain ⟨x, hf, rfl⟩ := Option.map_eq_some_iff.mp h
  obtain ⟨hi, hx⟩ := Option.filter_eq_some_iff.mp hf
  exact ⟨x, hi, by simpa using hx, rfl⟩

theorem mainSound_poll {pos : Nat} (h : Passed isUpdate s.log 0 pos) :
    MainSound s.log (s.pollMain pos).main ∨ (s.pollMain pos) = s := by
  unfold State.pollMain
  split
  · exact .inr rfl
  · next hl => exact .inl (h.goesOn hl)
  · next m hl =>
    rcases listen_stops hl with ⟨a, ha, hget, hs⟩ | ⟨⟨n, hn⟩, -⟩
    · cases ha
      exact .inl ⟨pos, h, .inl ⟨hget, hs⟩⟩
    · cases hn
  · next n hl =>
    rcases listen_stops hl with ⟨a, ha, -⟩ | ⟨-, hlag⟩
    · cases ha
    · exact .inl ⟨pos, h, .inr ⟨rfl, hlag⟩⟩

theorem collectorSound_poll {start pos : Nat} (h : Passed isUpdate s.log start pos)
    (closed : Bool) :
    CollectorSound s.log (s.pollCollector start pos closed).collector ∨
      s.pollCollector start pos closed = s := by
  unfold State.pollCollector
  split
  · split
    · exact .inl trivial
    · exact .inr rfl
  · next hl => exact .inl (h.goesOn hl)
  · next answer hl =>
    rcases listen_stops hl with ⟨a, -, hget, hs⟩ | ⟨-, hlag⟩
    · exact .inl ⟨pos, h, .inl ⟨a, hget, hs⟩⟩
    · exact .inl ⟨pos, h, .inr hlag⟩

/-- The watcher is not between an update and its load test, and that test could be created. -/
def Settled (s : State E) : Prop := (∀ pos, s.watcher ≠ .updated pos) ∧ s.reloadFailed = false

/-- Nothing runs before the watcher could be started. -/
def Early : Main E → Prop
  | .stats | .watcher => True
  | _ => False

/-- What holds between two steps. -/
structure Sound (s : State E) : Prop where
  main : MainSound s.log s.main
  early : Early s.main → s.watcher = .off ∧ s.tests = []
  created : ∀ pos, s.main = .waiting pos → s.tests ≠ []
  collector : CollectorSound s.log s.collector
  tests : TestsSound s.log s.tests
  noUpdate : Settled s → NoUpdate s.log s.tests

theorem sound_init : Sound (init : State E) where
  main := trivial
  early _ := ⟨rfl, rfl⟩
  created _ h := by cases h
  collector := trivial
  tests := List.forall_mem_nil _
  noUpdate _ x hx := by cases hx

/-- A message that is no update changes nothing but the log. -/
theorem Sound.send (h : Sound s) (hm : isUpdate m = false) : Sound (s.send m) where
  main := h.main.append _
  early := h.early
  created := h.created
  collector := h.collector.append _
  tests := h.tests.append _
  noUpdate hs := (h.noUpdate hs).append fun m' hm' => by rwa [List.mem_singleton.mp hm']

theorem sound_begin {watch : Bool} {failure : Option E} (h : Sound s)
    (hs : s.begin watch failure = some t) : Sound t := by
  unfold State.begin at hs
  split at hs
  · next hmain =>
    cases hs
    obtain ⟨hoff, hnone⟩ := h.early (by rw [hmain]; trivial)
    exact ⟨trivial, fun _ => ⟨hoff, hnone⟩, (fun _ hw => by cases hw),
      passed_self (Nat.le_refl _), h.tests, h.noUpdate⟩
  · next hmain =>
    cases hs
    obtain ⟨hoff, hnone⟩ := h.early (by rw [hmain]; trivial)
    refine ⟨trivial, fun hearly => hearly.elim, (fun _ hw => by cases hw), h.collector, h.tests, ?_⟩
    rintro - x hx
    rw [hnone] at hx
    cases hx
  · cases hs
    exact ⟨passed_self (Nat.zero_le _), fun hearly => hearly.elim,
      fun _ _ => List.append_ne_nil_of_right_ne_nil _ (List.cons_ne_nil _ _), h.collector,
      h.tests.subscribe, fun _ => noUpdate_subscribe _ _⟩
  · cases hs
    exact ⟨trivial, fun hearly => hearly.elim, (fun _ hw => by cases hw), h.collector, h.tests,
      h.noUpdate⟩
  · cases hs
    exact ⟨trivial, fun hearly => hearly.elim, (fun _ hw => by cases hw), h.collector, h.tests,
      h.noUpdate⟩
  · cases hs

/-- A poll of the main task changes where it is. -/
theorem sound_main {pos : Nat} (h : Sound s) (hmain : s.main = .waiting pos) :
    Sound (s.pollMain pos) := by
  have hpassed : Passed isUpdate s.log 0 pos := by
    have := h.main
    rwa [hmain] at this
  rcases mainSound_poll hpassed with hsound | hsame
  · have hcreated := h.created pos hmain
    have hframe : ∃ main, s.pollMain pos = { s with main := main } ∧ ¬ Early main := by
      unfold State.pollMain
      split
      · exact ⟨s.main, rfl, by rw [hmain]; exact id⟩
      all_goals exact ⟨_, rfl, id⟩
    obtain ⟨main, heq, hlate⟩ := hframe
    rw [heq] at hsound ⊢
    exact ⟨hsound, fun hearly => (hlate hearly).elim, fun _ _ => hcreated, h.collector, h.tests,
      h.noUpdate⟩
  · rwa [hsame]

theorem sound_test {endpoints : Option (Except E Unit)} {timeUp : Bool} (h : Sound s)
    (hs : Step s (.test i endpoints timeUp) t) : Sound t := by
  obtain ⟨x, hi, -, rfl⟩ := step_test hs
  have hx := h.tests x (List.mem_of_getElem? hi)
  rcases pollTest_cases s i hx.1 endpoints timeUp with hsame | ⟨more, hmore, hlt, heq⟩
  · rwa [hsame]
  · rw [heq]
    refine ⟨h.main.append _, ?_, ?_, h.collector.append _, (h.tests.append _).finish hlt, ?_⟩
    · intro hearly
      obtain ⟨hoff, hnone⟩ := h.early hearly
      rw [hnone] at hi
      cases hi
    · intro pos hmain hnil
      exact h.created pos hmain ((List.set_eq_nil_iff _ _).mp hnil)
    · intro hsettled
      exact ((h.noUpdate hsettled).append hmore).finish hi

theorem sound_update {pos : Nat} (h : Sound s) (hwatch : s.watcher = .looking pos) :
    Sound ({ s with watcher := .updated pos }.send (.ok .configUpdate)) where
  main := h.main.append _
  early hearly := by
    have hoff := (h.early hearly).1
    rw [hwatch] at hoff
    cases hoff
  created := h.created
  collector := h.collector.append _
  tests := h.tests.append _
  noUpdate hsettled := (hsettled.1 pos rfl).elim

theorem sound_reload {pos : Nat} {failure : Option E} (h : Sound s)
    (hwatch : s.watcher = .updated pos) (hs : Step s (.reload failure) t) : Sound t := by
  have hlate : ¬ Early s.main := by
    intro hearly
    have hoff := (h.early hearly).1
    rw [hwatch] at hoff
    cases hoff
  simp only [Step, next, hwatch, Option.some.injEq] at hs
  subst hs
  cases failure with
  | none =>
    exact ⟨h.main, fun hearly => (hlate hearly).elim,
      fun _ _ => List.append_ne_nil_of_right_ne_nil _ (List.cons_ne_nil _ _), h.collector,
      h.tests.subscribe, fun _ => noUpdate_subscribe _ _⟩
  | some e =>
    refine ⟨h.main, fun hearly => (hlate hearly).elim, h.created, h.collector, h.tests, ?_⟩
    rintro ⟨-, hok⟩
    cases hok

theorem sound_watch {pos : Nat} (h : Sound s) (hwatch : s.watcher = .looking pos) :
    Sound (s.pollWatcher pos) := by
  have hsettled (watcher : Watcher) (hs : Settled { s with watcher := watcher }) : Settled s := by
    refine ⟨fun pos hupdated => ?_, hs.2⟩
    rw [hwatch] at hupdated
    cases hupdated
  have hlate : ¬ Early s.main := by
    intro hearly
    have hoff := (h.early hearly).1
    rw [hwatch] at hoff
    cases hoff
  unfold State.pollWatcher
  split
  · exact h
  all_goals
    exact ⟨h.main, fun hearly => (hlate hearly).elim, h.created, h.collector, h.tests,
      fun hs => h.noUpdate (hsettled _ hs)⟩

theorem sound_collect {start pos : Nat} {closed : Bool} (h : Sound s)
    (hcollector : s.collector = .collecting start pos) :
    Sound (s.pollCollector start pos closed) := by
  have hpassed : Passed isUpdate s.log start pos := by
    have := h.collector
    rwa [hcollector] at this
  rcases collectorSound_poll hpassed closed with hsound | hsame
  · have hframe : ∃ c, s.pollCollector start pos closed = { s with collector := c } := by
      unfold State.pollCollector
      repeat' split
      all_goals exact ⟨_, rfl⟩
    obtain ⟨c, heq⟩ := hframe
    rw [heq] at hsound ⊢
    exact ⟨h.main, h.early, h.created, hsound, h.tests, h.noUpdate⟩
  · rwa [hsame]

theorem sound_ctrlC {pos : Nat} {answer : Option (Option Unit)} (h : Sound s) :
    Sound (s.pollCtrlC pos answer) := by
  have hgone : Sound { s with ctrlC := none } :=
    ⟨h.main, h.early, h.created, h.collector, h.tests, h.noUpdate⟩
  unfold State.pollCtrlC
  split
  · exact hgone.send rfl
  · exact hgone
  · split
    · exact hgone
    · exact h

theorem sound_step (h : Sound s) (hs : Step s a t) : Sound t := by
  cases a with
  | begin watch failure => exact sound_begin h hs
  | main =>
    simp only [Step, next] at hs
    split at hs
    · next hmain =>
      cases hs
      exact sound_main h hmain
    · cases hs
  | test i endpoints timeUp => exact sound_test h hs
  | update =>
    simp only [Step, next] at hs
    split at hs
    · next hwatch =>
      cases hs
      exact sound_update h hwatch
    · cases hs
  | reload failure =>
    cases hwatch : s.watcher with
    | updated pos => exact sound_reload h hwatch hs
    | _ => simp [Step, next, hwatch] at hs
  | watch =>
    simp only [Step, next] at hs
    split at hs
    · next hwatch =>
      cases hs
      exact sound_watch h hwatch
    · cases hs
  | collect closed =>
    simp only [Step, next] at hs
    split at hs
    · next hcollector =>
      cases hs
      exact sound_collect h hcollector
    · cases hs
  | ctrlC answer =>
    obtain ⟨pos, -, rfl⟩ := Option.map_eq_some_iff.mp hs
    exact sound_ctrlC h
  | kill why =>
    cases hs
    exact h.send (by cases why <;> rfl)
  | report =>
    have hreported : Sound { s with reported := true } :=
      ⟨h.main, h.early, h.created, h.collector, h.tests, h.noUpdate⟩
    simp only [Step, next] at hs
    repeat' split at hs
    all_goals cases hs
    all_goals exact hreported.send rfl

theorem sound_run (h : Run Step (init : State E) as s) : Sound s :=
  h.invariant Sound (fun _ _ _ => sound_step) sound_init

/-! ### The main task and the collector -/

/-- In every interleaving: what the main task reports is the first message that is no update, unless
it has missed messages; then it reports that the test is completed, whatever it has missed. -/
theorem main_verdict (h : Run Step (init : State E) as s) (hend : s.main = .ended m) :
    Verdict s.log m := by
  have := (sound_run h).main
  rwa [hend] at this

/-- An error comes before ctrl-c, and both before the first poll of the main task. -/
def missedTrace : List (Act String) :=
  [.begin true none, .begin true none, .begin true none, .kill (.error "reader"),
    .ctrlC (some (some ())), .main]

theorem main_verdict_missedTrace : ∃ s : State String, Run Step init missedTrace s ∧
    s.log = [.error "reader", .ok .ctrlC] ∧ Verdict s.log (.ok .completed) := by
  have hexec : exec next init missedTrace = some
      (⟨[.error "reader", .ok .ctrlC], .ended (.ok .completed), [⟨0, false⟩], .looking 0, false,
        .collecting 0 0, none, false⟩ : State String) := rfl
  exact ⟨_, run_of_exec hexec, rfl, main_verdict (run_of_exec hexec) rfl⟩

/-- The collector sees the test complete only after a message that is no update, or after more
messages than it could read. -/
theorem collector_complete {start : Nat} (h : Run Step (init : State E) as s)
    (hcomplete : s.collector = .complete start) : Stopped isUpdate capacity s.log start := by
  have := (sound_run h).collector
  rwa [hcomplete] at this

/-- An update and the end of the load test for it pass before the collector polls. -/
def unseenTrace : List (Act String) :=
  [.begin true none, .begin true none, .begin true none, .update, .reload none,
    .test 1 (some (.ok ())) false, .collect false]

theorem collector_complete_unseenTrace : ∃ s : State String, Run Step init unseenTrace s ∧
    s.log = [.ok .configUpdate, .ok .completed] ∧ Stopped isUpdate capacity s.log 0 := by
  have hexec : exec next init unseenTrace = some
      (⟨[.ok .configUpdate, .ok .completed], .waiting 0, [⟨0, false⟩, ⟨1, true⟩], .looking 0, false,
        .complete 0, some 0, false⟩ : State String) := rfl
  exact ⟨_, run_of_exec hexec, rfl, collector_complete (run_of_exec hexec) rfl⟩

/-- In every interleaving: where every load test is over, no update is under way and the last one
could be carried out, the main task does not wait in vain: its next poll is its last. -/
theorem main_ends {pos : Nat} (h : Run Step (init : State E) as s) (hmain : s.main = .waiting pos)
    (hover : ∀ x ∈ s.tests, x.finished = true) (hsettled : Settled s) :
    ∃ t m, Step s .main t ∧ t.main = .ended m := by
  have hsound := sound_run h
  have hpassed : Passed isUpdate s.log 0 pos := by
    have := hsound.main
    rwa [hmain] at this
  obtain ⟨x, hlast⟩ : ∃ x, s.tests.getLast? = some x :=
    Option.isSome_iff_exists.mp (List.getLast?_isSome.mpr (hsound.created pos hmain))
  have hx : x ∈ s.tests := List.mem_of_getLast? hlast
  have hlt : x.start < s.log.length := (hsound.tests x hx).2 (hover x hx)
  have hget : s.log[x.start]? = some s.log[x.start] := List.getElem?_eq_getElem hlt
  have hno : isUpdate s.log[x.start] = false :=
    hsound.noUpdate hsettled x hlast x.start _ (Nat.le_refl _) hget
  -- the main task has not read that message, or it would have ended
  have hunread : pos ≤ x.start := by
    by_contra hread
    have hskipped := hpassed.skipped x.start _ (Nat.zero_le _) (by omega) hget
    rw [hno] at hskipped
    cases hskipped
  obtain ⟨answer, hstops⟩ := stops_of_unread hunread hget hno
  have hstep : Step s .main (s.pollMain pos) := by simp [Step, next, hmain]
  cases answer with
  | item m => exact ⟨_, m, hstep, by simp [State.pollMain, capacity, hstops]⟩
  | lagged n => exact ⟨_, .ok .completed, hstep, by simp [State.pollMain, capacity, hstops]⟩

/-- A load test makes way for the next one, which fails. -/
def updateTrace : List (Act String) :=
  [.begin true none, .begin true none, .begin true none, .update, .main, .reload none,
    .test 0 none false, .test 1 (some (.error "url")) false]

theorem main_ends_updateTrace : ∃ s t : State String, Run Step init updateTrace s ∧
    Step s .main t ∧ ∃ m, t.main = .ended m := by
  have hexec : exec next init updateTrace = some
      (⟨[.ok .configUpdate, .error "url"], .waiting 1, [⟨0, true⟩, ⟨1, true⟩], .looking 0, false,
        .collecting 0 0, some 0, false⟩ : State String) := rfl
  obtain ⟨t, m, hstep, hend⟩ := main_ends (run_of_exec hexec) rfl (by simp)
    ⟨by simp, rfl⟩
  exact ⟨_, t, run_of_exec hexec, hstep, m, hend⟩

end Pewpew.TestEnd
