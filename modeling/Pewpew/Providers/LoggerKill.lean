import Pewpew.Providers.Logger

/-! A logger that kills the test does so one value after its limit. -/
namespace Pewpew.Logger

open SelectParser Transition

variable {x : Externals} {display : Json → String} {n : BitVec 64} {s t : State} {a : Act}
  {as : List Act} {c : Config}

/-- The test is killed exactly when the values that the logger has accepted are `n`. -/
structure KillsAt (n : BitVec 64) (s : State) : Prop where
  notBefore : s.killed = true → n.toNat ≤ s.written.length
  reached : n.toNat ≤ s.written.length → s.killed = true

/-- The calls of `start_send`. -/
def starts (as : List Act) : Nat :=
  as.countP fun
    | .startSend _ _ => true
    | _ => false

/-- The messages that are handed over to the writer. -/
def handOvers (as : List Act) : Nat :=
  as.countP fun
    | .handOver _ => true
    | _ => false

/-- No call finds the counter at zero: as an `isize` it starts out positive, and there are at most
as many calls. -/
def Counted (n : BitVec 64) (calls : Nat) : Prop :=
  calls = 0 ∨ n.toNat < 2 ^ 63 ∧ calls ≤ n.toNat

/-- The counter has not run out. -/
structure Quiet (n : BitVec 64) (s : State) : Prop where
  limit : s.limit = some (n - BitVec.ofNat 64 s.calls.length)
  testKiller : s.testKiller = true
  killed : s.killed = false
  connected : ∀ c ∈ s.clones, c.connected = true
  counted : Counted n s.calls.length

theorem quiet_logger (hkill : c.kill = true) (hmax : c.max = some n) : Quiet n (logger c) := by
  refine ⟨by simp [logger, hmax], hkill, rfl, ?_, .inl rfl⟩
  simp [logger]

/-- The counter is positive before a call exactly where the call is counted. -/
theorem toInt_pos_iff {k : Nat} (h : Counted n k) :
    0 < (n - BitVec.ofNat 64 k).toInt ↔ Counted n (k + 1) := by
  have hn : n.toNat < 2 ^ 64 := n.isLt
  have hzero : (n - BitVec.ofNat 64 0).toInt = n.toInt := by simp
  rcases h with rfl | ⟨hlt, hle⟩
  · rw [hzero, BitVec.toInt_eq_toNat_cond, Counted]
    split <;> omega
  · have hnonpos := toInt_nonpos_iff hlt (k := k) (by omega)
    rw [Counted]
    omega

/-- What a step of a quiet logger can do: a call that finds the counter at zero kills the test, and
after any other step the logger is quiet. -/
theorem quiet_step (h : Quiet n s) (hs : Step x display s a t) :
    t.calls.length = s.calls.length + starts [a] ∧
      ((Quiet n t ∧ t.written.length = s.written.length + handOvers [a]) ∨
        (¬ Counted n (s.calls.length + 1) ∧ starts [a] = 1 ∧ t.killed = true ∧
          t.written = s.written)) := by
  cases a with
  | clone i =>
    obtain ⟨cl, hi, hidle, rfl⟩ := of_idle hs
    have hcl := h.connected cl (List.mem_of_getElem? hi)
    refine ⟨rfl, .inl ⟨⟨h.limit, h.testKiller, h.killed, fun c hc => ?_, h.counted⟩, rfl⟩⟩
    rcases List.mem_append.mp hc with hc | hc
    · exact h.connected c hc
    · rw [List.mem_singleton.mp hc, hcl]
  | startSend i item =>
    obtain ⟨cl, hi, hidle, rfl⟩ := of_idle hs
    have hcl := h.connected cl (List.mem_of_getElem? hi)
    have hpos := toInt_pos_iff h.counted
    have hlimit : n - BitVec.ofNat 64 s.calls.length - 1 =
        n - BitVec.ofNat 64 (s.calls.length + 1) := by
      rw [BitVec.ofNat_add, BitVec.sub_sub]
      rfl
    simp only [State.startSend, h.limit]
    split
    · next hle =>
      refine ⟨by simp [starts], .inr ⟨fun hcount => ?_, rfl, ?_, rfl⟩⟩
      · exact absurd (hpos.mpr hcount) (not_lt.mpr hle)
      · simp [h.testKiller]
    · next hgt =>
      refine ⟨by simp [starts], .inl ⟨⟨?_, h.testKiller, h.killed, fun c hc => ?_, ?_⟩, rfl⟩⟩
      · simp only [List.length_append, List.length_singleton, hlimit]
      · rcases List.mem_or_eq_of_mem_set hc with hc | rfl
        · exact h.connected c hc
        · exact hcl
      · rw [List.length_append, List.length_singleton]
        exact hpos.mp (not_le.mp hgt)
  | handOver i =>
    obtain ⟨cl, hi, hcl⟩ := Option.bind_eq_some_iff.mp hs
    obtain ⟨msg, hmsg, heq⟩ := Option.bind_eq_some_iff.mp hcl
    obtain rfl := Option.some.inj heq
    have hon := h.connected cl (List.mem_of_getElem? hi)
    rw [State.handOver, if_pos hon]
    refine ⟨rfl, .inl ⟨⟨h.limit, h.testKiller, h.killed, fun c hc => ?_, h.counted⟩, ?_⟩⟩
    · rcases List.mem_or_eq_of_mem_set hc with hc | rfl
      · exact h.connected c hc
      · exact hon
    · simp [handOvers]

theorem starts_cons : starts (a :: as) = starts [a] + starts as := by
  rw [← List.singleton_append, starts, List.countP_append]
  rfl

theorem handOvers_cons : handOvers (a :: as) = handOvers [a] + handOvers as := by
  rw [← List.singleton_append, handOvers, List.countP_append]
  rfl

/-- A call is counted if all calls so far and it are. -/
theorem Counted.mono {k m : Nat} (h : Counted n m) (hk : k ≤ m) : Counted n k := by
  rcases h with rfl | ⟨hlt, hle⟩
  · exact .inl (Nat.le_zero.mp hk)
  · exact .inr ⟨hlt, hk.trans hle⟩

/-- A quiet logger has not killed the test. -/
theorem Quiet.killsAt_iff (h : Quiet n s) : KillsAt n s ↔ s.written.length < n.toNat := by
  constructor
  · intro hk
    by_contra hge
    cases h.killed.symm.trans (hk.reached (not_lt.mp hge))
  · intro hlt
    refine ⟨fun hkilled => ?_, fun hge => ?_⟩
    · cases h.killed.symm.trans hkilled
    · exact absurd hlt (not_lt.mpr hge)

/-- The values and messages of a run of a quiet logger, by induction on the run. -/
theorem throughout_iff (h : Quiet n s) (hrun : Run (Step x display) s as t) :
    Throughout (Step x display) (KillsAt n) s as ↔
      Counted n (s.calls.length + starts as) ∧ s.written.length + handOvers as < n.toNat := by
  induction hrun with
  | refl s =>
    rw [throughout_nil, h.killsAt_iff]
    exact (and_iff_right h.counted).symm
  | @stepL s t u a as hst hrun ih =>
    obtain ⟨hcalls, hstep⟩ := quiet_step h hst
    have hunique : ∀ t', Step x display s a t' → t' = t :=
      fun t' ht' => Option.some.inj (ht'.symm.trans hst)
    have hnext : Throughout (Step x display) (KillsAt n) s (a :: as) ↔
        s.written.length < n.toNat ∧ Throughout (Step x display) (KillsAt n) t as := by
      rw [throughout_cons, h.killsAt_iff]
      refine and_congr_right fun _ => ⟨fun hall => hall t hst, fun ht t' ht' => ?_⟩
      rwa [hunique t' ht']
    rw [hnext, starts_cons, handOvers_cons, ← Nat.add_assoc, ← Nat.add_assoc, ← hcalls]
    rcases hstep with ⟨hquiet, hwritten⟩ | ⟨huncounted, hstarts, hkilled, hwritten⟩
    · rw [ih hquiet, ← hwritten]
      constructor
      · exact And.right
      · intro hcond
        exact ⟨by omega, hcond⟩
    · -- the call that kills the test comes too early, or one value too late
      constructor
      · rintro ⟨hlt, hall⟩
        have hkills := hall [] t List.nil_prefix (.refl t)
        have hge := hkills.notBefore hkilled
        rw [hwritten] at hge
        omega
      · rintro ⟨hcounted, -⟩
        rw [hcalls, hstarts] at hcounted
        exact absurd (hcounted.mono (Nat.le_add_right _ _)) huncounted

/-- The test is killed on time in exactly the runs that stay below the limit: the signal comes with
the call after the last value that is accepted. -/
theorem killsAt_run_iff (hkill : c.kill = true) (hmax : c.max = some n)
    (hrun : Run (Step x display) (logger c) as s) :
    Throughout (Step x display) (KillsAt n) (logger c) as ↔
      Counted n (starts as) ∧ handOvers as < n.toNat := by
  have h := throughout_iff (quiet_logger hkill hmax) hrun
  simpa [logger] using h

theorem killsAt_run_one : ∃ t, Run (Step .plain fun _ => "") (logger ⟨false, some 2, true⟩)
      [.startSend 0 (.string "a"), .handOver 0] t ∧
    Throughout (Step .plain fun _ => "") (KillsAt 2) (logger ⟨false, some 2, true⟩)
      [.startSend 0 (.string "a"), .handOver 0] := by
  obtain ⟨t, hrun, -⟩ := run_of_exec_map (next .plain fun _ => "")
    (logger ⟨false, some 2, true⟩) [.startSend 0 (.string "a"), .handOver 0]
    (fun _ => true) (by decide)
  have hcounted : Counted 2 (starts [.startSend 0 (.string "a"), .handOver 0]) :=
    .inr ⟨by decide, by decide⟩
  exact ⟨t, hrun, (killsAt_run_iff rfl rfl hrun).mpr ⟨hcounted, by decide⟩⟩

/-- Without a limit, the first value is accepted and the test goes on. -/
theorem not_killsAt : ¬ ∀ (x : Externals) (display : Json → String) (c : Config)
    (n : BitVec 64) (as : List Act) (s : State), c.kill = true → c.max = some n →
      Run (Step x display) (logger c) as s → KillsAt n s := by
  intro h
  obtain ⟨s, hrun, hs⟩ := run_of_exec_map (next .plain fun _ => "")
    (logger ⟨false, none, true⟩) [.startSend 0 (.string "a"), .handOver 0]
    (fun t => t.written = ["a\n"] ∧ t.killed = false) (by decide)
  obtain ⟨hwritten, hkilled⟩ : s.written = ["a\n"] ∧ s.killed = false := by simpa using hs
  have hkills := h _ _ _ 1 _ s rfl rfl hrun
  have hge : (1 : BitVec 64).toNat ≤ s.written.length := by
    rw [hwritten]
    decide
  cases hkilled.symm.trans (hkills.reached hge)

end Pewpew.Logger
