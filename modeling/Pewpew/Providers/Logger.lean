import Pewpew.Expression.Iterate
import Pewpew.Library.Transition
import Mathlib.Algebra.Order.Group.Multiset
import Mathlib.Tactic.Abel

/-! A logger with a limit: its clones share a counter, each with its own sender to the writer. -/
namespace Pewpew.Logger

open SelectParser Transition

variable {x : Externals} {display : Json → String}

/-- A clone of the logger: whether its sender is connected, and the message that `start_send` has
yet to hand over to it. -/
structure Clone where
  connected : Bool
  handing : Option String
  deriving DecidableEq, Repr

/-- The counter is an `AtomicIsize`. `calls` records the messages in the order of the decrements:
nothing reads it. -/
structure State where
  limit : Option (BitVec 64)
  pretty : Bool
  testKiller : Bool
  clones : List Clone
  written : List String
  killed : Bool
  calls : List String

/-- The section of a logger in the config, as far as `logger` reads it. -/
structure Config where
  pretty : Bool
  limit : Option (BitVec 64)
  kill : Bool

/-- The number of values that are to be logged. -/
def Config.max (c : Config) : Option (BitVec 64) :=
  if c.kill && c.limit.isNone then some 1 else c.limit

/-- `logger`: the cast of the limit to `isize` keeps its bits. -/
def logger (c : Config) : State where
  limit := c.max
  pretty := c.pretty
  testKiller := c.kill
  clones := [⟨true, none⟩]
  written := []
  killed := false
  calls := []

/-- `json_to_msg_type`. -/
def State.jsonToMsgType (x : Externals) (display : Json → String) (s : State) (j : Json) : String :=
  let isString := match j with
    | .string _ => true
    | _ => false
  if s.pretty && !isString then display j ++ "\n" else j.valueToString x ++ "\n"

inductive Act where
  | clone (i : Nat)
  | startSend (i : Nat) (item : Json)
  | handOver (i : Nat)

/-- `start_send` up to the call of the writer: it decrements the counter, and disconnects its
sender where the counter had run out. -/
def State.startSend (s : State) (i : Nat) (c : Clone) (msg : String) : State :=
  let s := { s with calls := s.calls ++ [msg] }
  match s.limit with
  | none => { s with clones := s.clones.set i { c with handing := some msg } }
  | some limit =>
    let s := { s with limit := some (limit - 1) }
    if limit.toInt ≤ 0 then
      { s with killed := s.killed || s.testKiller, clones := s.clones.set i ⟨false, some msg⟩ }
    else { s with clones := s.clones.set i { c with handing := some msg } }

/-- `self.writer.start_send(msg)`: a disconnected sender answers an error. -/
def State.handOver (s : State) (i : Nat) (c : Clone) (msg : String) : State :=
  let s := { s with clones := s.clones.set i { c with handing := none } }
  if c.connected then { s with written := s.written ++ [msg] } else s

def next (x : Externals) (display : Json → String) (s : State) : Act → Option State
  | .clone i => do
    let c ← s.clones[i]?
    if c.handing.isSome then none else some { s with clones := s.clones ++ [c] }
  | .startSend i item => do
    let c ← s.clones[i]?
    if c.handing.isSome then none else some (s.startSend i c (s.jsonToMsgType x display item))
  | .handOver i => do
    let c ← s.clones[i]?
    let msg ← c.handing
    return s.handOver i c msg

def Step (x : Externals) (display : Json → String) (s : State) (a : Act) (t : State) : Prop :=
  next x display s a = some t

/-! ### The counter -/

/-- The message that a clone will get written. -/
def Clone.pending (c : Clone) : Multiset String :=
  if c.connected then c.handing.elim 0 ({·}) else 0

/-- The first `n` messages are written or about to be, and no others. -/
structure Counts (n : BitVec 64) (s : State) : Prop where
  limit : s.limit = some (n - BitVec.ofNat 64 s.calls.length)
  connected : ∀ c ∈ s.clones, c.connected = false → n.toNat ≤ s.calls.length
  messages : (s.written : Multiset String) + (s.clones.map Clone.pending).sum =
    (s.calls.take n.toNat : List String)

/-- A call that the counter can count: the limit is no negative `isize`, and the counter does not
wrap around. -/
def Fits (n : BitVec 64) (s : State) : Act → Prop
  | .startSend _ _ => n.toNat < 2 ^ 63 ∧ s.calls.length ≤ n.toNat + 2 ^ 63
  | _ => True

instance (n : BitVec 64) (s : State) : (a : Act) → Decidable (Fits n s a)
  | .startSend _ _ => inferInstanceAs (Decidable (_ ∧ _))
  | .clone _ | .handOver _ => inferInstanceAs (Decidable True)

variable {n : BitVec 64} {s t : State} {a : Act} {as : List Act} {c : Config}

theorem toInt_nonpos_iff {k : Nat} (hn : n.toNat < 2 ^ 63) (hk : k ≤ n.toNat + 2 ^ 63) :
    (n - BitVec.ofNat 64 k).toInt ≤ 0 ↔ n.toNat ≤ k := by
  rw [BitVec.toInt_eq_toNat_cond, BitVec.toNat_sub, BitVec.toNat_ofNat]
  split <;> omega

theorem counts_logger (h : c.max = some n) : Counts n (logger c) := by
  refine ⟨?_, ?_, ?_⟩
  · simp [logger, h]
  · simp [logger]
  · simp [logger, Clone.pending]

theorem pending_of_idle {cl : Clone} (h : cl.handing = none) : cl.pending = 0 := by
  rw [Clone.pending, h]
  split <;> rfl

/-- A call of a clone that hands nothing over. -/
theorem Counts.startSend (h : Counts n s) {i : Nat} {cl : Clone} (hi : s.clones[i]? = some cl)
    (hidle : cl.handing = none) (msg : String) (hn : n.toNat < 2 ^ 63)
    (hk : s.calls.length ≤ n.toNat + 2 ^ 63) : Counts n (s.startSend i cl msg) := by
  have hsum (cl' : Clone) := sum_map_set (f := Clone.pending) hi cl'
  rw [pending_of_idle hidle] at hsum
  have hlimit : n - BitVec.ofNat 64 s.calls.length - 1 =
      n - BitVec.ofNat 64 (s.calls ++ [msg]).length := by
    rw [List.length_append, List.length_singleton, BitVec.ofNat_add, BitVec.sub_sub]
    rfl
  simp only [State.startSend, h.limit, toInt_nonpos_iff hn hk]
  split
  · next hle =>
    refine ⟨congrArg some hlimit, fun c' hc' hoff => ?_, ?_⟩
    · rw [List.length_append]
      exact Nat.le_add_right_of_le hle
    · rw [List.take_append_of_le_length hle, ← h.messages]
      have hset := hsum ⟨false, some msg⟩
      rw [Clone.pending, if_neg Bool.false_ne_true, add_zero] at hset
      simp only [add_zero] at hset
      exact congrArg _ hset
  · next hgt =>
    have hlt : s.calls.length < n.toNat := Nat.lt_of_not_le hgt
    have hon : cl.connected = true := by
      by_contra hoff
      exact hgt (h.connected cl (List.mem_of_getElem? hi) (by simpa using hoff))
    refine ⟨congrArg some hlimit, fun c' hc' hoff => ?_, ?_⟩
    · rcases List.mem_or_eq_of_mem_set hc' with hc' | rfl
      · exact absurd (h.connected c' hc' hoff) hgt
      · cases hon.symm.trans hoff
    · have hset := hsum ⟨true, some msg⟩
      rw [Clone.pending, if_pos rfl, add_zero] at hset
      have hmsgs := h.messages
      rw [List.take_of_length_le hlt.le] at hmsgs
      rw [List.take_of_length_le (by simpa using Nat.succ_le_of_lt hlt), ← Multiset.coe_add,
        ← hmsgs, hon]
      exact (congrArg _ hset).trans (add_assoc _ _ _).symm

/-- A clone hands its message over. -/
theorem Counts.handOver (h : Counts n s) {i : Nat} {cl : Clone} (hi : s.clones[i]? = some cl)
    {msg : String} (hmsg : cl.handing = some msg) : Counts n (s.handOver i cl msg) := by
  have hset := sum_map_set (f := Clone.pending) hi { cl with handing := none }
  have hidle : Clone.pending { cl with handing := none } = 0 := pending_of_idle rfl
  rw [hidle, add_zero] at hset
  have hconnected : ∀ c' ∈ s.clones.set i { cl with handing := none }, c'.connected = false →
      n.toNat ≤ s.calls.length := by
    intro c' hc' hoff
    rcases List.mem_or_eq_of_mem_set hc' with hc' | rfl
    · exact h.connected c' hc' hoff
    · exact h.connected cl (List.mem_of_getElem? hi) hoff
  rw [State.handOver]
  split
  · next hon =>
    refine ⟨h.limit, hconnected, ?_⟩
    rw [Clone.pending, if_pos hon, hmsg] at hset
    rw [← Multiset.coe_add, add_assoc, add_comm (([msg] : List String) : Multiset String)]
    exact (congrArg _ hset).trans h.messages
  · next hoff =>
    refine ⟨h.limit, hconnected, ?_⟩
    rw [Clone.pending, if_neg hoff, add_zero] at hset
    exact (congrArg _ hset).trans h.messages

/-- A clone of a clone that hands nothing over. -/
theorem Counts.clone (h : Counts n s) {i : Nat} {cl : Clone} (hi : s.clones[i]? = some cl)
    (hidle : cl.handing = none) : Counts n { s with clones := s.clones ++ [cl] } := by
  refine ⟨h.limit, fun c' hc' hoff => ?_, ?_⟩
  · rcases List.mem_append.mp hc' with hc' | hc'
    · exact h.connected c' hc' hoff
    · rw [List.mem_singleton.mp hc'] at hoff
      exact h.connected cl (List.mem_of_getElem? hi) hoff
  · rw [List.map_append, List.sum_append, List.map_singleton, List.sum_singleton,
      pending_of_idle hidle, add_zero]
    exact h.messages

/-- A clone that takes part in a step hands nothing over, but in the hand-over itself. -/
theorem of_idle {i : Nat} {f : Clone → State}
    (h : (do
      let cl ← s.clones[i]?
      if cl.handing.isSome then none else some (f cl)) = some t) :
    ∃ cl, s.clones[i]? = some cl ∧ cl.handing = none ∧ t = f cl := by
  obtain ⟨cl, hi, hcl⟩ := Option.bind_eq_some_iff.mp h
  split at hcl
  · cases hcl
  · next hidle => exact ⟨cl, hi, by simpa using hidle, (Option.some.inj hcl).symm⟩

theorem counts_step (h : Counts n s) (hs : Guarded (Fits n) (Step x display) s a t) :
    Counts n t := by
  obtain ⟨hfits, hstep⟩ := hs
  cases a with
  | clone i =>
    obtain ⟨cl, hi, hidle, rfl⟩ := of_idle hstep
    exact h.clone hi hidle
  | startSend i item =>
    obtain ⟨cl, hi, hidle, rfl⟩ := of_idle hstep
    exact h.startSend hi hidle _ hfits.1 hfits.2
  | handOver i =>
    obtain ⟨cl, hi, hcl⟩ := Option.bind_eq_some_iff.mp hstep
    obtain ⟨msg, hmsg, heq⟩ := Option.bind_eq_some_iff.mp hcl
    obtain rfl := Option.some.inj heq
    exact h.handOver hi hmsg

/-- The written messages and those that a connected clone has yet to hand over are those of the
first `n` calls; once all is handed over, `n` messages are written, or all of fewer. -/
def LogsFirst (n : BitVec 64) (s : State) : Prop :=
  ((s.written : Multiset String) + (s.clones.map Clone.pending).sum =
    (s.calls.take n.toNat : List String)) ∧
  ((∀ c ∈ s.clones, c.handing = none) → s.written.Perm (s.calls.take n.toNat) ∧
    s.written.length = min n.toNat s.calls.length)

theorem Counts.logsFirst (h : Counts n s) : LogsFirst n s := by
  refine ⟨h.messages, fun hidle => ?_⟩
  have hzero : (s.clones.map Clone.pending).sum = 0 :=
    List.sum_eq_zero fun m hm => by
      obtain ⟨c, hc, rfl⟩ := List.mem_map.mp hm
      exact pending_of_idle (hidle c hc)
  have hmsgs := h.messages
  rw [hzero, add_zero] at hmsgs
  have hperm := Multiset.coe_eq_coe.mp hmsgs
  exact ⟨hperm, by rw [hperm.length_eq, List.length_take]⟩

/-- In every run whose calls the counter can count, the first `n` calls are logged and no others. -/
theorem logsFirst_run (hc : c.max = some n)
    (h : Run (Guarded (Fits n) (Step x display)) (logger c) as s) : LogsFirst n s :=
  (h.invariant (Counts n) (fun _ _ _ => counts_step) (counts_logger hc)).logsFirst

/-- Two clones and a limit of one: the second call comes first to the writer, and is refused. -/
def logTrace : List Act :=
  [.clone 0, .startSend 0 (.string "a"), .startSend 1 (.string "b"), .handOver 1, .handOver 0]

theorem logsFirst_run_logTrace : ∃ t, LogsFirst 1 t ∧ t.written = ["a\n"] := by
  obtain ⟨t, hrun, hw⟩ := guarded_run_of_exec (Fits 1) (next .plain fun _ => "")
    (logger ⟨false, some 1, false⟩) logTrace
    (fun t => t.written = ["a\n"]) (by decide)
  exact ⟨t, logsFirst_run rfl hrun, by simpa using hw⟩

/-- A limit of 2^63 is negative as an `isize`: nothing is logged. -/
theorem not_logsFirst : ¬ ∀ (x : Externals) (display : Json → String) (c : Config)
    (n : BitVec 64) (as : List Act) (s : State), c.max = some n →
      Run (Step x display) (logger c) as s → LogsFirst n s := by
  intro h
  obtain ⟨s, hrun, hs⟩ := run_of_exec_map (next .plain fun _ => "")
    (logger ⟨false, some (BitVec.ofNat 64 (2 ^ 63)), false⟩)
    [.startSend 0 (.string "a"), .handOver 0]
    (fun t => t.written = [] ∧ t.calls = ["a\n"] ∧ t.clones.all fun c => c.handing.isNone)
    (by decide)
  obtain ⟨hw, hcalls, hidle⟩ : s.written = [] ∧ s.calls = ["a\n"] ∧
      s.clones.all (fun c => c.handing.isNone) = true := by simpa using hs
  have hlen := ((h _ _ _ _ _ s rfl hrun).2 fun c hc => ?_).2
  · rw [hw, hcalls] at hlen
    exact absurd hlen (by decide)
  · simpa using List.all_eq_true.mp hidle c hc

end Pewpew.Logger
