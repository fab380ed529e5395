import Pewpew.Library.Transition
import Mathlib.Data.List.Infix
import Mathlib.Tactic.Common

/-! `blocking_writer`: a task that writes the messages of its senders to a file. -/
namespace Pewpew.LineWriter

open Transition

inductive MsgType where
  | final (s : String)
  | other (s : String)
  deriving DecidableEq, Repr

/-- Where the task is: it reads its channel, it has returned after a write that failed, or it has
signalled that it is done. -/
inductive Task where
  | reading
  | stopped
  | done
  deriving DecidableEq, Repr

/-- `closed` tells that all senders are dropped or disconnected. `sent` records the messages that
the channel took, and `errors` how often the test was told that writing failed: none is read. -/
structure State where
  queue : List MsgType
  closed : Bool
  task : Task
  finalMsg : Option String
  file : List UInt8
  sent : List MsgType
  errors : Nat

def blockingWriter : State where
  queue := []
  closed := false
  task := .reading
  finalMsg := none
  file := []
  sent := []
  errors := 0

def bytes (s : String) : List UInt8 := s.toUTF8.toList

/-- `write_all`: a write may fail after some bytes, and then the test is told. -/
def State.writeAll (s : State) (text : String) (failed : Option Nat) : State :=
  match failed with
  | none => { s with file := s.file ++ bytes text }
  | some n => { s with file := s.file ++ (bytes text).take n, errors := s.errors + 1 }

/-- A sender sends a message; one whose receiver is gone gets an error. -/
def State.send (s : State) (m : MsgType) : State :=
  match s.task with
  | .reading => { s with queue := s.queue ++ [m], sent := s.sent ++ [m] }
  | .stopped | .done => s

/-- One round of the loop over the messages. -/
def State.receive (s : State) (failed : Option Nat) : MsgType → State
  | .final text => { s with finalMsg := some text }
  | .other text =>
    let s := s.writeAll text failed
    if failed.isSome then { s with task := .stopped } else s

/-- After the loop. -/
def State.finish (s : State) (failed : Option Nat) : State :=
  let s := match s.finalMsg with
    | some text => s.writeAll text failed
    | none => s
  { s with task := .done }

/-- A sender sends, the last of them goes, or the task takes its next step, in which a write may
fail. -/
inductive Act where
  | send (m : MsgType)
  | close
  | task (failed : Option Nat)

def next (s : State) : Act → Option State
  | .send m => if s.closed then none else some (s.send m)
  | .close => some { s with closed := true }
  | .task failed =>
    match s.task, s.queue with
    | .reading, m :: queue => some ({ s with queue }.receive failed m)
    | .reading, [] => if s.closed then some (s.finish failed) else none
    | .stopped, _ | .done, _ => none

def Step (s : State) (a : Act) (t : State) : Prop := next s a = some t

/-! ### What is written -/

def others (ms : List MsgType) : List String :=
  ms.filterMap fun
    | .other text => some text
    | .final _ => none

def finals (ms : List MsgType) : List String :=
  ms.filterMap fun
    | .final text => some text
    | .other _ => none

/-- What is to be in the file: the messages in the order in which they were sent, and the last final
one behind them. -/
def contents (ms : List MsgType) : List UInt8 :=
  (others ms).flatMap bytes ++ (finals ms).getLast?.elim [] bytes

variable {s t : State} {a : Act} {as : List Act} {m : MsgType} {failed : Option Nat}
  {ms queue : List MsgType} {text : String}

@[simp] theorem others_append (ms ms' : List MsgType) :
    others (ms ++ ms') = others ms ++ others ms' := List.filterMap_append ..

@[simp] theorem finals_append (ms ms' : List MsgType) :
    finals (ms ++ ms') = finals ms ++ finals ms' := List.filterMap_append ..

@[simp] theorem others_other (text : String) : others [.other text] = [text] := rfl

@[simp] theorem others_final (text : String) : others [.final text] = [] := rfl

@[simp] theorem finals_other (text : String) : finals [.other text] = [] := rfl

@[simp] theorem finals_final (text : String) : finals [.final text] = [text] := rfl

theorem others_mono {ms' : List MsgType} (h : ms <+: ms') : others ms <+: others ms' := by
  obtain ⟨more, rfl⟩ := h
  rw [others_append]
  exact List.prefix_append _ _

theorem finals_mono {ms' : List MsgType} (h : ms <+: ms') : finals ms <+: finals ms' := by
  obtain ⟨more, rfl⟩ := h
  rw [finals_append]
  exact List.prefix_append _ _

theorem others_prefix (ms ms' : List MsgType) :
    (others ms).flatMap bytes <+: contents (ms ++ ms') := by
  rw [contents, others_append, List.flatMap_append, List.append_assoc]
  exact List.prefix_append _ _

/-- A write that fails leaves a part of its text. -/
theorem part_of_write (file : List UInt8) (text : String) (n : Nat) :
    file ++ (bytes text).take n <+: file ++ bytes text :=
  (List.prefix_append_right_inj _).mpr (List.take_prefix _ _)

/-- The messages that the task has taken are in the file; where a write has failed, up to there. -/
structure Written (s : State) : Prop where
  reading : s.task = .reading → s.errors = 0 ∧ ∃ taken, s.sent = taken ++ s.queue ∧
    s.finalMsg = (finals taken).getLast? ∧ s.file = (others taken).flatMap bytes
  stopped : s.task = .stopped → s.errors = 1 ∧ s.file <+: contents s.sent
  done : s.task = .done → s.closed = true ∧
    (s.errors = 0 ∧ s.file = contents s.sent ∨ s.errors = 1 ∧ s.file <+: contents s.sent)

/-- A state in which the task reads. -/
theorem Written.of_reading (htask : s.task = .reading) (herrors : s.errors = 0)
    {taken : List MsgType} (hsent : s.sent = taken ++ s.queue)
    (hfinal : s.finalMsg = (finals taken).getLast?)
    (hfile : s.file = (others taken).flatMap bytes) : Written s := by
  refine ⟨fun _ => ⟨herrors, taken, hsent, hfinal, hfile⟩, ?_, ?_⟩
  · intro hstopped
    cases htask.symm.trans hstopped
  · intro hdone
    cases htask.symm.trans hdone

theorem written_blockingWriter : Written blockingWriter := by
  have hnone : blockingWriter.sent = [] ++ blockingWriter.queue := rfl
  exact .of_reading rfl rfl hnone rfl rfl

theorem Written.send (h : Written s) (m : MsgType) : Written (s.send m) := by
  unfold State.send
  split
  · next hreading =>
    obtain ⟨herrors, taken, hsent, hfinal, hfile⟩ := h.reading hreading
    refine .of_reading hreading herrors ?_ hfinal hfile
    rw [← List.append_assoc, ← hsent]
  · exact h
  · exact h

/-- The task takes a message. -/
theorem Written.receive (h : Written s) (hreading : s.task = .reading)
    (hqueue : s.queue = m :: queue) : Written ({ s with queue }.receive failed m) := by
  obtain ⟨herrors, taken, hsent, hfinal, hfile⟩ := h.reading hreading
  have hmore : s.sent = taken ++ [m] ++ queue := by rw [hsent, hqueue, List.append_assoc]; rfl
  cases m with
  | final text =>
    refine .of_reading hreading herrors hmore ?_ ?_
    · simp [State.receive]
    · simp [State.receive, hfile]
  | other text =>
    cases failed with
    | none =>
      refine .of_reading hreading herrors hmore ?_ ?_
      · simp [State.receive, State.writeAll, hfinal]
      · simp [State.receive, State.writeAll, hfile]
    | some n =>
      refine ⟨?_, fun _ => ⟨?_, ?_⟩, ?_⟩
      · intro hreading
        cases hreading
      · simp [State.receive, State.writeAll, herrors]
      · have hwhole := others_prefix (taken ++ [.other text]) queue
        rw [← hmore, others_append, List.flatMap_append, others_other, List.flatMap_singleton,
          ← hfile] at hwhole
        exact (part_of_write _ text n).trans hwhole
      · intro hdone
        cases hdone

/-- The channel has ended. -/
theorem Written.finish (h : Written s) (hreading : s.task = .reading) (hqueue : s.queue = [])
    (hclosed : s.closed = true) : Written (s.finish failed) := by
  obtain ⟨herrors, taken, hsent, hfinal, hfile⟩ := h.reading hreading
  rw [hqueue, List.append_nil] at hsent
  refine ⟨?_, ?_, fun _ => ?_⟩
  · intro hreading
    cases hreading
  · intro hstopped
    cases hstopped
  · unfold State.finish
    cases hf : s.finalMsg with
    | none =>
      refine ⟨hclosed, .inl ⟨herrors, ?_⟩⟩
      rw [contents, hsent, ← hfinal, hf, hfile]
      exact (List.append_nil _).symm
    | some text =>
      have hcontents : contents s.sent = s.file ++ bytes text := by
        rw [contents, hsent, ← hfinal, hf, hfile]
        rfl
      cases failed with
      | none => exact ⟨hclosed, .inl ⟨herrors, hcontents.symm⟩⟩
      | some n =>
        refine ⟨hclosed, .inr ⟨congrArg (· + 1) herrors, ?_⟩⟩
        exact (part_of_write s.file text n).trans (hcontents ▸ List.prefix_rfl)

theorem written_step (h : Written s) (hs : Step s a t) : Written t := by
  unfold Step at hs
  cases a with
  | send m =>
    simp only [next] at hs
    split at hs
    · cases hs
    · obtain rfl := Option.some.inj hs
      exact h.send m
  | close =>
    obtain rfl := Option.some.inj hs
    refine ⟨h.reading, h.stopped, fun hdone => ⟨rfl, (h.done hdone).2⟩⟩
  | task failed =>
    simp only [next] at hs
    split at hs
    · next hreading hqueue =>
      obtain rfl := Option.some.inj hs
      exact h.receive hreading hqueue
    · next hreading hqueue =>
      split at hs
      · next hclosed =>
        obtain rfl := Option.some.inj hs
        exact h.finish hreading hqueue hclosed
      · cases hs
    · cases hs
    · cases hs

/-- The file never has anything but the messages in their order, the last final one behind them.
Once the task has ended they are all there, or the test was told, once, that writing failed. -/
structure WritesInOrder (s : State) : Prop where
  written : s.file <+: contents s.sent
  ended : s.task ≠ .reading → s.file = contents s.sent ∧ s.errors = 0 ∨ s.errors = 1
  reading : s.task = .reading → s.errors = 0
  done : s.task = .done → s.closed = true

theorem Written.writesInOrder (h : Written s) : WritesInOrder s := by
  obtain ⟨hreading, hstopped, hdone⟩ := h
  cases htask : s.task with
  | reading =>
    obtain ⟨herrors, taken, hsent, -, hfile⟩ := hreading htask
    refine ⟨?_, fun hne => absurd htask hne, fun _ => herrors, fun hd => ?_⟩
    · rw [hsent, hfile]
      exact others_prefix _ _
    · cases htask.symm.trans hd
  | stopped =>
    obtain ⟨herrors, hfile⟩ := hstopped htask
    refine ⟨hfile, fun _ => .inr herrors, fun hr => ?_, fun hd => ?_⟩
    · cases htask.symm.trans hr
    · cases htask.symm.trans hd
  | done =>
    obtain ⟨hclosed, hend⟩ := hdone htask
    refine ⟨?_, fun _ => ?_, fun hr => ?_, fun _ => hclosed⟩
    · rcases hend with ⟨-, hfile⟩ | ⟨-, hfile⟩
      · exact hfile ▸ List.prefix_rfl
      · exact hfile
    · rcases hend with ⟨herrors, hfile⟩ | ⟨herrors, -⟩
      · exact .inl ⟨hfile, herrors⟩
      · exact .inr herrors
    · cases htask.symm.trans hr

theorem writes_in_order (h : Run Step blockingWriter as s) : WritesInOrder s :=
  (h.invariant Written (fun _ _ _ => written_step) written_blockingWriter).writesInOrder

/-- A final message is written last, also where others are sent after it. -/
def finalTrace : List Act :=
  [.send (.other "a"), .send (.final "f"), .task none, .send (.other "b"), .close, .task none,
    .task none, .task none]

theorem writes_in_order_finalTrace : ∃ s, WritesInOrder s ∧ s.task = .done ∧
    s.sent = [.other "a", .final "f", .other "b"] := by
  obtain ⟨s, hrun, hs⟩ := run_of_exec_map next blockingWriter finalTrace
    (fun s => decide (s.task = .done ∧ s.sent = [.other "a", .final "f", .other "b"])) (by decide)
  exact ⟨s, writes_in_order hrun, by simpa using hs⟩

/-! ### The end of the task -/

def Act.isTask : Act → Bool
  | .task _ => true
  | .send _ | .close => false

/-- The steps that the task has yet to take when nothing more is sent. -/
def State.remaining (s : State) : Nat :=
  match s.task with
  | .reading => s.queue.length + 1
  | .stopped | .done => 0

theorem receive_queue (failed : Option Nat) (m : MsgType) :
    (s.receive failed m).queue = s.queue ∧ (s.receive failed m).closed = s.closed := by
  cases m with
  | final text => exact ⟨rfl, rfl⟩
  | other text => cases failed <;> exact ⟨rfl, rfl⟩

theorem finish_task (failed : Option Nat) :
    (s.finish failed).task = .done ∧ (s.finish failed).closed = s.closed := by
  unfold State.finish
  cases s.finalMsg with
  | none => exact ⟨rfl, rfl⟩
  | some text => cases failed <;> exact ⟨rfl, rfl⟩

theorem remaining_le (s : State) : s.remaining ≤ s.queue.length + 1 := by
  unfold State.remaining
  split <;> omega

/-- Once the channel has ended each step of the task leaves fewer. -/
theorem remaining_step (hclosed : s.closed = true) (hs : Step s a t) :
    t.closed = true ∧ [a].countP Act.isTask + t.remaining ≤ s.remaining := by
  unfold Step at hs
  cases a with
  | send m => simp [next, hclosed] at hs
  | close =>
    obtain rfl := Option.some.inj hs
    exact ⟨rfl, Nat.le_of_eq (Nat.zero_add _)⟩
  | task failed =>
    simp only [next] at hs
    split at hs
    · next m queue hreading hqueue =>
      obtain rfl := Option.some.inj hs
      obtain ⟨hq, hc⟩ := receive_queue (s := { s with queue }) failed m
      have hle := remaining_le ({ s with queue }.receive failed m)
      have hfrom : s.remaining = queue.length + 2 := by
        rw [State.remaining, hreading, hqueue]
        rfl
      rw [hq] at hle
      have hone : [Act.task failed].countP Act.isTask = 1 := rfl
      refine ⟨hc.trans hclosed, ?_⟩
      rw [hone, hfrom]
      simp only at hle
      omega
    · next hreading hqueue =>
      obtain rfl := Option.some.inj ((if_pos hclosed).symm.trans hs)
      obtain ⟨hdone, hc⟩ := finish_task (s := s) failed
      refine ⟨hc.trans hclosed, ?_⟩
      rw [State.remaining, State.remaining, hdone, hreading, hqueue]
      exact Nat.le_refl _
    · cases hs
    · cases hs

theorem remaining_run (hclosed : s.closed = true) (h : Run Step s as t) :
    t.closed = true ∧ as.countP Act.isTask + t.remaining ≤ s.remaining := by
  induction h with
  | refl => exact ⟨hclosed, Nat.le_of_eq (Nat.zero_add _)⟩
  | stepL hs _ ih =>
    obtain ⟨hclosed, hle⟩ := remaining_step hclosed hs
    obtain ⟨hend, hrest⟩ := ih hclosed
    refine ⟨hend, ?_⟩
    rw [← List.singleton_append, List.countP_append]
    omega

/-- Once the channel has ended the task takes at most a step for each message and one more, and
until it has ended its next step is possible, whether its write fails or not. -/
theorem task_ends (hclosed : s.closed = true) (h : Run Step s as t) :
    as.countP Act.isTask ≤ s.queue.length + 1 ∧
      (t.task = .reading → ∀ failed, ∃ u, Step t (.task failed) u) ∧
      (as.countP Act.isTask = s.queue.length + 1 → t.task ≠ .reading) := by
  obtain ⟨hend, hle⟩ := remaining_run hclosed h
  have hfirst := remaining_le s
  refine ⟨by omega, fun hreading failed => ?_, fun hall hreading => ?_⟩
  · cases hqueue : t.queue with
    | nil => exact ⟨t.finish failed, by simp [Step, next, hreading, hqueue, hend]⟩
    | cons m queue =>
      exact ⟨{ t with queue }.receive failed m, by simp [Step, next, hreading, hqueue]⟩
  · have hpos : t.remaining ≠ 0 := by simp [State.remaining, hreading]
    omega

def closedWriter : State := { blockingWriter with queue := [.other "a"], closed := true }

theorem task_ends_closedWriter : ∃ t, Run Step closedWriter [.task (some 0)] t ∧
    [Act.task (some 0)].countP Act.isTask ≤ closedWriter.queue.length + 1 ∧ t.task = .stopped := by
  obtain ⟨t, hrun, ht⟩ := run_of_exec_map next closedWriter [.task (some 0)]
    (fun t => decide (t.task = .stopped)) (by decide)
  exact ⟨t, hrun, (task_ends rfl hrun).1, of_decide_eq_true ht⟩

end Pewpew.LineWriter
