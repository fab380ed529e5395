import Pewpew.LineWriter.Model
import Pewpew.Providers.Logger

/-! A logger and the file that its messages are written to. -/
namespace Pewpew.LogFile

open SelectParser Transition LineWriter

variable {x : Externals} {display : Json → String}

/-- `get_loggers_from_config` gives a logger a writer of its own. -/
structure State where
  logger : Logger.State
  writer : LineWriter.State

def init (c : Logger.Config) : State := ⟨Logger.logger c, blockingWriter⟩

/-- A clone of the logger is made or sends, the connected clones are dropped, or the task of the
writer takes its next step. -/
inductive Act where
  | log (a : Logger.Act)
  | drop
  | task (failed : Option Nat)

def clone : Logger.Act → Nat
  | .clone i | .startSend i _ | .handOver i => i

/-- The message that the channel of the writer is given. -/
def handed (s : Logger.State) : Logger.Act → Option String
  | .handOver i => s.clones[i]?.bind fun c => if c.connected then c.handing else none
  | .clone _ | .startSend _ _ => none

/-- A clone that is connected after the channel has ended is one that has been dropped. -/
def alive (s : State) (i : Nat) : Bool :=
  s.logger.clones[i]?.any fun c => !(s.writer.closed && c.connected)

def idle (s : Logger.State) : Bool := s.clones.all fun c => !c.connected || c.handing.isNone

def next (x : Externals) (display : Json → String) (s : State) : Act → Option State
  | .log a =>
    if alive s (clone a) then do
      let logger ← Logger.next x display s.logger a
      let writer := match handed s.logger a with
        | some msg => s.writer.send (.other msg)
        | none => s.writer
      return { logger, writer }
    else none
  | .drop => do
    if idle s.logger then
      let writer ← LineWriter.next s.writer .close
      return { s with writer }
    else none
  | .task failed => do
    let writer ← LineWriter.next s.writer (.task failed)
    return { s with writer }

def Step (x : Externals) (display : Json → String) (s : State) (a : Act) (t : State) : Prop :=
  next x display s a = some t

/-- A call that the counter of the logger can count. -/
def Fits (cap : Option (BitVec 64)) (s : State) : Act → Prop
  | .log a => ∀ n ∈ cap, Logger.Fits n s.logger a
  | .drop | .task _ => True

instance (cap : Option (BitVec 64)) (s : State) : (a : Act) → Decidable (Fits cap s a)
  | .log a =>
    match cap with
    | none => .isTrue fun _ hn => absurd hn (Option.not_mem_none _)
    | some n => decidable_of_iff (Logger.Fits n s.logger a) (by simp [Fits])
  | .drop | .task _ => .isTrue trivial

/-- The messages that a logger keeps: the first ones, where it has a limit. -/
def kept (cap : Option (BitVec 64)) (calls : List String) : List String :=
  cap.elim calls fun n => calls.take n.toNat

/-! ### A logger without a limit -/

/-- No clone of a logger without a limit is ever disconnected. -/
structure Unlimited (s : Logger.State) : Prop where
  limit : s.limit = none
  connected : ∀ c ∈ s.clones, c.connected = true
  messages : (s.written : Multiset String) + (s.clones.map Logger.Clone.pending).sum =
    (s.calls : List String)

variable {s t : State} {l l' : Logger.State} {a : Act} {as : List Act} {c : Logger.Config}
  {cap : Option (BitVec 64)} {n : BitVec 64} {i : Nat} {act : Logger.Act} {failed : Option Nat}
  {cl : Logger.Clone}

theorem unlimited_logger (h : c.max = none) : Unlimited (Logger.logger c) := by
  refine ⟨?_, ?_, ?_⟩
  · simp [Logger.logger, h]
  · simp [Logger.logger]
  · simp [Logger.logger, Logger.Clone.pending]

theorem unlimited_step (h : Unlimited l) (hs : Logger.Step x display l act l') :
    Unlimited l' := by
  cases act with
  | clone i =>
    obtain ⟨cl, hi, hidle, rfl⟩ := Logger.of_idle hs
    refine ⟨h.limit, fun c hc => ?_, ?_⟩
    · rcases List.mem_append.mp hc with hc | hc
      · exact h.connected c hc
      · rw [List.mem_singleton.mp hc]
        exact h.connected cl (List.mem_of_getElem? hi)
    · rw [List.map_append, List.sum_append, List.map_singleton, List.sum_singleton,
        Logger.pending_of_idle hidle, add_zero]
      exact h.messages
  | startSend i item =>
    obtain ⟨cl, hi, hidle, rfl⟩ := Logger.of_idle hs
    have hon := h.connected cl (List.mem_of_getElem? hi)
    rw [Logger.State.startSend, h.limit]
    refine ⟨rfl, fun c hc => ?_, ?_⟩
    · rcases List.mem_or_eq_of_mem_set hc with hc | rfl
      · exact h.connected c hc
      · exact hon
    · have hset := sum_map_set (f := Logger.Clone.pending) hi
        { cl with handing := some (l.jsonToMsgType x display item) }
      rw [Logger.pending_of_idle hidle, add_zero, Logger.Clone.pending, if_pos hon] at hset
      rw [← Multiset.coe_add, ← h.messages, add_assoc]
      exact congrArg _ hset
  | handOver i =>
    obtain ⟨cl, hi, hcl⟩ := Option.bind_eq_some_iff.mp hs
    obtain ⟨msg, hmsg, heq⟩ := Option.bind_eq_some_iff.mp hcl
    obtain rfl := Option.some.inj heq
    have hon := h.connected cl (List.mem_of_getElem? hi)
    rw [Logger.State.handOver, if_pos hon]
    refine ⟨h.limit, fun c hc => ?_, ?_⟩
    · rcases List.mem_or_eq_of_mem_set hc with hc | rfl
      · exact h.connected c hc
      · exact hon
    · have hset := sum_map_set (f := Logger.Clone.pending) hi { cl with handing := none }
      have hidle : Logger.Clone.pending { cl with handing := none } = 0 :=
        Logger.pending_of_idle rfl
      rw [hidle, add_zero, Logger.Clone.pending, if_pos hon, hmsg] at hset
      rw [← Multiset.coe_add, add_assoc, add_comm (([msg] : List String) : Multiset String)]
      exact (congrArg _ hset).trans h.messages

/-! ### The logger and its file -/

/-- What the logger keeps is handed over or pending. -/
def Keeps (cap : Option (BitVec 64)) (l : Logger.State) : Prop :=
  match cap with
  | none => Unlimited l
  | some n => Logger.Counts n l

theorem keeps_logger (c : Logger.Config) : Keeps c.max (Logger.logger c) := by
  unfold Keeps
  split
  · next h => exact unlimited_logger h
  · next n h => exact Logger.counts_logger h

theorem keeps_step (h : Keeps cap l) (hfits : ∀ n ∈ cap, Logger.Fits n l act)
    (hs : Logger.Step x display l act l') : Keeps cap l' := by
  cases cap with
  | none => exact unlimited_step h hs
  | some n => exact Logger.counts_step h ⟨hfits n rfl, hs⟩

theorem Keeps.messages (h : Keeps cap l) :
    (l.written : Multiset String) + (l.clones.map Logger.Clone.pending).sum =
      (kept cap l.calls : List String) := by
  cases cap with
  | none => exact Unlimited.messages h
  | some n => exact Logger.Counts.messages h

/-- What a step hands over is what it adds to the messages. -/
theorem written_handed (hs : Logger.Step x display l act l') :
    l'.written = l.written ++ (handed l act).toList := by
  cases act with
  | clone i =>
    obtain ⟨cl, hi, hidle, rfl⟩ := Logger.of_idle hs
    exact (List.append_nil _).symm
  | startSend i item =>
    obtain ⟨cl, hi, hidle, rfl⟩ := Logger.of_idle hs
    rw [Logger.State.startSend]
    split
    · exact (List.append_nil _).symm
    · split <;> exact (List.append_nil _).symm
  | handOver i =>
    obtain ⟨cl, hi, hcl⟩ := Option.bind_eq_some_iff.mp hs
    obtain ⟨msg, hmsg, heq⟩ := Option.bind_eq_some_iff.mp hcl
    obtain rfl := Option.some.inj heq
    have hhanded : handed l (.handOver i) = if cl.connected then some msg else none := by
      rw [handed, hi, Option.bind_some, hmsg]
    rw [hhanded, Logger.State.handOver]
    split
    · rfl
    · exact (List.append_nil _).symm

theorem idle_iff : idle l = true ↔ ∀ c ∈ l.clones, c.connected = true → c.handing = none := by
  simp only [idle, List.all_eq_true, Bool.or_eq_true, Bool.not_eq_true', Option.isNone_iff_eq_none]
  constructor
  · intro h c hc hon
    exact (h c hc).resolve_left (by simp [hon])
  · intro h c hc
    cases hon : c.connected with
    | false => exact .inl rfl
    | true => exact .inr (h c hc hon)

theorem pending_of_all_idle (h : idle l = true) :
    (l.clones.map Logger.Clone.pending).sum = 0 := by
  refine List.sum_eq_zero fun m hm => ?_
  obtain ⟨c, hc, rfl⟩ := List.mem_map.mp hm
  cases hon : c.connected with
  | true => exact Logger.pending_of_idle (idle_iff.mp h c hc hon)
  | false => simp [Logger.Clone.pending, hon]

/-- A clone that is disconnected changes nothing for the connected ones. -/
theorem idle_step (h : idle l = true) (hi : l.clones[clone act]? = some cl)
    (hoff : cl.connected = false) (hs : Logger.Step x display l act l') : idle l' = true := by
  rw [idle_iff] at h ⊢
  have hset (c' : Logger.Clone) (hc' : c'.connected = false) :
      ∀ c ∈ l.clones.set (clone act) c', c.connected = true → c.handing = none := by
    intro c hc hon
    rcases List.mem_or_eq_of_mem_set hc with hc | rfl
    · exact h c hc hon
    · cases hc'.symm.trans hon
  cases act with
  | clone i =>
    obtain ⟨cl', hi', hidle, rfl⟩ := Logger.of_idle hs
    obtain rfl := Option.some.inj (hi.symm.trans hi')
    intro c hc hon
    rcases List.mem_append.mp hc with hc | hc
    · exact h c hc hon
    · rw [List.mem_singleton.mp hc]
      exact hidle
  | startSend i item =>
    obtain ⟨cl', hi', hidle, rfl⟩ := Logger.of_idle hs
    obtain rfl := Option.some.inj (hi.symm.trans hi')
    rw [Logger.State.startSend]
    split
    · exact hset _ hoff
    · split
      · exact hset _ rfl
      · exact hset _ hoff
  | handOver i =>
    obtain ⟨cl', hi', hcl⟩ := Option.bind_eq_some_iff.mp hs
    obtain rfl := Option.some.inj (hi.symm.trans hi')
    obtain ⟨msg, hmsg, heq⟩ := Option.bind_eq_some_iff.mp hcl
    obtain rfl := Option.some.inj heq
    rw [Logger.State.handOver, if_neg (by simp [hoff])]
    exact hset _ hoff

theorem handed_of_off (hi : l.clones[clone act]? = some cl) (hoff : cl.connected = false) :
    handed l act = none := by
  cases act with
  | clone i | startSend i item => rfl
  | handOver i =>
    rw [clone] at hi
    rw [handed, hi, Option.bind_some, if_neg (by simp [hoff])]

theorem send_closed (w : LineWriter.State) (m : MsgType) : (w.send m).closed = w.closed := by
  unfold LineWriter.State.send
  split <;> rfl

/-- A step of the task neither sends nor closes. -/
theorem task_spec {w w' : LineWriter.State}
    (h : LineWriter.next w (.task failed) = some w') :
    w.task = .reading ∧ w'.sent = w.sent ∧ w'.closed = w.closed := by
  simp only [LineWriter.next] at h
  split at h
  · next m queue hreading hqueue =>
    obtain rfl := Option.some.inj h
    refine ⟨hreading, ?_⟩
    cases m with
    | final text => exact ⟨rfl, rfl⟩
    | other text => cases failed <;> exact ⟨rfl, rfl⟩
  · next hreading hqueue =>
    split at h
    · obtain rfl := Option.some.inj h
      refine ⟨hreading, ?_⟩
      rw [LineWriter.State.finish]
      cases w.finalMsg with
      | none => exact ⟨rfl, rfl⟩
      | some text => cases failed <;> exact ⟨rfl, rfl⟩
    · cases h
  · cases h
  · cases h

/-- The channel of the writer took what the logger handed over, unless a write has failed. -/
structure Linked (cap : Option (BitVec 64)) (s : State) : Prop where
  keeps : Keeps cap s.logger
  written : Written s.writer
  part : s.writer.sent <+: s.logger.written.map .other
  all : s.writer.task ≠ .stopped → s.writer.sent = s.logger.written.map .other
  idle : s.writer.closed = true → idle s.logger = true

theorem linked_init (c : Logger.Config) : Linked c.max (init c) := by
  refine ⟨keeps_logger c, written_blockingWriter, List.prefix_rfl, fun _ => rfl, ?_⟩
  intro hclosed
  cases hclosed

/-- A step of the logger, with the message that it hands over. -/
theorem Linked.log (h : Linked cap s) (hfits : ∀ n ∈ cap, Logger.Fits n s.logger act)
    (halive : alive s (clone act) = true) (hs : Logger.Step x display s.logger act l') :
    Linked cap ⟨l', match handed s.logger act with
      | some msg => s.writer.send (.other msg)
      | none => s.writer⟩ := by
  obtain ⟨cl, hi, hopen⟩ := (Option.any_eq_true _ _).mp halive
  have hoff : s.writer.closed = true → cl.connected = false := by
    intro hclosed
    simpa [hclosed] using hopen
  have hwritten := written_handed hs
  have hidle (hclosed : s.writer.closed = true) : LogFile.idle l' = true :=
    idle_step (h.idle hclosed) hi (hoff hclosed) hs
  have hkeeps := keeps_step h.keeps hfits hs
  cases hmsg : handed s.logger act with
  | none =>
    rw [hmsg, Option.toList_none, List.append_nil] at hwritten
    exact ⟨hkeeps, h.written, hwritten ▸ h.part, hwritten ▸ h.all, hidle⟩
  | some msg =>
    rw [hmsg, Option.toList_some] at hwritten
    have hmap : l'.written.map MsgType.other = s.logger.written.map .other ++ [.other msg] := by
      rw [hwritten, List.map_append, List.map_singleton]
    have hopen : s.writer.closed = false := by
      by_contra hclosed
      have hoff := hoff (by simpa using hclosed)
      cases hmsg.symm.trans (handed_of_off hi hoff)
    have hkept : (s.writer.send (.other msg)).closed = true → LogFile.idle l' = true := by
      intro hclosed
      rw [send_closed, hopen] at hclosed
      cases hclosed
    cases htask : s.writer.task with
    | reading =>
      have hsent : (s.writer.send (.other msg)).sent = l'.written.map .other := by
        rw [LineWriter.State.send, htask, hmap, ← h.all (by simp [htask])]
      exact ⟨hkeeps, h.written.send _, hsent ▸ List.prefix_rfl, fun _ => hsent, hkept⟩
    | stopped =>
      have hsame : s.writer.send (.other msg) = s.writer := by rw [LineWriter.State.send, htask]
      have hpart : (s.writer.send (.other msg)).sent <+: l'.written.map .other := by
        rw [hsame, hmap]
        exact h.part.trans (List.prefix_append _ _)
      have hstopped : (s.writer.send (.other msg)).task = .stopped := by rw [hsame, htask]
      exact ⟨hkeeps, h.written.send _, hpart, fun hne => absurd hstopped hne, hkept⟩
    | done =>
      obtain ⟨hclosed, -⟩ := h.written.done htask
      cases hopen.symm.trans hclosed

theorem linked_step (h : Linked cap s) (hs : Guarded (Fits cap) (Step x display) s a t) :
    Linked cap t := by
  obtain ⟨hfits, hstep⟩ := hs
  unfold Step at hstep
  cases a with
  | log act =>
    simp only [next] at hstep
    split at hstep
    · next halive =>
      obtain ⟨l', hl, heq⟩ := Option.bind_eq_some_iff.mp hstep
      obtain rfl := Option.some.inj heq
      exact h.log hfits halive hl
    · cases hstep
  | drop =>
    simp only [next] at hstep
    split at hstep
    · next hidle =>
      obtain ⟨w, hw, heq⟩ := Option.bind_eq_some_iff.mp hstep
      obtain rfl := Option.some.inj heq
      have hwritten := written_step h.written hw
      obtain rfl := Option.some.inj hw
      exact ⟨h.keeps, hwritten, h.part, h.all, fun _ => hidle⟩
    · cases hstep
  | task failed =>
    obtain ⟨w, hw, heq⟩ := Option.bind_eq_some_iff.mp hstep
    obtain rfl := Option.some.inj heq
    obtain ⟨hreading, hsent, hclosed⟩ := task_spec hw
    have hall : w.sent = s.logger.written.map .other := by
      rw [hsent]
      exact h.all (by simp [hreading])
    refine ⟨h.keeps, written_step h.written hw, hall ▸ List.prefix_rfl, fun _ => hall, ?_⟩
    rw [hclosed]
    exact h.idle

/-- The file of a logger never has anything but messages that the logger keeps, each of them once.
When the task of the writer has ended they are all there, or the test was told of a failure. -/
structure LogsToFile (cap : Option (BitVec 64)) (s : State) : Prop where
  only : ∃ msgs : List String, (msgs : Multiset String) ≤ (kept cap s.logger.calls : List String) ∧
    s.writer.file <+: msgs.flatMap bytes
  ended : s.writer.task ≠ .reading → s.writer.errors = 1 ∨
    ∃ msgs : List String, msgs.Perm (kept cap s.logger.calls) ∧
      s.writer.file = msgs.flatMap bytes

theorem others_map (msgs : List String) : others (msgs.map .other) = msgs := by
  simp [others, List.filterMap_map]

theorem finals_map (msgs : List String) : finals (msgs.map .other) = [] := by
  simp [finals, List.filterMap_map]

theorem Linked.logsToFile (h : Linked cap s) : LogsToFile cap s := by
  have hmessages := h.keeps.messages
  obtain ⟨hfile, hended, -, hdone⟩ := h.written.writesInOrder
  have hpart : others s.writer.sent <+: s.logger.written :=
    others_map s.logger.written ▸ others_mono h.part
  have hfinals : finals s.writer.sent = [] :=
    List.prefix_nil.mp (finals_map s.logger.written ▸ finals_mono h.part)
  have hcontents : contents s.writer.sent = (others s.writer.sent).flatMap bytes := by
    rw [contents, hfinals]
    exact List.append_nil _
  refine ⟨⟨others s.writer.sent, ?_, hcontents ▸ hfile⟩, fun htask => ?_⟩
  · have hle : (others s.writer.sent : Multiset String) ≤ (s.logger.written : List String) :=
      Multiset.coe_le.mpr hpart.sublist.subperm
    exact hle.trans (hmessages ▸ Multiset.le_add_right _ _)
  · rcases hended htask with ⟨hwhole, hnone⟩ | herror
    · have hdone : s.writer.task = .done := by
        cases hend : s.writer.task with
        | reading => exact absurd hend htask
        | stopped => exact absurd (hnone.symm.trans (h.written.stopped hend).1) (by decide)
        | done => rfl
      have hall := h.all (by simp [hdone])
      have hidle := h.idle (h.written.done hdone).1
      rw [pending_of_all_idle hidle, add_zero] at hmessages
      refine .inr ⟨s.logger.written, Multiset.coe_eq_coe.mp hmessages, ?_⟩
      rw [hwhole, hcontents, hall, others_map]
    · exact .inl herror

/-- In every run whose calls the counter can count. -/
theorem log_file (hc : c.max = cap)
    (h : Run (Guarded (Fits cap) (Step x display)) (init c) as s) : LogsToFile cap s :=
  (h.invariant (Linked cap) (fun _ _ _ => linked_step) (hc ▸ linked_init c)).logsToFile

/-- Two clones and a limit of one: the message that is handed over first is refused. -/
def fileTrace : List Act :=
  [.log (.clone 0), .log (.startSend 0 (.string "a")), .log (.startSend 1 (.string "b")),
    .log (.handOver 1), .log (.handOver 0), .task none, .drop, .task none]

theorem log_file_fileTrace : ∃ s, LogsToFile (some 1) s ∧ s.writer.task = .done ∧
    s.writer.errors = 0 ∧ s.logger.calls = ["a\n", "b\n"] := by
  obtain ⟨s, hrun, hs⟩ := guarded_run_of_exec (Fits (some 1)) (next .plain fun _ => "")
    (init ⟨false, some 1, false⟩) fileTrace
    (fun s => decide (s.writer.task = .done ∧ s.writer.errors = 0 ∧
      s.logger.calls = ["a\n", "b\n"])) (by decide)
  exact ⟨s, log_file rfl hrun, by simpa using hs⟩

end Pewpew.LogFile
