import Pewpew.Channel.Frame

/-! The end of the stream: when `poll_next` answers `Ready(None)`. -/
namespace Pewpew.ProviderChannel

open EventListener Transition

variable {α : Type} {hash : α → Nat} {s t : State α} {a : Act α} {as : List (Act α)}
  {limit : Limit} {unique : Bool}

/-- No sender is alive and every item ever pushed has been popped. -/
structure Drained (s : State α) : Prop where
  senders : ∀ h ∈ s.senders, h.pc.counted = false
  queue : s.channel.queue = []
  popped : s.channel.popped = s.channel.pushed

/-- In every interleaving `Ready(None)` is answered in drained states only. -/
def EndsDrained (hash : α → Nat) (limit : Limit) (unique : Bool) : Prop :=
  ∀ as s a, Run (Step hash) (init limit unique) as s → returned hash s a = some .ended → Drained s

/-- The receiver has popped from an empty queue and has not yet loaded the sender count. -/
def AtCount (h : Handle (ReceiverPC α)) : Prop := h.pc = .senderCount

instance [DecidableEq α] (h : Handle (ReceiverPC α)) : Decidable (AtCount h) :=
  inferInstanceAs (Decidable (h.pc = .senderCount))

/-- The last sender is not dropped while an item is queued and a receiver stands between its
empty pop and its load of the sender count. -/
def LastDropClear (s : State α) : Act α → Prop
  | .sender i _ => ∀ h ∈ s.senders[i]?, h.pc = .dropDecrement → s.channel.senderCount = 1 →
      s.channel.queue = [] ∨ ∀ r ∈ s.receivers, ¬ AtCount r
  | _ => True

instance [DecidableEq α] : (s : State α) → (a : Act α) → Decidable (LastDropClear s a)
  | s, .sender i _ => inferInstanceAs (Decidable (∀ h ∈ s.senders[i]?, _))
  | _, .receiver _ _ | _, .callSender _ _ | _, .callReceiver _ _ => .isTrue trivial

/-- What went in has come out or is still queued, in order. -/
def Conserved (c : Channel α) : Prop := c.pushed = c.popped ++ c.queue

theorem senderStep_conserved {c : Channel α} {h : Handle (SenderPC α)}
    {o : Outcome α (SenderPC α)} (hs : senderStep hash c h = some o) (hc : Conserved c) :
    Conserved o.channel := by
  unfold Conserved at hc ⊢
  cases hp : h.pc <;> simp only [senderStep, hp] at hs <;> (repeat' split at hs) <;>
    cases hs <;> simp [hc]

theorem receiverStep_conserved {c : Channel α} {h : Handle (ReceiverPC α)}
    {o : Outcome α (ReceiverPC α)} (hs : receiverStep hash c h = some o) (hc : Conserved c) :
    Conserved o.channel := by
  unfold Conserved at hc ⊢
  cases hp : h.pc <;> simp only [receiverStep, hp, afterMaxed] at hs <;> (repeat' split at hs) <;>
    cases hs <;> simp_all

theorem conserved_step (hc : Conserved s.channel) (h : Step hash s a t) : Conserved t.channel := by
  cases a with
  | callSender i call =>
    obtain ⟨hd, -, -, rfl⟩ := step_callSender h
    cases call <;> exact hc
  | callReceiver i call =>
    obtain ⟨hd, -, -, rfl⟩ := step_callReceiver h
    cases call <;> exact hc
  | sender i woken =>
    obtain ⟨hd, o, -, ho, hset⟩ := step_sender h
    rw [hset.channel]
    exact senderStep_conserved ho hc
  | receiver i woken =>
    obtain ⟨hd, o, -, ho, hset⟩ := step_receiver h
    rw [hset.channel]
    exact receiverStep_conserved ho hc

/-- Once no sender counts, a receiver about to load the count has left nothing queued. -/
def ClosedEmpty (c : Channel α) (rs : List (Handle (ReceiverPC α))) : Prop :=
  c.senderCount = 0 → (∃ r ∈ rs, AtCount r) → c.queue = []

theorem atCount_woken {h h' : Handle (ReceiverPC α)} (hw : WokenHandle h' h) (hc : AtCount h) :
    AtCount h' := by
  rw [AtCount, ← hw.pc]
  exact hc

theorem closedEmpty_settles {e : Effect} (hc : ClosedEmpty s.channel s.receivers)
    (h : Settles s e t) : ClosedEmpty t.channel t.receivers := by
  rw [h.channel]
  intro hz hr
  refine hc hz ?_
  obtain ⟨r, hm, hr⟩ := hr
  by_contra hno
  have hall : ∀ r ∈ t.receivers, ¬ AtCount r :=
    h.receivers.forall (fun x x' hx hn hc => hn (atCount_woken hx hc))
      fun x hx hc => hno ⟨x, hx, hc⟩
  exact hall r hm hr

theorem senderStep_queue {c : Channel α} {h : Handle (SenderPC α)} {o : Outcome α (SenderPC α)}
    (hs : senderStep hash c h = some o) :
    (h.pc.counted = true ∧ o.channel.senderCount = c.senderCount) ∨
      (h.pc = .dropDecrement ∧ o.channel.senderCount = c.senderCount - 1 ∧
        o.channel.queue = c.queue) ∨
      (o.channel = c) := by
  cases hp : h.pc <;> simp only [senderStep, hp] at hs <;> (repeat' split at hs) <;>
    cases hs <;> simp [SenderPC.counted]

/-- A receiver's step reaches the load of the count only by popping from an empty queue, and
never lengthens the queue. -/
theorem receiverStep_queue {c : Channel α} {h : Handle (ReceiverPC α)}
    {o : Outcome α (ReceiverPC α)} (hs : receiverStep hash c h = some o) :
    o.channel.senderCount = c.senderCount ∧ (c.queue = [] → o.channel.queue = []) ∧
      (AtCount o.handle → o.channel.queue = []) := by
  unfold AtCount
  cases hp : h.pc <;> simp only [receiverStep, hp, afterMaxed] at hs <;> (repeat' split at hs) <;>
    cases hs <;> simp_all

theorem closedEmpty_step (hcount : Counts s) (hc : ClosedEmpty s.channel s.receivers)
    (hclear : LastDropClear s a) (h : Step hash s a t) : ClosedEmpty t.channel t.receivers := by
  cases a with
  | callSender i call =>
    obtain ⟨hd, hi, hp, rfl⟩ := step_callSender h
    cases call with
    | clone => intro hz; simp [State.callSender] at hz
    | _ => exact hc
  | callReceiver i call =>
    obtain ⟨hd, hi, hp, rfl⟩ := step_callReceiver h
    intro hz hr
    obtain ⟨r, hm, hr⟩ := hr
    cases call with
    | clone =>
      rcases List.mem_append.mp hm with hm | hm
      · exact hc hz ⟨r, hm, hr⟩
      · simp only [List.mem_singleton] at hm
        subst hm
        cases hr
    | pollNext =>
      rcases eq_or_mem_others_of_set hm with rfl | hm
      · simp only [AtCount, Handle.at_pc] at hr
        split at hr <;> cases hr
      · exact hc hz ⟨r, mem_of_mem_others hm, hr⟩
    | drop =>
      rcases eq_or_mem_others_of_set hm with rfl | hm
      · cases hr
      · exact hc hz ⟨r, mem_of_mem_others hm, hr⟩
  | sender i woken =>
    obtain ⟨hd, o, hi, ho, hset⟩ := step_sender h
    refine closedEmpty_settles (s := s.sent i o) ?_ hset
    intro hz hr
    simp only [State.sent] at hz hr ⊢
    rcases senderStep_queue ho with ⟨hcd, hsc⟩ | ⟨hpc, hsc, hq⟩ | heq
    · have := hcount.sender_pos (List.mem_of_getElem? hi) hcd
      omega
    · have hpos := hcount.sender_pos (List.mem_of_getElem? hi) (by rw [hpc]; rfl)
      rcases hclear hd hi hpc (by omega) with hempty | hnone
      · rw [hq, hempty]
      · obtain ⟨r, hm, hr⟩ := hr
        exact (hnone r hm hr).elim
    · rw [heq] at hz ⊢
      exact hc hz hr
  | receiver i woken =>
    obtain ⟨hd, o, hi, ho, hset⟩ := step_receiver h
    refine closedEmpty_settles (s := s.received i o) ?_ hset
    obtain ⟨hsc, hq, hat⟩ := receiverStep_queue ho
    rintro hz ⟨r, hm, hr⟩
    simp only [State.received] at hz hm ⊢
    rcases eq_or_mem_others_of_set hm with rfl | hm
    · exact hat hr
    · exact hq (hc (hsc ▸ hz) ⟨r, mem_of_mem_others hm, hr⟩)

theorem returned_ended (h : returned hash s a = some .ended) :
    ∃ i woken, a = .receiver i woken ∧ s.channel.senderCount = 0 ∧
      ∃ r ∈ s.receivers, AtCount r := by
  cases a with
  | callSender i call => cases h
  | callReceiver i call => cases h
  | sender i woken =>
    obtain ⟨o, ho, hret⟩ := Option.bind_eq_some_iff.mp h
    obtain ⟨hd, -, hs⟩ := Option.bind_eq_some_iff.mp ho
    cases hp : hd.pc <;> simp only [senderStep, hp] at hs <;> (repeat' split at hs) <;>
      cases hs <;> simp at hret
  | receiver i woken =>
    obtain ⟨o, ho, hret⟩ := Option.bind_eq_some_iff.mp h
    obtain ⟨hd, hi, hs⟩ := Option.bind_eq_some_iff.mp ho
    refine ⟨i, woken, rfl, ?_⟩
    cases hp : hd.pc <;> simp only [receiverStep, hp, afterMaxed] at hs <;>
      (repeat' split at hs) <;> cases hs <;> simp at hret
    exact ⟨by assumption, hd, List.mem_of_getElem? hi, hp⟩

/-- What holds in every state of a run that never drops the last sender over a queued item. -/
structure CloseInvariant (s : State α) : Prop where
  counts : Counts s
  conserved : Conserved s.channel
  closedEmpty : ClosedEmpty s.channel s.receivers

theorem closeInvariant_init : CloseInvariant (init limit unique : State α) :=
  ⟨counts_init, rfl, by rintro ⟨⟩⟩

theorem closeInvariant_step (hi : CloseInvariant s) (hs : Guarded LastDropClear (Step hash) s a t) :
    CloseInvariant t :=
  ⟨counts_step hi.counts hs.2, conserved_step hi.conserved hs.2,
    closedEmpty_step hi.counts hi.closedEmpty hs.1 hs.2⟩

/-- Along runs that never drop the last sender over a queued item, the stream ends drained. -/
theorem ended_drained (hrun : Run (Guarded LastDropClear (Step hash)) (init limit unique) as s)
    (hret : returned hash s a = some .ended) : Drained s := by
  have hinv := hrun.invariant CloseInvariant (fun _ _ _ => closeInvariant_step) closeInvariant_init
  obtain ⟨i, woken, rfl, hz, hat⟩ := returned_ended hret
  have hq := hinv.closedEmpty hz hat
  refine ⟨fun h hm => ?_, hq, ?_⟩
  · by_contra hc
    have := hinv.counts.sender_pos hm (by simpa using hc)
    omega
  · have := hinv.conserved
    simp only [Conserved, hq, List.append_nil] at this
    exact this.symm

/-- Conversely, dropping the last sender there lets the receiver end the stream over the item. -/
theorem ended_undrained (hs : Step hash s a t) (hc : ¬ LastDropClear s a) :
    ∃ i, returned hash t (.receiver i []) = some .ended ∧ ¬ Drained t := by
  cases a with
  | callSender i call => exact (hc trivial).elim
  | callReceiver i call => exact (hc trivial).elim
  | receiver i woken => exact (hc trivial).elim
  | sender i woken =>
    simp only [LastDropClear, not_forall, not_or] at hc
    obtain ⟨h, hi, hp, hone, hq, r, hm, hr⟩ := hc
    have hr : AtCount r := not_not.mp hr
    obtain ⟨hd, o, hi', ho, hset⟩ := step_sender hs
    obtain rfl : h = hd := Option.some.inj (hi.symm.trans hi')
    simp only [senderStep, hp, Option.some.injEq] at ho
    subst ho
    obtain ⟨r', hm', hr'⟩ := hset.receivers.exists
      (fun x x' hx (hat : AtCount x) => show AtCount x' by rw [AtCount, hx.pc]; exact hat)
      ⟨r, hm, hr⟩
    obtain ⟨j, hj⟩ := List.mem_iff_getElem?.mp hm'
    refine ⟨j, ?_, fun hd => hq ?_⟩
    · have hz : t.channel.senderCount = 0 := by rw [hset.channel]; simp [State.sent, hone]
      have hpc : r'.pc = .senderCount := hr'
      simp only [returned, State.receiverOutcome, hj, receiverStep, hpc, hz, Option.bind_some,
        if_true]
    · have := hd.queue
      rwa [hset.channel] at this

/-- The item of the last sender is received before the sender is dropped. -/
def closeTrace : List (Act Nat) :=
  [.callSender 0 (.startSend 7), .sender 0 [], .sender 0 [], .callReceiver 0 .pollNext,
   .receiver 0 [], .receiver 0 [], .receiver 0 [], .receiver 0 [], .callSender 0 .drop,
   .sender 0 [], .callReceiver 0 .pollNext, .receiver 0 [], .sender 0 []]

theorem ended_drained_closeTrace : ∃ s : State Nat,
    Run (Guarded LastDropClear (Step id)) (init (.statik 1) false) closeTrace s ∧ Drained s := by
  obtain ⟨s, hrun, hret⟩ := guarded_run_of_exec LastDropClear (next id) _ _
    (fun s => returned id s (.receiver 0 []) = some .ended)
    (show (exec _ (init (.statik 1) false) closeTrace).map _ = some true by decide)
  exact ⟨s, hrun, ended_drained hrun (by simpa using hret)⟩

/-- A receiver pops from the empty queue; a sender pushes, notifies nobody and is dropped. -/
def lostItemTrace : List (Act Nat) :=
  [.callReceiver 0 .pollNext, .receiver 0 [], .callSender 0 (.startSend 7), .sender 0 [],
   .sender 0 [], .callSender 0 .drop, .sender 0 [], .sender 0 [], .sender 0 []]

theorem not_endsDrained : ¬ EndsDrained (α := Nat) id (.statik 5) false := by
  intro hall
  obtain ⟨s, hrun, hp⟩ := run_of_exec_map (next id) _ _
    (fun s => returned id s (.receiver 0 []) = some .ended ∧ s.channel.queue = [7])
    (show (exec _ (init (.statik 5) false) lostItemTrace).map _ = some true by decide)
  simp only [decide_eq_true_eq] at hp
  have := (hall _ s _ hrun hp.1).queue
  simp [hp.2] at this

end Pewpew.ProviderChannel
