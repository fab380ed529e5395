import Pewpew.Channel.Model
import Mathlib.Tactic.Common

/-! What one step of the channel changes, and the sender and receiver counts. -/
namespace Pewpew.ProviderChannel

open EventListener

variable {α : Type} {hash : α → Nat} {s t : State α} {i : Nat} {woken : List Nat}
  {limit : Limit} {unique : Bool}

/-- A step's notifications are delivered between its own operation and the next step. -/
structure Settles (s : State α) (e : Effect) (t : State α) : Prop where
  channel : t.channel = s.channel
  senders : Woken s.senders t.senders
  receivers : Woken s.receivers t.receivers
  notifiedSenders : ∀ w, e = .notifySenders w → Notified t.senders w
  notifiedReceivers : ∀ w, e = .notifyReceivers w → Notified t.receivers w

theorem settles_of_apply {e : Effect} (h : s.apply woken e = some t) : Settles s e t := by
  cases e with
  | quiet =>
    cases h
    exact ⟨rfl, woken_refl _, woken_refl _, by simp, by simp⟩
  | notifyReceivers w =>
    obtain ⟨rs, hn, rfl⟩ := Option.map_eq_some_iff.mp h
    obtain ⟨hw, hn⟩ := notify_spec hn
    exact ⟨rfl, woken_refl _, hw, by simp, by rintro _ ⟨⟩; exact hn⟩
  | notifySenders w =>
    obtain ⟨ss, hn, rfl⟩ := Option.map_eq_some_iff.mp h
    obtain ⟨hw, hn⟩ := notify_spec hn
    exact ⟨rfl, hw, woken_refl _, by rintro _ ⟨⟩; exact hn, by simp⟩

/-- The state after the sender's own operation, before its notifications. -/
def State.sent (s : State α) (i : Nat) (o : Outcome α (SenderPC α)) : State α :=
  { s with channel := o.channel, senders := s.senders.set i o.handle }

/-- The state after the receiver's own operation, before its notifications. -/
def State.received (s : State α) (i : Nat) (o : Outcome α (ReceiverPC α)) : State α :=
  { s with channel := o.channel, receivers := s.receivers.set i o.handle }

theorem step_sender (h : Step hash s (.sender i woken) t) :
    ∃ hd o, s.senders[i]? = some hd ∧ senderStep hash s.channel hd = some o ∧
      Settles (s.sent i o) o.effect t := by
  obtain ⟨o, ho, ht⟩ := Option.bind_eq_some_iff.mp h
  obtain ⟨hd, hi, hs⟩ := Option.bind_eq_some_iff.mp ho
  exact ⟨hd, o, hi, hs, settles_of_apply ht⟩

theorem step_receiver (h : Step hash s (.receiver i woken) t) :
    ∃ hd o, s.receivers[i]? = some hd ∧ receiverStep hash s.channel hd = some o ∧
      Settles (s.received i o) o.effect t := by
  obtain ⟨o, ho, ht⟩ := Option.bind_eq_some_iff.mp h
  obtain ⟨hd, hi, hs⟩ := Option.bind_eq_some_iff.mp ho
  exact ⟨hd, o, hi, hs, settles_of_apply ht⟩

theorem step_callSender {call : SenderCall α} (h : Step hash s (.callSender i call) t) :
    ∃ hd, s.senders[i]? = some hd ∧ hd.pc = .idle ∧ t = s.callSender i hd call := by
  obtain ⟨hd, hf, rfl⟩ := Option.map_eq_some_iff.mp h
  obtain ⟨hi, hp⟩ := Option.filter_eq_some_iff.mp hf
  refine ⟨hd, hi, ?_, rfl⟩
  revert hp
  unfold isIdleSender
  split
  · exact fun _ => by assumption
  · simp

theorem step_callReceiver {call : ReceiverCall} (h : Step hash s (.callReceiver i call) t) :
    ∃ hd, s.receivers[i]? = some hd ∧ hd.pc = .idle ∧ t = s.callReceiver i hd call := by
  obtain ⟨hd, hf, rfl⟩ := Option.map_eq_some_iff.mp h
  obtain ⟨hi, hp⟩ := Option.filter_eq_some_iff.mp hf
  refine ⟨hd, hi, ?_, rfl⟩
  revert hp
  unfold isIdleReceiver
  split
  · exact fun _ => by assumption
  · simp

/-! ### The counts -/

/-- The sender still counts: it has not yet decremented `sender_count`. -/
def SenderPC.counted : SenderPC α → Bool
  | .dropNotifyAll | .dropListener | .dropped => false
  | _ => true

/-- The receiver still counts: it has not yet decremented `receiver_count`. -/
def ReceiverPC.counted : ReceiverPC α → Bool
  | .dropNotifyAll | .dropListener | .dropped => false
  | _ => true

/-- `sender_count` and `receiver_count` count the handles that are alive. -/
structure Counts (s : State α) : Prop where
  senders : s.channel.senderCount = s.senders.countP fun h => h.pc.counted
  receivers : s.channel.receiverCount = s.receivers.countP fun h => h.pc.counted

theorem senderStep_count {c : Channel α} {h : Handle (SenderPC α)} {o : Outcome α (SenderPC α)}
    (hs : senderStep hash c h = some o) (hc : h.pc.counted → 0 < c.senderCount) :
    o.channel.receiverCount = c.receiverCount ∧
      o.channel.senderCount + (if h.pc.counted then 1 else 0) =
        c.senderCount + (if o.handle.pc.counted then 1 else 0) := by
  revert hc
  cases hp : h.pc <;> simp only [senderStep, hp] at hs <;> (repeat' split at hs) <;>
    cases hs <;> simp [SenderPC.counted, Channel.send] <;> grind

theorem receiverStep_count {c : Channel α} {h : Handle (ReceiverPC α)}
    {o : Outcome α (ReceiverPC α)} (hs : receiverStep hash c h = some o)
    (hc : h.pc.counted → 0 < c.receiverCount) :
    o.channel.senderCount = c.senderCount ∧
      o.channel.receiverCount + (if h.pc.counted then 1 else 0) =
        c.receiverCount + (if o.handle.pc.counted then 1 else 0) := by
  revert hc
  cases hp : h.pc <;> simp only [receiverStep, hp, afterMaxed] at hs <;> (repeat' split at hs) <;>
    cases hs <;> simp [ReceiverPC.counted] <;> grind

theorem counts_init : Counts (init limit unique : State α) := ⟨rfl, rfl⟩

theorem counts_settles {e : Effect} (hc : Counts s) (h : Settles s e t) : Counts t := by
  refine ⟨?_, ?_⟩
  · rw [h.channel, hc.senders, h.senders.countP SenderPC.counted]
  · rw [h.channel, hc.receivers, h.receivers.countP ReceiverPC.counted]

theorem counts_callSender {hd : Handle (SenderPC α)} (hi : s.senders[i]? = some hd)
    (hp : hd.pc = .idle) (hc : Counts s) (call : SenderCall α) :
    Counts (s.callSender i hd call) := by
  have hset (pc : SenderPC α) (hpc : pc.counted = true) :=
    countP_set_same hi (hd.at pc) SenderPC.counted (by rw [hp, Handle.at_pc, hpc]; rfl)
  refine ⟨?_, ?_⟩
  · cases call with
    | clone => simp [State.callSender, Handle.fresh, SenderPC.counted, hc.senders]
    | pollReady => exact hc.senders.trans (hset _ rfl).symm
    | startSend item =>
      refine hc.senders.trans (hset _ ?_).symm
      unfold Channel.send
      split <;> rfl
    | trySend item => exact hc.senders.trans (hset _ rfl).symm
    | drop => exact hc.senders.trans (hset _ rfl).symm
  · cases call <;> exact hc.receivers

theorem counts_callReceiver {hd : Handle (ReceiverPC α)} (hi : s.receivers[i]? = some hd)
    (hp : hd.pc = .idle) (hc : Counts s) (call : ReceiverCall) :
    Counts (s.callReceiver i hd call) := by
  have hset (pc : ReceiverPC α) (hpc : pc.counted = true) :=
    countP_set_same hi (hd.at pc) ReceiverPC.counted (by rw [hp, Handle.at_pc, hpc]; rfl)
  refine ⟨?_, ?_⟩
  · cases call <;> exact hc.senders
  · cases call with
    | clone => simp [State.callReceiver, Handle.fresh, ReceiverPC.counted, hc.receivers]
    | pollNext =>
      refine hc.receivers.trans (hset _ ?_).symm
      split <;> rfl
    | drop => exact hc.receivers.trans (hset _ rfl).symm

/-- A counted handle is counted by the shared counter. -/
theorem Counts.sender_pos (hc : Counts s) {hd : Handle (SenderPC α)} (hm : hd ∈ s.senders)
    (hd_counted : hd.pc.counted = true) : 0 < s.channel.senderCount := by
  rw [hc.senders]
  exact List.countP_pos_iff.mpr ⟨hd, hm, hd_counted⟩

theorem Counts.receiver_pos (hc : Counts s) {hd : Handle (ReceiverPC α)} (hm : hd ∈ s.receivers)
    (hd_counted : hd.pc.counted = true) : 0 < s.channel.receiverCount := by
  rw [hc.receivers]
  exact List.countP_pos_iff.mpr ⟨hd, hm, hd_counted⟩

theorem counts_step {a : Act α} (hc : Counts s) (h : Step hash s a t) : Counts t := by
  cases a with
  | callSender i call =>
    obtain ⟨hd, hi, hp, rfl⟩ := step_callSender h
    exact counts_callSender hi hp hc call
  | callReceiver i call =>
    obtain ⟨hd, hi, hp, rfl⟩ := step_callReceiver h
    exact counts_callReceiver hi hp hc call
  | sender i woken =>
    obtain ⟨hd, o, hi, ho, hset⟩ := step_sender h
    have hcount := senderStep_count ho (hc.sender_pos (List.mem_of_getElem? hi))
    have hsum := countP_set_of hi o.handle SenderPC.counted
    refine counts_settles ⟨?_, hcount.1.trans hc.receivers⟩ hset
    have := hc.senders
    simp only [State.sent]
    omega
  | receiver i woken =>
    obtain ⟨hd, o, hi, ho, hset⟩ := step_receiver h
    have hcount := receiverStep_count ho (hc.receiver_pos (List.mem_of_getElem? hi))
    have hsum := countP_set_of hi o.handle ReceiverPC.counted
    refine counts_settles ⟨hcount.1.trans hc.senders, ?_⟩ hset
    have := hc.receivers
    simp only [State.received]
    omega

end Pewpew.ProviderChannel
