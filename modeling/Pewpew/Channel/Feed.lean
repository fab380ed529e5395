import Pewpew.Channel.Close
import Pewpew.Channel.Delivery

/-! A channel of which one sender is given values. -/
namespace Pewpew.ProviderChannel

open EventListener Transition

variable {α : Type} {hash : α → Nat} {s t : State α} {limit : Limit} {a : Act α} {i p : Nat} {v : α}
  {vs : List α}

/-- The sender is in the middle of `try_send`. -/
def SenderPC.trying : SenderPC α → Bool
  | .tryReceivers _ | .tryLen _ | .tryLimit _ _ | .tryReceiversAgain _ => true
  | _ => false

/-- The values that the sender `p` has been given are those that have been pushed, in order, and the
one that it is about to push. -/
structure Fed (p : Nat) (vs : List α) (s : State α) : Prop where
  unique : s.channel.unique = none
  senders : ∀ i pc, pcAt s.senders i = some pc → pc.trying = false ∧ (i ≠ p → pc.item = none)
  pushed : vs = s.channel.pushed ++ s.sending p
  conserved : Conserved s.channel

theorem senderStep_pushed {c : Channel α} {h : Handle (SenderPC α)} {o : Outcome α (SenderPC α)}
    (hs : senderStep hash c h = some o) (hu : c.unique = none) (ht : h.pc.trying = false) :
    o.channel.unique = none ∧ o.handle.pc.trying = false ∧
      c.pushed ++ h.pc.item.toList = o.channel.pushed ++ o.handle.pc.item.toList ∧
      (h.pc.item = none → o.handle.pc.item = none) := by
  cases hp : h.pc <;> rw [hp] at ht <;> simp only [senderStep, hp, hu] at hs <;>
    (repeat' split at hs) <;> cases hs <;>
    simp_all [SenderPC.item, SenderPC.trying]

theorem receiverStep_pushed {c : Channel α} {h : Handle (ReceiverPC α)}
    {o : Outcome α (ReceiverPC α)} (hs : receiverStep hash c h = some o) (hu : c.unique = none) :
    o.channel.unique = none ∧ o.channel.pushed = c.pushed := by
  cases hp : h.pc <;> simp only [receiverStep, hp, afterMaxed] at hs <;> (repeat' split at hs) <;>
    cases hs <;> simp_all

theorem fed_init : Fed p [] (init limit false : State α) := by
  refine ⟨rfl, fun i pc hi => ?_, ?_, rfl⟩
  · cases i with
    | zero =>
      obtain rfl := Option.some.inj hi
      exact ⟨rfl, fun _ => rfl⟩
    | succ i => cases hi
  · cases p <;> rfl

theorem fed_settles {e : Effect} (hf : Fed p vs s) (h : Settles s e t) : Fed p vs t := by
  refine ⟨?_, fun i pc hi => ?_, ?_, ?_⟩
  · rw [h.channel]
    exact hf.unique
  · rw [h.senders.pcAt] at hi
    exact hf.senders i pc hi
  · rw [h.channel, State.sending, h.senders.pcAt]
    exact hf.pushed
  · rw [h.channel]
    exact hf.conserved

theorem fed_sender {h : Handle (SenderPC α)} {o : Outcome α (SenderPC α)} (hf : Fed p vs s)
    (hi : s.senders[i]? = some h) (hs : senderStep hash s.channel h = some o) :
    Fed p vs (s.sent i o) := by
  obtain ⟨htrying, hitem⟩ := hf.senders i h.pc (pcAt_of_getElem hi)
  obtain ⟨hunique, htrying', hpushed, hnone⟩ := senderStep_pushed hs hf.unique htrying
  refine ⟨hunique, fun j pc hj => ?_, ?_, senderStep_conserved hs hf.conserved⟩
  · by_cases hij : i = j
    · subst hij
      rw [State.sent, pcAt_set_self hi] at hj
      obtain rfl := Option.some.inj hj
      exact ⟨htrying', fun hne => hnone (hitem hne)⟩
    · rw [State.sent, pcAt_set_ne hij] at hj
      exact hf.senders j pc hj
  · rw [hf.pushed]
    by_cases hip : i = p
    · subst hip
      rw [sending_of_getElem hi, State.sent, sending_set_self hi]
      exact hpushed
    · rw [hitem hip, hnone (hitem hip)] at hpushed
      have hchannel : s.channel.pushed = o.channel.pushed := by simpa using hpushed
      rw [State.sent, sending_set_ne hip, hchannel]
      rfl

theorem fed_receiver {h : Handle (ReceiverPC α)} {o : Outcome α (ReceiverPC α)} (hf : Fed p vs s)
    (hs : receiverStep hash s.channel h = some o) : Fed p vs (s.received i o) := by
  obtain ⟨hunique, hpushed⟩ := receiverStep_pushed hs hf.unique
  refine ⟨hunique, hf.senders, ?_, receiverStep_conserved hs hf.conserved⟩
  rw [hf.pushed]
  exact congrArg (· ++ s.sending p) hpushed.symm

/-- A call that gives no value. -/
theorem fed_callSender {h : Handle (SenderPC α)} {call : SenderCall α} (hf : Fed p vs s)
    (hi : s.senders[i]? = some h) (hp : h.pc = .idle) (hcall : call.item = none) :
    Fed p vs (s.callSender i h call) := by
  have hbegin {pc : SenderPC α} (htrying : pc.trying = false) (hitem : pc.item = none) :
      Fed p vs { s with senders := s.senders.set i (h.at pc) } := by
    refine ⟨hf.unique, fun j pc' hj => ?_, ?_, hf.conserved⟩
    · by_cases hij : i = j
      · subst hij
        rw [pcAt_set_self hi] at hj
        obtain rfl := Option.some.inj hj
        exact ⟨htrying, fun _ => hitem⟩
      · rw [pcAt_set_ne hij] at hj
        exact hf.senders j pc' hj
    · rw [hf.pushed]
      by_cases hip : i = p
      · subst hip
        rw [sending_of_getElem hi, sending_set_self hi, Handle.at_pc, hp, hitem]
        rfl
      · rw [sending_set_ne hip]
  cases call with
  | pollReady => exact hbegin rfl rfl
  | drop => exact hbegin rfl rfl
  | startSend v => cases hcall
  | trySend v => cases hcall
  | clone =>
    refine ⟨hf.unique, fun j pc hj => ?_, ?_, hf.conserved⟩
    · rcases pcAt_append_fresh hj with hj | rfl
      · exact hf.senders j pc hj
      · exact ⟨rfl, fun _ => rfl⟩
    · rw [hf.pushed, State.sending, State.sending, State.callSender, bind_pcAt_fresh rfl]

/-- The sender is given a value. -/
theorem fed_startSend (hf : Fed p vs s) (h : Step hash s (.callSender p (.startSend v)) t) :
    Fed p (vs ++ [v]) t := by
  obtain ⟨hd, hi, hp, rfl⟩ := step_callSender h
  have hsend : s.channel.send v = .sendPush v := by simp [Channel.send, hf.unique]
  refine ⟨hf.unique, fun j pc hj => ?_, ?_, hf.conserved⟩
  · by_cases hij : p = j
    · subst hij
      rw [State.callSender, pcAt_set_self hi, Handle.at_pc, hsend] at hj
      obtain rfl := Option.some.inj hj
      exact ⟨rfl, fun hne => absurd rfl hne⟩
    · rw [State.callSender, pcAt_set_ne hij] at hj
      exact hf.senders j pc hj
  · rw [hf.pushed, sending_of_getElem hi, State.callSender, sending_set_self hi, Handle.at_pc,
      hsend, hp]
    simp [SenderPC.item]

theorem fed_step (hf : Fed p vs s) (ha : a.item = none) (h : Step hash s a t) : Fed p vs t := by
  cases a with
  | callSender i call =>
    obtain ⟨hd, hi, hp, rfl⟩ := step_callSender h
    exact fed_callSender hf hi hp ha
  | callReceiver i call =>
    obtain ⟨hd, -, -, rfl⟩ := step_callReceiver h
    cases call <;> exact ⟨hf.unique, hf.senders, hf.pushed, hf.conserved⟩
  | sender i woken =>
    obtain ⟨hd, o, hi, ho, hset⟩ := step_sender h
    exact fed_settles (fed_sender hf hi ho) hset
  | receiver i woken =>
    obtain ⟨hd, o, -, ho, hset⟩ := step_receiver h
    exact fed_settles (fed_receiver hf ho) hset

/-- What the receivers have popped, what is queued and what is about to be pushed are the values, in
order. -/
theorem Fed.popped (hf : Fed p vs s) :
    vs = s.channel.popped ++ s.channel.queue ++ s.sending p := by
  rw [hf.pushed, hf.conserved]

end Pewpew.ProviderChannel
