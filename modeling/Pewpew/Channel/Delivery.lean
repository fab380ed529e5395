import Pewpew.Channel.Discard
import Pewpew.Library.History

/-! What becomes of the values that senders are given: nothing is lost, duplicated or reordered. -/
namespace Pewpew.ProviderChannel

open EventListener Transition

/-- A value is given to a sender, which refuses, discards or pushes it, or a receiver pops it and
answers with it. -/
inductive Event (α : Type) where
  | given (i : Nat) (v : α)
  | refused (i : Nat) (v : α)
  | discarded (i : Nat) (v : α)
  | pushed (i : Nat) (v : α)
  | popped (r : Nat) (v : α)
  | received (r : Nat) (v : α)
  deriving DecidableEq, Repr

variable {α : Type} {hash : α → Nat} {s t : State α} {limit : Limit} {unique : Bool} {a : Act α}
  {as : List (Act α)} {i j r : Nat} {v : α} {es : List (Event α)}

def Event.givenTo (i : Nat) : Event α → Option α
  | .given j v => if j = i then some v else none
  | _ => none

/-- The value that the sender is done with. -/
def Event.settledBy (i : Nat) : Event α → Option α
  | .refused j v | .discarded j v | .pushed j v => if j = i then some v else none
  | _ => none

def Event.lost : Event α → Option α
  | .discarded _ v => some v
  | _ => none

def Event.queued : Event α → Option α
  | .pushed _ v => some v
  | _ => none

def Event.unqueued : Event α → Option α
  | .popped _ v => some v
  | _ => none

def Event.poppedBy (r : Nat) : Event α → Option α
  | .popped j v => if j = r then some v else none
  | _ => none

def Event.receivedBy (r : Nat) : Event α → Option α
  | .received j v => if j = r then some v else none
  | _ => none

/-- What the next operation of a sender does with its value. -/
def senderEvents (hash : α → Nat) (c : Channel α) (i : Nat) (h : Handle (SenderPC α)) :
    List (Event α) :=
  match h.pc, (senderStep hash c h).bind (·.ret) with
  | .sendPush v, _ => [.pushed i v]
  | .sendInsert v, some _ => [.discarded i v]
  | _, some (.closed v) => [.refused i v]
  | _, some (.full v) => [.refused i v]
  | _, _ => []

def receiverEvents (hash : α → Nat) (c : Channel α) (r : Nat) (h : Handle (ReceiverPC α)) :
    List (Event α) :=
  match h.pc, (receiverStep hash c h).bind (·.ret) with
  | .pop, _ => c.queue.head?.toList.map (.popped r)
  | _, some (.item v) => [.received r v]
  | _, _ => []

def events (hash : α → Nat) (s : State α) : Act α → List (Event α)
  | .callSender i call => call.item.toList.map (.given i)
  | .callReceiver _ _ => []
  | .sender i _ => s.senders[i]?.elim [] (senderEvents hash s.channel i)
  | .receiver r _ => s.receivers[r]?.elim [] (receiverEvents hash s.channel r)

/-- The events of a run from the start. -/
def history (hash : α → Nat) (limit : Limit) (unique : Bool) (as : List (Act α)) :
    List (Event α) :=
  outputs (next hash) (events hash) (init limit unique) as

/-- The value that a receiver has popped and not yet answered with. -/
def ReceiverPC.item : ReceiverPC α → Option α
  | .remove v | .len v | .limit v _ | .exchangeMaxed v _ _ | .growLimit v _ _ | .storeMaxed v _ _
  | .notifySender v => some v
  | _ => none

/-- The value that the sender at a place is dealing with. -/
def State.sending (s : State α) (i : Nat) : List α :=
  ((pcAt s.senders i).bind SenderPC.item).toList

def State.receiving (s : State α) (r : Nat) : List α :=
  ((pcAt s.receivers r).bind ReceiverPC.item).toList

section Places

variable {c : Channel α} {hs : List (Handle (SenderPC α))} {hr : List (Handle (ReceiverPC α))}

theorem sending_of_getElem {h : Handle (SenderPC α)} (hi : s.senders[i]? = some h) :
    s.sending i = h.pc.item.toList := by
  rw [State.sending, pcAt_of_getElem hi, Option.bind_some]

theorem sending_set_self {h h' : Handle (SenderPC α)} (hi : hs[i]? = some h) :
    State.sending ⟨c, hs.set i h', hr⟩ i = h'.pc.item.toList := by
  rw [State.sending, pcAt_set_self hi, Option.bind_some]

theorem sending_set_ne {h : Handle (SenderPC α)} (hij : i ≠ j) :
    State.sending ⟨c, hs.set i h, hr⟩ j = State.sending ⟨c, hs, hr⟩ j := by
  rw [State.sending, pcAt_set_ne hij, State.sending]

theorem receiving_of_getElem {h : Handle (ReceiverPC α)} (hi : s.receivers[i]? = some h) :
    s.receiving i = h.pc.item.toList := by
  rw [State.receiving, pcAt_of_getElem hi, Option.bind_some]

theorem receiving_set_self {h h' : Handle (ReceiverPC α)} (hi : hr[i]? = some h) :
    State.receiving ⟨c, hs, hr.set i h'⟩ i = h'.pc.item.toList := by
  rw [State.receiving, pcAt_set_self hi, Option.bind_some]

theorem receiving_set_ne {h : Handle (ReceiverPC α)} (hij : i ≠ j) :
    State.receiving ⟨c, hs, hr.set i h⟩ j = State.receiving ⟨c, hs, hr⟩ j := by
  rw [State.receiving, pcAt_set_ne hij, State.receiving]

end Places

/-- Each sender settles what it is given in order, the queue is first in, first out, and each
receiver answers with what it pops, in order. Only a unique channel discards values. -/
structure Delivers (es : List (Event α)) (s : State α) : Prop where
  senders : ∀ i, es.filterMap (Event.givenTo i) = es.filterMap (Event.settledBy i) ++ s.sending i
  queue : es.filterMap Event.queued = es.filterMap Event.unqueued ++ s.channel.queue
  receivers : ∀ r, es.filterMap (Event.poppedBy r) =
    es.filterMap (Event.receivedBy r) ++ s.receiving r
  kept : s.channel.unique = none → es.filterMap Event.lost = []

/-! ### One operation -/

section Operation

variable {c : Channel α}

theorem senderStep_settles {h : Handle (SenderPC α)} {o : Outcome α (SenderPC α)}
    (hs : senderStep hash c h = some o) :
    h.pc.item.toList = (senderEvents hash c i h).filterMap (Event.settledBy i) ++
        o.handle.pc.item.toList ∧
      o.channel.queue = c.queue ++ (senderEvents hash c i h).filterMap Event.queued := by
  rw [senderEvents, hs]
  cases hp : h.pc with
  | tryLimit v len =>
    simp only [senderStep, hp] at hs
    split at hs <;> cases hs
    · rw [Handle.at_pc, send_item]
      simp [SenderPC.item]
    · simp [SenderPC.item, Event.settledBy, Event.queued]
  | _ =>
    simp only [senderStep, hp] at hs
    repeat' split at hs
    all_goals cases hs
    all_goals simp [SenderPC.item, Event.settledBy, Event.queued]

theorem senderStep_unique {h : Handle (SenderPC α)} {o : Outcome α (SenderPC α)}
    (hs : senderStep hash c h = some o) (hu : o.channel.unique = none) :
    c.unique = none ∧ (senderEvents hash c i h).filterMap Event.lost = [] := by
  rw [senderEvents, hs]
  cases hp : h.pc <;> simp only [senderStep, hp] at hs <;> (repeat' split at hs) <;>
    cases hs <;> simp_all [Event.lost]

theorem receiverStep_unique {h : Handle (ReceiverPC α)} {o : Outcome α (ReceiverPC α)}
    (hs : receiverStep hash c h = some o) (hu : o.channel.unique = none) : c.unique = none := by
  cases hp : h.pc <;> simp only [receiverStep, hp, afterMaxed] at hs <;> (repeat' split at hs) <;>
    cases hs <;> simp_all

/-- A sender has no other events. -/
theorem filterMap_senderEvents {β : Type} {f : Event α → Option β} {h : Handle (SenderPC α)}
    (hpushed : ∀ v, f (.pushed i v) = none) (hdiscarded : ∀ v, f (.discarded i v) = none)
    (hrefused : ∀ v, f (.refused i v) = none) :
    (es ++ senderEvents hash c i h).filterMap f = es.filterMap f := by
  have hnone : (senderEvents hash c i h).filterMap f = [] := by
    unfold senderEvents
    split <;> simp [*]
  rw [List.filterMap_append, hnone, List.append_nil]

theorem filterMap_receiverEvents {β : Type} {f : Event α → Option β} {h : Handle (ReceiverPC α)}
    (hpopped : ∀ v, f (.popped r v) = none) (hreceived : ∀ v, f (.received r v) = none) :
    (es ++ receiverEvents hash c r h).filterMap f = es.filterMap f := by
  have hnone : (receiverEvents hash c r h).filterMap f = [] := by
    unfold receiverEvents
    split
    · cases c.queue.head? <;> simp [*]
    · simp [*]
    · rfl
  rw [List.filterMap_append, hnone, List.append_nil]

theorem receiverStep_answers {h : Handle (ReceiverPC α)} {o : Outcome α (ReceiverPC α)}
    (hs : receiverStep hash c h = some o) :
    h.pc.item.toList ++ (receiverEvents hash c r h).filterMap (Event.poppedBy r) =
        (receiverEvents hash c r h).filterMap (Event.receivedBy r) ++ o.handle.pc.item.toList ∧
      c.queue = (receiverEvents hash c r h).filterMap Event.unqueued ++ o.channel.queue := by
  rw [receiverEvents, hs]
  cases hp : h.pc with
  | pop =>
    simp only [receiverStep, hp] at hs
    split at hs
    · next hq =>
      cases hs
      simp [hq, ReceiverPC.item]
    · next v rest hq =>
      cases hs
      have hitem : (if c.unique.isSome then ReceiverPC.remove v else .len v).item = some v := by
        split <;> rfl
      rw [Handle.at_pc, hitem]
      simp [hq, ReceiverPC.item, Event.poppedBy, Event.receivedBy, Event.unqueued]
  | _ =>
    simp only [receiverStep, hp, afterMaxed] at hs
    repeat' split at hs
    all_goals cases hs
    all_goals simp [ReceiverPC.item, Event.poppedBy, Event.receivedBy, Event.unqueued]

end Operation

/-! ### A run -/

theorem delivers_init : Delivers [] (init limit unique : State α) := by
  refine ⟨fun i => ?_, rfl, fun r => ?_, fun _ => rfl⟩
  · cases i <;> rfl
  · cases r <;> rfl

theorem delivers_settles {e : Effect} (hd : Delivers es s) (h : Settles s e t) :
    Delivers es t := by
  refine ⟨fun i => ?_, ?_, fun r => ?_, ?_⟩
  · rw [State.sending, h.senders.pcAt]
    exact hd.senders i
  · rw [h.channel]
    exact hd.queue
  · rw [State.receiving, h.receivers.pcAt]
    exact hd.receivers r
  · rw [h.channel]
    exact hd.kept

theorem delivers_sender {h : Handle (SenderPC α)} {o : Outcome α (SenderPC α)}
    (hd : Delivers es s) (hi : s.senders[i]? = some h) (hs : senderStep hash s.channel h = some o) :
    Delivers (es ++ senderEvents hash s.channel i h) (s.sent i o) := by
  obtain ⟨hitem, hqueue⟩ := senderStep_settles (i := i) hs
  refine ⟨fun j => ?_, ?_, fun r => ?_, fun hu => ?_⟩
  · rw [filterMap_senderEvents (fun _ => rfl) (fun _ => rfl) fun _ => rfl, hd.senders j]
    by_cases hj : i = j
    · subst hj
      rw [List.filterMap_append, List.append_assoc, sending_of_getElem hi, State.sent,
        sending_set_self hi]
      exact congrArg _ hitem
    · rw [filterMap_senderEvents (fun _ => if_neg hj) (fun _ => if_neg hj) fun _ => if_neg hj,
        State.sent, sending_set_ne hj]
      rfl
  · rw [List.filterMap_append, hd.queue, List.append_assoc,
      filterMap_senderEvents (fun _ => rfl) (fun _ => rfl) fun _ => rfl]
    exact congrArg _ hqueue.symm
  · rw [filterMap_senderEvents (fun _ => rfl) (fun _ => rfl) fun _ => rfl,
      filterMap_senderEvents (fun _ => rfl) (fun _ => rfl) fun _ => rfl]
    exact hd.receivers r
  · obtain ⟨hnone, hlost⟩ := senderStep_unique (i := i) hs hu
    rw [List.filterMap_append, hd.kept hnone, hlost, List.append_nil]

theorem delivers_receiver {h : Handle (ReceiverPC α)} {o : Outcome α (ReceiverPC α)}
    (hd : Delivers es s) (hr : s.receivers[r]? = some h)
    (hs : receiverStep hash s.channel h = some o) :
    Delivers (es ++ receiverEvents hash s.channel r h) (s.received r o) := by
  obtain ⟨hitem, hqueue⟩ := receiverStep_answers (r := r) hs
  refine ⟨fun i => ?_, ?_, fun j => ?_, fun hu => ?_⟩
  · rw [filterMap_receiverEvents (fun _ => rfl) fun _ => rfl,
      filterMap_receiverEvents (fun _ => rfl) fun _ => rfl]
    exact hd.senders i
  · rw [filterMap_receiverEvents (fun _ => rfl) fun _ => rfl, hd.queue, List.filterMap_append,
      List.append_assoc]
    exact congrArg _ hqueue
  · by_cases hj : r = j
    · subst hj
      rw [List.filterMap_append, List.filterMap_append, hd.receivers r, List.append_assoc,
        List.append_assoc, receiving_of_getElem hr, State.received, receiving_set_self hr]
      exact congrArg _ hitem
    · rw [filterMap_receiverEvents (fun _ => if_neg hj) fun _ => rfl,
        filterMap_receiverEvents (fun _ => rfl) fun _ => if_neg hj, hd.receivers j,
        State.received, receiving_set_ne hj]
      rfl
  · rw [filterMap_receiverEvents (fun _ => rfl) fun _ => rfl]
    exact hd.kept (receiverStep_unique hs hu)

/-- A call gives its value to the sender. -/
theorem delivers_begin {h : Handle (SenderPC α)} (hd : Delivers es s)
    (hi : s.senders[i]? = some h) (hp : h.pc = .idle) {pc : SenderPC α} {v : Option α}
    (hpc : pc.item = v) :
    Delivers (es ++ v.toList.map (Event.given i))
      { s with senders := s.senders.set i (h.at pc) } := by
  have hother {β : Type} {f : Event α → Option β} (hf : ∀ v, f (.given i v) = none) :
      (es ++ v.toList.map (Event.given i)).filterMap f = es.filterMap f := by
    cases v <;> simp [hf]
  refine ⟨fun j => ?_, ?_, fun r => ?_, fun hu => ?_⟩
  · rw [hother (f := Event.settledBy j) fun _ => rfl]
    by_cases hj : i = j
    · subst hj
      have hidle : s.sending i = [] := by
        rw [sending_of_getElem hi, hp]
        rfl
      rw [List.filterMap_append, hd.senders i, hidle, List.append_nil, sending_set_self hi,
        Handle.at_pc, hpc]
      cases v <;> simp [Event.givenTo]
    · rw [hother fun _ => if_neg hj, hd.senders j, sending_set_ne hj]
  · rw [hother (f := Event.queued) fun _ => rfl, hother (f := Event.unqueued) fun _ => rfl]
    exact hd.queue
  · rw [hother (f := Event.poppedBy r) fun _ => rfl, hother (f := Event.receivedBy r) fun _ => rfl]
    exact hd.receivers r
  · rw [hother (f := Event.lost) fun _ => rfl]
    exact hd.kept hu

theorem delivers_callSender {h : Handle (SenderPC α)} (hd : Delivers es s)
    (hi : s.senders[i]? = some h) (hp : h.pc = .idle) (call : SenderCall α) :
    Delivers (es ++ call.item.toList.map (Event.given i)) (s.callSender i h call) := by
  cases call with
  | pollReady => exact delivers_begin hd hi hp rfl
  | startSend v => exact delivers_begin hd hi hp (send_item _ v)
  | trySend v => exact delivers_begin hd hi hp rfl
  | drop => exact delivers_begin hd hi hp rfl
  | clone =>
    change Delivers (es ++ []) _
    rw [List.append_nil]
    refine ⟨fun j => ?_, hd.queue, hd.receivers, hd.kept⟩
    rw [State.sending, State.callSender, bind_pcAt_fresh rfl]
    exact hd.senders j

theorem delivers_callReceiver {h : Handle (ReceiverPC α)} (hd : Delivers es s)
    (hr : s.receivers[r]? = some h) (hp : h.pc = .idle) (call : ReceiverCall) :
    Delivers es (s.callReceiver r h call) := by
  have hbegin {pc : ReceiverPC α} (hpc : pc.item = none) :
      Delivers es { s with receivers := s.receivers.set r (h.at pc) } := by
    refine ⟨hd.senders, hd.queue, fun j => ?_, hd.kept⟩
    rw [hd.receivers j]
    by_cases hj : r = j
    · subst hj
      rw [receiving_of_getElem hr, receiving_set_self hr, Handle.at_pc, hp, hpc]
      rfl
    · rw [receiving_set_ne hj]
  cases call with
  | pollNext =>
    refine hbegin ?_
    split <;> rfl
  | drop => exact hbegin rfl
  | clone =>
    refine ⟨hd.senders, hd.queue, fun j => ?_, hd.kept⟩
    rw [State.receiving, State.callReceiver, bind_pcAt_fresh rfl]
    exact hd.receivers j

theorem delivers_step (hd : Delivers es s) (h : Step hash s a t) :
    Delivers (es ++ events hash s a) t := by
  cases a with
  | callSender i call =>
    obtain ⟨h, hi, hp, rfl⟩ := step_callSender h
    exact delivers_callSender hd hi hp call
  | callReceiver r call =>
    obtain ⟨h, hr, hp, rfl⟩ := step_callReceiver h
    rw [events, List.append_nil]
    exact delivers_callReceiver hd hr hp call
  | sender i woken =>
    obtain ⟨h, o, hi, ho, hset⟩ := step_sender h
    rw [events, hi]
    exact delivers_settles (delivers_sender hd hi ho) hset
  | receiver r woken =>
    obtain ⟨h, o, hr, ho, hset⟩ := step_receiver h
    rw [events, hr]
    exact delivers_settles (delivers_receiver hd hr ho) hset

/-- In every interleaving of any number of clones, the values that a sender is given are those that
it has settled, in order, and the one that it is dealing with; those that have been pushed are
those that have been popped, in order, and those in the queue; and a receiver has answered with
those that it has popped, in order, but for the one that it is dealing with. -/
theorem delivers_in_order (h : Run (Step hash) (init limit unique) as s) :
    Delivers (history hash limit unique as) s := by
  have hrun : Delivers ([] ++ history hash limit unique as) s :=
    h.outputs Delivers (fun _ _ _ _ => delivers_step) delivers_init
  exact hrun

/-- Both clones of a sender push to a unique channel, one of them a value that is queued already. -/
def clonesTrace : List (Act Nat) :=
  [.callSender 0 .clone, .callSender 0 (.startSend 7), .sender 0 [], .sender 0 [],
    .callSender 1 (.startSend 7), .sender 1 [], .callSender 1 (.startSend 8), .sender 1 [],
    .sender 1 [], .callReceiver 0 .pollNext, .receiver 0 []]

theorem delivers_in_order_clones :
    ∃ s : State Nat, Run (Step id) (init (.dynamic 5) true) clonesTrace s ∧
      history id (.dynamic 5) true clonesTrace =
        [.given 0 7, .pushed 0 7, .given 1 7, .discarded 1 7, .given 1 8, .pushed 1 8,
          .popped 0 7] ∧
      Delivers (history id (.dynamic 5) true clonesTrace) s := by
  obtain ⟨s, hrun, -⟩ := run_of_exec_map (next id) (init (.dynamic 5) true) clonesTrace
    (fun _ => true) rfl
  exact ⟨s, hrun, by decide, delivers_in_order hrun⟩

end Pewpew.ProviderChannel
