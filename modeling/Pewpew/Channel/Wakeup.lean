import Pewpew.Channel.Close

/-! Lost wakeups: no handle sleeps on while what it waits for is there. -/
namespace Pewpew.ProviderChannel

open EventListener Transition

variable {α : Type} {hash : α → Nat} {s t : State α} {a : Act α} {as : List (Act α)} {i : Nat}
  {limit : Limit} {unique : Bool}

/-- The sender may still call: it has not been handed to `drop`. -/
def SenderPC.live : SenderPC α → Bool
  | .dropDecrement | .dropNotifyAll | .dropListener | .dropped => false
  | _ => true

def ReceiverPC.live : ReceiverPC α → Bool
  | .dropDecrement | .dropNotifyAll | .dropListener | .dropped => false
  | _ => true

/-- `Channel::send` has pushed and not yet notified. -/
def SenderPC.owesReceiver : SenderPC α → Bool
  | .sendNotify => true
  | _ => false

/-- The last sender is gone and the receivers are not yet notified of it. -/
def SenderPC.owesReceivers : SenderPC α → Bool
  | .dropNotifyAll => true
  | _ => false

def ReceiverPC.owesSenders : ReceiverPC α → Bool
  | .dropNotifyAll => true
  | _ => false

/-- `Channel::recv` has popped and will notify a sender if there is still room. -/
def ReceiverPC.owesSender (limit : Nat) : ReceiverPC α → Bool
  | .remove _ | .len _ | .notifySender _ => true
  | .limit _ n => n < limit
  | .exchangeMaxed _ n l | .growLimit _ n l | .storeMaxed _ n l => n < l
  | _ => false

/-- `poll_ready` is about to look at the receiver count again. -/
def SenderPC.rechecks : SenderPC α → Bool
  | .readyReceivers => true
  | _ => false

/-- The last poll answered `Pending` and its listener has not been notified. -/
def Parked {PC : Type} (h : Handle PC) : Prop := h.pending = true ∧ h.listener = some false

instance {PC : Type} (h : Handle PC) : Decidable (Parked h) := inferInstanceAs (Decidable (_ ∧ _))

/-- No operation is in progress. -/
structure Quiescent (s : State α) : Prop where
  senders : ∀ h ∈ s.senders, h.pc = .idle ∨ h.pc = .dropped
  receivers : ∀ h ∈ s.receivers, h.pc = .idle ∨ h.pc = .dropped

/-- A wakeup is lost: items are queued and every receiver is parked, a receiver is parked
with no sender left, there is room and every sender is parked, or a sender is parked with no
receiver left. -/
def LostWakeup (s : State α) : Prop :=
  (s.channel.queue ≠ [] ∧ (∃ h ∈ s.receivers, h.pc.live = true) ∧
    ∀ h ∈ s.receivers, h.pc.live = true → Parked h) ∨
  (s.channel.senderCount = 0 ∧ ∃ h ∈ s.receivers, h.pc.live = true ∧ Parked h) ∨
  (s.channel.queue.length < s.channel.limit.get ∧ (∃ h ∈ s.senders, h.pc.live = true) ∧
    ∀ h ∈ s.senders, h.pc.live = true → Parked h) ∨
  (s.channel.receiverCount = 0 ∧ ∃ h ∈ s.senders, h.pc.live = true ∧ Parked h)

/-- In every interleaving no quiescent state has lost a wakeup. -/
def NoLostWakeup (hash : α → Nat) (limit : Limit) (unique : Bool) : Prop :=
  ∀ s, Reachable hash limit unique s → Quiescent s → ¬ LostWakeup s

/-- A receiver may wait for an item: none is queued, or its arrival is still being told. -/
abbrev State.ItemsTold (s : State α)
    (may : (ReceiverPC α → Bool) → Prop → Prop → List (Handle (ReceiverPC α)) → Nat → Prop)
    (i : Nat) : Prop :=
  may ReceiverPC.live (s.channel.queue ≠ []) (Owes SenderPC.owesReceiver s.senders) s.receivers i

/-- A sender may wait for room: there is none, or its arrival is still being told. -/
abbrev State.RoomTold (s : State α)
    (may : (SenderPC α → Bool) → Prop → Prop → List (Handle (SenderPC α)) → Nat → Prop)
    (i : Nat) : Prop :=
  may SenderPC.live (s.channel.queue.length < s.channel.limit.get)
    (Owes (ReceiverPC.owesSender s.channel.limit.get) s.receivers) s.senders i

/-- What the steps of a run without lost wakeups meet. A listener is created only while what
the poll has checked still holds, or while another handle or a notification will see to it; a
handle that is not parked is dropped under the same condition, or when nobody else waits. -/
def KeepsAwake (s : State α) : Act α → Prop
  | .receiver i _ => ∀ h ∈ s.receivers[i]?, h.pc = .listen →
      s.ItemsTold MayPark i ∧ (s.channel.senderCount = 0 → Owes SenderPC.owesReceivers s.senders)
  | .sender i _ => ∀ h ∈ s.senders[i]?, h.pc = .readyListen → s.RoomTold MayPark i
  | .callReceiver i .drop => ∀ h ∈ s.receivers[i]?, h.listener = none → s.ItemsTold MayLeave i
  | .callSender i .drop => ∀ h ∈ s.senders[i]?, h.listener = none → s.RoomTold MayLeave i
  | _ => True

instance [DecidableEq α] : (s : State α) → (a : Act α) → Decidable (KeepsAwake s a)
  | s, .receiver i _ => inferInstanceAs (Decidable (∀ h ∈ s.receivers[i]?, _))
  | s, .sender i _ => inferInstanceAs (Decidable (∀ h ∈ s.senders[i]?, _))
  | s, .callReceiver i .drop => inferInstanceAs (Decidable (∀ h ∈ s.receivers[i]?, _))
  | s, .callSender i .drop => inferInstanceAs (Decidable (∀ h ∈ s.senders[i]?, _))
  | _, .callReceiver _ .pollNext | _, .callReceiver _ .clone => .isTrue trivial
  | _, .callSender _ .pollReady | _, .callSender _ (.startSend _) => .isTrue trivial
  | _, .callSender _ (.trySend _) | _, .callSender _ .clone => .isTrue trivial

instance [DecidableEq α] (s : State α) : Decidable (Quiescent s) :=
  decidable_of_iff (_ ∧ _) ⟨fun h => ⟨h.1, h.2⟩, fun h => ⟨h.senders, h.receivers⟩⟩

instance [DecidableEq α] (s : State α) : Decidable (LostWakeup s) :=
  inferInstanceAs (Decidable (_ ∨ _))

/-! ### What one operation of a sender changes -/

section SenderStep

variable {c : Channel α} {h : Handle (SenderPC α)} {o : Outcome α (SenderPC α)}

theorem senderStep_items (hs : senderStep hash c h = some o) :
    (o.channel.queue ≠ [] → c.queue ≠ [] ∨ o.handle.pc.owesReceiver = true) ∧
      (h.pc.owesReceiver = true → o.effect = .notifyReceivers .one) := by
  cases hp : h.pc <;> simp only [senderStep, hp] at hs <;> (repeat' split at hs) <;>
    cases hs <;> simp_all [SenderPC.owesReceiver]

theorem senderStep_limit (hs : senderStep hash c h = some o) :
    o.channel.limit = c.limit ∧ o.channel.hasMaxed = c.hasMaxed := by
  cases hp : h.pc <;> simp only [senderStep, hp] at hs <;> (repeat' split at hs) <;>
    cases hs <;> simp

theorem senderStep_room (hs : senderStep hash c h = some o) :
    c.queue.length ≤ o.channel.queue.length ∧
      (o.handle.pc.live = true → h.pc.live = true) ∧
      (Awake SenderPC.live h → Awake SenderPC.live o.handle ∨ h.pc = .readyListen ∨
        o.effect = .notifySenders .one) := by
  cases hp : h.pc <;> simp only [senderStep, hp] at hs <;> (repeat' split at hs) <;>
    cases hs <;> simp_all [SenderPC.live, Awake, passOn, Channel.send]
  cases c.unique <;> simp

theorem senderStep_ended (hs : senderStep hash c h = some o) :
    (o.channel.senderCount = 0 → c.senderCount = 0 ∨ o.handle.pc.owesReceivers = true) ∧
      (h.pc.owesReceivers = true → o.effect = .notifyReceivers .all) := by
  cases hp : h.pc <;> simp only [senderStep, hp] at hs <;> (repeat' split at hs) <;>
    cases hs <;> simp_all [SenderPC.owesReceivers]

theorem senderStep_abandoned (hs : senderStep hash c h = some o) :
    o.channel.receiverCount = c.receiverCount ∧
      (c.receiverCount = 0 → (h.listener = some false → h.pc.rechecks = true) →
        o.handle.listener = some false → o.handle.pc.rechecks = true) := by
  cases hp : h.pc <;> simp only [senderStep, hp] at hs <;> (repeat' split at hs) <;>
    cases hs <;> simp_all [SenderPC.rechecks]

theorem senderStep_dropped (hs : senderStep hash c h = some o) (hd : o.handle.pc = .dropped) :
    o.handle.listener = none := by
  revert hd
  cases hp : h.pc <;> simp only [senderStep, hp] at hs <;> (repeat' split at hs) <;>
    cases hs <;> simp [Channel.send]
  all_goals grind

end SenderStep

/-! ### What one operation of a receiver changes -/

/-- What a receiver knows of the length and the limit it has loaded. -/
def ReceiverPC.Sound (limit : Nat) : ReceiverPC α → Prop
  | .exchangeMaxed _ n l => n = 0 ∧ (l = 0 → limit = 0)
  | .growLimit _ n l => n = 0 ∧ 0 < l ∧ 0 < limit
  | .storeMaxed _ _ l => 0 < l ∧ 0 < limit
  | _ => True

/-- A limit of zero stays zero. -/
structure Growth (c : Channel α) (rs : List (Handle (ReceiverPC α))) : Prop where
  maxed : c.hasMaxed = true → 0 < c.limit.get
  loaded : ∀ h ∈ rs, h.pc.Sound c.limit.get

section ReceiverStep

variable {c : Channel α} {h : Handle (ReceiverPC α)} {o : Outcome α (ReceiverPC α)}

theorem receiverStep_items (hs : receiverStep hash c h = some o) :
    (o.channel.queue ≠ [] → c.queue ≠ []) ∧
      (o.handle.pc.live = true → h.pc.live = true) ∧
      (Awake ReceiverPC.live h → Awake ReceiverPC.live o.handle ∨ h.pc = .listen ∨
        o.effect = .notifyReceivers .one) := by
  cases hp : h.pc <;> simp only [receiverStep, hp, afterMaxed] at hs <;> (repeat' split at hs) <;>
    cases hs <;> simp_all [ReceiverPC.live, Awake, passOn]

/-- The limit never shrinks, and grows only from a positive value. -/
theorem receiverStep_growth (hs : receiverStep hash c h = some o)
    (hm : c.hasMaxed = true → 0 < c.limit.get) (hl : h.pc.Sound c.limit.get) :
    (o.channel.limit.get = c.limit.get ∨ 0 < c.limit.get ∧ c.limit.get ≤ o.channel.limit.get) ∧
      (o.channel.hasMaxed = true → 0 < o.channel.limit.get) ∧
      o.handle.pc.Sound o.channel.limit.get := by
  cases hp : h.pc <;> simp only [receiverStep, hp, afterMaxed] at hs <;> (repeat' split at hs) <;>
    cases hs <;> simp_all [ReceiverPC.Sound, Limit.get]
  all_goals grind

theorem receiverStep_room (hs : receiverStep hash c h = some o) (hl : h.pc.Sound c.limit.get) :
    (o.channel.queue.length < o.channel.limit.get → c.queue.length < c.limit.get ∨
        o.handle.pc.owesSender o.channel.limit.get = true ∨ o.effect = .notifySenders .one) ∧
      (h.pc.owesSender c.limit.get = true → o.channel.queue.length < o.channel.limit.get →
        o.handle.pc.owesSender o.channel.limit.get = true ∨ o.effect = .notifySenders .one) := by
  cases hp : h.pc <;> simp only [receiverStep, hp, afterMaxed] at hs <;> (repeat' split at hs) <;>
    cases hs <;> simp_all [ReceiverPC.owesSender, ReceiverPC.Sound, Limit.get]
  grind

theorem ReceiverPC.owesSender_mono {l l' : Nat} (hl : l' = l ∨ 0 < l ∧ l ≤ l')
    (pc : ReceiverPC α) (ho : pc.owesSender l = true) : pc.owesSender l' = true := by
  cases pc <;> simp_all [ReceiverPC.owesSender]
  omega

theorem receiverStep_ended (hs : receiverStep hash c h = some o) :
    o.channel.senderCount = c.senderCount ∧
      (o.handle.listener = some false → h.pc = .listen ∨ h.listener = some false) := by
  cases hp : h.pc <;> simp only [receiverStep, hp, afterMaxed] at hs <;> (repeat' split at hs) <;>
    cases hs <;> simp

theorem receiverStep_abandoned (hs : receiverStep hash c h = some o) :
    (o.channel.receiverCount = 0 → c.receiverCount = 0 ∨ o.handle.pc.owesSenders = true) ∧
      (h.pc.owesSenders = true → o.effect = .notifySenders .all) := by
  cases hp : h.pc <;> simp only [receiverStep, hp, afterMaxed] at hs <;> (repeat' split at hs) <;>
    cases hs <;> simp_all [ReceiverPC.owesSenders]

theorem receiverStep_dropped (hs : receiverStep hash c h = some o)
    (hd : o.handle.pc = .dropped) : o.handle.listener = none := by
  revert hd
  cases hp : h.pc <;> simp only [receiverStep, hp, afterMaxed] at hs <;> (repeat' split at hs) <;>
    cases hs <;> simp

end ReceiverStep

/-! ### The invariant of the whole channel -/

/-- A dropped handle owns no listener. -/
def NoStray {PC : Type} (dropped : PC) (hs : List (Handle PC)) : Prop :=
  ∀ h ∈ hs, h.pc = dropped → h.listener = none

/-- The receivers are covered while an item is queued. -/
abbrev State.ItemsCovered (s : State α) : Prop :=
  Covered ReceiverPC.live (s.channel.queue ≠ []) (Owes SenderPC.owesReceiver s.senders) s.receivers

/-- The senders are covered while there is room. -/
abbrev State.RoomCovered (s : State α) : Prop :=
  Covered SenderPC.live (s.channel.queue.length < s.channel.limit.get)
    (Owes (ReceiverPC.owesSender s.channel.limit.get) s.receivers) s.senders

/-- Once no sender is left, the receivers are told. -/
abbrev State.EndTold (s : State α) : Prop :=
  Released (s.channel.senderCount = 0) (Owes SenderPC.owesReceivers s.senders)
    (fun _ => false) s.receivers

/-- Once no receiver is left, the senders are told, or look again by themselves. -/
abbrev State.AbandonTold (s : State α) : Prop :=
  Released (s.channel.receiverCount = 0) (Owes ReceiverPC.owesSenders s.receivers)
    SenderPC.rechecks s.senders

/-- What holds in every state of a run whose steps keep somebody awake. -/
structure Wakes (s : State α) : Prop where
  counts : Counts s
  growth : Growth s.channel s.receivers
  straySenders : NoStray .dropped s.senders
  strayReceivers : NoStray .dropped s.receivers
  items : s.ItemsCovered
  room : s.RoomCovered
  ended : s.EndTold
  abandoned : s.AbandonTold

theorem noStray_woken {PC : Type} {dropped : PC} {hs hs' : List (Handle PC)}
    (hn : NoStray dropped hs) (hw : Woken hs hs') : NoStray dropped hs' := by
  refine hw.forall (fun h h' hx hd hp => ?_) hn
  rcases hx with rfl | ⟨hl, rfl⟩
  · exact hd hp
  · rw [hd hp] at hl
    cases hl

theorem noStray_append {PC : Type} {dropped idle : PC} {hs : List (Handle PC)}
    (hn : NoStray dropped hs) : NoStray dropped (hs ++ [.fresh idle]) := by
  intro h hm hp
  rcases List.mem_append.mp hm with hm | hm
  · exact hn h hm hp
  · simp only [List.mem_singleton] at hm
    rw [hm]
    rfl

theorem straySenders_step (hn : NoStray .dropped s.senders) (h : Step hash s a t) :
    NoStray .dropped t.senders := by
  cases a with
  | callSender i call =>
    obtain ⟨hd, hi, hp, rfl⟩ := step_callSender h
    cases call with
    | clone => exact noStray_append hn
    | startSend item =>
      refine forall_set hn fun hd => ?_
      simp only [Handle.at_pc, Channel.send] at hd
      split at hd <;> cases hd
    | _ => exact forall_set hn (by simp)
  | callReceiver i call =>
    obtain ⟨hd, -, -, rfl⟩ := step_callReceiver h
    cases call <;> exact hn
  | sender i woken =>
    obtain ⟨hd, o, hi, ho, hset⟩ := step_sender h
    exact noStray_woken (forall_set hn (senderStep_dropped ho)) hset.senders
  | receiver i woken =>
    obtain ⟨hd, o, hi, ho, hset⟩ := step_receiver h
    exact noStray_woken hn hset.senders

theorem strayReceivers_step (hn : NoStray .dropped s.receivers) (h : Step hash s a t) :
    NoStray .dropped t.receivers := by
  cases a with
  | callSender i call =>
    obtain ⟨hd, -, -, rfl⟩ := step_callSender h
    cases call <;> exact hn
  | callReceiver i call =>
    obtain ⟨hd, hi, hp, rfl⟩ := step_callReceiver h
    cases call with
    | clone => exact noStray_append hn
    | pollNext =>
      refine forall_set hn fun hd => ?_
      simp only [Handle.at_pc] at hd
      split at hd <;> cases hd
    | drop => exact forall_set hn (by simp)
  | sender i woken =>
    obtain ⟨hd, o, hi, ho, hset⟩ := step_sender h
    exact noStray_woken hn hset.receivers
  | receiver i woken =>
    obtain ⟨hd, o, hi, ho, hset⟩ := step_receiver h
    exact noStray_woken (forall_set hn (receiverStep_dropped ho)) hset.receivers

theorem ReceiverPC.sound_mono {l l' : Nat} {pc : ReceiverPC α} (hs : pc.Sound l)
    (hl : l' = l ∨ 0 < l ∧ l ≤ l') : pc.Sound l' := by
  cases pc <;> simp_all [ReceiverPC.Sound] <;> omega

theorem growth_settles {e : Effect} (hg : Growth s.channel s.receivers) (h : Settles s e t) :
    Growth t.channel t.receivers := by
  rw [h.channel]
  exact ⟨hg.maxed, h.receivers.forall (fun _ _ hx hs => by rw [hx.pc]; exact hs) hg.loaded⟩

theorem growth_step (hg : Growth s.channel s.receivers) (h : Step hash s a t) :
    Growth t.channel t.receivers := by
  cases a with
  | callSender i call =>
    obtain ⟨hd, -, -, rfl⟩ := step_callSender h
    cases call <;> exact ⟨hg.maxed, hg.loaded⟩
  | callReceiver i call =>
    obtain ⟨hd, hi, hp, rfl⟩ := step_callReceiver h
    cases call with
    | clone =>
      refine ⟨hg.maxed, fun h hm => ?_⟩
      rcases List.mem_append.mp hm with hm | hm
      · exact hg.loaded h hm
      · simp only [List.mem_singleton] at hm
        subst hm
        trivial
    | pollNext =>
      refine ⟨hg.maxed, forall_set hg.loaded ?_⟩
      rw [Handle.at_pc]
      split <;> trivial
    | drop => exact ⟨hg.maxed, forall_set hg.loaded trivial⟩
  | sender i woken =>
    obtain ⟨hd, o, hi, ho, hset⟩ := step_sender h
    obtain ⟨hl, hm⟩ := senderStep_limit ho
    refine growth_settles (s := s.sent i o) ?_ hset
    exact ⟨by simpa [State.sent, hl, hm] using hg.maxed, by simpa [State.sent, hl] using hg.loaded⟩
  | receiver i woken =>
    obtain ⟨hd, o, hi, ho, hset⟩ := step_receiver h
    obtain ⟨hl, hm, hs⟩ := receiverStep_growth ho hg.maxed (hg.loaded _ (List.mem_of_getElem? hi))
    refine growth_settles (s := s.received i o) ⟨hm, forall_set ?_ hs⟩ hset
    exact fun r hr => ReceiverPC.sound_mono (hg.loaded r hr) hl

/-! ### Items and receivers -/

theorem items_settles {e : Effect} (h : Settles s e t)
    (hc : e = .notifyReceivers .one ∨ s.ItemsCovered) : t.ItemsCovered := by
  rcases hc with he | hc
  · exact covered_of_notified (h.notifiedReceivers _ he)
  · refine covered_mono (covered_woken hc h.receivers) ?_ fun ho => owes_woken ho h.senders
    rw [h.channel]
    exact .inl

theorem room_settles {e : Effect} (h : Settles s e t)
    (hc : e = .notifySenders .one ∨ s.RoomCovered) : t.RoomCovered := by
  rcases hc with he | hc
  · exact covered_of_notified (h.notifiedSenders _ he)
  · have hch := h.channel
    refine covered_mono (covered_woken hc h.senders) (by rw [hch]; exact .inl) ?_
    rw [hch]
    exact fun ho => owes_woken ho h.receivers

theorem items_step (hc : s.ItemsCovered) (hk : KeepsAwake s a) (h : Step hash s a t) :
    t.ItemsCovered := by
  cases a with
  | callSender i call =>
    obtain ⟨hd, hi, hp, rfl⟩ := step_callSender h
    cases call with
    | clone => exact covered_mono hc .inl fun ho => owes_append ho _
    | _ =>
      refine covered_mono hc .inl fun ho => owes_set ho hi ?_
      simp [hp, SenderPC.owesReceiver]
  | callReceiver i call =>
    obtain ⟨hd, hi, hp, rfl⟩ := step_callReceiver h
    cases call with
    | clone => exact covered_append rfl
    | pollNext =>
      refine covered_set hi hc (fun ha => ?_) fun _ => by rw [hp]; rfl
      refine ha.imp_right fun hl => ⟨?_, hl.2⟩
      rw [Handle.at_pc]
      split <;> rfl
    | drop =>
      by_cases hl : hd.listener = none
      · exact covered_of_mayLeave (hk hd hi hl) rfl
      · exact covered_set hi hc (fun ha => .inl (by simpa [Awake, hl] using ha))
          (by simp [ReceiverPC.live])
  | sender i woken =>
    obtain ⟨hd, o, hi, ho, hset⟩ := step_sender h
    obtain ⟨hq, how⟩ := senderStep_items ho
    refine items_settles hset ?_
    by_cases hw : hd.pc.owesReceiver = true
    · exact .inl (how hw)
    · refine .inr (covered_mono hc (fun hne => ?_) fun ho => owes_set ho hi fun h => (hw h).elim)
      exact (hq hne).imp_right (owes_set_self hi)
  | receiver i woken =>
    obtain ⟨hd, o, hi, ho, hset⟩ := step_receiver h
    obtain ⟨hq, hl, haw⟩ := receiverStep_items ho
    refine items_settles hset ?_
    by_cases he : o.effect = .notifyReceivers .one
    · exact .inl he
    right
    have hmono : Covered ReceiverPC.live (s.channel.queue ≠ [])
        (Owes SenderPC.owesReceiver s.senders) (s.receivers.set i o.handle) := by
      by_cases hp : hd.pc = .listen
      · exact covered_of_mayPark (hk hd hi hp).1
      · exact covered_set hi hc (fun ha => by simpa [hp, he] using haw ha) hl
    exact covered_mono hmono (fun hne => .inl (hq hne)) id

theorem room_step (hg : Growth s.channel s.receivers) (hc : s.RoomCovered) (hk : KeepsAwake s a)
    (h : Step hash s a t) : t.RoomCovered := by
  cases a with
  | callSender i call =>
    obtain ⟨hd, hi, hp, rfl⟩ := step_callSender h
    cases call with
    | clone => exact covered_append rfl
    | drop =>
      by_cases hl : hd.listener = none
      · exact covered_of_mayLeave (hk hd hi hl) rfl
      · exact covered_set hi hc (fun ha => .inl (by simpa [Awake, hl] using ha))
          (by simp [SenderPC.live])
    | startSend item =>
      refine covered_set hi hc (fun ha => ha.imp_right fun hl => ⟨?_, hl.2⟩) fun _ => by
        rw [hp]; rfl
      simp only [Handle.at_pc, Channel.send]
      split <;> rfl
    | _ =>
      exact covered_set hi hc (fun ha => ha.imp_right fun hl => ⟨rfl, hl.2⟩)
        fun _ => by rw [hp]; rfl
  | callReceiver i call =>
    obtain ⟨hd, hi, hp, rfl⟩ := step_callReceiver h
    cases call with
    | clone => exact covered_mono hc .inl fun ho => owes_append ho _
    | _ =>
      refine covered_mono hc .inl fun ho => owes_set ho hi ?_
      simp [hp, ReceiverPC.owesSender]
  | sender i woken =>
    obtain ⟨hd, o, hi, ho, hset⟩ := step_sender h
    obtain ⟨hq, hl, haw⟩ := senderStep_room ho
    obtain ⟨hlim, -⟩ := senderStep_limit ho
    refine room_settles hset ?_
    by_cases he : o.effect = .notifySenders .one
    · exact .inl he
    right
    have hmono : Covered SenderPC.live (s.channel.queue.length < s.channel.limit.get)
        (Owes (ReceiverPC.owesSender s.channel.limit.get) s.receivers)
        (s.senders.set i o.handle) := by
      by_cases hp : hd.pc = .readyListen
      · exact covered_of_mayPark (hk hd hi hp)
      · exact covered_set hi hc (fun ha => by simpa [hp, he] using haw ha) hl
    refine covered_mono hmono (fun hlt => .inl ?_) fun ho => ?_
    · simp only [State.sent, hlim] at hlt
      omega
    · simpa only [State.sent, hlim] using ho
  | receiver i woken =>
    obtain ⟨hd, o, hi, ho, hset⟩ := step_receiver h
    have hsound := hg.loaded _ (List.mem_of_getElem? hi)
    obtain ⟨hlim, -, -⟩ := receiverStep_growth ho hg.maxed hsound
    obtain ⟨hroom, howe⟩ := receiverStep_room ho hsound
    refine room_settles hset ?_
    by_cases he : o.effect = .notifySenders .one
    · exact .inl he
    right
    intro hlt
    by_cases hself : o.handle.pc.owesSender o.channel.limit.get = true
    · exact .inl (owes_set_self hi hself)
    have hlt' : s.channel.queue.length < s.channel.limit.get := by
      simpa [he, hself] using hroom hlt
    rcases hc hlt' with ho' | haw
    · -- another receiver owes the notification, and still does under the new limit
      refine .inl (owes_mono (owes_set ho' hi fun hp => ?_) (ReceiverPC.owesSender_mono hlim))
      simpa [he, hself] using howe hp hlt
    · exact .inr haw

/-! ### The end of the stream -/

theorem end_settles {e : Effect} (h : Settles s e t)
    (hr : e = .notifyReceivers .all ∨ s.EndTold) : t.EndTold := by
  rcases hr with he | hr
  · exact released_of_notified (h.notifiedReceivers _ he)
  · refine released_mono (released_woken hr h.receivers) ?_ fun ho => owes_woken ho h.senders
    rw [h.channel]
    exact .inl

theorem abandon_settles {e : Effect} (h : Settles s e t)
    (hr : e = .notifySenders .all ∨ s.AbandonTold) : t.AbandonTold := by
  rcases hr with he | hr
  · exact released_of_notified (h.notifiedSenders _ he)
  · refine released_mono (released_woken hr h.senders) ?_ fun ho => owes_woken ho h.receivers
    rw [h.channel]
    exact .inl

theorem ended_step (hr : s.EndTold) (hk : KeepsAwake s a) (h : Step hash s a t) : t.EndTold := by
  cases a with
  | callSender i call =>
    obtain ⟨hd, hi, hp, rfl⟩ := step_callSender h
    cases call with
    | clone => intro hz; simp [State.callSender] at hz
    | _ =>
      refine released_mono hr .inl fun ho => owes_set ho hi ?_
      simp [hp, SenderPC.owesReceivers]
  | callReceiver i call =>
    obtain ⟨hd, hi, hp, rfl⟩ := step_callReceiver h
    cases call with
    | clone => exact released_append hr _
    | _ => exact released_set_same hi hr id id
  | sender i woken =>
    obtain ⟨hd, o, hi, ho, hset⟩ := step_sender h
    obtain ⟨hz, how⟩ := senderStep_ended ho
    refine end_settles hset ?_
    by_cases hw : hd.pc.owesReceivers = true
    · exact .inl (how hw)
    · refine .inr (released_mono hr (fun hne => ?_) fun ho => owes_set ho hi fun h => (hw h).elim)
      exact (hz hne).imp_right (owes_set_self hi)
  | receiver i woken =>
    obtain ⟨hd, o, hi, ho, hset⟩ := step_receiver h
    obtain ⟨hz, hl⟩ := receiverStep_ended ho
    have hset' : Released (s.channel.senderCount = 0) (Owes SenderPC.owesReceivers s.senders)
        (fun _ => false) (s.receivers.set i o.handle) := by
      by_cases hp : hd.pc = .listen
      · exact released_set hr fun hg hno => (hno ((hk hd hi hp).2 hg)).elim
      · exact released_set_same hi hr (fun hf => (hl hf).resolve_left hp) id
    exact end_settles hset (.inr (released_mono hset' (fun h => .inl (hz ▸ h)) id))

theorem abandoned_step (hr : s.AbandonTold) (h : Step hash s a t) : t.AbandonTold := by
  cases a with
  | callSender i call =>
    obtain ⟨hd, hi, hp, rfl⟩ := step_callSender h
    cases call with
    | clone => exact released_append hr _
    | _ => exact released_set_same hi hr id (by simp [hp, SenderPC.rechecks])
  | callReceiver i call =>
    obtain ⟨hd, hi, hp, rfl⟩ := step_callReceiver h
    cases call with
    | clone => intro hz; simp [State.callReceiver] at hz
    | _ =>
      refine released_mono hr .inl fun ho => owes_set ho hi ?_
      simp [hp, ReceiverPC.owesSenders]
  | sender i woken =>
    obtain ⟨hd, o, hi, ho, hset⟩ := step_sender h
    obtain ⟨hz, hl⟩ := senderStep_abandoned ho
    refine abandon_settles hset (.inr ?_)
    refine released_mono (released_set hr fun hg hno hf => ?_) (fun h => .inl (hz ▸ h)) id
    rcases hr hg with h | hall
    · exact (hno h).elim
    · exact hl hg (hall hd (List.mem_of_getElem? hi)) hf
  | receiver i woken =>
    obtain ⟨hd, o, hi, ho, hset⟩ := step_receiver h
    obtain ⟨hz, how⟩ := receiverStep_abandoned ho
    refine abandon_settles hset ?_
    by_cases hw : hd.pc.owesSenders = true
    · exact .inl (how hw)
    · refine .inr (released_mono hr (fun hne => ?_) fun ho => owes_set ho hi fun h => (hw h).elim)
      exact (hz hne).imp_right (owes_set_self hi)

/-! ### Whole runs -/

theorem wakes_init : Wakes (init limit unique : State α) where
  counts := counts_init
  growth := ⟨by rintro ⟨⟩, by simp [init, Handle.fresh, ReceiverPC.Sound]⟩
  straySenders := by simp [NoStray, init, Handle.fresh]
  strayReceivers := by simp [NoStray, init, Handle.fresh]
  items := fun h => (h rfl).elim
  room := fun _ => .inr (.inl ⟨.fresh .idle, by simp [init], .inr ⟨rfl, rfl⟩⟩)
  ended := by rintro ⟨⟩
  abandoned := by rintro ⟨⟩

theorem wakes_step (hw : Wakes s) (h : Guarded KeepsAwake (Step hash) s a t) : Wakes t where
  counts := counts_step hw.counts h.2
  growth := growth_step hw.growth h.2
  straySenders := straySenders_step hw.straySenders h.2
  strayReceivers := strayReceivers_step hw.strayReceivers h.2
  items := items_step hw.items h.1 h.2
  room := room_step hw.growth hw.room h.1 h.2
  ended := ended_step hw.ended h.1 h.2
  abandoned := abandoned_step hw.abandoned h.2

theorem Quiescent.not_owes_sender (hq : Quiescent s) {p : SenderPC α → Bool}
    (hidle : p .idle = false) (hdropped : p .dropped = false) : ¬ Owes p s.senders := by
  rintro ⟨h, hm, hp⟩
  rcases hq.senders h hm with hpc | hpc <;> simp_all

theorem Quiescent.not_owes_receiver (hq : Quiescent s) {p : ReceiverPC α → Bool}
    (hidle : p .idle = false) (hdropped : p .dropped = false) : ¬ Owes p s.receivers := by
  rintro ⟨h, hm, hp⟩
  rcases hq.receivers h hm with hpc | hpc <;> simp_all

/-- Between operations, what `Wakes` keeps rules every lost wakeup out. -/
theorem wakes_quiescent (hw : Wakes s) (hq : Quiescent s) : ¬ LostWakeup s := by
  rintro (⟨hne, hex, hall⟩ | ⟨hz, h, hm, -, -, hl⟩ | ⟨hlt, hex, hall⟩ | ⟨hz, h, hm, hlive, -, hl⟩)
  · obtain ⟨h, hm, hlive, hl⟩ := covered_unparked hw.items hne (hq.not_owes_sender rfl rfl)
      (fun h hm hdead => hw.strayReceivers h hm
        ((hq.receivers h hm).resolve_left fun hp => by simp [hp, ReceiverPC.live] at hdead)) hex
    exact hl (hall h hm hlive).2
  · rcases hw.ended hz with ho | hall
    · exact hq.not_owes_sender rfl rfl ho
    · exact Bool.false_ne_true (hall h hm hl)
  · obtain ⟨h, hm, hlive, hl⟩ := covered_unparked hw.room hlt (hq.not_owes_receiver rfl rfl)
      (fun h hm hdead => hw.straySenders h hm
        ((hq.senders h hm).resolve_left fun hp => by simp [hp, SenderPC.live] at hdead)) hex
    exact hl (hall h hm hlive).2
  · rcases hw.abandoned hz with ho | hall
    · exact hq.not_owes_receiver rfl rfl ho
    · have := hall h hm hl
      rcases hq.senders h hm with hp | hp <;> simp [hp, SenderPC.rechecks] at this

/-- Along runs whose steps keep somebody awake, no wakeup is lost. -/
theorem no_lostWakeup (hrun : Run (Guarded KeepsAwake (Step hash)) (init limit unique) as s)
    (hq : Quiescent s) : ¬ LostWakeup s :=
  wakes_quiescent (hrun.invariant Wakes (fun _ _ _ => wakes_step) wakes_init) hq

/-- A parked receiver is notified of the item of a later send. -/
def awakeTrace : List (Act Nat) :=
  [.callReceiver 0 .pollNext, .receiver 0 [], .receiver 0 [], .receiver 0 [], .receiver 0 [],
   .callSender 0 (.startSend 7), .sender 0 [], .sender 0 [0]]

theorem no_lostWakeup_awakeTrace : ∃ s : State Nat,
    Run (Guarded KeepsAwake (Step id)) (init (.statik 5) false) awakeTrace s ∧ ¬ LostWakeup s := by
  obtain ⟨s, hrun, hq⟩ := guarded_run_of_exec KeepsAwake (next id) _ _ (fun s => Quiescent s)
    (show (exec _ (init (.statik 5) false) awakeTrace).map _ = some true by decide)
  exact ⟨s, hrun, no_lostWakeup hrun (by simpa using hq)⟩

/-- A receiver pops from the empty queue and loads the sender count; a sender pushes and
notifies while no listener is registered; the receiver listens and parks. -/
def lostWakeupTrace : List (Act Nat) :=
  [.callReceiver 0 .pollNext, .receiver 0 [], .receiver 0 [], .callSender 0 (.startSend 7),
   .sender 0 [], .sender 0 [], .receiver 0 [], .receiver 0 []]

theorem not_noLostWakeup : ¬ NoLostWakeup (α := Nat) id (.statik 5) false := by
  intro hall
  obtain ⟨s, hrun, hp⟩ := run_of_exec_map (next id) _ _ (fun s => Quiescent s ∧ LostWakeup s)
    (show (exec _ (init (.statik 5) false) lostWakeupTrace).map _ = some true by decide)
  simp only [decide_eq_true_eq] at hp
  exact hall s ⟨_, hrun⟩ hp.1 hp.2

end Pewpew.ProviderChannel
