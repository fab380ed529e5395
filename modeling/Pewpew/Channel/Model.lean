import Pewpew.Library.EventListener
import Pewpew.Library.Transition
import Mathlib.Data.Finset.Basic

/-! The provider channel of `lib/channel`, with one transition for each atomic operation. -/
namespace Pewpew.ProviderChannel

open EventListener

/-- `Limit`: the soft limit of a channel. -/
inductive Limit where
  | dynamic (n : Nat)
  | statik (n : Nat)
  deriving DecidableEq, Repr

def Limit.get : Limit → Nat
  | .dynamic n => n
  | .statik n => n

/-- The memory that `Sender`s and `Receiver`s share. `unique` holds the hashes of the
queued items. `pushed` and `popped` record what went through the queue: nothing reads them. -/
structure Channel (α : Type) where
  hasMaxed : Bool
  limit : Limit
  queue : List α
  receiverCount : Nat
  senderCount : Nat
  unique : Option (Finset Nat)
  pushed : List α
  popped : List α

def Channel.new {α : Type} (limit : Limit) (unique : Bool) : Channel α where
  hasMaxed := false
  limit := limit
  queue := []
  receiverCount := 1
  senderCount := 1
  unique := if unique then some ∅ else none
  pushed := []
  popped := []

/-- What a finished call answers: `poll_ready`, `try_send` and `start_send` of a sender,
`poll_next` of a receiver. -/
inductive Ret (α : Type) where
  | pending
  | readyOk
  | readyClosed
  | success
  | closed (item : α)
  | full (item : α)
  | item (item : α)
  | ended
  deriving DecidableEq, Repr

/-- The next atomic operation of a `Sender`. -/
inductive SenderPC (α : Type) where
  | idle
  | readyReceivers
  | readyPoll
  | readyLen
  | readyLimit (len : Nat)
  | readyListen
  | tryReceivers (item : α)
  | tryLen (item : α)
  | tryLimit (item : α) (len : Nat)
  | tryReceiversAgain (item : α)
  | sendInsert (item : α)
  | sendPush (item : α)
  | sendNotify
  | dropDecrement
  | dropNotifyAll
  | dropListener
  | dropped
  deriving DecidableEq, Repr

/-- The next atomic operation of a `Receiver`. -/
inductive ReceiverPC (α : Type) where
  | idle
  | nextPoll
  | pop
  | remove (item : α)
  | len (item : α)
  | limit (item : α) (len : Nat)
  | exchangeMaxed (item : α) (len limit : Nat)
  | growLimit (item : α) (len limit : Nat)
  | storeMaxed (item : α) (len limit : Nat)
  | notifySender (item : α)
  | senderCount
  | listen
  | dropDecrement
  | dropNotifyAll
  | dropListener
  | dropped
  deriving DecidableEq, Repr

/-- The event an atomic operation notifies. -/
inductive Effect where
  | quiet
  | notifyReceivers (w : Wake)
  | notifySenders (w : Wake)
  deriving DecidableEq, Repr

/-- The result of one atomic operation of a handle. -/
structure Outcome (α PC : Type) where
  channel : Channel α
  handle : Handle PC
  effect : Effect := .quiet
  ret : Option (Ret α) := none

variable {α : Type}

/-- `Channel::send`: a unique channel first inserts the hash. -/
def Channel.send (c : Channel α) (item : α) : SenderPC α :=
  if c.unique.isSome then .sendInsert item else .sendPush item

/-- Dropping a notified listener passes its notification on. -/
def passOn (listener : Option Bool) (e : Effect) : Effect :=
  if listener = some true then e else .quiet

/-- One atomic operation of `Sender::poll_ready`, `Sender::try_send`, `Channel::send` or
`Sender::drop`. -/
def senderStep (hash : α → Nat) (c : Channel α) (h : Handle (SenderPC α)) :
    Option (Outcome α (SenderPC α)) :=
  match h.pc with
  | .idle | .dropped => none
  | .readyReceivers =>
    if c.receiverCount = 0 then
      some { channel := c, handle := ⟨.idle, none, false⟩,
             effect := passOn h.listener (.notifySenders .one), ret := some .readyClosed }
    else if h.listener.isSome then some { channel := c, handle := h.at .readyPoll }
    else some { channel := c, handle := h.at .readyLen }
  | .readyPoll =>
    if h.listener = some true then
      some { channel := c, handle := { h with pc := .readyLen, listener := none } }
    else
      some { channel := c, handle := { h with pc := .idle, pending := true },
             ret := some .pending }
  | .readyLen => some { channel := c, handle := h.at (.readyLimit c.queue.length) }
  | .readyLimit len =>
    if len < c.limit.get then
      some { channel := c, handle := ⟨.idle, none, false⟩, ret := some .readyOk }
    else some { channel := c, handle := h.at .readyListen }
  | .readyListen =>
    some { channel := c, handle := { h with pc := .readyReceivers, listener := some false } }
  | .tryReceivers item =>
    if c.receiverCount = 0 then
      some { channel := c, handle := h.at .idle, ret := some (.closed item) }
    else some { channel := c, handle := h.at (.tryLen item) }
  | .tryLen item => some { channel := c, handle := h.at (.tryLimit item c.queue.length) }
  | .tryLimit item len =>
    if len < c.limit.get then some { channel := c, handle := h.at (c.send item) }
    else some { channel := c, handle := h.at (.tryReceiversAgain item) }
  | .tryReceiversAgain item =>
    if c.receiverCount = 0 then
      some { channel := c, handle := h.at .idle, ret := some (.closed item) }
    else some { channel := c, handle := h.at .idle, ret := some (.full item) }
  | .sendInsert item =>
    match c.unique with
    | none => some { channel := c, handle := h.at (.sendPush item) }
    | some set =>
      if hash item ∈ set then
        some { channel := c, handle := h.at .idle, ret := some .success }
      else
        some { channel := { c with unique := some (insert (hash item) set) },
               handle := h.at (.sendPush item) }
  | .sendPush item =>
    some { channel := { c with queue := c.queue ++ [item], pushed := c.pushed ++ [item] },
           handle := h.at .sendNotify }
  | .sendNotify =>
    some { channel := c, handle := h.at .idle,
           effect := .notifyReceivers .one, ret := some .success }
  | .dropDecrement =>
    some { channel := { c with senderCount := c.senderCount - 1 },
           handle := h.at (if c.senderCount - 1 = 0 then .dropNotifyAll else .dropListener) }
  | .dropNotifyAll =>
    some { channel := c, handle := h.at .dropListener, effect := .notifyReceivers .all }
  | .dropListener =>
    some { channel := c, handle := ⟨.dropped, none, false⟩,
           effect := passOn h.listener (.notifySenders .one) }

/-- `Channel::recv` once the flag `has_maxed` is settled: notify a sender when the length it
loaded is below the limit it loaded. -/
def afterMaxed (c : Channel α) (h : Handle (ReceiverPC α)) (item : α) (len limit : Nat) :
    Outcome α (ReceiverPC α) :=
  if len < limit then { channel := c, handle := h.at (.notifySender item) }
  else { channel := c, handle := ⟨.idle, none, false⟩, ret := some (.item item) }

/-- One atomic operation of `Receiver::poll_next`, `Channel::recv` or `Receiver::drop`. -/
def receiverStep (hash : α → Nat) (c : Channel α) (h : Handle (ReceiverPC α)) :
    Option (Outcome α (ReceiverPC α)) :=
  match h.pc with
  | .idle | .dropped => none
  | .nextPoll =>
    if h.listener = some true then
      some { channel := c, handle := { h with pc := .pop, listener := none } }
    else
      some { channel := c, handle := { h with pc := .idle, pending := true },
             ret := some .pending }
  | .pop =>
    match c.queue with
    | [] => some { channel := c, handle := h.at .senderCount }
    | item :: rest =>
      some { channel := { c with queue := rest, popped := c.popped ++ [item] },
             handle := h.at (if c.unique.isSome then .remove item else .len item) }
  | .remove item =>
    some { channel := { c with unique := c.unique.map fun set => set.erase (hash item) },
           handle := h.at (.len item) }
  | .len item => some { channel := c, handle := h.at (.limit item c.queue.length) }
  | .limit item len =>
    if len = 0 then
      match c.limit with
      | .dynamic n => some { channel := c, handle := h.at (.exchangeMaxed item len n) }
      | .statik n => some (afterMaxed c h item len n)
    else if c.limit.get = len + 1 then
      some { channel := c, handle := h.at (.storeMaxed item len c.limit.get) }
    else some (afterMaxed c h item len c.limit.get)
  | .exchangeMaxed item len limit =>
    if c.hasMaxed then
      some { channel := { c with hasMaxed := false }, handle := h.at (.growLimit item len limit) }
    else some (afterMaxed c h item len limit)
  | .growLimit item len limit =>
    match c.limit with
    | .dynamic n => some (afterMaxed { c with limit := .dynamic (n + 1) } h item len limit)
    | .statik _ => some (afterMaxed c h item len limit)
  | .storeMaxed item len limit =>
    some (afterMaxed { c with hasMaxed := true } h item len limit)
  | .notifySender item =>
    some { channel := c, handle := ⟨.idle, none, false⟩,
           effect := .notifySenders .one, ret := some (.item item) }
  | .senderCount =>
    if c.senderCount = 0 then
      some { channel := c, handle := ⟨.idle, none, false⟩, ret := some .ended }
    else some { channel := c, handle := h.at .listen }
  | .listen =>
    some { channel := c, handle := { h with pc := .nextPoll, listener := some false } }
  | .dropDecrement =>
    some { channel := { c with receiverCount := c.receiverCount - 1 },
           handle := h.at (if c.receiverCount - 1 = 0 then .dropNotifyAll else .dropListener) }
  | .dropNotifyAll =>
    some { channel := c, handle := h.at .dropListener, effect := .notifySenders .all }
  | .dropListener =>
    some { channel := c, handle := ⟨.dropped, none, false⟩,
           effect := passOn h.listener (.notifyReceivers .one) }

/-- The calls on a `Sender`. -/
inductive SenderCall (α : Type) where
  | pollReady
  | startSend (item : α)
  | trySend (item : α)
  | clone
  | drop
  deriving DecidableEq, Repr

/-- The calls on a `Receiver`. -/
inductive ReceiverCall where
  | pollNext
  | clone
  | drop
  deriving DecidableEq, Repr

/-- Every `Sender` and `Receiver` ever created, the dropped ones included. -/
structure State (α : Type) where
  channel : Channel α
  senders : List (Handle (SenderPC α))
  receivers : List (Handle (ReceiverPC α))

/-- A handle begins a call or takes its next atomic operation. `woken` names the listeners
that a `notify` among the operations marks. -/
inductive Act (α : Type) where
  | callSender (i : Nat) (call : SenderCall α)
  | callReceiver (i : Nat) (call : ReceiverCall)
  | sender (i : Nat) (woken : List Nat)
  | receiver (i : Nat) (woken : List Nat)
  deriving DecidableEq, Repr

/-- `channel`: one sender and one receiver. -/
def init (limit : Limit) (unique : Bool) : State α where
  channel := .new limit unique
  senders := [.fresh .idle]
  receivers := [.fresh .idle]

def State.apply (s : State α) (woken : List Nat) : Effect → Option (State α)
  | .quiet => some s
  | .notifyReceivers w => (notify w woken s.receivers).map fun rs => { s with receivers := rs }
  | .notifySenders w => (notify w woken s.senders).map fun ss => { s with senders := ss }

def State.callSender (s : State α) (i : Nat) (h : Handle (SenderPC α)) :
    SenderCall α → State α
  | .pollReady => { s with senders := s.senders.set i (h.at .readyReceivers) }
  | .startSend item => { s with senders := s.senders.set i (h.at (s.channel.send item)) }
  | .trySend item => { s with senders := s.senders.set i (h.at (.tryReceivers item)) }
  | .clone =>
    { s with channel := { s.channel with senderCount := s.channel.senderCount + 1 },
             senders := s.senders ++ [.fresh .idle] }
  | .drop => { s with senders := s.senders.set i (h.at .dropDecrement) }

def State.callReceiver (s : State α) (i : Nat) (h : Handle (ReceiverPC α)) :
    ReceiverCall → State α
  | .pollNext =>
    { s with receivers := s.receivers.set i (h.at (if h.listener.isSome then .nextPoll else .pop)) }
  | .clone =>
    { s with channel := { s.channel with receiverCount := s.channel.receiverCount + 1 },
             receivers := s.receivers ++ [.fresh .idle] }
  | .drop => { s with receivers := s.receivers.set i (h.at .dropDecrement) }

def State.senderOutcome (hash : α → Nat) (s : State α) (i : Nat) :
    Option (Outcome α (SenderPC α)) :=
  s.senders[i]?.bind (senderStep hash s.channel)

def State.receiverOutcome (hash : α → Nat) (s : State α) (i : Nat) :
    Option (Outcome α (ReceiverPC α)) :=
  s.receivers[i]?.bind (receiverStep hash s.channel)

def isIdleSender (h : Handle (SenderPC α)) : Bool :=
  match h.pc with
  | .idle => true
  | _ => false

def isIdleReceiver (h : Handle (ReceiverPC α)) : Bool :=
  match h.pc with
  | .idle => true
  | _ => false

/-- One step of the whole channel; `none` where the action is not enabled. -/
def next (hash : α → Nat) (s : State α) : Act α → Option (State α)
  | .callSender i call =>
    (s.senders[i]?.filter isIdleSender).map fun h => s.callSender i h call
  | .callReceiver i call =>
    (s.receivers[i]?.filter isIdleReceiver).map fun h => s.callReceiver i h call
  | .sender i woken =>
    (s.senderOutcome hash i).bind fun o =>
      State.apply { s with channel := o.channel, senders := s.senders.set i o.handle } woken
        o.effect
  | .receiver i woken =>
    (s.receiverOutcome hash i).bind fun o =>
      State.apply { s with channel := o.channel, receivers := s.receivers.set i o.handle }
        woken o.effect

/-- What the call that ends with this action answers. -/
def returned (hash : α → Nat) (s : State α) : Act α → Option (Ret α)
  | .callSender _ _ | .callReceiver _ _ => none
  | .sender i _ => (s.senderOutcome hash i).bind (·.ret)
  | .receiver i _ => (s.receiverOutcome hash i).bind (·.ret)

/-- The step relation of the channel. -/
def Step (hash : α → Nat) (s : State α) (a : Act α) (t : State α) : Prop :=
  next hash s a = some t

/-- The states that any interleaving of any number of clones reaches. -/
def Reachable (hash : α → Nat) (limit : Limit) (unique : Bool) (s : State α) : Prop :=
  ∃ as, Transition.Run (Step hash) (init limit unique) as s

end Pewpew.ProviderChannel
