import Pewpew.Channel.Frame
import Mathlib.Algebra.Order.Group.Multiset
import Mathlib.Data.Finset.Dedup
import Mathlib.Tactic.Abel

/-! A unique channel: the set has the hashes of the queued values and of those on their way. -/
namespace Pewpew.ProviderChannel

open EventListener Transition

variable {α : Type} {hash : α → Nat} {s t : State α} {limit : Limit} {a : Act α}

/-- The hash that a sender has inserted for a value that it has not pushed yet. -/
def SenderPC.holds (hash : α → Nat) : SenderPC α → Multiset Nat
  | .sendPush item => {hash item}
  | _ => 0

/-- The hash that a receiver has yet to remove for a value that it has popped. -/
def ReceiverPC.holds (hash : α → Nat) : ReceiverPC α → Multiset Nat
  | .remove item => {hash item}
  | _ => 0

/-- The hashes of the queued values. -/
def Channel.hashes (hash : α → Nat) (c : Channel α) : Multiset Nat := (c.queue.map hash : List Nat)

/-- The hashes of all values between their insertion and their removal. -/
def State.held (hash : α → Nat) (s : State α) : Multiset Nat :=
  total (SenderPC.holds hash) s.senders + s.channel.hashes hash +
    total (ReceiverPC.holds hash) s.receivers

/-- The values between insertion and removal differ, and the set has their hashes and no others. -/
structure Unique (hash : α → Nat) (s : State α) : Prop where
  nodup : (s.held hash).Nodup
  set : s.channel.unique = some (s.held hash).toFinset

section Steps

variable {c : Channel α} {set : Finset Nat}

/-- An operation of a sender moves a hash along, or adds one that was not in the set. -/
theorem senderStep_held {h : Handle (SenderPC α)} {o : Outcome α (SenderPC α)}
    (hu : c.unique = some set) (hs : senderStep hash c h = some o) :
    (o.channel.unique = some set ∧
      o.channel.hashes hash + o.handle.pc.holds hash = c.hashes hash + h.pc.holds hash) ∨
    ∃ k ∉ set, o.channel.unique = some (insert k set) ∧
      o.channel.hashes hash + o.handle.pc.holds hash = c.hashes hash + h.pc.holds hash + {k} := by
  cases hp : h.pc with
  | sendInsert item =>
    simp only [senderStep, hp, hu] at hs
    split at hs
    · cases hs
      exact .inl ⟨hu, rfl⟩
    · next hk =>
      cases hs
      exact .inr ⟨hash item, hk, rfl, by simp [Channel.hashes, SenderPC.holds]⟩
  | sendPush item =>
    simp only [senderStep, hp] at hs
    cases hs
    refine .inl ⟨hu, ?_⟩
    simp [Channel.hashes, SenderPC.holds, ← Multiset.coe_add]
  | _ =>
    simp only [senderStep, hp] at hs
    repeat' split at hs
    all_goals cases hs
    all_goals exact .inl ⟨hu, by simp [Channel.hashes, SenderPC.holds, Channel.send, hu]⟩

/-- An operation of a receiver moves a hash along, or removes one from the set. -/
theorem receiverStep_held {h : Handle (ReceiverPC α)} {o : Outcome α (ReceiverPC α)}
    (hu : c.unique = some set) (hs : receiverStep hash c h = some o) :
    (o.channel.unique = some set ∧
      o.channel.hashes hash + o.handle.pc.holds hash = c.hashes hash + h.pc.holds hash) ∨
    ∃ k, o.channel.unique = some (set.erase k) ∧
      o.channel.hashes hash + o.handle.pc.holds hash + {k} = c.hashes hash + h.pc.holds hash := by
  cases hp : h.pc with
  | remove item =>
    simp only [receiverStep, hp] at hs
    cases hs
    exact .inr ⟨hash item, by simp [hu], by simp [Channel.hashes, ReceiverPC.holds]⟩
  | pop =>
    simp only [receiverStep, hp] at hs
    split at hs
    · cases hs
      exact .inl ⟨hu, rfl⟩
    · next item rest hq =>
      cases hs
      refine .inl ⟨hu, ?_⟩
      simp only [Channel.hashes, ReceiverPC.holds, hq, hu, List.map_cons, Handle.at_pc,
        Option.isSome_some, if_true, add_zero]
      rw [add_comm, Multiset.singleton_add, Multiset.cons_coe]
  | _ =>
    simp only [receiverStep, hp, afterMaxed] at hs
    repeat' split at hs
    all_goals cases hs
    all_goals exact .inl ⟨hu, by simp [Channel.hashes, ReceiverPC.holds]⟩

end Steps

theorem unique_init : Unique hash (init limit true : State α) := by
  have hh : (init limit true : State α).held hash = 0 := rfl
  exact ⟨by rw [hh]; exact Multiset.nodup_zero, by rw [hh]; rfl⟩

theorem held_settles {e : Effect} (h : Settles s e t) : t.held hash = s.held hash := by
  rw [State.held, State.held, h.channel, h.senders.total, h.receivers.total]

/-- A hash that was not in the set joins it. -/
theorem Unique.add (hu : Unique hash s) {k : Nat} (hk : k ∉ (s.held hash).toFinset)
    (ht : t.held hash = s.held hash + {k})
    (hs : t.channel.unique = some (insert k (s.held hash).toFinset)) : Unique hash t := by
  rw [Multiset.mem_toFinset] at hk
  rw [add_comm, Multiset.singleton_add] at ht
  constructor
  · rw [ht]
    exact Multiset.nodup_cons.mpr ⟨hk, hu.nodup⟩
  · rw [hs, ht, Multiset.toFinset_cons]

/-- A hash leaves the set. -/
theorem Unique.remove (hu : Unique hash s) {k : Nat} (ht : t.held hash + {k} = s.held hash)
    (hs : t.channel.unique = some ((s.held hash).toFinset.erase k)) : Unique hash t := by
  rw [add_comm, Multiset.singleton_add] at ht
  have hn := hu.nodup
  rw [← ht] at hn
  obtain ⟨hk, hn⟩ := Multiset.nodup_cons.mp hn
  refine ⟨hn, ?_⟩
  rw [hs, ← ht, Multiset.toFinset_cons, Finset.erase_insert (by simpa using hk)]

theorem Unique.of_eq (hu : Unique hash s) (ht : t.held hash = s.held hash)
    (hs : t.channel.unique = s.channel.unique) : Unique hash t :=
  ⟨ht ▸ hu.nodup, by rw [hs, ht, hu.set]⟩

/-- One handle takes over from itself what it does not give to the queue. -/
theorem moved {T T' a a' b b' k : Multiset Nat} (h : T' + a = T + a') (h' : b' + a' = b + a + k) :
    T' + b' = T + b + k := by
  apply add_right_cancel (b := a + a')
  calc T' + b' + (a + a') = T' + a + (b' + a') := by abel
    _ = T + a' + (b + a + k) := by rw [h, h']
    _ = T + b + k + (a + a') := by abel

theorem holds_send {c : Channel α} {set : Finset Nat} (hu : c.unique = some set) (item : α) :
    (c.send item).holds hash = 0 := by
  rw [Channel.send, hu]
  rfl

theorem unique_callSender {i : Nat} {hd : Handle (SenderPC α)} (hu : Unique hash s)
    (hi : s.senders[i]? = some hd) (hp : hd.pc = .idle) (call : SenderCall α) :
    Unique hash (s.callSender i hd call) := by
  have hset (pc : SenderPC α) (hpc : pc.holds hash = 0) :
      total (SenderPC.holds hash) (s.senders.set i (hd.at pc)) =
        total (SenderPC.holds hash) s.senders :=
    total_set_zero hi (by rw [hp]; rfl) hpc
  cases call with
  | clone =>
    refine hu.of_eq ?_ rfl
    have hfresh : total (SenderPC.holds hash) (s.senders ++ [.fresh .idle]) =
        total (SenderPC.holds hash) s.senders := total_fresh rfl
    simp only [State.held, State.callSender, hfresh]
    rfl
  | pollReady =>
    exact hu.of_eq (by simp only [State.held, State.callSender, hset .readyReceivers rfl]) rfl
  | startSend item =>
    have hsend := hset _ (holds_send hu.set item)
    exact hu.of_eq (by simp only [State.held, State.callSender, hsend]) rfl
  | trySend item =>
    exact hu.of_eq (by simp only [State.held, State.callSender, hset (.tryReceivers item) rfl]) rfl
  | drop =>
    exact hu.of_eq (by simp only [State.held, State.callSender, hset .dropDecrement rfl]) rfl

theorem unique_callReceiver {i : Nat} {hd : Handle (ReceiverPC α)} (hu : Unique hash s)
    (hi : s.receivers[i]? = some hd) (hp : hd.pc = .idle) (call : ReceiverCall) :
    Unique hash (s.callReceiver i hd call) := by
  have hset (pc : ReceiverPC α) (hpc : pc.holds hash = 0) :
      total (ReceiverPC.holds hash) (s.receivers.set i (hd.at pc)) =
        total (ReceiverPC.holds hash) s.receivers :=
    total_set_zero hi (by rw [hp]; rfl) hpc
  cases call with
  | clone =>
    refine hu.of_eq ?_ rfl
    have hfresh : total (ReceiverPC.holds hash) (s.receivers ++ [.fresh .idle]) =
        total (ReceiverPC.holds hash) s.receivers := total_fresh rfl
    simp only [State.held, State.callReceiver, hfresh]
    rfl
  | pollNext =>
    have hpoll : (if hd.listener.isSome then ReceiverPC.nextPoll else .pop).holds hash = 0 := by
      split <;> rfl
    exact hu.of_eq (by simp only [State.held, State.callReceiver, hset _ hpoll]) rfl
  | drop =>
    exact hu.of_eq (by simp only [State.held, State.callReceiver, hset .dropDecrement rfl]) rfl

theorem unique_step (hu : Unique hash s) (h : Step hash s a t) : Unique hash t := by
  cases a with
  | callSender i call =>
    obtain ⟨hd, hi, hp, rfl⟩ := step_callSender h
    exact unique_callSender hu hi hp call
  | callReceiver i call =>
    obtain ⟨hd, hi, hp, rfl⟩ := step_callReceiver h
    exact unique_callReceiver hu hi hp call
  | sender i woken =>
    obtain ⟨hd, o, hi, ho, hset⟩ := step_sender h
    have ht := total_set (f := SenderPC.holds hash) hi o.handle
    rcases senderStep_held hu.set ho with ⟨hs, hh⟩ | ⟨k, hk, hs, hh⟩
    · have hm := moved ht (hh.trans (add_zero _).symm)
      refine hu.of_eq ((held_settles hset).trans ?_) (by rw [hset.channel, hu.set]; exact hs)
      simp only [State.held, State.sent, hm, add_zero]
    · have hm := moved ht hh
      refine hu.add hk ((held_settles hset).trans ?_) (by rw [hset.channel]; exact hs)
      simp only [State.held, State.sent, hm]
      abel
  | receiver i woken =>
    obtain ⟨hd, o, hi, ho, hset⟩ := step_receiver h
    have ht := total_set (f := ReceiverPC.holds hash) hi o.handle
    rcases receiverStep_held hu.set ho with ⟨hs, hh⟩ | ⟨k, hs, hh⟩
    · have hm := moved ht (hh.trans (add_zero _).symm)
      refine hu.of_eq ((held_settles hset).trans ?_) (by rw [hset.channel, hu.set]; exact hs)
      rw [add_zero, add_comm, add_comm _ (s.channel.hashes hash)] at hm
      simp only [State.held, State.received, add_assoc, hm]
    · have hm := moved ht.symm hh.symm
      refine hu.remove ?_ (by rw [hset.channel]; exact hs)
      rw [held_settles hset]
      simp only [State.held, State.received]
      rw [add_assoc, add_assoc, add_assoc, add_comm (s.channel.hashes hash), hm]
      abel

/-- In every state that a unique channel reaches, the queued values differ, also in their hashes,
and the set has the hash of each. -/
theorem unique_queue (h : Reachable hash limit true s) :
    s.channel.queue.Nodup ∧ (s.channel.queue.map hash).Nodup ∧
      ∃ set, s.channel.unique = some set ∧ ∀ item ∈ s.channel.queue, hash item ∈ set := by
  obtain ⟨as, hrun⟩ := h
  have hu := hrun.invariant (Unique hash) (fun _ _ _ => unique_step) unique_init
  have hle : s.channel.hashes hash ≤ s.held hash := by
    rw [State.held, add_right_comm]
    exact Multiset.le_add_left _ _
  have hn : (s.channel.queue.map hash).Nodup :=
    Multiset.coe_nodup.mp (Multiset.nodup_of_le hle hu.nodup)
  refine ⟨hn.of_map hash, hn, _, hu.set, fun item hm => ?_⟩
  rw [Multiset.mem_toFinset]
  exact Multiset.mem_of_le hle (Multiset.mem_coe.mpr (List.mem_map_of_mem hm))

/-- A sender and its clone send one value: the second insertion is refused. -/
def uniqueTrace : List (Act Nat) :=
  [.callSender 0 .clone, .callSender 0 (.startSend 7), .callSender 1 (.startSend 7), .sender 0 [],
    .sender 1 [], .sender 0 []]

theorem unique_queue_uniqueTrace : ∃ s : State Nat, s.channel.queue = [7] ∧
    s.channel.queue.Nodup ∧ (s.channel.queue.map id).Nodup ∧
      ∃ set, s.channel.unique = some set ∧ ∀ item ∈ s.channel.queue, id item ∈ set := by
  obtain ⟨s, hrun, hq⟩ := run_of_exec_map (next id) (init (.statik 5) true) uniqueTrace
    (fun s => s.channel.queue = [7]) (by decide)
  exact ⟨s, by simpa using hq, unique_queue ⟨uniqueTrace, hrun⟩⟩

end Pewpew.ProviderChannel
