import Pewpew.Channel.Unique
import Mathlib.Data.Set.Function

/-! What a unique channel discards. The hash of a popped value stays in the set until the receiver
removes it in an operation of its own, and a send in between is taken for a duplicate. -/
namespace Pewpew.ProviderChannel

open EventListener Transition

variable {α : Type} {hash : α → Nat} {s t u begun : State α} {limit : Limit} {a : Act α}
  {as : List (Act α)} {i r : Nat} {v : α} {V : Set α}

/-! ### The values on their way -/

/-- The value that a sender's call is about. -/
def SenderPC.item : SenderPC α → Option α
  | .tryReceivers v | .tryLen v | .tryLimit v _ | .tryReceiversAgain v | .sendInsert v
  | .sendPush v => some v
  | _ => none

/-- The value whose hash a receiver has yet to remove. -/
def ReceiverPC.removing : ReceiverPC α → Option α
  | .remove v => some v
  | _ => none

def SenderCall.item : SenderCall α → Option α
  | .startSend v | .trySend v => some v
  | _ => none

/-- The value that a call hands to the channel. -/
def Act.item : Act α → Option α
  | .callSender _ call => call.item
  | _ => none

/-- Every value given to the channel is one of `V`. -/
def Gives (V : Set α) (as : List (Act α)) : Prop := ∀ a ∈ as, ∀ v ∈ a.item, v ∈ V

/-- Every value on its way through the channel is one of `V`. -/
structure Carries (V : Set α) (s : State α) : Prop where
  queue : ∀ v ∈ s.channel.queue, v ∈ V
  senders : ∀ h ∈ s.senders, ∀ v ∈ h.pc.item, v ∈ V
  receivers : ∀ h ∈ s.receivers, ∀ v ∈ h.pc.removing, v ∈ V

theorem send_item (c : Channel α) (v : α) : (c.send v).item = some v := by
  unfold Channel.send
  split <;> rfl

/-- An operation of a sender makes no value up. -/
theorem senderStep_item {c : Channel α} {h : Handle (SenderPC α)} {o : Outcome α (SenderPC α)}
    (hs : senderStep hash c h = some o) :
    (∀ v ∈ o.handle.pc.item, v ∈ h.pc.item) ∧
      ∀ v ∈ o.channel.queue, v ∈ c.queue ∨ v ∈ h.pc.item := by
  cases hp : h.pc with
  | tryLimit item len =>
    simp only [senderStep, hp] at hs
    split at hs <;> cases hs
    · exact ⟨fun v hv => by rwa [Handle.at_pc, send_item] at hv, fun v hv => .inl hv⟩
    · exact ⟨fun v hv => hv, fun v hv => .inl hv⟩
  | sendPush item =>
    simp only [senderStep, hp] at hs
    cases hs
    refine ⟨by simp [SenderPC.item], fun v hv => (List.mem_append.mp hv).imp_right fun hv => ?_⟩
    rw [List.mem_singleton.mp hv]
    rfl
  | _ =>
    simp only [senderStep, hp] at hs
    repeat' split at hs
    all_goals cases hs
    all_goals exact ⟨by simp [SenderPC.item], fun v hv => .inl hv⟩

/-- An operation of a receiver makes no value up. -/
theorem receiverStep_removing {c : Channel α} {h : Handle (ReceiverPC α)}
    {o : Outcome α (ReceiverPC α)} (hs : receiverStep hash c h = some o) :
    (∀ v ∈ o.handle.pc.removing, v ∈ c.queue) ∧ ∀ v ∈ o.channel.queue, v ∈ c.queue := by
  cases hp : h.pc <;> simp only [receiverStep, hp, afterMaxed] at hs <;> (repeat' split at hs) <;>
    cases hs <;> simp_all [ReceiverPC.removing]

theorem carries_init : Carries V (init limit true : State α) := by
  constructor <;> simp [init, Channel.new, Handle.fresh, SenderPC.item, ReceiverPC.removing]

theorem carries_settles {e : Effect} (hc : Carries V s) (h : Settles s e t) : Carries V t where
  queue := by rw [h.channel]; exact hc.queue
  senders := h.senders.forall (fun _ _ hw hv => by rw [hw.pc]; exact hv) hc.senders
  receivers := h.receivers.forall (fun _ _ hw hv => by rw [hw.pc]; exact hv) hc.receivers

theorem carries_callSender {hd : Handle (SenderPC α)} (hc : Carries V s) (call : SenderCall α)
    (hV : ∀ v ∈ call.item, v ∈ V) : Carries V (s.callSender i hd call) := by
  cases call with
  | clone =>
    refine ⟨hc.queue, fun h hm => ?_, hc.receivers⟩
    rcases List.mem_append.mp hm with hm | hm
    · exact hc.senders h hm
    · rw [List.mem_singleton.mp hm]
      simp [Handle.fresh, SenderPC.item]
  | startSend v =>
    refine ⟨hc.queue, forall_set hc.senders ?_, hc.receivers⟩
    rw [Handle.at_pc, send_item]
    exact hV
  | trySend v => exact ⟨hc.queue, forall_set hc.senders hV, hc.receivers⟩
  | pollReady => exact ⟨hc.queue, forall_set hc.senders (by simp [SenderPC.item]), hc.receivers⟩
  | drop => exact ⟨hc.queue, forall_set hc.senders (by simp [SenderPC.item]), hc.receivers⟩

theorem carries_callReceiver {hd : Handle (ReceiverPC α)} (hc : Carries V s)
    (call : ReceiverCall) : Carries V (s.callReceiver i hd call) := by
  cases call with
  | clone =>
    refine ⟨hc.queue, hc.senders, fun h hm => ?_⟩
    rcases List.mem_append.mp hm with hm | hm
    · exact hc.receivers h hm
    · rw [List.mem_singleton.mp hm]
      simp [Handle.fresh, ReceiverPC.removing]
  | pollNext =>
    refine ⟨hc.queue, hc.senders, forall_set hc.receivers ?_⟩
    rw [Handle.at_pc]
    split <;> simp [ReceiverPC.removing]
  | drop =>
    exact ⟨hc.queue, hc.senders, forall_set hc.receivers (by simp [ReceiverPC.removing])⟩

theorem carries_step (hc : Carries V s) (hV : ∀ v ∈ a.item, v ∈ V) (h : Step hash s a t) :
    Carries V t := by
  cases a with
  | callSender i call =>
    obtain ⟨hd, -, -, rfl⟩ := step_callSender h
    exact carries_callSender hc call hV
  | callReceiver i call =>
    obtain ⟨hd, -, -, rfl⟩ := step_callReceiver h
    exact carries_callReceiver hc call
  | sender i woken =>
    obtain ⟨hd, o, hi, ho, hset⟩ := step_sender h
    obtain ⟨hitem, hqueue⟩ := senderStep_item ho
    have hold := hc.senders hd (List.mem_of_getElem? hi)
    have hsent : Carries V (s.sent i o) :=
      ⟨fun v hv => (hqueue v hv).elim (hc.queue v) (hold v),
        forall_set hc.senders fun v hv => hold v (hitem v hv), hc.receivers⟩
    exact carries_settles hsent hset
  | receiver i woken =>
    obtain ⟨hd, o, hi, ho, hset⟩ := step_receiver h
    obtain ⟨hitem, hqueue⟩ := receiverStep_removing ho
    have hreceived : Carries V (s.received i o) :=
      ⟨fun v hv => hc.queue v (hqueue v hv), hc.senders,
        forall_set hc.receivers fun v hv => hc.queue v (hitem v hv)⟩
    exact carries_settles hreceived hset

theorem carries_run (h : Run (Step hash) s as t) (hV : Gives V as) (hc : Carries V s) :
    Carries V t := by
  induction h with
  | refl => exact hc
  | stepL hs _ ih =>
    exact ih (fun b hb => hV b (List.mem_cons_of_mem _ hb))
      (carries_step hc (hV _ List.mem_cons_self) hs)

/-! ### A receiver between its pop and its removal -/

/-- The receiver has popped the value and has not yet removed its hash. -/
abbrev Removing (s : State α) (r : Nat) (v : α) : Prop := pcAt s.receivers r = some (.remove v)

/-- Nobody but the receiver itself ends the wait for its removal. -/
theorem removing_stays (h : Step hash s a t) (ha : ∀ woken, a ≠ .receiver r woken)
    (hr : Removing s r v) : Removing t r v := by
  cases a with
  | callSender i call =>
    obtain ⟨hd, -, -, rfl⟩ := step_callSender h
    cases call <;> exact hr
  | callReceiver i call =>
    obtain ⟨hd, hi, hidle, rfl⟩ := step_callReceiver h
    have hne : i ≠ r := by
      rintro rfl
      rw [Removing, pcAt_of_getElem hi, hidle] at hr
      cases hr
    cases call with
    | clone => exact pcAt_append hr
    | pollNext => exact (pcAt_set_ne hne).trans hr
    | drop => exact (pcAt_set_ne hne).trans hr
  | sender i woken =>
    obtain ⟨hd, o, hi, ho, hset⟩ := step_sender h
    exact (hset.receivers.pcAt r).trans hr
  | receiver i woken =>
    obtain ⟨hd, o, hi, ho, hset⟩ := step_receiver h
    have hne : i ≠ r := by
      rintro rfl
      exact ha woken rfl
    exact (hset.receivers.pcAt r).trans ((pcAt_set_ne hne).trans hr)

/-- A receiver that waits for its removal has waited already, or has just popped the value. -/
theorem removing_step (h : Step hash s a t) (hr : Removing t r v) :
    (Removing s r v ∧ ∀ woken, a ≠ .receiver r woken) ∨ v ∈ s.channel.queue := by
  cases a with
  | callSender i call =>
    obtain ⟨hd, -, -, rfl⟩ := step_callSender h
    cases call <;> exact .inl ⟨hr, by simp⟩
  | callReceiver i call =>
    obtain ⟨hd, hi, -, rfl⟩ := step_callReceiver h
    refine .inl ⟨?_, by simp⟩
    cases call with
    | clone => exact (pcAt_append_fresh hr).resolve_right (by simp)
    | pollNext =>
      by_cases hne : i = r
      · subst hne
        rw [Removing, State.callReceiver, pcAt_set_self hi, Handle.at_pc] at hr
        split at hr <;> cases hr
      · exact (pcAt_set_ne hne).symm.trans hr
    | drop =>
      by_cases hne : i = r
      · subst hne
        rw [Removing, State.callReceiver, pcAt_set_self hi] at hr
        cases hr
      · exact (pcAt_set_ne hne).symm.trans hr
  | sender i woken =>
    obtain ⟨hd, o, hi, ho, hset⟩ := step_sender h
    exact .inl ⟨(hset.receivers.pcAt r).symm.trans hr, by simp⟩
  | receiver i woken =>
    obtain ⟨hd, o, hi, ho, hset⟩ := step_receiver h
    have hr' := (hset.receivers.pcAt r).symm.trans hr
    by_cases hne : i = r
    · subst hne
      rw [State.received, pcAt_set_self hi] at hr'
      right
      refine (receiverStep_removing ho).1 v ?_
      rw [Option.some.inj hr']
      rfl
    · exact .inl ⟨(pcAt_set_ne hne).symm.trans hr', by rintro woken ⟨⟩; exact hne rfl⟩

/-- No operation of the receiver is among the actions. -/
def Rests (r : Nat) (as : List (Act α)) : Prop := ∀ woken, Act.receiver r woken ∉ as

theorem removing_run (h : Run (Step hash) s as t) (ha : Rests r as) (hr : Removing s r v) :
    Removing t r v := by
  induction h with
  | refl => exact hr
  | stepL hs _ ih =>
    refine ih (fun w hw => ha w (List.mem_cons_of_mem _ hw)) (removing_stays hs ?_ hr)
    rintro w rfl
    exact ha w List.mem_cons_self

/-- A receiver that waits for its removal has waited throughout the run, or the value was queued
in the run. -/
theorem removing_origin (h : Run (Step hash) s as t) (hr : Removing t r v) :
    (Removing s r v ∧ Rests r as) ∨
      ∃ pre post u, as = pre ++ post ∧ Run (Step hash) s pre u ∧ Run (Step hash) u post t ∧
        v ∈ u.channel.queue := by
  induction h with
  | refl => exact .inl ⟨hr, fun _ => List.not_mem_nil⟩
  | @stepL s m t a as hs hrun ih =>
    rcases ih hr with ⟨hm, hrest⟩ | ⟨pre, post, u, heq, hpre, hpost, hq⟩
    · rcases removing_step hs hm with ⟨hm, ha⟩ | hq
      · refine .inl ⟨hm, fun w hw => ?_⟩
        rcases List.mem_cons.mp hw with hw | hw
        · exact ha w hw.symm
        · exact hrest w hw
      · exact .inr ⟨[], a :: as, s, rfl, .refl s, .stepL hs hrun, hq⟩
    · exact .inr ⟨a :: pre, post, u, by rw [heq, List.cons_append], .stepL hs hpre, hpost, hq⟩

/-! ### The discarded value -/

/-- An equal value is in the queue, or another send is enqueuing one. -/
def Present (s : State α) (i : Nat) (v : α) : Prop :=
  v ∈ s.channel.queue ∨ ∃ j, j ≠ i ∧ pcAt s.senders j = some (.sendPush v)

/-- Sender `i` is in a call that sends `v`: it began the call in `begun`, and has not begun
another one on the way to `s`. -/
structure Sends (hash : α → Nat) (limit : Limit) (V : Set α) (i : Nat) (v : α) (begun : State α)
    (as : List (Act α)) (s : State α) : Prop where
  begins : ∃ cs s₀ call, Run (Step hash) (init limit true) cs s₀ ∧ Gives V cs ∧
    call ∈ [.startSend v, .trySend v] ∧ Step hash s₀ (.callSender i call) begun
  value : v ∈ V
  run : Run (Step hash) begun as s
  gives : Gives V as
  same : ∀ call, .callSender i call ∉ as

/-- The next operation of sender `i` finds the hash of `v` in the set, and ends the call. -/
def Discards (hash : α → Nat) (s : State α) (i : Nat) (v : α) : Prop :=
  pcAt s.senders i = some (.sendInsert v) ∧
    ∀ woken, returned hash s (.sender i woken) = some .success

theorem Discards.mem {set : Finset Nat} (h : Discards hash s i v)
    (hset : s.channel.unique = some set) : hash v ∈ set := by
  obtain ⟨hd, hi, hpc⟩ := Option.map_eq_some_iff.mp h.1
  have hret := h.2 []
  rw [returned, State.senderOutcome, hi, Option.bind_some, senderStep, hpc] at hret
  simp only [hset] at hret
  split at hret
  · assumption
  · cases hret

/-- The call that discards a value answers success and leaves the channel as it is. -/
theorem Discards.step {woken : List Nat} (hu : Unique hash s) (h : Discards hash s i v)
    (hs : Step hash s (.sender i woken) t) : t.channel = s.channel := by
  obtain ⟨hd, o, hi, ho, hset⟩ := step_sender hs
  have hpc := Option.some.inj ((pcAt_of_getElem hi).symm.trans h.1)
  simp only [senderStep, hpc, hu.set, if_pos (h.mem hu.set), Option.some.injEq] at ho
  subst ho
  exact hset.channel

theorem Sends.reached (h : Sends hash limit V i v begun as s) :
    (Unique hash begun ∧ Carries V begun) ∧ Unique hash s ∧ Carries V s := by
  obtain ⟨cs, s₀, call, hrun, hcs, hcall, hstep⟩ := h.begins
  have hu := hrun.invariant (Unique hash) (fun _ _ _ => unique_step) unique_init
  have hc := carries_run hrun hcs carries_init
  have hv : ∀ w ∈ (Act.callSender i call).item, w ∈ V := by
    have hval := h.value
    simp only [List.mem_cons, List.not_mem_nil, or_false] at hcall
    rcases hcall with rfl | rfl <;> simpa [Act.item, SenderCall.item] using hval
  have hu' := unique_step hu hstep
  have hc' := carries_step hc hv hstep
  exact ⟨⟨hu', hc'⟩, h.run.invariant (Unique hash) (fun _ _ _ => unique_step) hu',
    carries_run h.run h.gives hc'⟩

/-- What a handle holds is part of what all hold. -/
theorem mem_total {PC : Type} {f : PC → Multiset Nat} {hs : List (Handle PC)} {pc : PC} {k : Nat}
    (hi : pcAt hs i = some pc) (hk : k ∈ f pc) : k ∈ total f hs := by
  induction hs generalizing i with
  | nil => cases hi
  | cons x hs ih =>
    rw [total, List.map_cons, List.sum_cons, Multiset.mem_add]
    cases i with
    | zero => exact .inl (Option.some.inj hi ▸ hk)
    | succ i => exact .inr (ih hi)

theorem exists_of_mem_total {PC : Type} {f : PC → Multiset Nat} {hs : List (Handle PC)} {k : Nat}
    (hk : k ∈ total f hs) : ∃ i pc, pcAt hs i = some pc ∧ k ∈ f pc := by
  induction hs with
  | nil => cases hk
  | cons x hs ih =>
    rw [total, List.map_cons, List.sum_cons, Multiset.mem_add] at hk
    rcases hk with hk | hk
    · exact ⟨0, x.pc, rfl, hk⟩
    · obtain ⟨i, pc, hi, hk⟩ := ih hk
      exact ⟨i + 1, pc, hi, hk⟩

theorem mem_sender_holds {pc : SenderPC α} {k : Nat} (h : k ∈ pc.holds hash) :
    ∃ w, pc = .sendPush w ∧ k = hash w := by
  cases pc with
  | sendPush w => exact ⟨w, rfl, Multiset.mem_singleton.mp h⟩
  | _ => cases h

theorem mem_receiver_holds {pc : ReceiverPC α} {k : Nat} (h : k ∈ pc.holds hash) :
    ∃ w, pc = .remove w ∧ k = hash w := by
  cases pc with
  | remove w => exact ⟨w, rfl, Multiset.mem_singleton.mp h⟩
  | _ => cases h

/-- A discarded value has an equal one in the queue, one that is being enqueued, or one that a
receiver has popped without removing its hash so far. -/
theorem discards_cases (hinj : Set.InjOn hash V) (hu : Unique hash s) (hc : Carries V s)
    (hv : v ∈ V) (h : Discards hash s i v) : Present s i v ∨ ∃ r, Removing s r v := by
  have hmem := h.mem hu.set
  rw [Multiset.mem_toFinset, State.held, Multiset.mem_add, Multiset.mem_add] at hmem
  rcases hmem with (hk | hk) | hk
  · obtain ⟨j, pc, hj, hk⟩ := exists_of_mem_total hk
    obtain ⟨w, rfl, heq⟩ := mem_sender_holds hk
    obtain ⟨hd, hj', hpc⟩ := Option.map_eq_some_iff.mp hj
    have hw : w ∈ V := hc.senders hd (List.mem_of_getElem? hj') w (by rw [hpc]; rfl)
    obtain rfl := hinj hv hw heq
    refine .inl (.inr ⟨j, ?_, hj⟩)
    rintro rfl
    cases hj.symm.trans h.1
  · obtain ⟨w, hw, heq⟩ := List.mem_map.mp (Multiset.mem_coe.mp hk)
    obtain rfl := hinj (hc.queue w hw) hv heq
    exact .inl (.inl hw)
  · obtain ⟨r, pc, hr, hk⟩ := exists_of_mem_total hk
    obtain ⟨w, rfl, heq⟩ := mem_receiver_holds hk
    obtain ⟨hd, hr', hpc⟩ := Option.map_eq_some_iff.mp hr
    have hw : w ∈ V := hc.receivers hd (List.mem_of_getElem? hr') w (by rw [hpc]; rfl)
    obtain rfl := hinj hv hw heq
    exact .inr ⟨r, hr⟩

/-- While a receiver has to remove the hash of a value, no equal value is on its way. -/
theorem not_present_of_removing (hu : Unique hash s) (hr : Removing s r v) : ¬ Present s i v := by
  have hn := hu.nodup
  rw [State.held, Multiset.nodup_add] at hn
  have hrem : hash v ∈ total (ReceiverPC.holds hash) s.receivers :=
    mem_total hr (Multiset.mem_singleton_self _)
  have hnot : hash v ∉ total (SenderPC.holds hash) s.senders + s.channel.hashes hash :=
    fun hk => Multiset.disjoint_left.mp hn.2.2 hk hrem
  rw [Multiset.mem_add, not_or] at hnot
  rintro (hq | ⟨j, -, hj⟩)
  · exact hnot.2 (Multiset.mem_coe.mpr (List.mem_map_of_mem hq))
  · exact hnot.1 (mem_total hj (Multiset.mem_singleton_self _))

/-- Some receiver that popped an equal value before the send began has yet to remove its hash. -/
def Lags (begun : State α) (as : List (Act α)) (v : α) : Prop :=
  ∃ r, Removing begun r v ∧ Rests r as

/-- At some moment of the send an equal value is in the queue or being enqueued. -/
def PresentDuring (hash : α → Nat) (i : Nat) (v : α) (begun : State α) (as : List (Act α))
    (s : State α) : Prop :=
  ∃ pre post u, as = pre ++ post ∧ Run (Step hash) begun pre u ∧ Run (Step hash) u post s ∧
    Present u i v

/-- In every run of a unique channel whose hash is injective on the values given to it, a discarded
value is a duplicate of one present during the send exactly if no receiver lags behind. -/
theorem presentDuring_iff (hinj : Set.InjOn hash V) (h : Sends hash limit V i v begun as s)
    (hd : Discards hash s i v) :
    PresentDuring hash i v begun as s ↔ ¬ Lags begun as v := by
  obtain ⟨⟨hu₀, -⟩, hu, hc⟩ := h.reached
  constructor
  · rintro ⟨pre, post, u, rfl, hpre, -, hp⟩ ⟨r, hr, hrest⟩
    have hu' := hpre.invariant (Unique hash) (fun _ _ _ => unique_step) hu₀
    have hr' := removing_run hpre (fun w hw => hrest w (List.mem_append_left _ hw)) hr
    exact not_present_of_removing hu' hr' hp
  · intro hlag
    rcases discards_cases hinj hu hc h.value hd with hp | ⟨r, hr⟩
    · exact ⟨as, [], s, (List.append_nil as).symm, h.run, .refl s, hp⟩
    · rcases removing_origin h.run hr with hrest | ⟨pre, post, u, heq, hpre, hpost, hq⟩
      · exact (hlag ⟨r, hrest⟩).elim
      · exact ⟨pre, post, u, heq, hpre, hpost, .inl hq⟩

/-- The channel after a receiver has popped a 7 without removing its hash, and the sender has
begun to send another 7. -/
def lagging : State Nat where
  channel :=
    { hasMaxed := false, limit := .statik 5, queue := [], receiverCount := 1, senderCount := 1,
      unique := some {7}, pushed := [7], popped := [7] }
  senders := [⟨.sendInsert 7, none, false⟩]
  receivers := [⟨.remove 7, none, false⟩]

def lagTrace : List (Act Nat) :=
  [.callSender 0 (.startSend 7), .sender 0 [], .sender 0 [], .sender 0 [],
    .callReceiver 0 .pollNext, .receiver 0 []]

theorem sends_lagging : Sends id (.statik 5) Set.univ 0 7 lagging [] lagging where
  begins :=
    ⟨lagTrace, { lagging with senders := [⟨.idle, none, false⟩] }, .startSend 7,
      run_of_exec rfl, fun _ _ _ _ => trivial, by decide, rfl⟩
  value := trivial
  run := .refl _
  gives := fun _ _ _ _ => trivial
  same := fun _ => List.not_mem_nil

theorem discards_lagging : Discards id lagging 0 7 := ⟨rfl, fun _ => rfl⟩

/-- The second 7 is lost: the first has been popped and nobody else sends one. -/
theorem not_discardsDuplicates : ¬ ∀ (α : Type) (hash : α → Nat) (limit : Limit) (V : Set α)
    (i : Nat) (v : α) (begun s : State α) (as : List (Act α)), Set.InjOn hash V →
      Sends hash limit V i v begun as s → Discards hash s i v →
        PresentDuring hash i v begun as s := by
  intro h
  obtain ⟨pre, post, u, heq, hpre, -, hp⟩ := h Nat id (.statik 5) Set.univ 0 7 lagging lagging []
    Function.injective_id.injOn sends_lagging discards_lagging
  obtain ⟨rfl, -⟩ := List.append_eq_nil_iff.mp heq.symm
  cases hpre
  exact not_present_of_removing sends_lagging.reached.1.1 (r := 0) rfl hp

theorem presentDuring_iff_lagging :
    PresentDuring id 0 7 lagging [] lagging ↔ ¬ Lags lagging [] 7 :=
  presentDuring_iff Function.injective_id.injOn sends_lagging discards_lagging

end Pewpew.ProviderChannel
