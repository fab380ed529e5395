import Pewpew.Channel.Frame
import Mathlib.Data.Finset.Card
import Mathlib.Data.Finset.Range

/-! How far the queue grows past its soft limit, where every sender asks for room first. -/
namespace Pewpew.ProviderChannel

open EventListener Transition

variable {α : Type} {hash : α → Nat} {s t : State α} {limit : Limit} {unique : Bool} {a : Act α}
  {as : List (Act α)} {ready : Finset Nat} {p q : State α × Finset Nat} {i j m N : Nat}

def Ret.isReadyOk : Ret α → Bool
  | .readyOk => true
  | _ => false

/-- The senders that may call `start_send`: `poll_ready` has answered `Ready(Ok)`, and nothing has
been called since. -/
def readyAfter (hash : α → Nat) (s : State α) (ready : Finset Nat) : Act α → Finset Nat
  | .callSender _ .clone => ready
  | .callSender i _ => ready.erase i
  | .sender i woken =>
    if (returned hash s (.sender i woken)).any Ret.isReadyOk then insert i ready else ready
  | _ => ready

/-- A call of `start_send` is one of a sender that may. -/
def Permitted (ready : Finset Nat) : Act α → Prop
  | .callSender i (.startSend _) => i ∈ ready
  | _ => True

instance (ready : Finset Nat) : (a : Act α) → Decidable (Permitted ready a)
  | .callSender i (.startSend _) => inferInstanceAs (Decidable (i ∈ ready))
  | .callSender _ .pollReady | .callSender _ (.trySend _) | .callSender _ .clone
  | .callSender _ .drop | .callReceiver _ _ | .sender _ _ | .receiver _ _ => .isTrue trivial

def sinkNext (hash : α → Nat) (p : State α × Finset Nat) (a : Act α) :
    Option (State α × Finset Nat) :=
  (next hash p.1 a).map fun t => (t, readyAfter hash p.1 p.2 a)

/-- The contract of a sink: no more than `N` senders are alive, and each of them calls `start_send`
only after `poll_ready` has answered `Ready(Ok)`. -/
def Contract (N : Nat) (p : State α × Finset Nat) (a : Act α) : Prop :=
  p.1.channel.senderCount ≤ N ∧ Permitted p.2 a

instance (p : State α × Finset Nat) (a : Act α) : Decidable (Contract N p a) :=
  inferInstanceAs (Decidable (_ ∧ _))

def SinkStep (hash : α → Nat) (N : Nat) :
    State α × Finset Nat → Act α → State α × Finset Nat → Prop :=
  Guarded (Contract N) fun p a q => sinkNext hash p a = some q

/-- The sender will push, or will see a length below `m`. -/
def SenderPC.claims (m : Nat) : SenderPC α → Bool
  | .readyLimit len | .tryLimit _ len => len < m
  | .sendInsert _ | .sendPush _ => true
  | _ => false

def claimsAt (s : State α) (ready : Finset Nat) (m i : Nat) : Prop :=
  i ∈ ready ∨ (pcAt s.senders i).any (SenderPC.claims m) = true

instance (s : State α) (ready : Finset Nat) (m i : Nat) : Decidable (claimsAt s ready m i) :=
  inferInstanceAs (Decidable (_ ∨ _))

/-- The senders whose claims the queue has yet to take in, where the limit is `m`. -/
def claimers (s : State α) (ready : Finset Nat) (m : Nat) : Finset Nat :=
  (Finset.range s.senders.length).filter (claimsAt s ready m)

/-- What is queued and what is claimed stays below any limit there may yet be and one place for
each sender. -/
structure Bounded (N : Nat) (s : State α) (ready : Finset Nat) : Prop where
  idle : ∀ i ∈ ready, pcAt s.senders i = some .idle
  room : ∀ m, s.channel.limit.get ≤ m → s.channel.queue.length + (claimers s ready m).card < m + N

/-! ### The claims -/

theorem claimsAt_counted (hready : ∀ i ∈ ready, pcAt s.senders i = some .idle)
    (h : claimsAt s ready m i) : ∃ pc, pcAt s.senders i = some pc ∧ pc.counted = true := by
  rcases h with hi | hclaims
  · exact ⟨.idle, hready i hi, rfl⟩
  · obtain ⟨pc, hpc, hclaims⟩ := (Option.any_eq_true _ _).mp hclaims
    refine ⟨pc, hpc, ?_⟩
    cases pc <;> first | rfl | simp [SenderPC.claims] at hclaims

theorem mem_claimers (hready : ∀ i ∈ ready, pcAt s.senders i = some .idle) :
    i ∈ claimers s ready m ↔ claimsAt s ready m i := by
  rw [claimers, Finset.mem_filter, Finset.mem_range, and_iff_right_iff_imp]
  intro h
  obtain ⟨pc, hpc, -⟩ := claimsAt_counted hready h
  exact lt_length_of_pcAt hpc

/-- Only senders that are alive claim a place. -/
theorem card_claimers (hcounts : Counts s) (hready : ∀ i ∈ ready, pcAt s.senders i = some .idle) :
    (claimers s ready m).card ≤ s.channel.senderCount := by
  rw [hcounts.senders, ← card_filter_pcAt]
  refine Finset.card_le_card fun i hi => ?_
  obtain ⟨pc, hpc, hcounted⟩ := claimsAt_counted hready ((mem_claimers hready).mp hi)
  rw [Finset.mem_filter, Finset.mem_range]
  refine ⟨lt_length_of_pcAt hpc, ?_⟩
  rw [hpc]
  exact hcounted

theorem claimers_mono (hready : ∀ i ∈ ready, pcAt s.senders i = some .idle) {ready' : Finset Nat}
    (hsub : ∀ i, claimsAt t ready' m i → claimsAt s ready m i) :
    (claimers t ready' m).card ≤ (claimers s ready m).card := by
  refine Finset.card_le_card fun i hi => ?_
  exact (mem_claimers hready).mpr (hsub i (Finset.mem_filter.mp hi).2)

/-- A sender that has pushed gives its claim up. -/
theorem claimers_erase (hready : ∀ i ∈ ready, pcAt s.senders i = some .idle) {ready' : Finset Nat}
    (hi : claimsAt s ready m i) (hnot : ¬ claimsAt t ready' m i)
    (hsub : ∀ j, claimsAt t ready' m j → claimsAt s ready m j) :
    (claimers t ready' m).card + 1 ≤ (claimers s ready m).card := by
  have hmem := (mem_claimers hready).mpr hi
  rw [← Finset.card_erase_add_one hmem]
  refine Nat.add_le_add_right (Finset.card_le_card fun j hj => ?_) 1
  have hj := (Finset.mem_filter.mp hj).2
  refine Finset.mem_erase.mpr ⟨?_, (mem_claimers hready).mpr (hsub j hj)⟩
  rintro rfl
  exact hnot hj

/-! ### One operation -/

/-- What a sender's operation does to its claim: it keeps it, gives it up, makes one where the
queue is shorter than the limit, or pushes. -/
theorem senderStep_claims {c : Channel α} {h : Handle (SenderPC α)} {o : Outcome α (SenderPC α)}
    (hs : senderStep hash c h = some o) :
    o.channel.limit = c.limit ∧ o.channel.senderCount ≤ c.senderCount ∧
      (o.ret.any Ret.isReadyOk = true → o.handle.pc = .idle) ∧
      ∀ m, c.limit.get ≤ m →
        (o.channel.queue = c.queue ∧
          (o.handle.pc.claims m = true ∨ o.ret.any Ret.isReadyOk = true →
            h.pc.claims m = true ∨ c.queue.length < m)) ∨
        (o.channel.queue.length = c.queue.length + 1 ∧ h.pc.claims m = true ∧
          o.handle.pc.claims m = false ∧ o.ret.any Ret.isReadyOk = false) := by
  cases hp : h.pc with
  | sendPush item =>
    simp only [senderStep, hp] at hs
    cases hs
    simp [SenderPC.claims]
  | _ =>
    simp only [senderStep, hp] at hs
    repeat' split at hs
    all_goals cases hs
    all_goals simp [SenderPC.claims, Ret.isReadyOk, Channel.send]
    all_goals omega

theorem receiverStep_claims {c : Channel α} {h : Handle (ReceiverPC α)}
    {o : Outcome α (ReceiverPC α)} (hs : receiverStep hash c h = some o) :
    c.limit.get ≤ o.channel.limit.get ∧ o.channel.queue.length ≤ c.queue.length := by
  cases hp : h.pc <;> simp only [receiverStep, hp, afterMaxed] at hs <;> (repeat' split at hs) <;>
    cases hs <;> simp_all [Limit.get]

/-! ### A run -/

theorem sinkStep_iff :
    SinkStep hash N p a q ↔
      p.1.channel.senderCount ≤ N ∧ Permitted p.2 a ∧ Step hash p.1 a q.1 ∧
        q.2 = readyAfter hash p.1 p.2 a := by
  obtain ⟨t, ready'⟩ := q
  simp only [SinkStep, Guarded, Contract, sinkNext, Step, Option.map_eq_some_iff, and_assoc]
  grind

theorem bounded_init (hN : 0 < N) : Bounded N (init limit unique : State α) ∅ := by
  refine ⟨by simp, fun m _ => ?_⟩
  have hnone : claimers (init limit unique : State α) ∅ m = ∅ := by
    simp [claimers, claimsAt, init, pcAt, Handle.fresh, SenderPC.claims]
  rw [hnone]
  exact Nat.add_pos_right m hN

theorem claimsAt_settles {e : Effect} (h : Settles s e t) :
    claimsAt t ready m i ↔ claimsAt s ready m i := by
  rw [claimsAt, claimsAt, h.senders.pcAt]

theorem claimsAt_set_ne {h : Handle (SenderPC α)} {c : Channel α} {rs : List _} (hj : i ≠ j)
    {ready' : Finset Nat} (hready : j ∈ ready' ↔ j ∈ ready) :
    claimsAt ⟨c, s.senders.set i h, rs⟩ ready' m j ↔ claimsAt s ready m j := by
  rw [claimsAt, claimsAt, hready, pcAt_set_ne hj]

theorem claimsAt_set_self {h h' : Handle (SenderPC α)} {c : Channel α} {rs : List _}
    (hi : s.senders[i]? = some h) :
    claimsAt ⟨c, s.senders.set i h', rs⟩ ready m i ↔ i ∈ ready ∨ h'.pc.claims m = true := by
  rw [claimsAt, pcAt_set_self hi, Option.any_some]

theorem claimsAt_of_getElem {h : Handle (SenderPC α)} (hi : s.senders[i]? = some h) :
    claimsAt s ready m i ↔ i ∈ ready ∨ h.pc.claims m = true := by
  rw [claimsAt, pcAt_of_getElem hi, Option.any_some]

theorem readyAfter_callSender {call : SenderCall α} :
    readyAfter hash s ready (.callSender i call) ⊆ ready := by
  cases call <;> simp [readyAfter, Finset.erase_subset]

theorem ready_callSender {h : Handle (SenderPC α)} {call : SenderCall α}
    (hready : ∀ i ∈ ready, pcAt s.senders i = some .idle) :
    ∀ j ∈ readyAfter hash s ready (.callSender i call),
      pcAt (s.callSender i h call).senders j = some .idle := by
  intro j hj
  have hold := hready j (readyAfter_callSender hj)
  cases call with
  | clone => exact pcAt_append hold
  | _ =>
    have hne : i ≠ j := by
      rintro rfl
      simp [readyAfter] at hj
    rw [State.callSender, pcAt_set_ne hne]
    exact hold

/-- A call makes no claim that the sender did not have. -/
theorem claimsAt_callSender {h : Handle (SenderPC α)} {call : SenderCall α}
    (hi : s.senders[i]? = some h) (hpermit : Permitted ready (.callSender i call)) :
    ∀ j, claimsAt (s.callSender i h call) (readyAfter hash s ready (.callSender i call)) m j →
      claimsAt s ready m j := by
  intro j hj
  cases call with
  | clone =>
    rcases hj with hj | hj
    · exact .inl hj
    · right
      rw [State.callSender, Option.any_eq_true] at hj
      obtain ⟨pc, hpc, hclaims⟩ := hj
      rcases pcAt_append_fresh hpc with hpc | rfl
      · rw [hpc]
        exact hclaims
      · simp [SenderPC.claims] at hclaims
  | startSend v =>
    by_cases hij : i = j
    · subst hij
      exact .inl hpermit
    · rwa [State.callSender, claimsAt_set_ne hij] at hj
      simp [readyAfter, Ne.symm hij]
  | _ =>
    by_cases hij : i = j
    · subst hij
      rw [State.callSender, claimsAt_set_self hi] at hj
      simp [readyAfter, SenderPC.claims] at hj
    · rwa [State.callSender, claimsAt_set_ne hij] at hj
      simp [readyAfter, Ne.symm hij]

theorem bounded_callSender {h : Handle (SenderPC α)} {call : SenderCall α} (hb : Bounded N s ready)
    (hi : s.senders[i]? = some h) (hpermit : Permitted ready (.callSender i call)) :
    Bounded N (s.callSender i h call) (readyAfter hash s ready (.callSender i call)) := by
  refine ⟨ready_callSender hb.idle, fun m hm => ?_⟩
  have hchannel : (s.callSender i h call).channel.limit = s.channel.limit ∧
      (s.callSender i h call).channel.queue = s.channel.queue := by
    cases call <;> exact ⟨rfl, rfl⟩
  have hcard : (claimers (s.callSender i h call)
      (readyAfter hash s ready (.callSender i call)) m).card ≤ (claimers s ready m).card :=
    claimers_mono hb.idle (claimsAt_callSender hi hpermit)
  rw [hchannel.1] at hm
  have hroom := hb.room m hm
  rw [hchannel.2]
  omega

theorem bounded_settles {e : Effect} (hb : Bounded N s ready) (h : Settles s e t) :
    Bounded N t ready := by
  refine ⟨fun i hi => ?_, fun m hm => ?_⟩
  · rw [h.senders.pcAt]
    exact hb.idle i hi
  · have hcard := claimers_mono (t := t) (m := m) hb.idle fun i hi => (claimsAt_settles h).mp hi
    rw [h.channel] at hm ⊢
    have hroom := hb.room m hm
    omega

theorem bounded_receiver {h : Handle (ReceiverPC α)} {o : Outcome α (ReceiverPC α)}
    (hb : Bounded N s ready) (hs : receiverStep hash s.channel h = some o) :
    Bounded N (s.received i o) ready := by
  obtain ⟨hlimit, hqueue⟩ := receiverStep_claims hs
  refine ⟨hb.idle, fun m hm => ?_⟩
  have hroom := hb.room m (hlimit.trans hm)
  have hcard := claimers_mono (t := s.received i o) (m := m) hb.idle fun j hj => hj
  have hlen : (s.received i o).channel.queue.length ≤ s.channel.queue.length := hqueue
  omega

/-- A sender in the middle of a call may not call `start_send`. -/
theorem not_ready_of_sender {h : Handle (SenderPC α)} {o : Outcome α (SenderPC α)}
    (hb : Bounded N s ready) (hi : s.senders[i]? = some h)
    (hs : senderStep hash s.channel h = some o) : i ∉ ready := by
  intro hmem
  have hidle := hb.idle i hmem
  rw [pcAt_of_getElem hi, Option.some.injEq] at hidle
  simp [senderStep, hidle] at hs

theorem ready_sent {h : Handle (SenderPC α)} {o : Outcome α (SenderPC α)} (hb : Bounded N s ready)
    (hi : s.senders[i]? = some h) (hs : senderStep hash s.channel h = some o)
    (hset : Settles (s.sent i o) o.effect t) :
    ∀ j ∈ if o.ret.any Ret.isReadyOk then insert i ready else ready,
      pcAt t.senders j = some .idle := by
  have hbusy := not_ready_of_sender hb hi hs
  intro j hj
  rw [hset.senders.pcAt]
  by_cases hij : i = j
  · subst hij
    split at hj
    · next hok => rw [State.sent, pcAt_set_self hi, (senderStep_claims hs).2.2.1 hok]
    · exact absurd hj hbusy
  · rw [State.sent, pcAt_set_ne hij]
    refine hb.idle j ?_
    split at hj
    · exact Finset.mem_of_mem_insert_of_ne hj (Ne.symm hij)
    · exact hj

/-- The claims of the other senders are what they were, and the sender's own is the one that its
operation leaves it. -/
theorem claimsAt_sent {h : Handle (SenderPC α)} {o : Outcome α (SenderPC α)}
    (hb : Bounded N s ready) (hi : s.senders[i]? = some h)
    (hs : senderStep hash s.channel h = some o) (hset : Settles (s.sent i o) o.effect t)
    (hj : claimsAt t (if o.ret.any Ret.isReadyOk then insert i ready else ready) m j) :
    (j ≠ i ∧ claimsAt s ready m j) ∨
      (j = i ∧ (o.handle.pc.claims m = true ∨ o.ret.any Ret.isReadyOk = true)) := by
  have hbusy := not_ready_of_sender hb hi hs
  rw [claimsAt_settles hset] at hj
  by_cases hij : i = j
  · subst hij
    rw [State.sent, claimsAt_set_self hi] at hj
    refine .inr ⟨rfl, ?_⟩
    rcases hj with hj | hj
    · split at hj
      · next hok => exact .inr hok
      · exact absurd hj hbusy
    · exact .inl hj
  · refine .inl ⟨Ne.symm hij, (claimsAt_set_ne hij ?_).mp hj⟩
    split
    · simp [Ne.symm hij]
    · rfl

theorem bounded_sender {h : Handle (SenderPC α)} {o : Outcome α (SenderPC α)}
    (hb : Bounded N s ready) (hN : s.channel.senderCount ≤ N) (hi : s.senders[i]? = some h)
    (hs : senderStep hash s.channel h = some o) (hset : Settles (s.sent i o) o.effect t)
    (hcounts : Counts t) :
    Bounded N t (if o.ret.any Ret.isReadyOk then insert i ready else ready) := by
  obtain ⟨hlimit, hcount, -, hclaims⟩ := senderStep_claims hs
  have hidle := ready_sent hb hi hs hset
  refine ⟨hidle, fun m hm => ?_⟩
  have hchannel : t.channel = o.channel := hset.channel
  rw [hchannel, hlimit] at hm
  rw [hchannel]
  have hroom := hb.room m hm
  rcases hclaims m hm with ⟨hqueue, hclaim⟩ | ⟨hqueue, hold, hnew, hret⟩
  · rw [hqueue]
    by_cases hkeep : h.pc.claims m = true ∨ ¬ s.channel.queue.length < m
    · -- no claim is new
      have hcard := claimers_mono (t := t) (m := m) hb.idle fun j hj => by
        rcases claimsAt_sent hb hi hs hset hj with ⟨-, hother⟩ | ⟨rfl, hown⟩
        · exact hother
        · rw [claimsAt_of_getElem hi]
          exact .inr (hkeep.elim id fun hno => (hclaim hown).resolve_right hno)
      omega
    · -- the sender has seen a length below the limit, so one place is left for each sender
      have hcard := card_claimers (m := m) hcounts hidle
      rw [hchannel] at hcard
      omega
  · -- the sender pushes, and gives its claim up
    have hcard := claimers_erase (t := t) (m := m) (i := i) hb.idle
      ((claimsAt_of_getElem hi).mpr (.inr hold))
      (fun hj => by
        rcases claimsAt_sent hb hi hs hset hj with ⟨hne, -⟩ | ⟨-, hj⟩
        · exact hne rfl
        · simp [hnew, hret] at hj)
      (fun j hj => by
        rcases claimsAt_sent hb hi hs hset hj with ⟨-, hj⟩ | ⟨-, hj⟩
        · exact hj
        · simp [hnew, hret] at hj)
    omega

theorem bounded_step (hb : Bounded N s ready) (hN : s.channel.senderCount ≤ N)
    (hpermit : Permitted ready a) (hcounts : Counts t) (h : Step hash s a t) :
    Bounded N t (readyAfter hash s ready a) := by
  cases a with
  | callSender i call =>
    obtain ⟨h, hi, -, rfl⟩ := step_callSender h
    exact bounded_callSender hb hi hpermit
  | callReceiver i call =>
    obtain ⟨h, -, -, rfl⟩ := step_callReceiver h
    cases call <;> exact ⟨hb.idle, hb.room⟩
  | sender i woken =>
    obtain ⟨h, o, hi, hs, hset⟩ := step_sender h
    have hret : returned hash s (.sender i woken) = o.ret := by
      rw [returned, State.senderOutcome, hi, Option.bind_some, hs, Option.bind_some]
    rw [readyAfter, hret]
    exact bounded_sender hb hN hi hs hset hcounts
  | receiver i woken =>
    obtain ⟨h, o, -, hs, hset⟩ := step_receiver h
    exact bounded_settles (bounded_receiver hb hs) hset

theorem roomy_run (hN : 0 < N) (h : Run (SinkStep hash N) (init limit unique, ∅) as p) :
    Counts p.1 ∧ Bounded N p.1 p.2 := by
  refine h.invariant (fun p => Counts p.1 ∧ Bounded N p.1 p.2) ?_ ⟨counts_init, bounded_init hN⟩
  rintro p a q ⟨hcounts, hb⟩ hstep
  obtain ⟨hcount, hpermit, hstep, hready⟩ := sinkStep_iff.mp hstep
  have hcounts := counts_step hcounts hstep
  rw [hready]
  exact ⟨hcounts, bounded_step hb hcount hpermit hcounts hstep⟩

/-- In every interleaving of at most `N` senders that ask for room first, fewer than `N` values are
queued beyond the soft limit. -/
theorem queue_lt_limit (hN : 0 < N) (h : Run (SinkStep hash N) (init limit unique, ∅) as p) :
    p.1.channel.queue.length < p.1.channel.limit.get + N := by
  have hroom := (roomy_run hN h).2.room _ (le_refl _)
  omega

/-- Two senders see the empty queue of a channel with a limit of one, and each pushes. -/
def crowdTrace : List (Act Nat) :=
  [.callSender 0 .clone, .callSender 0 .pollReady, .callSender 1 .pollReady,
    .sender 0 [], .sender 0 [], .sender 0 [], .sender 1 [], .sender 1 [], .sender 1 [],
    .callSender 0 (.startSend 7), .sender 0 [], .callSender 1 (.startSend 8), .sender 1 []]

/-- The bound is attained. -/
theorem queue_lt_limit_crowd :
    ∃ p : State Nat × Finset Nat, Run (SinkStep id 2) (init (.statik 1) false, ∅) crowdTrace p ∧
      p.1.channel.queue.length = p.1.channel.limit.get + 1 ∧
      p.1.channel.queue.length < p.1.channel.limit.get + 2 := by
  obtain ⟨p, hrun, hp⟩ := guarded_run_of_exec (Contract 2) (sinkNext id)
    (init (.statik 1) false, ∅) crowdTrace
    (fun p => decide (p.1.channel.queue.length = p.1.channel.limit.get + 1)) rfl
  exact ⟨p, hrun, of_decide_eq_true hp, queue_lt_limit (by decide) hrun⟩

end Pewpew.ProviderChannel
