import Pewpew.Channel.Delivery

/-! The demands of the channel: where the queue is empty a receiver tells an `OnDemandReceiver`. -/
namespace Pewpew.ProviderChannel

open EventListener Transition

/-- The next atomic operation of an `OnDemandReceiver`. -/
inductive DemandPC where
  | idle
  | receiverCount
  | poll
  | relisten
  | listen
  | dropListener
  | dropped
  deriving DecidableEq, Repr

/-- What `OnDemandReceiver::poll_next` answers. -/
inductive DemandRet where
  | pending
  | need
  | ended
  deriving DecidableEq, Repr

def DemandPC.isRelisten : DemandPC → Bool
  | .relisten => true
  | _ => false

/-- The result of one atomic operation, which may pass a notification on. -/
structure DemandOutcome where
  handle : Handle DemandPC
  passesOn : Bool := false
  ret : Option DemandRet := none

/-- One atomic operation of `OnDemandReceiver::poll_next` or `OnDemandReceiver::drop`. -/
def demandStep (receiverCount : Nat) (h : Handle DemandPC) : Option DemandOutcome :=
  match h.pc with
  | .idle | .dropped => none
  | .receiverCount =>
    if receiverCount = 0 then
      some { handle := ⟨.idle, none, false⟩, passesOn := h.listener == some true,
             ret := some .ended }
    else if h.listener.isSome then some { handle := h.at .poll }
    else some { handle := h.at .listen }
  | .poll =>
    if h.listener = some true then
      some { handle := { h with pc := .relisten, listener := none } }
    else some { handle := { h with pc := .idle, pending := true }, ret := some .pending }
  | .relisten => some { handle := ⟨.idle, some false, false⟩, ret := some .need }
  | .listen => some { handle := { h with pc := .receiverCount, listener := some false } }
  | .dropListener =>
    some { handle := ⟨.dropped, none, false⟩, passesOn := h.listener == some true }

/-- A channel with its `OnDemandReceiver`s. Those in `owing` are the receivers that have found the
queue empty and are about to notify. -/
structure Demanded (α : Type) where
  state : State α
  owing : Finset Nat
  demanders : List (Handle DemandPC)

/-- The calls on an `OnDemandReceiver`. -/
inductive DemandCall where
  | pollNext
  | clone
  | drop
  deriving DecidableEq, Repr

/-- A step of the channel, the notification of a receiver that found the queue empty, or a call or
an operation of an `OnDemandReceiver`. -/
inductive DemandAct (α : Type) where
  | channel (a : Act α)
  | notify (r : Nat) (woken : List Nat)
  | call (i : Nat) (call : DemandCall)
  | demander (i : Nat) (woken : List Nat)
  deriving DecidableEq, Repr

variable {α : Type} {hash : α → Nat} {limit : Limit} {unique : Bool} {s t : State α}
  {d d' : Demanded α} {a : DemandAct α} {as : List (DemandAct α)}

/-- `Provider::new`: a channel and one `OnDemandReceiver`. -/
def Demanded.init (limit : Limit) (unique : Bool) : Demanded α :=
  ⟨ProviderChannel.init limit unique, ∅, [.fresh .idle]⟩

/-- The receiver that takes the step. -/
def Act.taker : Act α → Option Nat
  | .receiver r _ => some r
  | _ => none

/-- The receiver that finds the queue empty. -/
def finds (s : State α) : Act α → Option Nat
  | .receiver r _ =>
    match pcAt s.receivers r with
    | some .pop => if s.channel.queue.isEmpty then some r else none
    | _ => none
  | _ => none

def Demanded.begin (d : Demanded α) (i : Nat) (h : Handle DemandPC) : DemandCall → Demanded α
  | .pollNext => { d with demanders := d.demanders.set i (h.at .receiverCount) }
  | .clone => { d with demanders := d.demanders ++ [.fresh .idle] }
  | .drop => { d with demanders := d.demanders.set i (h.at .dropListener) }

def Demanded.settle (d : Demanded α) (i : Nat) (woken : List Nat) (o : DemandOutcome) :
    Option (Demanded α) :=
  let hs := d.demanders.set i o.handle
  (if o.passesOn then notifyOne woken hs else some hs).map fun hs => { d with demanders := hs }

/-- A receiver that owes a notification gives it before its next step. -/
def Demanded.next (hash : α → Nat) (d : Demanded α) : DemandAct α → Option (Demanded α)
  | .channel a =>
    if a.taker.any (· ∈ d.owing) then none
    else (ProviderChannel.next hash d.state a).map fun s =>
      { d with state := s, owing := (finds d.state a).elim d.owing (insert · d.owing) }
  | .notify r woken =>
    if r ∈ d.owing then
      (notifyOne woken d.demanders).map fun hs =>
        { d with owing := d.owing.erase r, demanders := hs }
    else none
  | .call i call =>
    (d.demanders[i]?.filter (·.pc == .idle)).map fun h => d.begin i h call
  | .demander i woken =>
    d.demanders[i]?.bind fun h =>
      (demandStep d.state.channel.receiverCount h).bind (d.settle i woken)

abbrev Demanded.Step (hash : α → Nat) (d : Demanded α) (a : DemandAct α) (d' : Demanded α) : Prop :=
  d.next hash a = some d'

/-- A receiver finds the queue empty, it notifies, and an `OnDemandReceiver` answers that there is
a need. -/
inductive Need where
  | found (r : Nat)
  | noted (r : Nat)
  | told (i : Nat)
  deriving DecidableEq, Repr

def Need.isFound : Need → Bool
  | .found _ => true
  | _ => false

def Need.isTold : Need → Bool
  | .told _ => true
  | _ => false

def needs (d : Demanded α) : DemandAct α → List Need
  | .channel a => (finds d.state a).toList.map .found
  | .notify r _ => [.noted r]
  | .call _ _ => []
  | .demander i _ => if pcAt d.demanders i = some .relisten then [.told i] else []

/-- The needs of a run from the start. -/
def needHistory (hash : α → Nat) (limit : Limit) (unique : Bool) (as : List (DemandAct α)) :
    List Need :=
  outputs (Demanded.next hash) needs (.init limit unique) as

/-! ### One step -/

theorem next_channel {a : Act α} (h : d.Step hash (.channel a) d') :
    (∀ r, a.taker = some r → r ∉ d.owing) ∧ Step hash d.state a d'.state ∧
      d'.owing = (finds d.state a).elim d.owing (insert · d.owing) ∧
      d'.demanders = d.demanders := by
  simp only [Demanded.Step, Demanded.next, Option.ite_none_left_eq_some] at h
  obtain ⟨hfree, h⟩ := h
  obtain ⟨s, hs, rfl⟩ := Option.map_eq_some_iff.mp h
  refine ⟨?_, hs, rfl, rfl⟩
  intro r hr howes
  exact hfree (by simp [hr, howes])

theorem next_notify {r : Nat} {woken : List Nat} (h : d.Step hash (.notify r woken) d') :
    r ∈ d.owing ∧ notifyOne woken d.demanders = some d'.demanders ∧
      d'.owing = d.owing.erase r ∧ d'.state = d.state := by
  obtain ⟨howes, h⟩ := Option.ite_none_right_eq_some.mp h
  obtain ⟨hs, hn, rfl⟩ := Option.map_eq_some_iff.mp h
  exact ⟨howes, hn, rfl, rfl⟩

theorem next_call {i : Nat} {call : DemandCall} (h : d.Step hash (.call i call) d') :
    ∃ x, d.demanders[i]? = some x ∧ x.pc = .idle ∧ d' = d.begin i x call := by
  obtain ⟨x, hf, rfl⟩ := Option.map_eq_some_iff.mp h
  obtain ⟨hi, hp⟩ := Option.filter_eq_some_iff.mp hf
  exact ⟨x, hi, by simpa using hp, rfl⟩

/-- An operation leaves the other handles as they are, unless it passes a notification on. -/
theorem next_demander {i : Nat} {woken : List Nat} (h : d.Step hash (.demander i woken) d') :
    ∃ x o, d.demanders[i]? = some x ∧
      demandStep d.state.channel.receiverCount x = some o ∧
      (o.passesOn = true → notifyOne woken (d.demanders.set i o.handle) = some d'.demanders) ∧
      (o.passesOn = false → d'.demanders = d.demanders.set i o.handle) ∧
      d'.owing = d.owing ∧ d'.state = d.state := by
  obtain ⟨x, hi, h⟩ := Option.bind_eq_some_iff.mp h
  obtain ⟨o, ho, h⟩ := Option.bind_eq_some_iff.mp h
  obtain ⟨hs, hn, rfl⟩ := Option.map_eq_some_iff.mp h
  refine ⟨x, o, hi, ho, ?_, ?_, rfl, rfl⟩
  · intro hp
    simpa [hp] using hn
  · intro hp
    simpa [hp] using hn.symm

/-- The channel takes its steps as it does without anybody on demand. -/
theorem channel_run {d₀ : Demanded α} (h : Run (Demanded.Step hash) d₀ as d) :
    ∃ bs, Run (Step hash) d₀.state bs d.state := by
  induction h with
  | refl => exact ⟨[], .refl _⟩
  | @stepL d₀ d₁ d a as hst _ ih =>
    obtain ⟨bs, hrun⟩ := ih
    cases a with
    | channel a => exact ⟨a :: bs, .stepL (next_channel hst).2.1 hrun⟩
    | notify r woken =>
      rw [(next_notify hst).2.2.2] at hrun
      exact ⟨bs, hrun⟩
    | call i call =>
      obtain ⟨x, -, -, rfl⟩ := next_call hst
      cases call <;> exact ⟨bs, hrun⟩
    | demander i woken =>
      obtain ⟨x, o, -, -, -, -, -, hstate⟩ := next_demander hst
      rw [hstate] at hrun
      exact ⟨bs, hrun⟩

/-! ### No more needs are told than found -/

/-- The `OnDemandReceiver`s that have taken a notification and not answered. -/
def answering (hs : List (Handle DemandPC)) : Nat := hs.countP fun h => h.pc.isRelisten

/-- A need that has been found is told at most once: a receiver is about to notify, a listener is
notified, or an `OnDemandReceiver` is about to answer. -/
def Accounted (es : List Need) (d : Demanded α) : Prop :=
  es.countP Need.isTold + notified d.demanders + answering d.demanders + d.owing.card ≤
    es.countP Need.isFound

variable {es : List Need}

/-- An operation that tells a need, passes a notification on or prepares an answer has a
notification, or has taken one. -/
theorem demandStep_holds {n : Nat} {x : Handle DemandPC} {o : DemandOutcome}
    (h : demandStep n x = some o) :
    (o.handle.listener == some true).toNat + o.handle.pc.isRelisten.toNat +
        o.passesOn.toNat + x.pc.isRelisten.toNat ≤
      (x.listener == some true).toNat + x.pc.isRelisten.toNat := by
  cases hp : x.pc <;> simp only [demandStep, hp] at h <;> (repeat' split at h) <;> cases h <;>
    simp_all [DemandPC.isRelisten]

theorem holds_set {hs : List (Handle DemandPC)} {i : Nat} {x : Handle DemandPC}
    (hi : hs[i]? = some x) (y : Handle DemandPC) :
    notified (hs.set i y) + answering (hs.set i y) +
        ((x.listener == some true).toNat + x.pc.isRelisten.toNat) =
      notified hs + answering hs +
        ((y.listener == some true).toNat + y.pc.isRelisten.toNat) := by
  have hnotified := countP_set_add hi y fun h => h.listener == some true
  have hanswering := countP_set_add hi y fun h => h.pc.isRelisten
  unfold notified answering
  omega

theorem accounted_init : Accounted [] (.init limit unique : Demanded α) :=
  Nat.le_refl 0

theorem accounted_channel {a : Act α} (hd : Accounted es d) (h : d.Step hash (.channel a) d') :
    Accounted (es ++ needs d (.channel a)) d' := by
  obtain ⟨hfree, -, howing, hdemanders⟩ := next_channel h
  unfold Accounted at hd ⊢
  rw [hdemanders, howing, needs, List.countP_append, List.countP_append]
  cases hf : finds d.state a with
  | none => simpa using hd
  | some r =>
    have hr : r ∉ d.owing := by
      apply hfree
      cases a with
      | receiver j woken =>
        simp only [finds] at hf
        repeat' split at hf
        all_goals cases hf
        rfl
      | _ => cases hf
    have hcard : (insert r d.owing).card = d.owing.card + 1 := Finset.card_insert_of_notMem hr
    simp only [Option.elim_some, hcard, Option.toList_some, List.map_cons, List.map_nil,
      List.countP_singleton, Need.isTold, Need.isFound]
    simp only [Bool.false_eq_true, if_false, if_true]
    omega

theorem accounted_notify {r : Nat} {woken : List Nat} (hd : Accounted es d)
    (h : d.Step hash (.notify r woken) d') : Accounted (es ++ needs d (.notify r woken)) d' := by
  obtain ⟨howes, hn, howing, -⟩ := next_notify h
  obtain ⟨hwoken, -, hone⟩ := notifyOne_spec hn
  have hsame : answering d'.demanders = answering d.demanders := hwoken.countP DemandPC.isRelisten
  have hcard := Finset.card_erase_add_one howes
  unfold Accounted at hd ⊢
  rw [hsame, howing, needs, List.countP_append, List.countP_append]
  simp only [List.countP_singleton, Need.isTold, Need.isFound]
  simp only [Bool.false_eq_true, if_false]
  omega

theorem accounted_call {i : Nat} {call : DemandCall} (hd : Accounted es d)
    (h : d.Step hash (.call i call) d') : Accounted (es ++ needs d (.call i call)) d' := by
  obtain ⟨x, hi, hidle, rfl⟩ := next_call h
  unfold Accounted at hd ⊢
  rw [needs, List.append_nil]
  have hbegin {pc : DemandPC} (hpc : pc.isRelisten = false) :
      notified (d.demanders.set i (x.at pc)) + answering (d.demanders.set i (x.at pc)) =
        notified d.demanders + answering d.demanders := by
    have hset := holds_set hi (x.at pc)
    rw [Handle.at_listener, Handle.at_pc, hidle, hpc] at hset
    have hnot : DemandPC.idle.isRelisten = false := rfl
    rw [hnot] at hset
    omega
  cases call with
  | pollNext =>
    have : notified _ + answering _ = _ := hbegin (rfl : DemandPC.receiverCount.isRelisten = false)
    simp only [Demanded.begin]
    omega
  | drop =>
    have : notified _ + answering _ = _ := hbegin (rfl : DemandPC.dropListener.isRelisten = false)
    simp only [Demanded.begin]
    omega
  | clone =>
    have hnotified := notified_fresh d.demanders DemandPC.idle
    have hanswering : answering (d.demanders ++ [.fresh .idle]) = answering d.demanders := by
      simp [answering, Handle.fresh, DemandPC.isRelisten]
    simp only [Demanded.begin]
    omega

theorem accounted_demander {i : Nat} {woken : List Nat} (hd : Accounted es d)
    (h : d.Step hash (.demander i woken) d') :
    Accounted (es ++ needs d (.demander i woken)) d' := by
  obtain ⟨x, o, hi, ho, hpass, hkeep, howing, -⟩ := next_demander h
  have hholds := demandStep_holds ho
  have hset := holds_set hi o.handle
  have htold : (needs d (.demander i woken)).countP Need.isTold =
      x.pc.isRelisten.toNat := by
    simp only [needs, pcAt_of_getElem hi, Option.some.injEq]
    cases hp : x.pc <;> rfl
  have hfound : (needs d (.demander i woken)).countP Need.isFound = 0 := by
    simp only [needs]
    split <;> rfl
  have hafter : notified d'.demanders ≤
        notified (d.demanders.set i o.handle) + o.passesOn.toNat ∧
      answering d'.demanders = answering (d.demanders.set i o.handle) := by
    cases hp : o.passesOn with
    | false =>
      rw [hkeep hp]
      exact ⟨Nat.le_add_right _ _, rfl⟩
    | true =>
      obtain ⟨hwoken, -, hone⟩ := notifyOne_spec (hpass hp)
      exact ⟨hone, hwoken.countP DemandPC.isRelisten⟩
  unfold Accounted at hd ⊢
  rw [howing, List.countP_append, List.countP_append, htold, hfound]
  omega

theorem accounted_step (hd : Accounted es d) (h : d.Step hash a d') :
    Accounted (es ++ needs d a) d' := by
  cases a with
  | channel a => exact accounted_channel hd h
  | notify r woken => exact accounted_notify hd h
  | call i call => exact accounted_call hd h
  | demander i woken => exact accounted_demander hd h

/-- In every interleaving, the `OnDemandReceiver`s tell at most as many needs as the receivers have
found, and the channel is as it can be without them. -/
theorem told_le_found (h : Run (Demanded.Step hash) (.init limit unique) as d) :
    (needHistory hash limit unique as).countP Need.isTold ≤
        (needHistory hash limit unique as).countP Need.isFound ∧
      Reachable hash limit unique d.state := by
  have hrun : Accounted ([] ++ needHistory hash limit unique as) d :=
    h.outputs Accounted (fun _ _ _ _ => accounted_step) accounted_init
  rw [List.nil_append, Accounted] at hrun
  exact ⟨by omega, channel_run h⟩

/-- A receiver finds the queue empty, and an `OnDemandReceiver` that listens is told. -/
def needTrace : List (DemandAct Nat) :=
  [.call 0 .pollNext, .demander 0 [], .demander 0 [], .demander 0 [], .demander 0 [],
    .channel (.callReceiver 0 .pollNext), .channel (.receiver 0 []), .notify 0 [0],
    .call 0 .pollNext, .demander 0 [], .demander 0 [], .demander 0 []]

theorem told_le_found_needTrace : ∃ d : Demanded Nat,
    Run (Demanded.Step id) (.init (.dynamic 5) false) needTrace d ∧
      needHistory id (.dynamic 5) false needTrace = [.found 0, .noted 0, .told 0] ∧
      Reachable id (.dynamic 5) false d.state := by
  obtain ⟨d, hrun, -⟩ := run_of_exec_map (Demanded.next id) (.init (.dynamic 5) false) needTrace
    (fun _ => true) rfl
  exact ⟨d, hrun, rfl, (told_le_found hrun).2⟩

/-! ### No need is lost that somebody listens for -/

/-- Whoever notifies finds an `OnDemandReceiver` that listens. -/
def Heard (d : Demanded α) : DemandAct α → Prop
  | .notify _ _ => ∃ x ∈ d.demanders, x.listener.isSome = true
  | .demander i _ => ∀ x ∈ d.demanders[i]?, ∀ o ∈ demandStep d.state.channel.receiverCount x,
      o.passesOn = true → ∃ y ∈ d.demanders.set i o.handle, y.listener.isSome = true
  | _ => True

instance (d : Demanded α) : (a : DemandAct α) → Decidable (Heard d a)
  | .channel _ | .call _ _ => inferInstanceAs (Decidable True)
  | .notify _ _ => inferInstanceAs (Decidable (∃ _ ∈ _, _))
  | .demander _ _ => inferInstanceAs (Decidable (∀ _ ∈ _, ∀ _ ∈ _, _ → _))

/-- Since the last answer a receiver has notified. -/
def unanswered (es : List Need) : Bool :=
  es.foldl (fun waiting e =>
    match e with
    | .found _ => waiting
    | .noted _ => true
    | .told _ => false) false

/-- The handle has a notification, or has taken one and not answered. -/
def Holds (x : Handle DemandPC) : Prop := x.listener = some true ∨ x.pc = .relisten

/-- A handle that is about to listen has no listener. -/
def Fresh (x : Handle DemandPC) : Prop := x.pc = .listen → x.listener = none

/-- A need that has been noted and not answered is with an `OnDemandReceiver`. -/
structure Due (es : List Need) (d : Demanded α) : Prop where
  fresh : ∀ x ∈ d.demanders, Fresh x
  held : unanswered es = true → ∃ x ∈ d.demanders, Holds x

theorem unanswered_append (es es' : List Need) : unanswered (es ++ es') =
    es'.foldl (fun waiting e =>
      match e with
      | .found _ => waiting
      | .noted _ => true
      | .told _ => false) (unanswered es) := by
  rw [unanswered, List.foldl_append]
  rfl

theorem fresh_woken {hs hs' : List (Handle DemandPC)} (hw : Woken hs hs')
    (h : ∀ x ∈ hs, Fresh x) : ∀ x ∈ hs', Fresh x := by
  refine hw.forall ?_ h
  rintro x x' (rfl | ⟨hl, rfl⟩) hx hp
  · exact hx hp
  · cases hl.symm.trans (hx hp)

/-- After a `notify(1)` that somebody listens for, an `OnDemandReceiver` is notified. -/
theorem holds_notified {hs hs' : List (Handle DemandPC)} {woken : List Nat}
    (hn : notifyOne woken hs = some hs') (h : ∃ x ∈ hs, x.listener.isSome = true) :
    ∃ x ∈ hs', Holds x := by
  obtain ⟨hw, hnotified, -⟩ := notifyOne_spec hn
  have hlisten : ∃ x ∈ hs', x.listener.isSome = true := by
    refine hw.exists ?_ h
    rintro x x' (rfl | ⟨_, rfl⟩) hx
    · exact hx
    · rfl
  obtain ⟨x, hx, hl⟩ := hnotified hlisten
  exact ⟨x, hx, .inl hl⟩

/-- An operation keeps what it holds, passes it on, or answers. -/
theorem demandStep_keeps {n : Nat} {x : Handle DemandPC} {o : DemandOutcome} (hx : Fresh x)
    (h : demandStep n x = some o) :
    Fresh o.handle ∧
      ((Holds x → Holds o.handle) ∨ o.passesOn = true ∨ x.pc = .relisten) := by
  unfold Fresh at hx ⊢
  cases hp : x.pc <;> simp only [demandStep, hp] at h <;> (repeat' split at h) <;> cases h <;>
    simp_all [Holds, Decidable.not_or_of_imp]

theorem due_demander {i : Nat} {woken : List Nat} (hd : Due es d)
    (hheard : Heard d (.demander i woken)) (h : d.Step hash (.demander i woken) d') :
    Due (es ++ needs d (.demander i woken)) d' := by
  obtain ⟨x, o, hi, ho, hpass, hkeep, -, -⟩ := next_demander h
  obtain ⟨hfresh, hkeeps⟩ := demandStep_keeps (hd.fresh x (List.mem_of_getElem? hi)) ho
  have hset : ∀ y ∈ d.demanders.set i o.handle, Fresh y := forall_set hd.fresh hfresh
  have hun (h : unanswered (es ++ needs d (.demander i woken)) = true) :
      x.pc ≠ .relisten ∧ unanswered es = true := by
    rw [unanswered_append, needs, pcAt_of_getElem hi] at h
    by_cases hanswer : x.pc = .relisten
    · simp [hanswer] at h
    · exact ⟨hanswer, by simpa [hanswer] using h⟩
  cases hp : o.passesOn with
  | true =>
    have hn := hpass hp
    exact ⟨fresh_woken (notifyOne_spec hn).1 hset, fun _ => holds_notified hn (hheard x hi o ho hp)⟩
  | false =>
    rw [hp] at hkeeps
    refine ⟨by rwa [hkeep hp], fun hwait => ?_⟩
    obtain ⟨hanswer, hwait⟩ := hun hwait
    rw [hkeep hp]
    rcases hkeeps with hholds | hpasses | hrelisten
    · exact exists_set hi hholds (hd.held hwait)
    · cases hpasses
    · exact absurd hrelisten hanswer

theorem due_call {i : Nat} {call : DemandCall} (hd : Due es d)
    (h : d.Step hash (.call i call) d') : Due (es ++ needs d (.call i call)) d' := by
  obtain ⟨x, hi, hidle, rfl⟩ := next_call h
  have hbegin (pc : DemandPC) : Holds x → Holds (x.at pc) := by
    rintro (hl | hp)
    · exact .inl hl
    · rw [hidle] at hp
      cases hp
  rw [needs, List.append_nil]
  cases call with
  | pollNext =>
    refine ⟨forall_set hd.fresh ?_, fun hun => exists_set hi (hbegin _) (hd.held hun)⟩
    rintro ⟨⟩
  | drop =>
    refine ⟨forall_set hd.fresh ?_, fun hun => exists_set hi (hbegin _) (hd.held hun)⟩
    rintro ⟨⟩
  | clone =>
    constructor
    · intro y hy
      rcases List.mem_append.mp hy with hy | hy
      · exact hd.fresh y hy
      · obtain rfl := List.mem_singleton.mp hy
        exact fun _ => rfl
    · intro hun
      obtain ⟨y, hy, hholds⟩ := hd.held hun
      exact ⟨y, List.mem_append_left _ hy, hholds⟩

theorem due_step (hd : Due es d) (h : Guarded Heard (Demanded.Step hash) d a d') :
    Due (es ++ needs d a) d' := by
  obtain ⟨hheard, h⟩ := h
  cases a with
  | channel a =>
    obtain ⟨-, -, -, hsame⟩ := next_channel h
    refine ⟨by rw [hsame]; exact hd.fresh, fun hun => ?_⟩
    rw [hsame]
    apply hd.held
    rw [unanswered_append, needs] at hun
    cases hf : finds d.state a <;> simpa [hf] using hun
  | notify r woken =>
    have hn := (next_notify h).2.1
    exact ⟨fresh_woken (notifyOne_spec hn).1 hd.fresh, fun _ => holds_notified hn hheard⟩
  | call i call => exact due_call hd h
  | demander i woken => exact due_demander hd hheard h

theorem due_init : Due [] (.init limit unique : Demanded α) := by
  refine ⟨fun x hx => ?_, fun hun => by cases hun⟩
  obtain rfl := List.mem_singleton.mp hx
  exact fun _ => rfl

/-- In every interleaving in which an `OnDemandReceiver` listens whenever a receiver notifies, a
need that has been noted stays with an `OnDemandReceiver` until one has answered. -/
theorem noted_due (h : Run (Guarded Heard (Demanded.Step hash)) (.init limit unique) as d)
    (hun : unanswered (needHistory hash limit unique as) = true) :
    ∃ x ∈ d.demanders, Holds x := by
  have hrun : Due ([] ++ needHistory hash limit unique as) d :=
    h.outputs_of (fun _ _ _ hst => hst.2) Due (fun _ _ _ _ => due_step) due_init
  exact hrun.held hun

/-- Two `OnDemandReceiver`s listen, and the one that is notified is dropped. -/
def passTrace : List (DemandAct Nat) :=
  [.call 0 .clone, .call 0 .pollNext, .demander 0 [], .demander 0 [], .demander 0 [],
    .demander 0 [], .call 1 .pollNext, .demander 1 [], .demander 1 [], .demander 1 [],
    .demander 1 [], .channel (.callReceiver 0 .pollNext), .channel (.receiver 0 []),
    .notify 0 [0], .call 0 .drop, .demander 0 [1]]

theorem noted_due_passTrace : ∃ d : Demanded Nat,
    Run (Guarded Heard (Demanded.Step id)) (.init (.dynamic 5) false) passTrace d ∧
      ∃ x ∈ d.demanders, Holds x := by
  obtain ⟨d, hrun, -⟩ := guarded_run_of_exec Heard (Demanded.next id) (.init (.dynamic 5) false)
    passTrace (fun _ => true) rfl
  exact ⟨d, hrun, noted_due hrun rfl⟩

/-- A receiver that notifies before anybody listens has asked in vain. -/
example : (exec (Demanded.next id) (.init (.dynamic 5) false : Demanded Nat)
    [.channel (.callReceiver 0 .pollNext), .channel (.receiver 0 []), .notify 0 [],
      .call 0 .pollNext, .demander 0 [], .demander 0 [], .demander 0 [], .demander 0 []]).map
      (fun d => d.demanders) = some [⟨.idle, some false, true⟩] := rfl

end Pewpew.ProviderChannel
