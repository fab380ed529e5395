import Pewpew.Library.Transition

/-! A sender of values that waits for room: what it hands over, through all polls and the drop. -/
namespace Pewpew.BlockSender

open Transition

variable {ε ν : Type}

/-- What `poll_ready` answers: `Ready(Ok)`, `Pending` or `Ready(Err)`. -/
inductive Readiness where
  | ready
  | pending
  | closed
  deriving DecidableEq, Repr

/-- What the iterator answers, what becomes of its values, and what a poll answers: `none` is
`Pending`. -/
inductive Event (ε ν : Type) where
  | next (r : Option (Except ε ν))
  | handed (v : ν)
  | refused (v : ν)
  | polled (r : Option (Except ε Unit))

/-- The provider or logger: what it answers may depend on all that has happened. -/
structure Target (ε ν : Type) where
  pollReady : List (Event ε ν) → Readiness
  startSend : List (Event ε ν) → ν → Bool
  pollFlush : List (Event ε ν) → Bool

/-- A `BlockSender`. `taken` counts the calls of `values.next()`; a poll is under way where
`polling`, the last one where `dropped`. -/
structure State (ε ν : Type) where
  valueAdded : Bool
  nextValue : Option ν
  taken : Nat
  polling : Bool
  dropped : Bool
  history : List (Event ε ν)

/-- `BlockSender::new`. -/
def new : State ε ν := ⟨false, none, 0, false, false, []⟩

namespace State

-- `values` gives the answer to each call of `values.next()`
variable (values : Nat → Option (Except ε ν)) (tx : Target ε ν) (s : State ε ν)

def record (e : Event ε ν) : State ε ν := { s with history := s.history ++ [e] }

/-- The poll returns. -/
def answer (r : Option (Except ε Unit)) : State ε ν :=
  { s.record (.polled r) with polling := false }

/-- The stashed value, or else the next one of the iterator. -/
def fetch : Option (Except ε ν) × State ε ν :=
  match s.nextValue with
  | some v => (some (.ok v), { s with nextValue := none })
  | none =>
    let r := values s.taken
    (r, { s.record (.next r) with taken := s.taken + 1 })

/-- The end of `poll`, after the loop. -/
def finish : State ε ν :=
  if s.valueAdded && tx.pollFlush s.history then s.answer none else s.answer (some (.ok ()))

/-- `poll_ready` and `start_send`, with the rest of `poll` where they end the loop. -/
def offer (v : ν) : State ε ν :=
  match tx.pollReady s.history with
  | .ready =>
    if tx.startSend s.history v then { s.record (.handed v) with valueAdded := true }
    else (s.record (.refused v)).finish tx
  | .pending => { s with nextValue := some v }.answer none
  | .closed => (s.record (.refused v)).finish tx

/-- One round of the loop of `poll`. -/
def round : State ε ν :=
  let f := s.fetch values
  match f.1 with
  | some (.ok v) => f.2.offer tx v
  | some (.error e) => f.2.answer (some (.error e))
  | none => f.2.finish tx

end State

inductive Act where
  | poll
  | drop
  | round

/-- `drop` polls once more. -/
def next (values : Nat → Option (Except ε ν)) (tx : Target ε ν) (s : State ε ν) :
    Act → Option (State ε ν)
  | .poll => if s.polling || s.dropped then none else some { s with polling := true }
  | .drop =>
    if s.polling || s.dropped then none else some { s with polling := true, dropped := true }
  | .round => if s.polling then some (s.round values tx) else none

def Step (values : Nat → Option (Except ε ν)) (tx : Target ε ν) (s : State ε ν) (a : Act)
    (t : State ε ν) : Prop :=
  next values tx s a = some t

/-! ### What has happened -/

def handed : List (Event ε ν) → List ν :=
  List.filterMap fun
    | .handed v => some v
    | _ => none

def refused : List (Event ε ν) → List ν :=
  List.filterMap fun
    | .refused v => some v
    | _ => none

/-- The values that have been taken from the iterator. -/
def fetched : List (Event ε ν) → List ν :=
  List.filterMap fun
    | .next (some (.ok v)) => some v
    | _ => none

/-- The iterator has yielded an error. -/
def Failed (h : List (Event ε ν)) : Prop := ∃ e, .next (some (.error e)) ∈ h

/-- The future has resolved. -/
def Resolved (h : List (Event ε ν)) : Prop := ∃ r, .polled (some r) ∈ h

/-- The values among the first `n` answers of the iterator. -/
def firstValues (values : Nat → Option (Except ε ν)) (n : Nat) : List ν :=
  (List.range n).filterMap fun k => (values k).bind Except.toOption

/-- The first `n` answers of the iterator are no errors. -/
def NoError (values : Nat → Option (Except ε ν)) (n : Nat) : Prop :=
  ∀ k < n, ∀ e, values k ≠ some (.error e)

/-- A value may be handed over after `h`: all values taken before it have been, the iterator has
not yielded an error, and the future has not resolved. -/
structure Due (h : List (Event ε ν)) (v : ν) : Prop where
  inOrder : fetched h = handed h ++ [v]
  noError : ¬ Failed h
  pending : ¬ Resolved h

/-- The values handed over are a prefix of those before the first error, and each was due. -/
structure Delivers (values : Nat → Option (Except ε ν)) (h : List (Event ε ν)) : Prop where
  isPrefix : ∃ n, NoError values n ∧ handed h <+: firstValues values n
  due : ∀ before v after, h = before ++ .handed v :: after → Due before v

/-- The iterator has yielded an error, the target has refused a value, or the future has
resolved. -/
def Ended (h : List (Event ε ν)) : Prop := Failed h ∨ refused h ≠ [] ∨ Resolved h

/-- The target is ready after `h`, and takes the value. -/
structure Target.Takes (tx : Target ε ν) (h : List (Event ε ν)) (v : ν) : Prop where
  ready : tx.pollReady h = .ready
  taken : tx.startSend h v = true

/-- A poll or a drop after the end meets no value that the target would take: neither the stashed
one nor, where there is none, the next one that the iterator yields. -/
def Clear (values : Nat → Option (Except ε ν)) (tx : Target ε ν) (s : State ε ν) : Act → Prop
  | .round => Ended s.history →
    (∀ v, s.nextValue = some v → ¬ tx.Takes s.history v) ∧
    (s.nextValue = none → ∀ v, values s.taken = some (.ok v) →
      ¬ tx.Takes (s.history ++ [.next (some (.ok v))]) v)
  | _ => True

/-- The iterator yields no value behind its first error, nor behind its end. -/
def NoValueAfter (values : Nat → Option (Except ε ν)) : Prop :=
  ∀ j k, j < k → (∀ v, values j ≠ some (.ok v)) → ∀ v, values k ≠ some (.ok v)

/-- A target that has refused a value takes no more of them. -/
def Target.StaysClosed (tx : Target ε ν) : Prop := ∀ h v, refused h ≠ [] → ¬ tx.Takes h v

variable {values : Nat → Option (Except ε ν)} {tx : Target ε ν} {s t : State ε ν} {a : Act}
  {as : List Act} {h : List (Event ε ν)} {e : Event ε ν} {v : ν} {n : Nat} {held : List ν}

@[simp] theorem handed_append (h h' : List (Event ε ν)) :
    handed (h ++ h') = handed h ++ handed h' := List.filterMap_append

@[simp] theorem refused_append (h h' : List (Event ε ν)) :
    refused (h ++ h') = refused h ++ refused h' := List.filterMap_append

@[simp] theorem fetched_append (h h' : List (Event ε ν)) :
    fetched (h ++ h') = fetched h ++ fetched h' := List.filterMap_append

theorem firstValues_succ (values : Nat → Option (Except ε ν)) (n : Nat) :
    firstValues values (n + 1) =
      firstValues values n ++ ((values n).bind Except.toOption).toList := by
  rw [firstValues, List.range_succ, List.filterMap_append]
  cases h : (values n).bind Except.toOption <;> simp [firstValues, h]

/-! ### The property, event by event -/

theorem handed_snoc (he : ∀ v, e ≠ .handed v) : handed (h ++ [e]) = handed h := by
  cases e with
  | handed v => exact absurd rfl (he v)
  | next | refused | polled => simp [handed]

theorem delivers_snoc (he : ∀ v, e ≠ .handed v) :
    Delivers values (h ++ [e]) ↔ Delivers values h := by
  have hsame : handed (h ++ [e]) = handed h := handed_snoc he
  constructor
  · intro hd
    refine ⟨hsame ▸ hd.isPrefix, fun before v after heq => hd.due before v (after ++ [e]) ?_⟩
    simp [heq]
  · intro hd
    refine ⟨hsame.symm ▸ hd.isPrefix, fun before v after heq => ?_⟩
    rcases List.eq_nil_or_concat after with rfl | ⟨after', e', rfl⟩
    · have hlast := List.append_inj_right' heq rfl
      exact absurd (List.singleton_inj.mp hlast) (he v)
    · rw [List.concat_eq_append, ← List.cons_append, ← List.append_assoc] at heq
      exact hd.due before v after' (List.append_inj_left' heq rfl)

/-- How far the iterator has been taken, and which of its values are `held`. -/
structure Tracked (values : Nat → Option (Except ε ν)) (h : List (Event ε ν)) (n : Nat)
    (held : List ν) : Prop where
  fetched : fetched h = firstValues values n
  noError : ¬ Failed h → NoError values n
  inOrder : refused h = [] → BlockSender.fetched h = handed h ++ held
  count : (BlockSender.fetched h).length = (handed h).length + (refused h).length + held.length

/-- A held value is due unless the end has come. -/
theorem Tracked.due_iff (ht : Tracked values h n [v]) : Due h v ↔ ¬ Ended h := by
  constructor
  · rintro ⟨horder, hfailed, hresolved⟩ hend
    have hcount := ht.count
    rw [horder, List.length_append] at hcount
    rcases hend with hend | hend | hend
    · exact hfailed hend
    · exact hend (List.length_eq_zero_iff.mp (by omega))
    · exact hresolved hend
  · intro hend
    have hrefused : refused h = [] := by
      by_contra hne
      exact hend (.inr (.inl hne))
    exact ⟨ht.inOrder hrefused, fun hf => hend (.inl hf), fun hr => hend (.inr (.inr hr))⟩

theorem Tracked.delivers_handed (ht : Tracked values h n [v]) :
    Delivers values (h ++ [.handed v]) ↔ Delivers values h ∧ Due h v := by
  constructor
  · intro hd
    refine ⟨⟨?_, fun before w after heq => hd.due before w (after ++ [.handed v]) ?_⟩,
      hd.due h v [] rfl⟩
    · obtain ⟨m, hm, hpre⟩ := hd.isPrefix
      rw [handed_append] at hpre
      exact ⟨m, hm, (List.prefix_append _ _).trans hpre⟩
    · simp [heq]
  · rintro ⟨hd, hdue⟩
    refine ⟨⟨n, ht.noError hdue.noError, ?_⟩, fun before w after heq => ?_⟩
    · rw [← ht.fetched, hdue.inOrder, handed_append]
      exact List.prefix_rfl
    · rcases List.eq_nil_or_concat after with rfl | ⟨after', e', rfl⟩
      · obtain ⟨rfl, hw⟩ := List.append_inj' heq rfl
        obtain rfl : v = w := by simpa using hw
        exact hdue
      · rw [List.concat_eq_append, ← List.cons_append, ← List.append_assoc] at heq
        exact hd.due before w after' (List.append_inj_left' heq rfl)

/-- An event that does not take the iterator further uses up what it hands over or refuses. -/
theorem Tracked.snoc {held' : List ν} (ht : Tracked values h n held) (he : ∀ r, e ≠ .next r)
    (hheld : held = BlockSender.handed [e] ++ BlockSender.refused [e] ++ held') :
    Tracked values (h ++ [e]) n held' := by
  have hfailed : Failed (h ++ [e]) ↔ Failed h := by
    simp only [Failed, List.mem_append, List.mem_singleton, (he _).symm, or_false]
  have hsame : BlockSender.fetched (h ++ [e]) = BlockSender.fetched h := by
    rw [fetched_append]
    cases e with
    | next r => exact absurd rfl (he r)
    | _ => exact List.append_nil _
  obtain ⟨hfetched, hno, horder, hcount⟩ := ht
  refine ⟨hsame.trans hfetched, fun hf => hno (hfailed.not.mp hf), ?_, ?_⟩
  · intro hr
    rw [refused_append, List.append_eq_nil_iff] at hr
    rw [hsame, horder hr.1, hheld, hr.2, handed_append, List.append_nil, List.append_assoc]
  · rw [hsame, hcount, hheld]
    simp only [handed_append, refused_append, List.length_append]
    omega

theorem Tracked.polled (ht : Tracked values h n held) (r : Option (Except ε Unit)) :
    Tracked values (h ++ [.polled r]) n held :=
  ht.snoc (by simp) rfl

theorem Tracked.handed (ht : Tracked values h n [v]) : Tracked values (h ++ [.handed v]) n [] :=
  ht.snoc (by simp) rfl

theorem Tracked.refused (ht : Tracked values h n [v]) : Tracked values (h ++ [.refused v]) n [] :=
  ht.snoc (by simp) rfl

/-- The iterator is taken one further. -/
theorem Tracked.next (ht : Tracked values h n []) :
    Tracked values (h ++ [.next (values n)]) (n + 1) ((values n).bind Except.toOption).toList := by
  have hone : BlockSender.fetched [(.next (values n) : Event ε ν)] =
      ((values n).bind Except.toOption).toList := by
    rcases values n with _ | _ | _ <;> rfl
  have hnone : BlockSender.handed [(.next (values n) : Event ε ν)] = [] ∧
      BlockSender.refused [(.next (values n) : Event ε ν)] = [] := ⟨rfl, rfl⟩
  obtain ⟨hfetched, hno, horder, hcount⟩ := ht
  refine ⟨?_, fun hf k hk => ?_, ?_, ?_⟩
  · rw [fetched_append, hone, hfetched, firstValues_succ]
  · rcases Nat.lt_succ_iff_lt_or_eq.mp hk with hk | rfl
    · exact hno (fun ⟨e, he⟩ => hf ⟨e, List.mem_append_left _ he⟩) k hk
    · intro e he
      exact hf ⟨e, by simp [he]⟩
  · intro hr
    rw [refused_append, hnone.2, List.append_nil] at hr
    rw [fetched_append, handed_append, hone, hnone.1, horder hr, List.append_nil]
  · simp only [fetched_append, handed_append, refused_append, List.length_append, hone, hnone.1,
      hnone.2, hcount]
    simp

/-- What the fetch of a poll leaves to be sent. -/
theorem Tracked.fetch (ht : Tracked values s.history s.taken s.nextValue.toList) :
    Tracked values (s.fetch values).2.history (s.fetch values).2.taken
      ((s.fetch values).1.bind Except.toOption).toList ∧ (s.fetch values).2.nextValue = none := by
  rw [State.fetch]
  cases hs : s.nextValue with
  | some v =>
    rw [hs] at ht
    exact ⟨ht, rfl⟩
  | none =>
    rw [hs] at ht
    exact ⟨ht.next, hs⟩

theorem delivers_fetch :
    Delivers values (s.fetch values).2.history ↔ Delivers values s.history := by
  rw [State.fetch]
  cases s.nextValue with
  | some v => rfl
  | none => exact delivers_snoc fun v hv => by cases hv

/-- A value that has been fetched is no end. -/
theorem ended_fetch (hf : (s.fetch values).1 = some (.ok v)) :
    Ended (s.fetch values).2.history ↔ Ended s.history := by
  rw [State.fetch] at hf ⊢
  cases hs : s.nextValue with
  | some w => rfl
  | none =>
    simp only [hs] at hf
    simp [Ended, Failed, Resolved, State.record, hf, BlockSender.refused]

/-- The loop has ended. -/
theorem Tracked.finish (ht : Tracked values s.history n held) (tx : Target ε ν) :
    Tracked values (s.finish tx).history n held ∧ (s.finish tx).taken = s.taken ∧
      (s.finish tx).nextValue = s.nextValue := by
  rw [State.finish]
  split
  · exact ⟨ht.polled _, rfl, rfl⟩
  · exact ⟨ht.polled _, rfl, rfl⟩

theorem delivers_finish : Delivers values (s.finish tx).history ↔ Delivers values s.history := by
  rw [State.finish]
  split
  · exact delivers_snoc fun v hv => by cases hv
  · exact delivers_snoc fun v hv => by cases hv

theorem tracked_offer (ht : Tracked values s.history s.taken [v]) (hs : s.nextValue = none) :
    Tracked values (s.offer tx v).history (s.offer tx v).taken (s.offer tx v).nextValue.toList := by
  have hlost : Tracked values ((s.record (.refused v)).finish tx).history
      ((s.record (.refused v)).finish tx).taken
      ((s.record (.refused v)).finish tx).nextValue.toList := by
    obtain ⟨hfinish, htaken, hnext⟩ := Tracked.finish (s := s.record (.refused v)) ht.refused tx
    rw [htaken, hnext]
    exact hs.symm ▸ hfinish
  rw [State.offer]
  cases tx.pollReady s.history with
  | ready =>
    dsimp only
    split
    · rw [State.record, hs]
      exact ht.handed
    · exact hlost
  | pending => exact ht.polled none
  | closed => exact hlost

theorem tracked_round (ht : Tracked values s.history s.taken s.nextValue.toList) :
    Tracked values (s.round values tx).history (s.round values tx).taken
      (s.round values tx).nextValue.toList := by
  obtain ⟨hfetch, hnone⟩ := ht.fetch
  rw [State.round]
  rcases hr : (s.fetch values).1 with _ | e | v
  · rw [hr] at hfetch
    obtain ⟨hfinish, htaken, hnext⟩ := hfetch.finish tx
    dsimp only
    rw [htaken, hnext, hnone]
    exact hfinish
  · rw [hr] at hfetch
    dsimp only [State.answer, State.record]
    rw [hnone]
    exact hfetch.polled _
  · rw [hr] at hfetch
    exact tracked_offer hfetch hnone

/-- A value is handed over, or refused, or kept. -/
theorem delivers_offer (ht : Tracked values s.history s.taken [v]) :
    Delivers values (s.offer tx v).history ↔ Delivers values s.history ∧
      (Ended s.history → ¬ tx.Takes s.history v) := by
  have hlost : Delivers values ((s.record (.refused v)).finish tx).history ↔
      Delivers values s.history :=
    delivers_finish.trans (delivers_snoc fun v hv => by cases hv)
  rw [State.offer]
  cases hready : tx.pollReady s.history with
  | ready =>
    dsimp only
    split
    · next htaken =>
      refine ht.delivers_handed.trans (and_congr_right' ?_)
      rw [ht.due_iff]
      exact ⟨fun hend hend' => absurd hend' hend, fun hend hend' => hend hend' ⟨hready, htaken⟩⟩
    · next htaken =>
      exact hlost.trans (and_iff_left fun _ h => htaken h.taken).symm
  | pending =>
    have hpending : Delivers values (s.history ++ [.polled none]) ↔ Delivers values s.history :=
      delivers_snoc fun v hv => by cases hv
    exact hpending.trans (and_iff_left fun _ h => by cases hready.symm.trans h.ready).symm
  | closed => exact hlost.trans (and_iff_left fun _ h => by cases hready.symm.trans h.ready).symm

/-- What a poll or a drop after the end would offer. -/
theorem clear_round : Clear values tx s .round ↔ (Ended s.history →
    ∀ v, (s.fetch values).1 = some (.ok v) → ¬ tx.Takes (s.fetch values).2.history v) := by
  rw [Clear, State.fetch]
  cases hs : s.nextValue with
  | some w => simp
  | none =>
    refine imp_congr_right fun _ => ?_
    simp only [reduceCtorEq, false_implies, implies_true, true_and, true_implies]
    refine ⟨fun h v hv => ?_, fun h v hv => ?_⟩
    · rw [State.record, hv]
      exact h v hv
    · have hnot := h v hv
      rwa [State.record, hv] at hnot

/-- One round keeps the property exactly where it is clear. -/
theorem delivers_round (ht : Tracked values s.history s.taken s.nextValue.toList) :
    Delivers values (s.round values tx).history ↔
      Delivers values s.history ∧ Clear values tx s .round := by
  rw [← delivers_fetch (s := s)]
  have hfetch := ht.fetch.1
  have hsilent {t : State ε ν} (hno : ∀ v, (s.fetch values).1 ≠ some (.ok v))
      (hd : Delivers values t.history ↔ Delivers values (s.fetch values).2.history) :
      Delivers values t.history ↔
        Delivers values (s.fetch values).2.history ∧ Clear values tx s .round :=
    hd.trans ⟨fun h => ⟨h, clear_round.mpr fun _ v hv => absurd hv (hno v)⟩, And.left⟩
  rw [State.round]
  rcases hr : (s.fetch values).1 with _ | e | v
  · exact hsilent (by simp [hr]) delivers_finish
  · exact hsilent (by simp [hr]) (delivers_snoc fun v hv => by cases hv)
  · rw [hr] at hfetch
    refine (delivers_offer hfetch).trans (and_congr_right' ?_)
    rw [ended_fetch hr, clear_round]
    refine forall_congr' fun hend => ⟨fun h w hw => ?_, fun h => h v hr⟩
    obtain rfl : v = w := by simpa [hr] using hw
    exact h

/-! ### Runs -/

theorem tracked_step (ht : Tracked values s.history s.taken s.nextValue.toList)
    (hs : Step values tx s a t) : Tracked values t.history t.taken t.nextValue.toList := by
  cases a with
  | poll | drop =>
    obtain ⟨-, ht'⟩ := Option.ite_none_left_eq_some.mp hs
    obtain rfl := Option.some.inj ht'
    exact ht
  | round =>
    obtain ⟨-, ht'⟩ := Option.ite_none_right_eq_some.mp hs
    obtain rfl := Option.some.inj ht'
    exact tracked_round ht

theorem delivers_step (ht : Tracked values s.history s.taken s.nextValue.toList)
    (hs : Step values tx s a t) :
    Delivers values t.history ↔ Delivers values s.history ∧ Clear values tx s a := by
  cases a with
  | poll | drop =>
    obtain ⟨-, ht'⟩ := Option.ite_none_left_eq_some.mp hs
    obtain rfl := Option.some.inj ht'
    exact (and_iff_left trivial).symm
  | round =>
    obtain ⟨-, ht'⟩ := Option.ite_none_right_eq_some.mp hs
    obtain rfl := Option.some.inj ht'
    exact delivers_round ht

theorem delivers_run (hrun : Run (Step values tx) s as t)
    (ht : Tracked values s.history s.taken s.nextValue.toList) :
    Delivers values t.history ↔
      Delivers values s.history ∧ Run (Guarded (Clear values tx) (Step values tx)) s as t := by
  induction hrun with
  | refl s => exact ⟨fun h => ⟨h, .refl s⟩, And.left⟩
  | @stepL s u t a as hs hrun ih =>
    rw [ih (tracked_step ht hs), delivers_step ht hs, and_assoc]
    refine and_congr_right' ⟨fun h => .stepL ⟨h.1, hs⟩ h.2, fun h => ?_⟩
    cases h with
    | stepL hs' hrun' =>
      obtain rfl := Option.some.inj (hs'.2.symm.trans hs)
      exact ⟨hs'.1, hrun'⟩

theorem tracked_new : Tracked values (new : State ε ν).history 0 [] where
  fetched := rfl
  noError _ k hk := absurd hk k.not_lt_zero
  inOrder _ := rfl
  count := rfl

theorem delivers_new : Delivers values (new : State ε ν).history := by
  refine ⟨⟨0, fun k hk => absurd hk k.not_lt_zero, List.prefix_rfl⟩, fun before v after h => ?_⟩
  cases before <;> cases h

/-! ### Iterators and targets that stay at their end -/

/-- After the end the target has refused a value, or the iterator has no more. -/
def Spent (values : Nat → Option (Except ε ν)) (s : State ε ν) : Prop :=
  Ended s.history → refused s.history ≠ [] ∨
    s.nextValue = none ∧ ∃ j < s.taken, ∀ v, values j ≠ some (.ok v)

theorem refused_finish : refused (s.finish tx).history = refused s.history := by
  rw [State.finish]
  split <;> exact (refused_append ..).trans (List.append_nil _)

theorem spent_finish (hs : s.nextValue = none) (h : ∃ j < s.taken, ∀ v, values j ≠ some (.ok v)) :
    Spent values (s.finish tx) := by
  rw [State.finish]
  split
  · exact fun _ => .inr ⟨hs, h⟩
  · exact fun _ => .inr ⟨hs, h⟩

/-- With a value in hand only a refusal is an end. -/
theorem spent_offer (h : Ended s.history → refused s.history ≠ []) :
    Spent values (s.offer tx v) := by
  have hlost : Spent values ((s.record (.refused v)).finish tx) := by
    refine fun _ => .inl ?_
    rw [refused_finish, State.record, refused_append]
    simp [refused]
  have hkept : ∀ e : Event ε ν, e = .handed v ∨ e = .polled none → Ended (s.history ++ [e]) →
      refused (s.history ++ [e]) ≠ [] := by
    intro e he hend
    have hended : Ended s.history := by
      rcases he with rfl | rfl <;> simpa [Ended, Failed, Resolved, refused] using hend
    rw [refused_append]
    exact List.append_ne_nil_of_left_ne_nil (h hended) _
  rw [State.offer]
  cases tx.pollReady s.history with
  | ready =>
    dsimp only
    split
    · exact fun hend => .inl (hkept _ (.inl rfl) hend)
    · exact hlost
  | pending => exact fun hend => .inl (hkept _ (.inr rfl) hend)
  | closed => exact hlost

theorem spent_round (hvalues : NoValueAfter values) (h : Spent values s) :
    Spent values (s.round values tx) := by
  rw [State.round]
  cases hs : s.nextValue with
  | some v =>
    rw [State.fetch, hs]
    refine spent_offer fun hend => (h hend).resolve_right fun hnone => ?_
    cases hs.symm.trans hnone.1
  | none =>
    rw [State.fetch, hs]
    rcases hr : values s.taken with _ | e | v
    · exact spent_finish hs ⟨s.taken, Nat.lt_succ_self _, by simp [hr]⟩
    · exact fun _ => .inr ⟨hs, s.taken, Nat.lt_succ_self _, by simp [hr]⟩
    · refine spent_offer fun hend => ?_
      have hended : Ended s.history := by
        simpa [Ended, Failed, Resolved, refused, State.record] using hend
      rcases h hended with hrefused | ⟨-, j, hj, hno⟩
      · intro hnil
        exact hrefused (List.append_eq_nil_iff.mp ((refused_append ..).symm.trans hnil)).1
      · exact absurd hr (hvalues j s.taken hj hno v)

theorem spent_step (hvalues : NoValueAfter values) (h : Spent values s)
    (hs : Step values tx s a t) : Spent values t := by
  cases a with
  | poll | drop =>
    obtain ⟨-, ht⟩ := Option.ite_none_left_eq_some.mp hs
    obtain rfl := Option.some.inj ht
    exact h
  | round =>
    obtain ⟨-, ht⟩ := Option.ite_none_right_eq_some.mp hs
    obtain rfl := Option.some.inj ht
    exact spent_round hvalues h

theorem clear_of_spent (hvalues : NoValueAfter values) (htx : tx.StaysClosed)
    (h : Spent values s) (a : Act) : Clear values tx s a := by
  cases a with
  | poll | drop => trivial
  | round =>
    refine fun hend => ⟨fun v hv htakes => ?_, fun _ v hv htakes => ?_⟩
    · rcases h hend with hrefused | ⟨hnone, -⟩
      · exact htx _ v hrefused htakes
      · cases hv.symm.trans hnone
    · rcases h hend with hrefused | ⟨-, j, hj, hno⟩
      · refine htx _ v ?_ htakes
        rw [refused_append]
        exact List.append_ne_nil_of_left_ne_nil hrefused _
      · exact hvalues j s.taken hj hno v hv

/-- With an iterator that has no value behind its end, and a target that stays closed, a sender
delivers in every run. -/
theorem delivers_closed (hvalues : NoValueAfter values) (htx : tx.StaysClosed)
    (hrun : Run (Step values tx) new as s) : Delivers values s.history := by
  have hspent : Spent values (new : State ε ν) := by
    rintro (⟨e, he⟩ | hne | ⟨r, hr⟩)
    · cases he
    · exact .inl hne
    · cases hr
  refine (delivers_run hrun tracked_new).mpr ⟨delivers_new, ?_⟩
  exact hrun.guarded (Spent values) (fun _ a h => clear_of_spent hvalues htx h a)
    (fun _ _ _ => spent_step hvalues) hspent

/-- A sender delivers in the runs whose polls, and the drop, meet no value after the end that the
target takes, and in no others. -/
theorem delivers_iff (hrun : Run (Step values tx) new as s) :
    Delivers values s.history ↔ Run (Guarded (Clear values tx) (Step values tx)) new as s := by
  rw [delivers_run hrun tracked_new]
  exact and_iff_right delivers_new

/-- An iterator over a list. -/
def listed (items : List (Except ε ν)) (k : Nat) : Option (Except ε ν) := items[k]?

/-- A target that is always ready and takes all. -/
def eager : Target ε ν := ⟨fun _ => .ready, fun _ _ => true, fun _ => false⟩

/-- Two values, and the end. -/
theorem delivers_iff_two : ∃ s : State Nat Nat,
    handed s.history = [4, 5] ∧ (Delivers (listed [.ok 4, .ok 5]) s.history ↔
      Run (Guarded (Clear (listed [.ok 4, .ok 5]) eager) (Step (listed [.ok 4, .ok 5]) eager)) new
        [.poll, .round, .round, .round, .drop, .round] s) := by
  refine ⟨_, ?_, delivers_iff (.stepL rfl (.stepL rfl (.stepL rfl (.stepL rfl (.stepL rfl
    (.stepL rfl (.refl _)))))))⟩
  rfl

/-- The drop of a sender that has failed hands over the value after the error. -/
theorem not_delivers : ¬ ∀ (values : Nat → Option (Except Nat Nat)) (tx : Target Nat Nat)
    (as : List Act) (s : State Nat Nat), Run (Step values tx) new as s →
      Delivers values s.history := by
  intro h
  have hd := h (listed [.error 1, .ok 5]) eager [.poll, .round, .drop, .round] _
    (.stepL rfl (.stepL rfl (.stepL rfl (.stepL rfl (.refl _)))))
  exact (hd.due [.next (some (.error 1)), .polled (some (.error 1)), .next (some (.ok 5))] 5 []
    rfl).noError ⟨1, by simp⟩

end Pewpew.BlockSender
