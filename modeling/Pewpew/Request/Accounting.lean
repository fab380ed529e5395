import Pewpew.Request.RequestMaker

/-! When every request and every error of it is accounted for. -/
namespace Pewpew.Request

open SelectParser SelectParser.Special Effect Traced

/-- The error is the stat of a recoverable error. -/
def Recorded (trace : List Event) (e : Raised TestError) : Prop :=
  ∃ r rtt tags, e.error = .recoverable r ∧
    .responseStat ⟨.recoverableError ⟨e.origin, r⟩, rtt, tags⟩ ∈ trace

/-- A request ends with an error or has a stat, and each of its errors is the one it ends with or
has a stat of its own. -/
structure Accounted (t : Effects Unit) : Prop where
  resolves : (∃ e, t.ending = .error e) ∨ t.ending = .ok () ∧ ∃ s, .responseStat s ∈ t.trace
  noneLost : ∀ e, .raised e ∈ t.trace → t.ending = .error e ∨ Recorded t.trace e

/-- Of a computation whose result is not looked at. -/
structure Settled (t : Effects Unit) : Prop where
  ends : t.ending ≠ .panicked
  counted : ∃ s, .responseStat s ∈ t.trace
  noneLost : ∀ e, .raised e ∈ t.trace → Recorded t.trace e

section Traces

variable {t : Effects Unit} {trace more : List Event} {e : Raised TestError}

theorem Recorded.mono (h : Recorded trace e) (hsub : trace ⊆ more) : Recorded more e := by
  obtain ⟨r, rtt, tags, he, hmem⟩ := h
  exact ⟨r, rtt, tags, he, hsub hmem⟩

theorem recorded_append_iff (hmore : ∀ s, .responseStat s ∉ more) :
    Recorded (trace ++ more) e ↔ Recorded trace e := by
  constructor
  · rintro ⟨r, rtt, tags, he, hmem⟩
    refine ⟨r, rtt, tags, he, ?_⟩
    rcases List.mem_append.mp hmem with h | h
    · exact h
    · exact absurd h (hmore _)
  · intro h
    exact h.mono (List.subset_append_left _ _)

@[simp] theorem stage_ok {α β : Type} (o : Origin) (a : α) (f : α → Effects β) :
    (stage o (.ok a)).andThen f = f a := rfl

@[simp] theorem stage_error_andThen {α β : Type} (o : Origin) (e : TestError) (f : α → Effects β) :
    (stage o (.error e)).andThen f = .fail [.raised ⟨o, e⟩] ⟨o, e⟩ := rfl

theorem returnOnce_stat (returns : List AutoReturn) (trace : List Event) (s : ResponseStat) :
    .responseStat s ∉ (RequestMaker.returnOnce returns trace).trace := by
  rw [RequestMaker.returnOnce, done_trace]
  split <;> simp

theorem returnOnce_raised (returns : List AutoReturn) (trace : List Event) (e : Raised TestError) :
    .raised e ∉ (RequestMaker.returnOnce returns trace).trace := by
  rw [RequestMaker.returnOnce, done_trace]
  split <;> simp

/-- Behind the auto-returns nothing of the result is left. -/
theorem accounted_always_iff (returns : List AutoReturn) :
    Accounted (t.always (RequestMaker.returnOnce returns)) ↔ Settled t := by
  by_cases hp : t.ending = .panicked
  · rw [always_panicked hp]
    constructor
    · intro h
      rcases h.resolves with ⟨e, he⟩ | ⟨he, -⟩ <;> simp at he
    · intro h
      exact absurd hp h.ends
  rw [always_of_not_panicked hp]
  constructor
  · intro h
    refine ⟨hp, ?_, fun e he => ?_⟩
    · rcases h.resolves with ⟨e, he⟩ | ⟨-, s, hs⟩
      · simp [RequestMaker.returnOnce] at he
      · rcases List.mem_append.mp hs with hs | hs
        · exact ⟨s, hs⟩
        · exact absurd hs (returnOnce_stat _ _ s)
    · rcases h.noneLost e (List.mem_append_left _ he) with h | h
      · simp [RequestMaker.returnOnce] at h
      · exact (recorded_append_iff (returnOnce_stat returns t.trace)).mp h
  · intro h
    obtain ⟨s, hs⟩ := h.counted
    refine ⟨.inr ⟨rfl, s, List.mem_append_left _ hs⟩, fun e he => .inr ?_⟩
    rcases List.mem_append.mp he with he | he
    · exact (h.noneLost e he).mono (List.subset_append_left _ _)
    · exact absurd he (returnOnce_raised _ _ e)

end Traces

section Senders

variable {x : Externals} {w : World} {h : BodyHandler} {d : Json} {i : Nat} {o : Outgoing}

/-- Senders only send. -/
theorem sender_sends {accepts : Option Nat} {og : Origin} {items : Items} {ev : Event}
    (hev : ev ∈ (sender accepts og items).1) : ∃ v, ev = .sent og v := by
  obtain ⟨v, -, hv⟩ := List.mem_map.mp hev
  exact ⟨v, hv.symm⟩

theorem blockSender_sends {og : Origin} {items : Items} {ev : Event}
    (hev : ev ∈ (blockSender w og items).1) : ∃ v, ev = .sent og v := by
  rcases List.mem_append.mp hev with hev | hev
  · exact sender_sends hev
  · split at hev
    · exact sender_sends hev
    · cases hev

theorem errorLogs_sends {outgoing : List Outgoing} {e : Raised RecoverableError}
    {l : List Event × Option (Raised RecoverableError)} (hl : l ∈ errorLogs x w outgoing d e) :
    (∀ ev ∈ l.1, ∃ og v, ev = .sent og v) ∧
      ∀ f ∈ l.2, ∃ i, f.origin = .errorLog e.origin i := by
  obtain ⟨⟨o, i⟩, -, hl⟩ := List.mem_filterMap.mp hl
  dsimp only at hl
  split at hl
  · split at hl
    · obtain rfl := Option.some.inj hl
      refine ⟨fun ev hev => ⟨_, blockSender_sends hev⟩, fun f hf => ⟨i, ?_⟩⟩
      obtain ⟨e, -, rfl⟩ := Option.map_eq_some_iff.mp hf
      rfl
    · simp at hl
  · simp at hl

/-- All that a stat does is to be sent, and to be logged. -/
theorem sendResponseStat_spec (h : BodyHandler) (d : Json) (kind : StatKind) (rtt : Option Nat) :
    (∃ tags, (h.sendResponseStat x w d kind rtt).now = [.responseStat ⟨kind, rtt, tags⟩]) ∧
      (∀ ev ∈ (h.sendResponseStat x w d kind rtt).later, ∃ og v, ev = .sent og v) ∧
      ∀ f ∈ (h.sendResponseStat x w d kind rtt).failures, ∃ og i, f.origin = .errorLog og i := by
  refine ⟨⟨_, rfl⟩, fun ev hev => ?_, fun f hf => ?_⟩
  · obtain ⟨l, hl, hmem⟩ := List.mem_flatMap.mp hev
    cases kind with
    | response status => simp at hl
    | recoverableError e => exact (errorLogs_sends hl).1 ev hmem
  · obtain ⟨l, hl, hmem⟩ := List.mem_filterMap.mp hf
    cases kind with
    | response status => simp at hl
    | recoverableError e =>
      obtain ⟨i, hi⟩ := (errorLogs_sends hl).2 f hmem
      exact ⟨_, i, hi⟩

theorem sendResponseStat_response (h : BodyHandler) (d : Json) (status : Nat) (rtt : Option Nat) :
    h.sendResponseStat x w d (.response status) rtt =
      ⟨[.responseStat ⟨.response status, rtt, evaluateTags x h.tags d⟩], [], []⟩ := rfl

/-- A `block` send that comes to an error, which nobody looks at. -/
def LosesError (x : Externals) (w : World) (d : Json) (i : Nat) (o : Outgoing) : Prop :=
  o.send = .block ∧ ∃ items e, o.select.asIter x d = .ok items ∧
    (drain (w.accepts (.outgoing i)) (sentOf items)).2 = some e

/-- What one outgoing does: its errors are its own, and each is recorded unless it is lost. -/
structure OneSpec (s : Sending) (i : Nat) (loses : Prop) : Prop where
  stats : ∀ stat, .responseStat stat ∈ s.now ++ s.later →
    ¬loses ∧ ∃ r, stat.kind = .recoverableError ⟨.outgoing i, r⟩
  raised : ∀ e, .raised e ∈ s.now ++ s.later → e.origin = .outgoing i ∧
    (loses ∨ Recorded (s.now ++ s.later) e)
  lost : loses → ∃ e, .raised e ∈ s.now ++ s.later
  failures : ∀ f ∈ s.failures, ∃ og i, f.origin = .errorLog og i

theorem recordError_spec (h : BodyHandler) (d : Json) (i : Nat) (r : RecoverableError) :
    OneSpec (h.recordError x w d ⟨.outgoing i, r⟩) i False := by
  obtain ⟨⟨tags, hnow⟩, hlater, hfail⟩ :=
    sendResponseStat_spec (x := x) (w := w) h d (.recoverableError ⟨.outgoing i, r⟩) none
  have hevents : ∀ ev ∈ (h.recordError x w d ⟨.outgoing i, r⟩).now ++
      (h.recordError x w d ⟨.outgoing i, r⟩).later,
      ev = .raised ⟨.outgoing i, .recoverable r⟩ ∨
        ev = .responseStat ⟨.recoverableError ⟨.outgoing i, r⟩, none, tags⟩ ∨
        ∃ og v, ev = .sent og v := by
    intro ev hev
    rcases List.mem_append.mp hev with hev | hev
    · rw [BodyHandler.recordError, hnow] at hev
      rcases List.mem_cons.mp hev with rfl | hev
      · exact .inl rfl
      · exact .inr (.inl (List.mem_singleton.mp hev))
    · exact .inr (.inr (hlater ev hev))
  refine ⟨fun stat hstat => ⟨id, ?_⟩, fun e he => ?_, False.elim, hfail⟩
  · rcases hevents _ hstat with h | h | ⟨og, v, h⟩
    · cases h
    · cases h
      exact ⟨r, rfl⟩
    · cases h
  · rcases hevents _ he with h | h | ⟨og, v, h⟩
    · cases h
      refine ⟨rfl, .inr ⟨r, none, tags, rfl, List.mem_append_left _ ?_⟩⟩
      rw [BodyHandler.recordError, hnow]
      simp
    · cases h
    · cases h

/-- What is sent before does not matter. -/
theorem OneSpec.of_sent {s : Sending} {loses : Prop} (hs : OneSpec s i loses) {now : List Event}
    (hnow : ∀ ev ∈ now, ∃ og v, ev = .sent og v) :
    OneSpec (Sending.append ⟨now, [], []⟩ s) i loses := by
  have hiff : ∀ ev, (∀ og v, ev ≠ .sent og v) →
      (ev ∈ (Sending.append ⟨now, [], []⟩ s).now ++ (Sending.append ⟨now, [], []⟩ s).later ↔
        ev ∈ s.now ++ s.later) := by
    intro ev hev
    have hnot : ev ∉ now := by
      intro hmem
      obtain ⟨og, v, h⟩ := hnow ev hmem
      exact hev og v h
    simp [Sending.append, hnot]
  refine ⟨fun stat h => hs.stats stat ((hiff _ (by simp)).mp h), fun e h => ?_, fun h => ?_, ?_⟩
  · obtain ⟨ho, h⟩ := hs.raised e ((hiff _ (by simp)).mp h)
    refine ⟨ho, h.imp_right fun h => h.mono fun ev hev => ?_⟩
    simp only [Sending.append, List.nil_append, List.append_assoc]
    exact List.mem_append_right _ hev
  · obtain ⟨e, he⟩ := hs.lost h
    exact ⟨e, (hiff _ (by simp)).mpr he⟩
  · simpa [Sending.append] using hs.failures

theorem sendEagerly_spec (h : BodyHandler) (d : Json) (accepts : Option Nat) (i : Nat)
    (o : Outgoing) (items : Items) : OneSpec (h.sendEagerly x w d accepts i o items) i False := by
  have hsent : ∀ ev ∈ (if o.isLogger then [] else (sender accepts (.outgoing i) items).1),
      ∃ og v, ev = .sent og v := by
    intro ev hev
    split at hev
    · simp at hev
    · exact ⟨_, sender_sends hev⟩
  have hnil : OneSpec ⟨[], [], []⟩ i False := ⟨by simp, by simp, False.elim, by simp⟩
  rw [BodyHandler.sendEagerly]
  cases he : (sender accepts (.outgoing i) items).2 with
  | none => simpa [he, Sending.append] using hnil.of_sent hsent
  | some e =>
    obtain ⟨e', -, rfl⟩ := Option.map_eq_some_iff.mp he
    simpa [he] using (recordError_spec h d i _).of_sent hsent

theorem sendOne_spec (h : BodyHandler) (d : Json) (i : Nat) (o : Outgoing) :
    OneSpec (h.sendOne x w d i o) i (LosesError x w d i o) := by
  have hnever : ∀ {s : Sending}, ¬LosesError x w d i o → OneSpec s i False →
      OneSpec s i (LosesError x w d i o) := by
    intro s hl hs
    rwa [show LosesError x w d i o ↔ False from iff_of_false hl id]
  rw [BodyHandler.sendOne]
  cases hi : o.select.asIter x d with
  | error e =>
    refine hnever ?_ (recordError_spec h d i _)
    rintro ⟨-, items, e', hitems, -⟩
    simp [hi] at hitems
  | ok items =>
    cases hb : o.send with
    | force => exact hnever (by simp [LosesError, hb]) (sendEagerly_spec h d _ i o items)
    | ifNotFull => exact hnever (by simp [LosesError, hb]) (sendEagerly_spec h d _ i o items)
    | block =>
      have hsent : ∀ ev ∈ (blockSender w (.outgoing i) items).1, ∃ og v, ev = .sent og v :=
        fun ev hev => ⟨_, blockSender_sends hev⟩
      cases he : (drain (w.accepts (.outgoing i)) (sentOf items)).2 with
      | none =>
        have hno : (blockSender w (.outgoing i) items).2 = none := by simp [blockSender, sender, he]
        refine ⟨fun stat hs => ?_, fun e' hs => ?_, ?_, by simp⟩
        · obtain ⟨og, v, h⟩ := hsent _ (by simpa [hno] using hs)
          cases h
        · obtain ⟨og, v, h⟩ := hsent _ (by simpa [hno] using hs)
          cases h
        · rintro ⟨-, items', e', hitems, hdrain⟩
          obtain rfl : items = items' := Except.ok.inj (hi.symm.trans hitems)
          simp [he] at hdrain
      | some e =>
        have hsome : (blockSender w (.outgoing i) items).2 =
            some ⟨.outgoing i, .executingExpression e⟩ := by simp [blockSender, sender, he]
        have hloses : LosesError x w d i o := ⟨hb, items, e, hi, he⟩
        refine ⟨fun stat hs => ?_, fun e' hs => ⟨?_, .inl hloses⟩, fun _ => ?_, by simp⟩
        · obtain ⟨og, v, h⟩ := hsent _ (by simpa [hsome] using hs)
          cases h
        · rcases List.mem_append.mp hs with hs | hs
          · simp at hs
          · rcases List.mem_append.mp hs with hs | hs
            · obtain ⟨og, v, h⟩ := hsent _ hs
              cases h
            · obtain rfl : e' = Raised.toTest ⟨.outgoing i, .executingExpression e⟩ := by
                simpa [hsome] using hs
              rfl
        · exact ⟨Raised.toTest ⟨.outgoing i, .executingExpression e⟩, by simp [hsome]⟩

end Senders

section Handler

variable {x : Externals} {w : World} {h : BodyHandler} {returns : List AutoReturn}
  {result : Except RecoverableError (Option Json)}

theorem logDelays_stat {delays : List String} {tags : List (String × String)} {ev : Event}
    (hev : ev ∈ logDelays delays tags) :
    ∃ p, ev = .responseStat ⟨.recoverableError ⟨.delay, .providerDelay p⟩, none, tags⟩ := by
  obtain ⟨p, -, rfl⟩ := List.mem_map.mp hev
  exact ⟨p, rfl⟩

/-- The trace of the body handler: the delays, its result, the stat of the response, and some of
the auto-returns. -/
theorem handle_trace (x : Externals) (w : World) (h : BodyHandler)
    (result : Except RecoverableError (Option Json)) (returns : List AutoReturn) :
    ∃ tags, ∃ more ⊆ returns.map Event.autoReturn, ∀ ev,
      ev ∈ (h.handle x w result returns).trace ↔
        ev ∈ logDelays h.delays tags ∨
          ev ∈ (h.sendResult x w result).now ++ (h.sendResult x w result).later ∨
          ev = .responseStat ⟨.response h.status, some h.rtt, tags⟩ ∨ ev ∈ more := by
  simp only [BodyHandler.handle, sendResponseStat_response]
  split
  · refine ⟨evaluateTags x h.tags (h.data result), _, List.Subset.refl _, fun ev => ?_⟩
    simp only [done_trace, Sending.append, List.mem_append, List.mem_singleton]
    grind
  · refine ⟨evaluateTags x h.tags (h.data result),
      if w.returnsInTime then returns.map Event.autoReturn else [], ?_, fun ev => ?_⟩
    · split <;> simp
    simp only [fail_trace, Sending.append, List.mem_append, List.mem_singleton]
    grind

theorem sendIncluded_mem {d : Json} {ev : Event} :
    ev ∈ (h.sendIncluded x w d).now ++ (h.sendIncluded x w d).later ↔
      ∃ o i, h.outgoing[i]? = some o ∧ i ∈ h.included ∧
        ev ∈ (h.sendOne x w d i o).now ++ (h.sendOne x w d i o).later := by
  simp only [BodyHandler.sendIncluded, Sending.concat, List.mem_append, List.mem_flatMap,
    List.mem_map, List.mem_filter, decide_eq_true_eq, Prod.exists, List.mem_zipIdx_iff_getElem?]
  constructor
  · rintro (⟨_, ⟨o, i, ⟨ho, hi⟩, rfl⟩, hev⟩ | ⟨_, ⟨o, i, ⟨ho, hi⟩, rfl⟩, hev⟩)
    · exact ⟨o, i, ho, hi, .inl hev⟩
    · exact ⟨o, i, ho, hi, .inr hev⟩
  · rintro ⟨o, i, ho, hi, hev | hev⟩
    · exact .inl ⟨_, ⟨o, i, ⟨ho, hi⟩, rfl⟩, hev⟩
    · exact .inr ⟨_, ⟨o, i, ⟨ho, hi⟩, rfl⟩, hev⟩

theorem sendResult_failures (result : Except RecoverableError (Option Json)) :
    ∀ f ∈ (h.sendResult x w result).failures, ∃ og i, f.origin = .errorLog og i := by
  intro f hf
  cases result with
  | error e => exact (sendResponseStat_spec h _ _ _).2.2 f hf
  | ok body =>
    simp only [BodyHandler.sendResult, BodyHandler.sendIncluded, Sending.concat, List.mem_flatMap,
      List.mem_map] at hf
    obtain ⟨_, ⟨⟨o, i⟩, -, rfl⟩, hf⟩ := hf
    exact (sendOne_spec h _ i o).failures f hf

/-- The body handler ends well, or with the error of a logger. -/
theorem handle_ending (result : Except RecoverableError (Option Json)) :
    (h.handle x w result returns).ending = .ok () ∨
      ∃ f : Raised RecoverableError, (h.handle x w result returns).ending = .error f.toTest ∧
        ∃ og i, f.origin = .errorLog og i := by
  simp only [BodyHandler.handle, sendResponseStat_response]
  split
  · exact .inl rfl
  · next f hf =>
    refine .inr ⟨f, rfl, sendResult_failures (x := x) (w := w) (h := h) result f ?_⟩
    simp only [Sending.append, List.append_nil] at hf
    rcases Option.or_eq_some_iff.mp hf with h | ⟨-, h⟩
    · exact List.mem_of_getElem? h
    · exact List.mem_of_head? h

theorem handle_counted (x : Externals) (w : World) (h : BodyHandler)
    (result : Except RecoverableError (Option Json)) (returns : List AutoReturn) :
    ∃ s, .responseStat s ∈ (h.handle x w result returns).trace := by
  obtain ⟨tags, more, -, hmem⟩ := handle_trace x w h result returns
  exact ⟨_, (hmem _).mpr (.inr (.inr (.inl rfl)))⟩

theorem handle_raised {e : Raised TestError} :
    .raised e ∈ (h.handle x w result returns).trace ↔
      .raised e ∈ (h.sendResult x w result).now ++ (h.sendResult x w result).later := by
  obtain ⟨tags, more, hmore, hmem⟩ := handle_trace x w h result returns
  rw [hmem]
  constructor
  · rintro (h | h | h | h)
    · obtain ⟨p, h⟩ := logDelays_stat h
      cases h
    · exact h
    · cases h
    · simpa using hmore h
  · intro h
    exact .inr (.inl h)

theorem handle_recorded {e : Raised TestError} (he : e.origin ≠ .delay) :
    Recorded (h.handle x w result returns).trace e ↔
      Recorded ((h.sendResult x w result).now ++ (h.sendResult x w result).later) e := by
  obtain ⟨tags, more, hmore, hmem⟩ := handle_trace x w h result returns
  constructor
  · rintro ⟨r, rtt, tags', hr, hstat⟩
    rcases (hmem _).mp hstat with h | h | h | h
    · obtain ⟨p, h⟩ := logDelays_stat h
      simp only [Event.responseStat.injEq, ResponseStat.mk.injEq, StatKind.recoverableError.injEq,
        Raised.mk.injEq] at h
      exact absurd h.1.1 he
    · exact ⟨r, rtt, tags', hr, h⟩
    · cases h
    · simpa using hmore h
  · intro h
    exact h.mono fun ev hev => (hmem ev).mpr (.inr (.inl hev))

/-- Once a body has been read, no error is lost exactly if no `block` send loses one. -/
theorem handle_noneLost_iff (body : Option Json) :
    (∀ e, .raised e ∈ (h.handle x w (.ok body) returns).trace →
      Recorded (h.handle x w (.ok body) returns).trace e) ↔
      ∀ i o, h.outgoing[i]? = some o → i ∈ h.included →
        ¬LosesError x w (h.data (.ok body)) i o := by
  constructor
  · intro hall i o ho hi hl
    obtain ⟨e, he⟩ := (sendOne_spec h (h.data (.ok body)) i o).lost hl
    have horigin := ((sendOne_spec h _ i o).raised e he).1
    have hraised : .raised e ∈ (h.handle x w (.ok body) returns).trace :=
      handle_raised.mpr (sendIncluded_mem.mpr ⟨o, i, ho, hi, he⟩)
    obtain ⟨r, rtt, tags, -, hstat⟩ :=
      (handle_recorded (by simp [horigin])).mp (hall e hraised)
    obtain ⟨o', j, ho', -, hstat⟩ := sendIncluded_mem.mp hstat
    obtain ⟨hnot, r', hkind⟩ := (sendOne_spec h _ j o').stats _ hstat
    -- the stat comes from the outgoing that the error comes from, which has none
    simp only [StatKind.recoverableError.injEq, Raised.mk.injEq] at hkind
    obtain rfl : i = j := Origin.outgoing.inj (horigin.symm.trans hkind.1)
    obtain rfl : o = o' := by simpa using ho.symm.trans ho'
    exact hnot hl
  · intro hall e he
    obtain ⟨o, i, ho, hi, hmem⟩ := sendIncluded_mem.mp (handle_raised.mp he)
    obtain ⟨horigin, hl | hrec⟩ := (sendOne_spec h _ i o).raised e hmem
    · exact absurd hl (hall i o ho hi)
    · refine (handle_recorded (by simp [horigin])).mpr (hrec.mono fun ev hev => ?_)
      exact sendIncluded_mem.mpr ⟨o, i, ho, hi, hev⟩

end Handler

section Recover

variable {x : Externals} {w : World} {m : RequestMaker} {values : Object} {u : Effects Unit}

/-- A recovered error has a stat, and the loggers only send. -/
theorem recover_spec (x : Externals) (w : World) (m : RequestMaker) (values : Object)
    (f : Raised RecoverableError) :
    (m.recover x w values f.toTest).ending = .ok () ∧
      ∃ rtt tags logs, (m.recover x w values f.toTest).trace =
          .responseStat ⟨.recoverableError f, rtt, tags⟩ :: logs ∧
        ∀ ev ∈ logs, ∃ og v, ev = .sent og v := by
  refine ⟨rfl, _, _, _, rfl, fun ev hev => ?_⟩
  obtain ⟨l, hl, hmem⟩ := List.mem_flatMap.mp hev
  exact (errorLogs_sends hl).1 ev hmem

/-- A stage that fails recoverably is recovered. -/
theorem settled_recover (o : Origin) (r : RecoverableError) :
    Settled ((stage o (.error (.recoverable r))).orElse (m.recover x w values)) := by
  obtain ⟨hok, rtt, tags, logs, htrace, hlogs⟩ :=
    recover_spec x w m values ⟨o, r⟩
  have hu : (stage o (.error (.recoverable r)) : Effects Unit).ending =
      .error (Raised.toTest ⟨o, r⟩) := rfl
  rw [orElse_error hu]
  refine ⟨by simp [hok], ⟨⟨.recoverableError ⟨o, r⟩, rtt, tags⟩, ?_⟩, fun e he => ?_⟩
  · rw [htrace]
    exact List.mem_append_right _ List.mem_cons_self
  · simp only [stage, fail_trace, htrace, List.singleton_append, List.mem_cons] at he
    rcases he with he | he | he
    · cases he
      exact ⟨r, rtt, tags, rfl, by simp [htrace]⟩
    · cases he
    · obtain ⟨og, v, h⟩ := hlogs _ he
      cases h

/-- The recovery of a logger's error settles no other error. -/
theorem settled_orElse_iff (hcounted : ∃ s, .responseStat s ∈ u.trace)
    (hend : u.ending = .ok () ∨ ∃ f : Raised RecoverableError, u.ending = .error f.toTest ∧
      ∃ og i, f.origin = .errorLog og i)
    (horigin : ∀ e, .raised e ∈ u.trace → ∀ og i, e.origin ≠ .errorLog og i) :
    Settled (u.orElse (m.recover x w values)) ↔
      ∀ e, .raised e ∈ u.trace → Recorded u.trace e := by
  rcases hend with hok | ⟨f, herror, og, i, hf⟩
  · rw [orElse_ok hok]
    exact ⟨fun h => h.noneLost, fun h => ⟨by simp [hok], hcounted, h⟩⟩
  obtain ⟨hok, rtt, tags, logs, htrace, hlogs⟩ :=
    recover_spec x w m values f
  rw [orElse_error herror]
  constructor
  · intro h e he
    obtain ⟨r, rtt', tags', hr, hstat⟩ := h.noneLost e (List.mem_append_left _ he)
    refine ⟨r, rtt', tags', hr, ?_⟩
    rcases List.mem_append.mp hstat with hstat | hstat
    · exact hstat
    rw [htrace] at hstat
    rcases List.mem_cons.mp hstat with hstat | hstat
    · simp only [Event.responseStat.injEq, ResponseStat.mk.injEq,
        StatKind.recoverableError.injEq] at hstat
      have : e.origin = f.origin := congrArg Raised.origin hstat.1
      exact absurd (this.trans hf) (horigin e he og i)
    · obtain ⟨og, v, h⟩ := hlogs _ hstat
      cases h
  · intro h
    obtain ⟨s, hs⟩ := hcounted
    refine ⟨by simp [hok], ⟨s, List.mem_append_left _ hs⟩, fun e he => ?_⟩
    rcases List.mem_append.mp he with he | he
    · exact (h e he).mono (List.subset_append_left _ _)
    · rw [htrace] at he
      rcases List.mem_cons.mp he with he | he
      · cases he
      · obtain ⟨og, v, h⟩ := hlogs _ he
        cases h

end Recover

section Request

variable {x : Externals} {http : Http} {w : World} {m : RequestMaker} {p : Prepared}
  {values : Object} {reply : Reply}

/-- The errors of a body that could not be read. -/
theorem sendResult_error {h : BodyHandler} {e : RecoverableError} {ev : Event} :
    ev ∈ (h.sendResult x w (.error e)).now ++ (h.sendResult x w (.error e)).later →
      (∃ tags, ev = .responseStat ⟨.recoverableError ⟨.responseBody, e⟩, none, tags⟩) ∨
        ∃ og v, ev = .sent og v := by
  intro hev
  obtain ⟨⟨tags, hnow⟩, hlater, -⟩ := sendResponseStat_spec (x := x) (w := w) h
    (h.data (.error e)) (.recoverableError ⟨.responseBody, e⟩) none
  rcases List.mem_append.mp hev with hev | hev
  · rw [BodyHandler.sendResult, hnow] at hev
    exact .inl ⟨tags, List.mem_singleton.mp hev⟩
  · exact .inr (hlater ev hev)

/-- A reply loses no error: there is a timer; a response whose `where` clauses evaluate has a
content encoding that is text; and if its body arrives, no `block` send comes to an error. -/
def ReplySettles (x : Externals) (w : World) (m : RequestMaker) (values : Object) : Reply → Prop
  | .noTimer => False
  | .timeout => True
  | .connectionErr _ => True
  | .response r encodingIsText =>
    ∀ included fields, includedIndexes x values m.precheckRrProviders m.rrProviders r
        (m.outgoing.map Outgoing.select) 0
        (handleResponseRequirements m.precheckRrProviders r (.start r)) = .ok (included, fields) →
      encodingIsText = true ∧ ∀ body, readBody r fields = .ok body →
        ∀ i o, m.outgoing[i]? = some o → i ∈ included →
          ¬LosesError x w (completeValues values fields.object r.rtt body) i o

/-- A body that could not be read is recorded, and no other error is met. -/
theorem settled_bodyError (h : BodyHandler) (e : String) (returns : List AutoReturn)
    {u : Effects Unit} (hend : u.ending = (h.handle x w (.error (.bodyErr e)) returns).ending)
    (htrace : u.trace = .raised ⟨.responseBody, bodyErr e⟩ ::
      (h.handle x w (.error (.bodyErr e)) returns).trace) :
    Settled (u.orElse (m.recover x w values)) := by
  have hraised : ∀ e', .raised e' ∈ u.trace → e' = ⟨.responseBody, bodyErr e⟩ := by
    intro e' he
    rw [htrace] at he
    rcases List.mem_cons.mp he with he | he
    · exact Event.raised.inj he
    · rcases sendResult_error (handle_raised.mp he) with ⟨tags, h⟩ | ⟨og, v, h⟩ <;> cases h
  refine (settled_orElse_iff ?_ ?_ ?_).mpr ?_
  · obtain ⟨s, hs⟩ := handle_counted x w h (.error (.bodyErr e)) returns
    exact ⟨s, by rw [htrace]; exact List.mem_cons_of_mem _ hs⟩
  · rw [hend]
    exact handle_ending _
  · intro e' he og i
    simp [hraised e' he]
  · intro e' he
    obtain rfl := hraised e' he
    obtain ⟨⟨tags, hnow⟩, -, -⟩ := sendResponseStat_spec (x := x) (w := w) h
      (h.data (.error (.bodyErr e))) (.recoverableError ⟨.responseBody, .bodyErr e⟩) none
    have hmem : Recorded ((h.sendResult x w (.error (.bodyErr e))).now ++
        (h.sendResult x w (.error (.bodyErr e))).later) ⟨.responseBody, bodyErr e⟩ := by
      refine ⟨.bodyErr e, none, tags, rfl, List.mem_append_left _ ?_⟩
      rw [BodyHandler.sendResult, hnow]
      exact List.mem_singleton.mpr rfl
    rw [htrace]
    exact ((handle_recorded (by simp)).mpr hmem).mono (List.subset_cons_self _ _)

theorem handleReply_settled_iff :
    Settled ((m.handleReply x w p values reply).orElse (m.recover x w values)) ↔
      ReplySettles x w m values reply := by
  cases reply with
  | noTimer => exact iff_of_false (fun h => h.ends rfl) id
  | timeout => exact iff_of_true (settled_recover _ _) trivial
  | connectionErr e => exact iff_of_true (settled_recover _ _) trivial
  | response r encodingIsText =>
    simp only [RequestMaker.handleReply, RequestMaker.handleResponse, ReplySettles]
    cases hi : includedIndexes x values m.precheckRrProviders m.rrProviders r
        (m.outgoing.map Outgoing.select) 0
        (handleResponseRequirements m.precheckRrProviders r (.start r)) with
    | error e => exact iff_of_true (settled_recover _ _) (by simp)
    | ok found =>
      obtain ⟨included, fields⟩ := found
      simp only [Except.ok.injEq, Prod.mk.injEq, and_imp, forall_eq', forall_apply_eq_imp_iff]
      cases encodingIsText with
      | false =>
        refine iff_of_false (fun h => ?_) (by simp)
        exact h.ends (by simp [orElse])
      | true =>
        simp only [if_true, true_and]
        cases hb : readBody r fields with
        | ok body =>
          simp only [Except.ok.injEq, forall_eq']
          rw [settled_orElse_iff (handle_counted _ _ _ _ _) (handle_ending _) ?_]
          · exact handle_noneLost_iff body
          · intro e he og i
            obtain ⟨o, j, -, -, hmem⟩ := sendIncluded_mem.mp (handle_raised.mp he)
            simp [((sendOne_spec _ _ j o).raised e hmem).1]
        | error e =>
          exact iff_of_true (settled_bodyError _ e p.returns rfl rfl) (by simp)

/-! ### Values that came late -/

/-- No value came after the target time that was known by then. -/
def OnTime : Option Nat → List StreamItem → Prop
  | _, [] => True
  | _, .instant target :: items => OnTime target items
  | target, .none :: items => OnTime target items
  | target, .declare _ _ _ arrived :: items => (∀ t ∈ target, arrived ≤ t) ∧ OnTime target items
  | target, .templateValue _ _ _ arrived :: items =>
    (∀ t ∈ target, arrived ≤ t) ∧ OnTime target items

/-- A response is handled, and the delays with it. -/
def ReplyLogs (x : Externals) (m : RequestMaker) (values : Object) : Reply → Prop
  | .response r encodingIsText => encodingIsText = true ∧
    ∃ found, includedIndexes x values m.precheckRrProviders m.rrProviders r
        (m.outgoing.map Outgoing.select) 0
        (handleResponseRequirements m.precheckRrProviders r (.start r)) = .ok found
  | _ => False

/-- The error of a value that came late. -/
def delayed (name : String) : Raised TestError := ⟨.delay, .recoverable (.providerDelay name)⟩

theorem insert_delays (p : Prepared) (name : String) (value : Json) (arrived : Nat) :
    (p.insert name value arrived).delays = [] ↔
      p.delays = [] ∧ ∀ t ∈ p.target, arrived ≤ t := by
  unfold Prepared.insert
  cases p.target with
  | none => simp
  | some target =>
    by_cases hlate : target < arrived
    · simp [hlate]
    · simp [hlate, Nat.le_of_not_lt hlate]

theorem insert_target (p : Prepared) (name : String) (value : Json) (arrived : Nat) :
    (p.insert name value arrived).target = p.target := rfl

theorem delays_eq_nil_iff (noAutoReturns : Bool) {items : List StreamItem} :
    (Prepared.ofItems noAutoReturns items).delays = [] ↔ OnTime none items := by
  have hfold : ∀ p : Prepared, (items.foldl (Prepared.push noAutoReturns) p).delays = [] ↔
      p.delays = [] ∧ OnTime p.target items := by
    induction items with
    | nil => simp [OnTime]
    | cons item items ih =>
      intro p
      rw [List.foldl_cons, ih]
      cases item with
      | instant target => simp [Prepared.push, OnTime]
      | none => simp [Prepared.push, OnTime]
      | declare name value returns arrived =>
        simp only [Prepared.push, OnTime, insert_delays, insert_target, and_assoc]
      | templateValue name value autoReturn arrived =>
        cases autoReturn <;> cases noAutoReturns <;>
          simp only [Prepared.push, OnTime, insert_delays, insert_target, and_assoc]
  exact (hfold .start).trans (and_iff_right rfl)

theorem recorded_orElse {t : Effects Unit} {e : Raised TestError} (h : Recorded t.trace e)
    (f : Raised TestError → Effects Unit) : Recorded (t.orElse f).trace e := by
  cases he : t.ending with
  | ok a => rwa [orElse_ok he]
  | panicked => rwa [orElse_panicked he]
  | error e' =>
    rw [orElse_error he]
    exact h.mono (List.subset_append_left _ _)

theorem recorded_delayed {trace : List Event} {name : String} :
    Recorded trace (delayed name) ↔
      ∃ rtt tags, .responseStat ⟨.recoverableError ⟨.delay, .providerDelay name⟩, rtt, tags⟩ ∈
        trace := by
  constructor
  · rintro ⟨r, rtt, tags, hr, hmem⟩
    cases hr
    exact ⟨rtt, tags, hmem⟩
  · rintro ⟨rtt, tags, hmem⟩
    exact ⟨_, rtt, tags, rfl, hmem⟩

/-- The handler of a response logs the delays. -/
theorem handle_delays {h : BodyHandler} {result : Except RecoverableError (Option Json)}
    {returns : List AutoReturn} {name : String} (hname : name ∈ h.delays) :
    Recorded (h.handle x w result returns).trace (delayed name) := by
  obtain ⟨tags, more, -, hmem⟩ := handle_trace x w h result returns
  refine recorded_delayed.mpr ⟨none, tags, (hmem _).mpr (.inl ?_)⟩
  exact List.mem_map.mpr ⟨name, hname, rfl⟩

theorem not_recorded_recover {o : Origin} {r : RecoverableError} {name : String}
    (ho : o ≠ .delay) :
    ¬Recorded ((stage o (.error (.recoverable r))).orElse (m.recover x w values)).trace
      (delayed name) := by
  obtain ⟨-, rtt, tags, logs, htrace, hlogs⟩ := recover_spec x w m values ⟨o, r⟩
  have hu : (stage o (.error (.recoverable r)) : Effects Unit).ending =
      .error (Raised.toTest ⟨o, r⟩) := rfl
  rw [orElse_error hu, recorded_delayed]
  rintro ⟨rtt', tags', hmem⟩
  simp only [stage, fail_trace, htrace, List.singleton_append, List.mem_cons] at hmem
  rcases hmem with hmem | hmem | hmem
  · cases hmem
  · cases hmem
    exact ho rfl
  · obtain ⟨og, v, h⟩ := hlogs _ hmem
    cases h

/-- The delays are recorded exactly if there are none or the response is handled. -/
theorem handleReply_delays_iff :
    (∀ name ∈ p.delays, Recorded ((m.handleReply x w p values reply).orElse
      (m.recover x w values)).trace (delayed name)) ↔
        p.delays = [] ∨ ReplyLogs x m values reply := by
  have hnone {t : Effects Unit} (h : ∀ name, ¬Recorded t.trace (delayed name)) :
      (∀ name ∈ p.delays, Recorded t.trace (delayed name)) ↔ p.delays = [] := by
    rw [List.eq_nil_iff_forall_not_mem]
    exact forall₂_congr fun name _ => iff_false_intro (h name)
  have hpanic (name : String) : ¬Recorded ((Traced.panic : Effects Unit).orElse
      (m.recover x w values)).trace (delayed name) := by
    rw [recorded_delayed]
    rintro ⟨rtt, tags, hmem⟩
    cases hmem
  cases reply with
  | noTimer => exact (hnone hpanic).trans (or_iff_left id).symm
  | timeout =>
    refine Iff.trans (hnone fun name => ?_) (or_iff_left id).symm
    exact not_recorded_recover (by simp)
  | connectionErr e =>
    refine Iff.trans (hnone fun name => ?_) (or_iff_left id).symm
    exact not_recorded_recover (by simp)
  | response r encodingIsText =>
    simp only [RequestMaker.handleReply, RequestMaker.handleResponse, ReplyLogs]
    cases hi : includedIndexes x values m.precheckRrProviders m.rrProviders r
        (m.outgoing.map Outgoing.select) 0
        (handleResponseRequirements m.precheckRrProviders r (.start r)) with
    | error e =>
      refine Iff.trans (hnone fun name => ?_) (by simp)
      exact not_recorded_recover (by simp)
    | ok found =>
      obtain ⟨included, fields⟩ := found
      cases encodingIsText with
      | false => exact (hnone hpanic).trans (by simp)
      | true =>
        refine iff_of_true (fun name hname => recorded_orElse ?_ _) (.inr ⟨rfl, _, rfl⟩)
        simp only [if_true]
        cases readBody r fields with
        | ok body => exact handle_delays hname
        | error e => exact (handle_delays hname).mono (List.subset_cons_self _ _)

/-- From its body on, a request loses no error: the body can be made, the request built, the host
is a header value, and the reply loses none; and no value came late, or the response is handled. -/
def ExchangeSettles (x : Externals) (http : Http) (w : World) (m : RequestMaker)
    (items : List StreamItem) (url : Url) (headers : HeaderMap) (reply : Reply) : Prop :=
  let p := Prepared.ofItems m.noAutoReturns items
  ∃ body pathAndQuery host, m.bodyOf x http p.json headers = .ok body ∧
    m.builtOf http url = .ok pathAndQuery ∧ RequestMaker.hostOf http url = some host ∧
    let values := Object.insert p.values "request"
      (m.requestJson url pathAndQuery (RequestMaker.finalHeaders body host) body)
    ReplySettles x w m values reply ∧ (OnTime none items ∨ ReplyLogs x m values reply)

theorem not_settled_stage {o : Origin} {e : TestError} :
    ¬Settled (Traced.fail [.raised ⟨o, e⟩] ⟨o, e⟩ : Effects Unit) := by
  intro h
  obtain ⟨s, hs⟩ := h.counted
  simp at hs

theorem exchange_settled_iff {items : List StreamItem} {url : Url} {headers : HeaderMap}
    (hp : Prepared.ofItems m.noAutoReturns items = p) {t : Effects Unit}
    (ht : (stage .body (m.bodyOf x http p.json headers)).andThen
      (m.exchange x http w p url reply) = t) :
    Settled t ∧ (∀ name ∈ p.delays, Recorded t.trace (delayed name)) ↔
      ExchangeSettles x http w m items url headers reply := by
  subst ht
  simp only [ExchangeSettles, hp]
  cases hb : m.bodyOf x http p.json headers with
  | error e => exact iff_of_false (fun h => not_settled_stage h.1) (by simp)
  | ok body =>
    rw [stage_ok, RequestMaker.exchange]
    cases hr : m.builtOf http url with
    | error e => exact iff_of_false (fun h => not_settled_stage h.1) (by simp)
    | ok pathAndQuery =>
      rw [stage_ok]
      cases hh : RequestMaker.hostOf http url with
      | none => exact iff_of_false (fun h => h.1.ends rfl) (by simp)
      | some host =>
        dsimp only
        rw [handleReply_settled_iff, handleReply_delays_iff, ← hp, delays_eq_nil_iff]
        simp

theorem mem_raised_append {names : List String} {trace : List Event} {ev : Event} :
    ev ∈ (names.map fun name => Event.raised (delayed name)) ++ trace ↔
      (∃ name ∈ names, .raised (delayed name) = ev) ∨ ev ∈ trace := by
  rw [List.mem_append, List.mem_map]

/-- What is raised records nothing. -/
theorem recorded_raised_append {names : List String} {trace : List Event} {e : Raised TestError} :
    Recorded ((names.map fun name => Event.raised (delayed name)) ++ trace) e ↔
      Recorded trace e := by
  simp only [Recorded, mem_raised_append, reduceCtorEq, and_false, exists_false, false_or]

/-- The delays are raised before everything else. -/
theorem accounted_raiseDelays_iff {t : Effects Unit}
    (hend : ∀ name, t.ending ≠ .error (delayed name)) :
    Accounted ((RequestMaker.raiseDelays p).andThen fun _ => t) ↔
      Accounted t ∧ ∀ name ∈ p.delays, Recorded t.trace (delayed name) := by
  change Accounted
    ⟨(p.delays.map fun name => Event.raised (delayed name)) ++ t.trace, t.ending⟩ ↔ _
  constructor
  · intro h
    refine ⟨⟨?_, fun e he => ?_⟩, fun name hname => ?_⟩
    · simpa only [mem_raised_append, reduceCtorEq, and_false, exists_false, false_or]
        using h.resolves
    · exact (h.noneLost e (List.mem_append_right _ he)).imp_right recorded_raised_append.mp
    · have hlost := h.noneLost (delayed name) (mem_raised_append.mpr (.inl ⟨name, hname, rfl⟩))
      exact recorded_raised_append.mp (hlost.resolve_left (hend name))
  · rintro ⟨h, hdelays⟩
    refine ⟨?_, fun e he => ?_⟩
    · simpa only [mem_raised_append, reduceCtorEq, and_false, exists_false, false_or]
        using h.resolves
    · rcases mem_raised_append.mp he with ⟨name, hname, heq⟩ | he
      · cases heq
        exact .inr (recorded_raised_append.mpr (hdelays name hname))
      · exact (h.noneLost e he).imp_right recorded_raised_append.mpr

/-- A request that ends with the error of its url or its headers has recorded nothing. -/
theorem accounted_fail_iff {o : Origin} {e : TestError} (ho : o ≠ .delay) :
    Accounted ((RequestMaker.raiseDelays p).andThen fun _ =>
      (Traced.fail [.raised ⟨o, e⟩] ⟨o, e⟩ : Effects Unit)) ↔ p.delays = [] := by
  have hfail : Accounted (Traced.fail [.raised ⟨o, e⟩] ⟨o, e⟩) := by
    refine ⟨.inl ⟨_, rfl⟩, fun e' he => .inl ?_⟩
    simp only [fail_trace, List.mem_singleton, Event.raised.injEq] at he
    rw [he, fail_ending]
  rw [accounted_raiseDelays_iff, and_iff_right hfail, List.eq_nil_iff_forall_not_mem]
  · refine forall₂_congr fun name _ => iff_false_intro ?_
    rw [recorded_delayed]
    rintro ⟨rtt, tags, hmem⟩
    simp at hmem
  · intro name h
    cases h
    exact ho rfl

theorem always_returnOnce (returns : List AutoReturn) {t : Effects Unit} (e : Raised TestError) :
    (t.always (RequestMaker.returnOnce returns)).ending ≠ .error e ∧
      (Recorded (t.always (RequestMaker.returnOnce returns)).trace e ↔ Recorded t.trace e) := by
  by_cases hp : t.ending = .panicked
  · rw [always_panicked hp]
    exact ⟨by simp, Iff.rfl⟩
  · rw [always_of_not_panicked hp]
    exact ⟨by simp [RequestMaker.returnOnce], recorded_append_iff (returnOnce_stat returns t.trace)⟩

/-- `http://localhost/`. -/
def localUrl : Url where
  href := "http://localhost/"
  scheme := "http"
  host := some "localhost"
  domain := some "localhost"
  origin := "http://localhost"
  username := ""
  password := none
  port := none
  path := "/"
  query := none
  queryPairs := []
  fragment := none

/-- Every url is `http://localhost/`, and there are no files. -/
def Http.plain : Http where
  parseUrl _ := some localUrl
  headerName s := .ok s
  headerValue s := .ok s
  toStr s := .ok s
  build _ _ := .ok (some "/")
  fileLength _ := .error "No such file or directory (os error 2)"
  fileReads _ := []
  withFileName _ file := file
  boundary := "b"

def plainText (s : String) : Template := .mk [.notExpression s] false

/-- A request with the given body. -/
def RequestMaker.post (body : BodyTemplate) : RequestMaker where
  url := plainText "http://localhost/"
  method := "POST"
  headers := []
  body := body
  rrProviders := 0
  precheckRrProviders := 0
  noAutoReturns := false
  outgoing := []
  tags := []
  timeout := 0

/-- Every request and every error is accounted for. -/
def AlwaysAccounted : Prop :=
  ∀ (x : Externals) (http : Http) (w : World) (m : RequestMaker) (items : List StreamItem)
    (reply : Reply), Accounted (m.sendRequest x http w items reply)

end Request

end Pewpew.Request
