import Pewpew.Request.Accounting

/-! When the auto-returns of a request are executed exactly once. -/
namespace Pewpew.Request

open SelectParser SelectParser.Special Effect Traced

/-- The auto-returns that a value carries. -/
def StreamItem.returns : StreamItem → List AutoReturn
  | .declare _ _ returns _ => returns
  | .templateValue _ _ autoReturn _ => autoReturn.toList
  | _ => []

/-- Those of a declared value. -/
def StreamItem.declaredReturns : StreamItem → List AutoReturn
  | .declare _ _ returns _ => returns
  | _ => []

def Event.autoReturn? : Event → Option AutoReturn
  | .autoReturn r => some r
  | _ => none

/-- The auto-returns that a trace executes. -/
def executed (trace : List Event) : List AutoReturn := trace.filterMap Event.autoReturn?

/-- Each auto-return that the items carry is executed once, or none where they are switched off. -/
def ReturnsOnce (noAutoReturns : Bool) (items : List StreamItem) (t : Effects Unit) : Prop :=
  (executed t.trace).Perm (if noAutoReturns then [] else items.flatMap StreamItem.returns)

section Items

theorem insert_returns (p : Prepared) (name : String) (value : Json) (arrived : Nat) :
    (p.insert name value arrived).returns = p.returns := rfl

theorem push_returns (noAutoReturns : Bool) (p : Prepared) (item : StreamItem) :
    (p.push noAutoReturns item).returns =
      p.returns ++ if noAutoReturns then item.declaredReturns else item.returns := by
  cases item with
  | instant target =>
    simp [Prepared.push, StreamItem.declaredReturns, StreamItem.returns]
  | none => simp [Prepared.push, StreamItem.declaredReturns, StreamItem.returns]
  | declare name value returns arrived =>
    simp [Prepared.push, insert_returns, StreamItem.declaredReturns, StreamItem.returns]
  | templateValue name value autoReturn arrived =>
    cases autoReturn <;> cases noAutoReturns <;>
      simp [Prepared.push, insert_returns, StreamItem.declaredReturns, StreamItem.returns]

/-- With the switch on, only declared values keep their auto-returns. -/
theorem ofItems_returns (noAutoReturns : Bool) (items : List StreamItem) :
    (Prepared.ofItems noAutoReturns items).returns =
      items.flatMap fun i => if noAutoReturns then i.declaredReturns else i.returns := by
  have hfold : ∀ p : Prepared, (items.foldl (Prepared.push noAutoReturns) p).returns =
      p.returns ++ items.flatMap fun i =>
        if noAutoReturns then i.declaredReturns else i.returns := by
    induction items with
    | nil => simp
    | cons item items ih =>
      intro p
      rw [List.foldl_cons, ih, push_returns, List.flatMap_cons, List.append_assoc]
  exact hfold .start

end Items

section Executed

variable {x : Externals} {w : World} {h : BodyHandler} {trace : List Event}

@[simp] theorem executed_append (a b : List Event) :
    executed (a ++ b) = executed a ++ executed b := List.filterMap_append

theorem executed_eq_nil_iff : executed trace = [] ↔ ∀ ev ∈ trace, ev.autoReturn? = none :=
  List.filterMap_eq_nil_iff

@[simp] theorem executed_autoReturns (returns : List AutoReturn) :
    executed (returns.map Event.autoReturn) = returns := by
  simp [executed, List.filterMap_map, Function.comp_def, Event.autoReturn?]

/-- Nothing of a `Sending` is an auto-return. -/
def Sending.Quiet (s : Sending) : Prop := ∀ ev ∈ s.now ++ s.later, ev.autoReturn? = none

theorem Sending.Quiet.append {s t : Sending} (hs : s.Quiet) (ht : t.Quiet) :
    (s.append t).Quiet := by
  intro ev hev
  have := hs ev
  have := ht ev
  simp only [Sending.append, List.mem_append] at *
  grind

theorem quiet_of_sends {now : List Event} (hnow : ∀ ev ∈ now, ∃ og v, ev = .sent og v) :
    Sending.Quiet ⟨now, [], []⟩ := by
  intro ev hev
  obtain ⟨og, v, rfl⟩ := hnow ev (by simpa using hev)
  rfl

theorem sendResponseStat_quiet (h : BodyHandler) (d : Json) (kind : StatKind) (rtt : Option Nat) :
    (h.sendResponseStat x w d kind rtt).Quiet := by
  obtain ⟨⟨tags, hnow⟩, hlater, -⟩ := sendResponseStat_spec (x := x) (w := w) h d kind rtt
  intro ev hev
  rcases List.mem_append.mp hev with hev | hev
  · rw [hnow, List.mem_singleton] at hev
    rw [hev]
    rfl
  · obtain ⟨og, v, rfl⟩ := hlater ev hev
    rfl

theorem recordError_quiet (h : BodyHandler) (d : Json) (e : Raised RecoverableError) :
    (h.recordError x w d e).Quiet := by
  intro ev hev
  rcases List.mem_append.mp hev with hev | hev
  · rcases List.mem_cons.mp hev with rfl | hev
    · rfl
    · exact sendResponseStat_quiet h d (.recoverableError e) none ev (List.mem_append_left _ hev)
  · exact sendResponseStat_quiet h d (.recoverableError e) none ev (List.mem_append_right _ hev)

theorem sendEagerly_quiet (h : BodyHandler) (d : Json) (accepts : Option Nat) (i : Nat)
    (o : Outgoing) (items : Items) : (h.sendEagerly x w d accepts i o items).Quiet := by
  have hsent : Sending.Quiet
      ⟨if o.isLogger then [] else (sender accepts (.outgoing i) items).1, [], []⟩ := by
    refine quiet_of_sends fun ev hev => ?_
    split at hev
    · simp at hev
    · exact ⟨_, sender_sends hev⟩
  rw [BodyHandler.sendEagerly]
  cases he : (sender accepts (.outgoing i) items).2 with
  | none => simpa [he] using hsent
  | some e => simpa [he] using hsent.append (recordError_quiet h d e)

theorem sendOne_quiet (h : BodyHandler) (d : Json) (i : Nat) (o : Outgoing) :
    (h.sendOne x w d i o).Quiet := by
  rw [BodyHandler.sendOne]
  cases o.select.asIter x d with
  | error e => exact recordError_quiet h d _
  | ok items =>
    cases o.send with
    | force => exact sendEagerly_quiet h d _ i o items
    | ifNotFull => exact sendEagerly_quiet h d _ i o items
    | block =>
      intro ev hev
      rcases List.mem_append.mp hev with hev | hev
      · simp at hev
      · rcases List.mem_append.mp hev with hev | hev
        · obtain ⟨v, rfl⟩ := blockSender_sends hev
          rfl
        · obtain ⟨e, -, rfl⟩ := List.mem_map.mp hev
          rfl

theorem sendResult_quiet (h : BodyHandler) (result : Except RecoverableError (Option Json)) :
    (h.sendResult x w result).Quiet := by
  cases result with
  | error e => exact sendResponseStat_quiet h _ _ _
  | ok body =>
    intro ev hev
    obtain ⟨o, i, -, -, hev⟩ := sendIncluded_mem.mp hev
    exact sendOne_quiet h _ i o ev hev

theorem logDelays_quiet {delays : List String} {tags : List (String × String)} :
    executed (logDelays delays tags) = [] := by
  rw [executed_eq_nil_iff]
  intro ev hev
  obtain ⟨p, rfl⟩ := logDelays_stat hev
  rfl

theorem Sending.Quiet.executed_nil {s : Sending} (hs : s.Quiet) :
    executed s.now = [] ∧ executed s.later = [] := by
  rw [executed_eq_nil_iff, executed_eq_nil_iff]
  exact ⟨fun ev h => hs ev (List.mem_append_left _ h),
    fun ev h => hs ev (List.mem_append_right _ h)⟩

/-- The body handler executes all auto-returns or, if a logger's error ends it early, none. -/
theorem handle_executed (result : Except RecoverableError (Option Json))
    (returns : List AutoReturn) :
    executed (h.handle x w result returns).trace = [] ∨
      executed (h.handle x w result returns).trace = returns := by
  have hquiet := (sendResult_quiet (x := x) (w := w) h result).append
    (sendResponseStat_quiet (x := x) (w := w) h (h.data result) (.response h.status) (some h.rtt))
  obtain ⟨hnow, hlater⟩ := hquiet.executed_nil
  simp only [BodyHandler.handle]
  split
  · refine .inr ?_
    simp [hnow, hlater, logDelays_quiet]
  · cases w.returnsInTime with
    | true => exact .inr (by simp [hnow, hlater, logDelays_quiet])
    | false =>
      refine .inl ?_
      simp only [fail_trace, executed_append, hnow, hlater, logDelays_quiet]
      rfl

end Executed

section Request

variable {x : Externals} {http : Http} {w : World} {m : RequestMaker} {p : Prepared}
  {values : Object} {reply : Reply} {t : Effects Unit}

theorem any_isAutoReturn (trace : List Event) :
    trace.any Event.isAutoReturn = true ↔ executed trace ≠ [] := by
  have hev : ∀ ev : Event, ev.isAutoReturn = true ↔ ev.autoReturn? ≠ none := by
    intro ev
    cases ev <;> simp [Event.isAutoReturn, Event.autoReturn?]
  simp [List.any_eq_true, executed_eq_nil_iff, hev]

/-- The shared future makes up for what has not been executed. -/
theorem executed_always (returns : List AutoReturn) (hend : t.ending ≠ .panicked)
    (ht : executed t.trace = [] ∨ executed t.trace = returns) :
    executed (t.always (RequestMaker.returnOnce returns)).trace = returns := by
  rw [always_of_not_panicked hend, executed_append, RequestMaker.returnOnce, done_trace]
  by_cases hnil : executed t.trace = []
  · rw [if_neg (fun h => (any_isAutoReturn _).mp h hnil), hnil, executed_autoReturns,
      List.nil_append]
  · rw [if_pos ((any_isAutoReturn _).mpr hnil), ht.resolve_left hnil]
    exact List.append_nil _

theorem recover_executed (e : Raised TestError) :
    executed (m.recover x w values e).trace = [] := by
  rw [executed_eq_nil_iff]
  obtain ⟨o, e⟩ := e
  cases e with
  | recoverable r =>
    obtain ⟨-, rtt, tags, logs, htrace, hlogs⟩ :=
      recover_spec x w m values ⟨o, r⟩
    intro ev hev
    rw [show (⟨o, .recoverable r⟩ : Raised TestError) = Raised.toTest ⟨o, r⟩ from rfl,
      htrace] at hev
    rcases List.mem_cons.mp hev with rfl | hev
    · rfl
    · obtain ⟨og, v, rfl⟩ := hlogs ev hev
      rfl
  | _ => simp [RequestMaker.recover]

/-- A recovery executes no auto-return. -/
theorem executed_orElse :
    executed (t.orElse (m.recover x w values)).trace = executed t.trace := by
  cases he : t.ending with
  | ok a => rw [orElse_ok he]
  | panicked => rw [orElse_panicked he]
  | error e => rw [orElse_error he, executed_append, recover_executed, List.append_nil]

/-- A reply panics without a timer, and a response if its `where` clauses evaluate and its content
encoding is no text. -/
def ReplyPanics (x : Externals) (m : RequestMaker) (values : Object) : Reply → Prop
  | .noTimer => True
  | .response r encodingIsText => encodingIsText = false ∧
    ∃ found, includedIndexes x values m.precheckRrProviders m.rrProviders r
        (m.outgoing.map Outgoing.select) 0
        (handleResponseRequirements m.precheckRrProviders r (.start r)) = .ok found
  | _ => False

theorem handleReply_executed :
    executed (m.handleReply x w p values reply).trace = [] ∨
      executed (m.handleReply x w p values reply).trace = p.returns := by
  cases reply with
  | noTimer => exact .inl rfl
  | timeout => exact .inl rfl
  | connectionErr e => exact .inl rfl
  | response r encodingIsText =>
    simp only [RequestMaker.handleReply, RequestMaker.handleResponse]
    split
    · exact .inl rfl
    · split
      · split
        · exact handle_executed _ _
        · exact handle_executed _ _
      · exact .inl rfl

/-- A reply that panics has executed no auto-return. -/
theorem handleReply_of_panics (h : ReplyPanics x m values reply) :
    m.handleReply x w p values reply = .panic := by
  cases reply with
  | noTimer => rfl
  | timeout => exact h.elim
  | connectionErr e => exact h.elim
  | response r encodingIsText =>
    obtain ⟨rfl, found, hfound⟩ := h
    simp [RequestMaker.handleReply, RequestMaker.handleResponse, hfound]

/-- All other replies are recovered. -/
theorem handleReply_not_panicked (h : ¬ReplyPanics x m values reply) :
    ((m.handleReply x w p values reply).orElse (m.recover x w values)).ending ≠ .panicked := by
  have hrecovered : ∀ u : Effects Unit, (u.ending = .ok () ∨ ∃ f : Raised RecoverableError,
      u.ending = .error f.toTest ∧ ∃ og i, f.origin = .errorLog og i) →
      (u.orElse (m.recover x w values)).ending ≠ .panicked := by
    rintro u (hu | ⟨f, hu, -⟩)
    · simp [orElse_ok hu, hu]
    · simp [orElse_error hu, (recover_spec x w m values f).1]
  cases reply with
  | noTimer => exact absurd trivial h
  | timeout => exact (settled_recover _ _).ends
  | connectionErr e => exact (settled_recover _ _).ends
  | response r encodingIsText =>
    simp only [RequestMaker.handleReply, RequestMaker.handleResponse]
    cases hi : includedIndexes x values m.precheckRrProviders m.rrProviders r
        (m.outgoing.map Outgoing.select) 0
        (handleResponseRequirements m.precheckRrProviders r (.start r)) with
    | error e => exact (settled_recover _ _).ends
    | ok found =>
      obtain ⟨included, fields⟩ := found
      cases encodingIsText with
      | false => exact absurd ⟨rfl, _, hi⟩ h
      | true =>
        refine hrecovered _ ?_
        simp only [if_true]
        cases readBody r fields with
        | ok body => exact handle_ending _
        | error e => exact handle_ending _

/-- A request that can be built panics where its url has no host that is a header value, or its
reply panics. -/
def ExchangePanics (x : Externals) (http : Http) (m : RequestMaker) (p : Prepared) (url : Url)
    (reply : Reply) (body : Body) : Prop :=
  ∃ pathAndQuery, m.builtOf http url = .ok pathAndQuery ∧
    ∀ host, RequestMaker.hostOf http url = some host →
      ReplyPanics x m (Object.insert p.values "request"
        (m.requestJson url pathAndQuery (RequestMaker.finalHeaders body host) body)) reply

/-- A request gets to its end: its url and headers are fine, and if its body is, too, nothing
panics. -/
def Completes (x : Externals) (http : Http) (m : RequestMaker) (p : Prepared) (reply : Reply) :
    Prop :=
  ∃ url headers, m.urlOf x http p.json = .ok url ∧ m.headersOf x http p.json = .ok headers ∧
    ∀ body, m.bodyOf x http p.json headers = .ok body → ¬ExchangePanics x http m p url reply body

/-- An exchange that panics has executed no auto-return. -/
theorem exchange_panicked {url : Url} {body : Body} (h : ExchangePanics x http m p url reply body) :
    (m.exchange x http w p url reply body).ending = .panicked ∧
      executed (m.exchange x http w p url reply body).trace = [] := by
  obtain ⟨pathAndQuery, hbuilt, hpanics⟩ := h
  rw [RequestMaker.exchange, hbuilt, stage_ok]
  cases hh : RequestMaker.hostOf http url with
  | none => exact ⟨rfl, rfl⟩
  | some host =>
    dsimp only
    rw [handleReply_of_panics (hpanics host hh), orElse_panicked rfl]
    exact ⟨rfl, rfl⟩

/-- All other exchanges execute all auto-returns or none. -/
theorem exchange_executed {url : Url} {body : Body}
    (h : ¬ExchangePanics x http m p url reply body) :
    (m.exchange x http w p url reply body).ending ≠ .panicked ∧
      (executed (m.exchange x http w p url reply body).trace = [] ∨
        executed (m.exchange x http w p url reply body).trace = p.returns) := by
  rw [RequestMaker.exchange]
  cases hbuilt : m.builtOf http url with
  | error e =>
    rw [stage_error_andThen]
    exact ⟨by simp, .inl rfl⟩
  | ok pathAndQuery =>
    rw [stage_ok]
    cases hh : RequestMaker.hostOf http url with
    | none => exact absurd ⟨pathAndQuery, hbuilt, by simp [hh]⟩ h
    | some host =>
      have hreply : ¬ReplyPanics x m (Object.insert p.values "request"
          (m.requestJson url pathAndQuery (RequestMaker.finalHeaders body host) body)) reply := by
        intro hp
        refine h ⟨pathAndQuery, hbuilt, fun host' hh' => ?_⟩
        obtain rfl := Option.some.inj (hh.symm.trans hh')
        exact hp
      refine ⟨handleReply_not_panicked hreply, ?_⟩
      dsimp only
      rw [executed_orElse]
      exact handleReply_executed

/-- The errors of values that came late execute no auto-return. -/
theorem executed_raiseDelays (f : Unit → Effects Unit) :
    executed ((RequestMaker.raiseDelays p).andThen f).trace = executed (f ()).trace := by
  have hnone : executed (p.delays.map fun name => .raised (delayed name)) = [] := by
    rw [executed_eq_nil_iff]
    intro ev hev
    obtain ⟨name, -, rfl⟩ := List.mem_map.mp hev
    rfl
  rw [RequestMaker.raiseDelays, done_andThen, executed_append]
  exact (congrArg (· ++ _) hnone).trans (List.nil_append _)

/-- What a request executes: all auto-returns that it keeps if it gets to its end, or none. -/
theorem sendRequest_executed (x : Externals) (http : Http) (w : World) (m : RequestMaker)
    (items : List StreamItem) (reply : Reply) :
    (Completes x http m (Prepared.ofItems m.noAutoReturns items) reply →
      executed (m.sendRequest x http w items reply).trace =
        (Prepared.ofItems m.noAutoReturns items).returns) ∧
    (¬Completes x http m (Prepared.ofItems m.noAutoReturns items) reply →
      executed (m.sendRequest x http w items reply).trace = []) := by
  generalize hp : Prepared.ofItems m.noAutoReturns items = p
  simp only [RequestMaker.sendRequest, hp, executed_raiseDelays]
  cases hu : m.urlOf x http p.json with
  | error e =>
    refine ⟨?_, fun _ => rfl⟩
    rintro ⟨url, headers, h, -⟩
    simp [hu] at h
  | ok url =>
    rw [stage_ok]
    cases hh : m.headersOf x http p.json with
    | error e =>
      refine ⟨?_, fun _ => rfl⟩
      rintro ⟨url, headers, -, h, -⟩
      simp [hh] at h
    | ok headers =>
      rw [stage_ok]
      cases hb : m.bodyOf x http p.json headers with
      | error e =>
        rw [stage_error_andThen]
        refine ⟨fun _ => executed_always _ (by simp) (.inl rfl), fun h => ?_⟩
        exact absurd ⟨url, headers, hu, hh, by simp [hb]⟩ h
      | ok body =>
        rw [stage_ok]
        by_cases hpanics : ExchangePanics x http m p url reply body
        · obtain ⟨hend, hnone⟩ := exchange_panicked (w := w) hpanics
          rw [always_panicked hend]
          refine ⟨?_, fun _ => hnone⟩
          rintro ⟨url', headers', hu', hh', h⟩
          obtain rfl := Except.ok.inj (hu.symm.trans hu')
          obtain rfl := Except.ok.inj (hh.symm.trans hh')
          exact absurd hpanics (h body hb)
        · obtain ⟨hend, hexec⟩ := exchange_executed (w := w) hpanics
          refine ⟨fun _ => executed_always _ hend hexec, fun h => ?_⟩
          refine absurd ⟨url, headers, hu, hh, fun body' hb' => ?_⟩ h
          obtain rfl := Except.ok.inj (hb.symm.trans hb')
          exact hpanics

/-- The auto-returns are executed exactly once, or none where they are switched off, exactly if the
request gets to its end or carries none, and no declared value carries one where they are switched
off. -/
theorem sendRequest_returnsOnce_iff {items : List StreamItem} :
    ReturnsOnce m.noAutoReturns items (m.sendRequest x http w items reply) ↔
      (Completes x http m (Prepared.ofItems m.noAutoReturns items) reply →
        m.noAutoReturns = true → items.flatMap StreamItem.declaredReturns = []) ∧
      (¬Completes x http m (Prepared.ofItems m.noAutoReturns items) reply →
        m.noAutoReturns = false → items.flatMap StreamItem.returns = []) := by
  obtain ⟨hall, hnone⟩ := sendRequest_executed x http w m items reply
  rw [ofItems_returns] at hall
  rw [ReturnsOnce]
  by_cases hc : Completes x http m (Prepared.ofItems m.noAutoReturns items) reply
  · rw [hall hc, and_iff_left (fun h => absurd hc h), forall_prop_of_true hc]
    cases m.noAutoReturns with
    | true => simp
    | false => simp
  · rw [hnone hc, and_iff_right (fun h => absurd h hc), forall_prop_of_true hc]
    cases m.noAutoReturns with
    | true => simp
    | false => simp

/-- The auto-returns of every request are executed exactly once, or none where they are switched
off. -/
def AlwaysReturnsOnce : Prop :=
  ∀ (x : Externals) (http : Http) (w : World) (m : RequestMaker) (items : List StreamItem)
    (reply : Reply), ReturnsOnce m.noAutoReturns items (m.sendRequest x http w items reply)

/-- A value `a` that goes back to its provider. -/
def returned : AutoReturn := ⟨.block, 0, [.ofNat 1]⟩

/-- No url is valid. -/
def Http.noUrls : Http := { Http.plain with parseUrl _ := none }

/-- With an invalid url nothing goes back. -/
theorem not_alwaysReturnsOnce : ¬AlwaysReturnsOnce := by
  intro h
  have hrun : (RequestMaker.post .none).sendRequest .plain Http.noUrls
      ⟨fun _ => none, 0, true⟩ [.templateValue "a" (.ofNat 1) (some returned) 0] .timeout =
      ⟨[.raised ⟨.url, .invalidUrl "http://localhost/"⟩],
        .error ⟨.url, .invalidUrl "http://localhost/"⟩⟩ := rfl
  have := h .plain Http.noUrls ⟨fun _ => none, 0, true⟩
    (.post .none) [.templateValue "a" (.ofNat 1) (some returned) 0] .timeout
  rw [hrun] at this
  have hperm : ([] : List AutoReturn).Perm [returned] := this
  simp at hperm

end Request

end Pewpew.Request
