import Pewpew.Request.Event

/-! The body handler: what is sent once the body of a response has been read. -/
namespace Pewpew.Request

open SelectParser SelectParser.Special Effect

/-- What is done while the futures of the handler are built, what the joined futures do, and the
errors that end the join. -/
structure Sending where
  now : List Event
  later : List Event
  failures : List (Raised RecoverableError)

def Sending.append (s t : Sending) : Sending :=
  ⟨s.now ++ t.now, s.later ++ t.later, s.failures ++ t.failures⟩

def Sending.concat (l : List Sending) : Sending :=
  ⟨l.flatMap now, l.flatMap later, l.flatMap failures⟩

/-- A sender stops at an error, and at a value that is not taken. -/
def drain (accepts : Option Nat) (it : List Json × Option ExecutingError) :
    List Json × Option ExecutingError :=
  match accepts with
  | none => it
  | some n => if n < it.1.length then (it.1.take n, none) else it

/-- The items after the first error. -/
def afterError : Items → Items
  | [] => []
  | .error _ :: items => items
  | .ok _ :: items => afterError items

/-- The data with the error that is logged. -/
def withError (d : Json) (e : RecoverableError) : Json :=
  match d with
  | .object o => .object (Object.insert o "error" e.toJson)
  | d => d

section Senders

variable (x : Externals) (w : World)

/-- A sender of values: those that it sends, and the error that it ends with. -/
def sender (accepts : Option Nat) (o : Origin) (items : Items) :
    List Event × Option (Raised RecoverableError) :=
  let it := drain accepts (sentOf items)
  (it.1.map (.sent o), it.2.map fun e => ⟨o, .executingExpression e⟩)

/-- `BlockSender`: after an error its drop polls once more. -/
def blockSender (o : Origin) (items : Items) : List Event × Option (Raised RecoverableError) :=
  let (sent, e) := sender (w.accepts o) o items
  let more := if e.isSome then
      (sender ((w.accepts o).map (· - sent.length)) o (afterError items)).1
    else []
  (sent ++ more, e)

/-- The loggers among the outgoing that iterate on an error. -/
def errorLogs (outgoing : List Outgoing) (d : Json) (e : Raised RecoverableError) :
    List (List Event × Option (Raised RecoverableError)) :=
  outgoing.zipIdx.filterMap fun (o, i) =>
    if o.isLogger then
      match o.select.asIter x (withError d e.error) with
      | .ok items => some (blockSender w (.errorLog e.origin i) items)
      | .error _ => none
    else none

/-- The tags that evaluate. -/
def evaluateTags (tags : List (String × Template)) (d : Json) : List (String × String) :=
  tags.filterMap fun (k, t) => (t.evaluate x (.borrowed d) none).toOption.map (k, ·)

end Senders

/-- `ProviderDelays::log`. -/
def logDelays (delays : List String) (tags : List (String × String)) : List Event :=
  delays.map fun p => .responseStat ⟨.recoverableError ⟨.delay, .providerDelay p⟩, none, tags⟩

/-- `included` are the indexes of the outgoing to iterate, `values` the template values, of which
`response` is one. -/
structure BodyHandler where
  included : List Nat
  rtt : Nat
  outgoing : List Outgoing
  delays : List String
  status : Nat
  tags : List (String × Template)
  values : Object
  response : Object

namespace BodyHandler

variable (x : Externals) (w : World) (h : BodyHandler)

/-- `send_response_stat`: the stat is sent at once, and the loggers get an error. -/
def sendResponseStat (d : Json) (kind : StatKind) (rtt : Option Nat) : Sending :=
  let logs := match kind with
    | .recoverableError e => errorLogs x w h.outgoing d e
    | .response _ => []
  { now := [.responseStat ⟨kind, rtt, evaluateTags x h.tags d⟩]
    later := logs.flatMap (·.1)
    failures := logs.filterMap (·.2) }

/-- An error of an outgoing is met and recorded. -/
def recordError (d : Json) (e : Raised RecoverableError) : Sending :=
  let s := h.sendResponseStat x w d (.recoverableError e) none
  { s with now := .raised e.toTest :: s.now }

/-- The `force` and `if_not_full` sends: a logger gets nothing. -/
def sendEagerly (d : Json) (accepts : Option Nat) (i : Nat) (o : Outgoing) (items : Items) :
    Sending :=
  let (sent, e) := sender accepts (.outgoing i) items
  let sent : Sending := ⟨if o.isLogger then [] else sent, [], []⟩
  match e with
  | none => sent
  | some e => sent.append (h.recordError x w d e)

/-- One round of the loop over the outgoing. The error of a `block` send is dropped. -/
def sendOne (d : Json) (i : Nat) (o : Outgoing) : Sending :=
  match o.select.asIter x d with
  | .error e => h.recordError x w d ⟨.outgoing i, .executingExpression e⟩
  | .ok items =>
    match o.send with
    | .block =>
      let (sent, e) := blockSender w (.outgoing i) items
      ⟨[], sent ++ e.toList.map fun e => .raised e.toTest, []⟩
    | .force => h.sendEagerly x w d none i o items
    | .ifNotFull =>
      h.sendEagerly x w d (if o.isLogger then none else w.accepts (.outgoing i)) i o items

/-- The loop over the outgoing. -/
def sendIncluded (d : Json) : Sending :=
  .concat ((h.outgoing.zipIdx.filter fun (_, i) => i ∈ h.included).map fun (o, i) =>
    h.sendOne x w d i o)

/-- The template values with `stats` and the body, if there is one. -/
def data (result : Except RecoverableError (Option Json)) : Json :=
  completeValues h.values h.response h.rtt (result.toOption.bind id)

/-- A body that could not be read is recorded; the outgoing are iterated otherwise. -/
def sendResult (result : Except RecoverableError (Option Json)) : Sending :=
  match result with
  | .error e => h.sendResponseStat x w (h.data result) (.recoverableError ⟨.responseBody, e⟩) none
  | .ok _ => h.sendIncluded x w (h.data result)

/-- `BodyHandler::handle`: the response has a stat in any case. -/
def handle (result : Except RecoverableError (Option Json)) (returns : List AutoReturn) :
    Effects Unit :=
  let d := h.data result
  let sending := (h.sendResult x w result).append
    (h.sendResponseStat x w d (.response h.status) (some h.rtt))
  let before := logDelays h.delays (evaluateTags x h.tags d) ++ sending.now
  let returns := returns.map Event.autoReturn
  match sending.failures[w.surfaces]?.or sending.failures.head? with
  | none => .done (before ++ returns ++ sending.later) ()
  | some e => .fail (before ++ (if w.returnsInTime then returns else []) ++ sending.later) e.toTest

end BodyHandler

end Pewpew.Request
