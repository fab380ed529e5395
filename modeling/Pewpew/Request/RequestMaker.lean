import Pewpew.Request.Body
import Pewpew.Request.BodyHandler

/-! `RequestMaker::send_request`: one request, from its template values to its last auto-return. -/
namespace Pewpew.Request

open SelectParser SelectParser.Special Effect

/-- One item of each stream that a request waits for. -/
inductive StreamItem where
  | instant (target : Option Nat)
  | declare (name : String) (value : Json) (returns : List AutoReturn) (arrived : Nat)
  | none
  | templateValue (name : String) (value : Json) (autoReturn : Option AutoReturn) (arrived : Nat)

/-- What the items of a request add up to. -/
structure Prepared where
  values : Object
  returns : List AutoReturn
  target : Option Nat
  delays : List String

namespace Prepared

def start : Prepared := ⟨[], [], none, []⟩

/-- A value that came after the target time was delayed. -/
def insert (p : Prepared) (name : String) (value : Json) (arrived : Nat) : Prepared :=
  let late := match p.target with
    | some target => decide (target < arrived)
    | none => false
  { p with values := Object.insert p.values name value
           delays := if late then p.delays ++ [name] else p.delays }

/-- One item; the auto-returns of a declared value are kept in any case. -/
def push (noAutoReturns : Bool) (p : Prepared) : StreamItem → Prepared
  | .instant target => { p with target := target }
  | .declare name value returns arrived =>
    let p := p.insert name value arrived
    { p with returns := p.returns ++ returns }
  | .none => p
  | .templateValue name value autoReturn arrived =>
    let p := p.insert name value arrived
    match autoReturn, noAutoReturns with
    | some r, false => { p with returns := p.returns ++ [r] }
    | _, _ => p

def ofItems (noAutoReturns : Bool) (items : List StreamItem) : Prepared :=
  items.foldl (push noAutoReturns) .start

def json (p : Prepared) : Json := .object p.values

end Prepared

/-- What the client and the timer give: a response, with whether its content encoding is text, or
none. There is no timer, and `Delay::new` panics, where the timeout ends after the last instant that
the clock can tell. -/
inductive Reply where
  | noTimer
  | timeout
  | connectionErr (e : String)
  | response (r : Response) (encodingIsText : Bool)

structure RequestMaker where
  url : Template
  method : String
  headers : List (String × Template)
  body : BodyTemplate
  rrProviders : BitVec 16
  precheckRrProviders : BitVec 16
  noAutoReturns : Bool
  outgoing : List Outgoing
  tags : List (String × Template)
  timeout : Nat

namespace RequestMaker

section Stages

variable (x : Externals) (http : Http) (m : RequestMaker) (d : Json)

def urlOf : Except TestError Url := do
  let text ← evaluateText x d m.url
  match http.parseUrl text with
  | some url => return url
  | none => throw (.invalidUrl text)

def headersOf : Except TestError HeaderMap := m.headers.mapM (header x http d)

def bodyOf (headers : HeaderMap) : Except TestError Body :=
  bodyTemplateAsHyperBody x http d headers (m.rrProviders &&& requestBody ≠ 0) m.body

/-- The path and query of the request, if it can be built. -/
def builtOf (url : Url) : Except TestError (Option String) :=
  (http.build m.method url.href).mapError .requestBuilderErr

/-- The host header: a url without a host panics. -/
def hostOf (url : Url) : Option String := url.host.bind fun h => (http.headerValue h).toOption

def finalHeaders (body : Body) (host : String) : HeaderMap :=
  let headers := body.headers.insert "host" host
  if 0 < body.length then headers.insert "content-length" (toString body.length) else headers

end Stages

def urlJson (url : Url) : Json :=
  .object
    [ ("hash", .string ((url.fragment.map ("#" ++ ·)).getD "")),
      ("host", .string (url.host.getD "")),
      ("hostname", .string (url.domain.getD "")),
      ("href", .string url.href),
      ("origin", .string url.origin),
      ("password", .string (url.password.getD "")),
      ("pathname", .string url.path),
      ("port", .string ((url.port.map toString).getD "")),
      ("protocol", .string (if url.scheme = "" then "" else url.scheme ++ ":")),
      ("search", .string ((url.query.map ("?" ++ ·)).getD "")),
      ("searchParams",
        .object (Object.ofEntries (url.queryPairs.map fun (k, v) => (k, .string v)))),
      ("username", .string url.username) ]

def setIf (needed : Prop) [Decidable needed] (key : String) (v : Json) (o : Object) : Object :=
  if needed then Object.insert o key v else o

/-- The `request` among the template values. -/
def requestJson (m : RequestMaker) (url : Url) (pathAndQuery : Option String) (headers : HeaderMap)
    (body : Body) : Json :=
  let startLine := m.method ++ " " ++ pathAndQuery.getD "/" ++ " HTTP/1.1"
  .object <| setIf (m.rrProviders &&& requestUrl = requestUrl) "url" (urlJson url) []
    |> setIf (m.rrProviders &&& requestStartline ≠ 0) "start-line" (.string startLine)
    |> setIf (m.rrProviders &&& requestHeaders ≠ 0) "headers" (.object headers.toJson)
    |> setIf (m.rrProviders &&& requestHeadersAll ≠ 0) "headers_all" (.object headers.allToJson)
    |> setIf (m.rrProviders &&& requestBody ≠ 0) "body" (.string (body.value.getD ""))
    |> setIf True "method" (.string m.method)

section Run

variable (x : Externals) (http : Http) (w : World) (m : RequestMaker)

/-- `ResponseHandler::handle`. -/
def handleResponse (p : Prepared) (values : Object) (r : Response) (encodingIsText : Bool) :
    Effects Unit :=
  let fields := handleResponseRequirements m.precheckRrProviders r (.start r)
  match includedIndexes x values m.precheckRrProviders m.rrProviders r
      (m.outgoing.map Outgoing.select) 0 fields with
  | .error e => stage .whereClause (.error (.recoverable (.executingExpression e)))
  | .ok (included, fields) =>
    if encodingIsText then
      let handler : BodyHandler :=
        { included := included, rtt := r.rtt, outgoing := m.outgoing, delays := p.delays
          status := r.status, tags := m.tags, values := values, response := fields.object }
      match readBody r fields with
      | .ok body => handler.handle x w (.ok body) p.returns
      | .error e =>
        let t := handler.handle x w (.error (.bodyErr e)) p.returns
        { t with trace := .raised ⟨.responseBody, bodyErr e⟩ :: t.trace }
    else .panic

/-- The reply to a request. -/
def handleReply (p : Prepared) (values : Object) : Reply → Effects Unit
  | .noTimer => .panic
  | .timeout => stage .connection (.error (.recoverable .timeout))
  | .connectionErr e => stage .connection (.error (.recoverable (.connectionErr e)))
  | .response r encodingIsText => m.handleResponse x w p values r encodingIsText

/-- A recoverable error becomes a stat, and the loggers get it. -/
def recover (values : Object) (e : Raised TestError) : Effects Unit :=
  match e.error with
  | .recoverable r =>
    let e : Raised RecoverableError := ⟨e.origin, r⟩
    let rtt := match r with
      | .timeout => some m.timeout
      | _ => none
    let stat := ⟨.recoverableError e, rtt, evaluateTags x m.tags (.object values)⟩
    let logs := (errorLogs x w m.outgoing (.object values) e).flatMap (·.1)
    .done (.responseStat stat :: logs) ()
  | _ => .fail [] e

/-- From the body of the request to its reply. -/
def exchange (p : Prepared) (url : Url) (reply : Reply) (body : Body) : Effects Unit :=
  (stage .builder (m.builtOf http url)).andThen fun pathAndQuery =>
    match hostOf http url with
    | none => .panic
    | some host =>
      let request := m.requestJson url pathAndQuery (finalHeaders body host) body
      let values := Object.insert p.values "request" request
      (m.handleReply x w p values reply).orElse (m.recover x w values)

/-- The shared future of the auto-returns runs once. -/
def returnOnce (returns : List AutoReturn) (trace : List Event) : Effects Unit :=
  .done (if trace.any Event.isAutoReturn then [] else returns.map .autoReturn) ()

/-- A value that came late is an error from the start, to be logged with the response. -/
def raiseDelays (p : Prepared) : Effects Unit :=
  .done (p.delays.map fun name => .raised ⟨.delay, .recoverable (.providerDelay name)⟩) ()

/-- `send_request`. What the request after its headers comes to is not looked at. -/
def sendRequest (items : List StreamItem) (reply : Reply) : Effects Unit :=
  let p := Prepared.ofItems m.noAutoReturns items
  (raiseDelays p).andThen fun _ =>
    (stage .url (m.urlOf x http p.json)).andThen fun url =>
      (stage .headers (m.headersOf x http p.json)).andThen fun headers =>
        ((stage .body (m.bodyOf x http p.json headers)).andThen
          (m.exchange x http w p url reply)).always (returnOnce p.returns)

end Run

end RequestMaker

end Pewpew.Request
