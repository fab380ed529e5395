import Pewpew.Config.LoadTest
import Pewpew.Request.Body

/-! `LoadTest::from_config`: what becomes of a config file that has been parsed. -/
namespace Pewpew.SelectParser

def RequiredProviders.remove (p : RequiredProviders) (s : String) : RequiredProviders :=
  { p with
    inner := p.inner.erase s
    plain := fun t ht => p.plain t (Std.ExtTreeMap.mem_of_mem_erase ht) }

/-- `evaluate_with_star`. -/
def Template.evaluateWithStar : Template → String
  | .mk pieces _ =>
    String.join <| pieces.map fun
      | .expression _ => "*"
      | .notExpression s => s

end Pewpew.SelectParser

namespace Pewpew.Config

open SelectParser
open Request (EndpointProvidesSendOptions BodyTemplate MultipartPiece)

inductive FromConfigError where
  | expression (f : SelectParser.Failure)
  | value (f : Failure)
  | missingPeakLoad (m : Marker)
  | missingLoadPattern (m : Marker)
  | unknownLogger (l : String) (m : Marker)
  | unknownProvider (p : String) (m : Marker)

/-- `?` on the result of a parser of expressions. -/
def parsed {α : Type} (r : Except SelectParser.Failure α) : Except FromConfigError α :=
  r.mapError .expression

/-- How the values of the config file are evaluated that are no templates in the end. -/
structure Values where
  LoadPattern : Type
  HitsPer : Type
  var : PreVar → Object → Except FromConfigError Json
  loadPattern : PreLoadPattern → Object → Except FromConfigError LoadPattern
  hitsPer : PreHitsPer → Object → Except FromConfigError HitsPer
  duration : PreDuration → Object → Except FromConfigError Nat

def Method.name : Method → String
  | post => "POST"
  | get => "GET"
  | put => "PUT"
  | head => "HEAD"
  | delete => "DELETE"
  | options => "OPTIONS"
  | connect => "CONNECT"
  | patch => "PATCH"
  | trace => "TRACE"

/-- A map over a list in which every call notes what it requires. -/
def noting {α β : Type}
    (f : α → RequiredProviders → Except SelectParser.Failure (β × RequiredProviders)) :
    List α → RequiredProviders → Except SelectParser.Failure (List β × RequiredProviders)
  | [], p => .ok ([], p)
  | a :: l, p => (f a p).bind fun (b, p) => (noting f l p).map fun (bs, p) => (b :: bs, p)

/-- The same on the values of a list of pairs. -/
def keyed {α β : Type}
    (f : α → RequiredProviders → Except SelectParser.Failure (β × RequiredProviders)) :
    String × α → RequiredProviders →
      Except SelectParser.Failure ((String × β) × RequiredProviders)
  | (k, a), p => (f a p).map fun (b, p) => ((k, b), p)

structure Endpoint (v : Values) where
  body : BodyTemplate
  declare : List (String × ValueOrExpression)
  headers : List (String × Template)
  loadPattern : Option v.LoadPattern
  logs : List (String × Select)
  maxParallelRequests : Option Nat
  method : Method
  noAutoReturns : Bool
  onDemand : Bool
  peakLoad : Option v.HitsPer
  provides : List (String × EndpointProvidesSendOptions × Select)
  providersToStream : RequiredProviders
  requiredProviders : RequiredProviders
  requestTimeout : Option Nat
  tags : List (String × Template)
  url : Template

section Parts

variable (x : Externals) (g : Grammar) (depth : Nat) (vars : Object)

/-- `as_template`. -/
def PreTemplate.asTemplate (t : PreTemplate) (p : RequiredProviders) :
    Except SelectParser.Failure (Template × RequiredProviders) :=
  Template.new x g vars t.noFail t.text.marker depth t.text.inner p

/-- `evaluate`, on no data. -/
def PreTemplate.evaluate (t : PreTemplate) : Except SelectParser.Failure String := do
  let (template, _) ← t.asTemplate x g depth vars .new
  (template.evaluate x (.owned .null) none).mapError .executing

/-- `evaluate` of a duration, in seconds. -/
def PreDuration.evaluate (b : Build) (dur : PreDuration) : Except FromConfigError Nat := do
  let s ← parsed (PreTemplate.evaluate x g depth vars dur)
  (durationFromString b s dur.text.marker).mapError .value

/-- `evaluate` of an expression in `declare`. -/
def declared (e : PreValueOrExpression) (p : RequiredProviders) :
    Except SelectParser.Failure (ValueOrExpression × RequiredProviders) :=
  ValueOrExpression.new x g vars false e.marker depth e.inner p

def BodyMultipartPieceBody.template : BodyMultipartPieceBody → PreTemplate
  | string t => t
  | file t => t

def BodyMultipartPieceBody.isFile : BodyMultipartPieceBody → Bool
  | string _ => false
  | file _ => true

def BodyMultipartPiece.process (name : String) (piece : BodyMultipartPiece)
    (p : RequiredProviders) : Except SelectParser.Failure (MultipartPiece × RequiredProviders) :=
  (piece.body.template.asTemplate x g depth vars p).bind fun (template, p) =>
    (noting (keyed (PreTemplate.asTemplate x g depth vars)) piece.headers p).map
      fun (headers, p) => (⟨name, headers, piece.body.isFile, template⟩, p)

def Body.process (configPath : String) (p : RequiredProviders) :
    Option Body → Except SelectParser.Failure (BodyTemplate × RequiredProviders)
  | none => .ok (.none, p)
  | some (.file t) =>
    (t.asTemplate x g depth vars p).map fun (t, p) => (.file configPath t, p)
  | some (.string t) => (t.asTemplate x g depth vars p).map fun (t, p) => (.string t, p)
  | some (.multipart pieces) =>
    (noting (fun e => e.2.process x g depth vars e.1) pieces p).map fun (pieces, p) =>
      (.multipart ⟨configPath, pieces⟩, p)

/-- What an endpoint provides is sent in the way it says, or as its load suggests. -/
def EndpointProvidesPreProcessed.process (hasPeakLoad : Bool) (e : EndpointProvidesPreProcessed)
    (p : RequiredProviders) :
    Except SelectParser.Failure ((EndpointProvidesSendOptions × Select) × RequiredProviders) :=
  (Select.new x g vars false depth e.toEndpointProvidesPreProcessed p).map fun (select, p) =>
    ((e.send.getD (if hasPeakLoad then .ifNotFull else .block), select), p)

end Parts

/-- The same values, with durations as they are evaluated. -/
def Values.withDurations (x : Externals) (g : Grammar) (depth : Nat) (b : Build) (v : Values) :
    Values :=
  { v with duration := fun dur vars => PreDuration.evaluate x g depth vars b dur }

/-- The headers that an endpoint sets, and those global ones that it keeps. -/
def headersToAdd (headers : List (String × Option PreTemplate)) : List (String × PreTemplate) :=
  headers.filterMap fun (k, t) => t.map fun t => (k, t)

def keptHeaders (headers : List (String × Option PreTemplate))
    (globalHeaders : List (String × Template × RequiredProviders)) :
    List (String × Template × RequiredProviders) :=
  globalHeaders.filter fun (k, _) => !headers.any fun (k', t) => k' = k && t.isNone

/-- The tags of an endpoint with those that every endpoint has. -/
def allTags (e : EndpointPreProcessed) (endpointId : Nat) (url : Template) :
    BTreeMap PreTemplate :=
  let marker := e.url.text.marker
  let tags := e.tags.insertIfNew "url" (.new ⟨url.evaluateWithStar, marker⟩)
  (tags.insert "_id" (.new ⟨toString endpointId, marker⟩)).insert "method"
    (.new ⟨e.method.name, marker⟩)

section FromPreprocessed

variable (x : Externals) (g : Grammar) (depth : Nat) (v : Values) (vars : Object)

/-- `append_logger`. -/
def Endpoint.appendLogger (e : Endpoint v) (key : String) (value : LogsPreProcessed) :
    Except FromConfigError (Endpoint v) := do
  let (select, p) ← parsed <| Select.new x g vars true depth
    ⟨value.forEach, value.select, value.whereClause⟩ e.providersToStream
  return { e with logs := e.logs ++ [(key, select)], providersToStream := p }

/-- `append_processed_logger`, with the providers of a global logger. -/
def Endpoint.appendProcessedLogger {v : Values} (key : String) (select : Select)
    (requiredProviders : RequiredProviders) (e : Endpoint v) : Endpoint v :=
  { e with
    logs := e.logs ++ [(key, select)]
    providersToStream := e.providersToStream.extend requiredProviders
    requiredProviders := e.requiredProviders.extend requiredProviders }

/-- `from_preprocessed`. -/
def Endpoint.fromPreprocessed (globalLoadPattern : Option v.LoadPattern)
    (globalHeaders : List (String × Template × RequiredProviders)) (configPath : String)
    (endpoint : EndpointPreProcessed) (endpointId : Nat) :
    Except FromConfigError (Endpoint v) := do
  let (added, p) ← parsed <| noting (keyed (PreTemplate.asTemplate x g depth vars))
    (headersToAdd endpoint.headers) .new
  let kept := keptHeaders endpoint.headers globalHeaders
  let p := kept.foldl (fun p h => p.extend h.2.2) p
  let (provides, p) ← parsed <| noting
    (keyed (EndpointProvidesPreProcessed.process x g depth vars endpoint.peakLoad.isSome))
    endpoint.provides p
  let loadPattern ← endpoint.loadPattern.mapM (v.loadPattern · vars)
  let peakLoad ← endpoint.peakLoad.mapM (v.hitsPer · vars)
  let (url, p) ← parsed <| endpoint.url.asTemplate x g depth vars p
  let (tags, p) ← parsed <| noting
    (keyed fun t => PreTemplate.asTemplate x g depth vars { t with noFail := true })
    (allTags endpoint endpointId url).toList p
  let (body, p) ← parsed <| Body.process x g depth vars configPath p endpoint.body
  let providersToStream := endpoint.declare.keys.foldl RequiredProviders.remove p
  let (declare, requiredProviders2) ← parsed <| noting (keyed (declared x g depth vars))
    endpoint.declare.toList .new
  let requestTimeout ← endpoint.requestTimeout.mapM (v.duration · vars)
  endpoint.logs.foldlM (fun e log => e.appendLogger x g depth v vars log.1 log.2)
    { body := body
      declare := declare
      headers := kept.map (fun h => (h.1, h.2.1)) ++ added
      loadPattern := loadPattern.or globalLoadPattern
      logs := []
      maxParallelRequests := endpoint.maxParallelRequests
      method := endpoint.method
      noAutoReturns := endpoint.noAutoReturns
      onDemand := endpoint.onDemand
      peakLoad := peakLoad
      provides := provides
      providersToStream := providersToStream
      requiredProviders := requiredProviders2.extend providersToStream
      requestTimeout := requestTimeout
      tags := tags
      url := url }

end FromPreprocessed

structure ClientConfig where
  keepalive : Nat
  requestTimeout : Nat

structure GeneralConfig where
  autoBufferStartSize : Nat
  bucketSize : Nat
  logProviderStats : Bool
  watchTransitionTime : Option Nat
  logLevel : Option LevelFilter

/-- A provider; the path of a file has been evaluated. -/
inductive Provider where
  | file (path : String) (f : FileProviderPreProcessed)
  | range (r : RangeProviderPreProcessed)
  | response (r : ResponseProvider)
  | list (l : ListProvider)

structure Logger where
  dest : String
  pretty : Bool
  limit : Option Nat
  kill : Bool

structure LoadTest (v : Values) where
  client : ClientConfig
  general : GeneralConfig
  endpoints : List (Endpoint v)
  providers : BTreeMap Provider
  loggers : BTreeMap Logger
  vars : Object
  loadTestErrors : List FromConfigError

def ProviderPreProcessed.isResponseProvider : ProviderPreProcessed → Bool
  | response _ => true
  | _ => false

/-- What keeps an endpoint out of a load test, but not out of a try run. -/
def loadTestErrorsOf {v : Values} (providers : BTreeMap ProviderPreProcessed) (e : Endpoint v)
    (marker : Marker) : List FromConfigError :=
  let requiresResponseProvider := e.requiredProviders.inner.keys.any fun p =>
    (providers[p]?.map ProviderPreProcessed.isResponseProvider).getD false
  let hasProvidesSendBlock := e.provides.any fun p => p.2.1 = .block
  if e.peakLoad.isNone then
    if !hasProvidesSendBlock && !requiresResponseProvider then [.missingPeakLoad marker] else []
  else if e.loadPattern.isNone then [.missingLoadPattern marker] else []

namespace LoadTest

variable {v : Values}

def verifyLoggers (lt : LoadTest v) (loggers : List (String × Marker)) :
    Except FromConfigError Unit :=
  match loggers.find? fun l => !lt.loggers.contains l.1 with
  | some (l, marker) => .error (.unknownLogger l marker)
  | none => .ok ()

def verifyProviders (lt : LoadTest v) (providers : List (String × Marker)) :
    Except FromConfigError Unit :=
  match providers.find? fun p => !lt.providers.contains p.1 with
  | some (p, marker) => .error (.unknownProvider p marker)
  | none => .ok ()

section

variable (x : Externals) (g : Grammar) (depth : Nat)

/-- `Logger::from_pre_processed`. -/
def loggerFromPreProcessed (vars : Object) (logger : LoggerPreProcessed) (p : RequiredProviders) :
    Except SelectParser.Failure ((Logger × Option Select) × RequiredProviders) := do
  let (select, p) ← match logger.select with
    | none => pure (none, p)
    | some select =>
      (Select.new x g vars true depth ⟨logger.forEach, select, logger.whereClause⟩ p).map
        fun (s, p) => (some s, p)
  let dest ← logger.dest.evaluate x g depth vars
  return ((⟨dest, logger.pretty, logger.limit, logger.kill⟩, select), p)

def addLogger (lt : LoadTest v) (key : String) (value : LoggerPreProcessed) :
    Except FromConfigError (LoadTest v) := do
  let ((logger, select), p) ← parsed <| loggerFromPreProcessed x g depth lt.vars value .new
  let lt := { lt with loggers := Std.ExtTreeMap.insert lt.loggers key logger }
  lt.verifyProviders p.inner.toList
  match select with
  | some select =>
    return { lt with endpoints := lt.endpoints.map (Endpoint.appendProcessedLogger key select p) }
  | none => return lt

/-- The checks of an endpoint at the end. -/
def verifyEndpoint (lt : LoadTest v) (e : Endpoint v) (marker : Marker) :
    Except FromConfigError Unit := do
  lt.verifyLoggers (e.logs.map fun l => (l.1, marker))
  lt.verifyProviders (e.requiredProviders.inner.toList ++ e.provides.map fun p => (p.1, marker))

def processProvider (vars : Object) : ProviderPreProcessed → Except FromConfigError Provider
  | .file f => do
    let path ← parsed <| f.path.evaluate x g depth vars
    return .file path f
  | .range r => return .range r
  | .response r => return .response r
  | .list l => return .list l

/-- `from_config`, after the file has been parsed. -/
def fromConfig (v : Values) (configPath : String) (envVars : Object) (c : LoadTestPreProcessed) :
    Except FromConfigError (LoadTest v) := do
  let vars ← c.vars.toList.mapM fun (k, var) => return (k, ← v.var var envVars)
  let globalLoadPattern ← c.loadPattern.mapM (v.loadPattern · vars)
  let globalHeaders ← c.config.client.headers.mapM fun (k, t) => do
    let (t, p) ← parsed <| t.asTemplate x g depth vars .new
    return (k, t, p)
  let keepalive ← v.duration c.config.client.keepalive vars
  let requestTimeout ← v.duration c.config.client.requestTimeout vars
  let bucketSize ← v.duration c.config.general.bucketSize vars
  let watchTransitionTime ← c.config.general.watchTransitionTime.mapM (v.duration · vars)
  let endpoints ← c.endpoints.zipIdx.mapM fun (e, i) =>
    Endpoint.fromPreprocessed x g depth v vars globalLoadPattern globalHeaders configPath e i
  let markers := c.endpoints.map (·.marker)
  let providers ← c.providers.toList.mapM fun (k, p) =>
    return (k, ← processProvider x g depth vars p)
  let lt : LoadTest v :=
    { client := ⟨keepalive, requestTimeout⟩
      general := ⟨c.config.general.autoBufferStartSize, bucketSize,
        c.config.general.logProviderStats, watchTransitionTime, c.config.general.logLevel⟩
      endpoints := endpoints
      providers := .ofList providers
      loggers := ∅
      vars := vars
      loadTestErrors := (endpoints.zip markers).flatMap fun (e, marker) =>
        loadTestErrorsOf c.providers e marker }
  let lt ← c.loggers.toList.foldlM (fun lt logger => lt.addLogger x g depth logger.1 logger.2) lt
  (lt.endpoints.zip markers).forM fun (e, marker) => lt.verifyEndpoint e marker
  return lt

end

end LoadTest

end Pewpew.Config
