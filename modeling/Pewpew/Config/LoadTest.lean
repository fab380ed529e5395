import Pewpew.Config.Endpoints

/-! The whole of a config file, before it is processed. -/
namespace Pewpew.Config

open SelectParser Yaml Reader Section

/-- A duration that the config file does not set. -/
def defaultDuration (dur : String) (marker : Marker) : PreDuration := .new ⟨dur, marker⟩

structure ClientConfigPreProcessed where
  headers : List (String × PreTemplate)
  keepalive : PreDuration
  requestTimeout : PreDuration

namespace ClientConfigPreProcessed

structure Fields where
  requestTimeout : Option PreDuration := none
  headers : List (String × PreTemplate) := []
  keepalive : Option PreDuration := none

def default (marker : Marker) : ClientConfigPreProcessed :=
  ⟨[], defaultDuration "90s" marker, defaultDuration "60s" marker⟩

def layout : Section ClientConfigPreProcessed where
  Fields := Fields
  init := {}
  field key _ :=
    if key = "request_timeout" then
      named key PreTemplate.parse fun c f => { f with requestTimeout := some c }
    else if key = "keepalive" then
      named key PreTemplate.parse fun a f => { f with keepalive := some a }
    else if key = "headers" then
      named key (TupleVec.parse PreTemplate.parse) fun b f => { f with headers := b }
    else none
  finish f marker := .ok
    ⟨f.headers, f.keepalive.getD (defaultDuration "90s" marker),
      f.requestTimeout.getD (defaultDuration "60s" marker)⟩

end ClientConfigPreProcessed

section Duration

variable (b : Build)

/-- A result of `u64` arithmetic, and what an overflow is called. -/
def u64 (operation : String) (n : Nat) : Except Failure Nat :=
  if n < 2 ^ 64 then .ok n
  else if b.overflowChecks then .error (.panic ("attempt to " ++ operation ++ " with overflow"))
  else .ok (n % 2 ^ 64)

/-- The seconds of a unit, by the first byte of its name. -/
def unitSeconds (unit : String) : Except Failure Nat :=
  match unit.toList with
  | c :: _ =>
    if c.utf8Size ≠ 1 then .error (.panic "byte index 1 is not a char boundary")
    else if c.toLower = 'd' then .ok (60 * 60 * 24)
    else if c.toLower = 'h' then .ok (60 * 60)
    else if c.toLower = 'm' then .ok 60
    else .ok 1
  | [] => .error (.panic "byte index 1 is out of bounds")

def addCapture (totalSecs : Nat) (capture : String × String) : Except Failure Nat := do
  match unsigned 64 capture.1 with
  | none => throw (.panic "should parse into u64 for duration")
  | some n =>
    let seconds ← unitSeconds capture.2
    let secs ← u64 b "multiply" (n * seconds)
    u64 b "add" (totalSecs + secs)

/-- `duration_from_string2`, in seconds. -/
def durationFromString (dur : String) (marker : Marker) : Except Failure Nat :=
  match b.durations dur with
  | none => .error (.err (.invalidDuration dur marker))
  | some captures => captures.foldlM (addCapture b) 0

end Duration

structure GeneralConfigPreProcessed where
  autoBufferStartSize : Nat
  bucketSize : PreDuration
  logProviderStats : Bool
  watchTransitionTime : Option PreDuration
  logLevel : Option LevelFilter

namespace GeneralConfigPreProcessed

structure Fields where
  autoBufferStartSize : Nat := 5
  bucketSize : Option PreDuration := none
  logProviderStats : Bool := true
  watchTransitionTime : Option PreDuration := none
  logLevel : Option LevelFilter := none

def default (marker : Marker) : GeneralConfigPreProcessed :=
  ⟨5, defaultDuration "60s" marker, true, none, none⟩

/-- A duration stands for `true`. -/
def statsValue (b : Build) (key : String) (marker : Marker) (d : String) :
    Except Failure Bool :=
  if d = "true" then .ok true
  else if d = "false" then .ok false
  else
    match durationFromString b d ⟨1, 0⟩ with
    | .ok _ => .ok true
    | .error (.err _) => .error (.err (.yamlDeserialize (some key) marker))
    | .error f => .error f

def levelValue (b : Build) (key : String) (marker : Marker) (d : String) :
    Except Failure LevelFilter :=
  match b.level d with
  | some level => .ok level
  | none => .error (.err (.yamlDeserialize (some key) marker))

def layout (b : Build) : Section GeneralConfigPreProcessed where
  Fields := Fields
  init := {}
  field key marker :=
    if key = "auto_buffer_start_size" then
      named key Usize.parse fun c f => { f with autoBufferStartSize := c }
    else if key = "bucket_size" then
      named key PreTemplate.parse fun a f => { f with bucketSize := some a }
    else if key = "log_provider_stats" then
      tryNamed key String.parse fun d =>
        (statsValue b key marker d).map fun v f => { f with logProviderStats := v }
    else if key = "watch_transition_time" then
      named key PreTemplate.parse fun b f => { f with watchTransitionTime := some b }
    else if key = "log_level" then
      tryNamed key String.parse fun d =>
        (levelValue b key marker d).map fun level f => { f with logLevel := some level }
    else none
  finish f marker := .ok
    ⟨f.autoBufferStartSize, f.bucketSize.getD (defaultDuration "60s" marker), f.logProviderStats,
      f.watchTransitionTime, f.logLevel⟩

end GeneralConfigPreProcessed

structure ConfigPreProcessed where
  client : ClientConfigPreProcessed
  general : GeneralConfigPreProcessed

namespace ConfigPreProcessed

structure Fields where
  client : Option ClientConfigPreProcessed := none
  general : Option GeneralConfigPreProcessed := none

def default (marker : Marker) : ConfigPreProcessed := ⟨.default marker, .default marker⟩

def layout (b : Build) : Section ConfigPreProcessed where
  Fields := Fields
  init := {}
  field key _ :=
    if key = "client" then
      named key ClientConfigPreProcessed.layout.parse fun c f => { f with client := some c }
    else if key = "general" then
      named key (GeneralConfigPreProcessed.layout b).parse fun a f => { f with general := some a }
    else none
  finish f marker := .ok ⟨f.client.getD (.default marker), f.general.getD (.default marker)⟩

end ConfigPreProcessed

structure LoadTestPreProcessed where
  config : ConfigPreProcessed
  endpoints : List EndpointPreProcessed
  loadPattern : Option PreLoadPattern
  providers : BTreeMap ProviderPreProcessed
  loggers : BTreeMap LoggerPreProcessed
  vars : BTreeMap PreVar

namespace LoadTestPreProcessed

structure Fields where
  config : Option ConfigPreProcessed := none
  endpoints : Option (List EndpointPreProcessed) := none
  loadPattern : Option PreLoadPattern := none
  providers : BTreeMap ProviderPreProcessed := ∅
  loggers : BTreeMap LoggerPreProcessed := ∅
  vars : BTreeMap PreVar := ∅

def layout (b : Build) : Section LoadTestPreProcessed where
  Fields := Fields
  init := {}
  field key _ :=
    if key = "config" then
      named key (ConfigPreProcessed.layout b).parse fun r f => { f with config := some r }
    else if key = "endpoints" then
      named key (Vec.parse (EndpointPreProcessed.layout b).parse) fun r f =>
        { f with endpoints := some r }
    else if key = "load_pattern" then
      named key PreLoadPattern.parse fun v f => { f with loadPattern := some v }
    else if key = "providers" then
      named key (BTreeMap.parse (ProviderPreProcessed.parse b)) fun v f => { f with providers := v }
    else if key = "loggers" then
      named key (BTreeMap.parse (LoggerPreProcessed.layout b).parse) fun v f =>
        { f with loggers := v }
    else if key = "vars" then
      named key (BTreeMap.parse (PreVar.parse b)) fun v f => { f with vars := v }
    else none
  finish f marker := do
    let endpoints ← require "endpoints" marker f.endpoints
    return ⟨f.config.getD (.default marker), endpoints, f.loadPattern, f.providers, f.loggers,
      f.vars⟩

end LoadTestPreProcessed

end Pewpew.Config
