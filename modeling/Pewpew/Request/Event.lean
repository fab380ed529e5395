import Pewpew.Request.ResponseHandler
import Pewpew.Library.Traced

/-! What a request leaves behind: the errors it meets, its stats, the values that it sends and the
auto-returns that it executes. -/
namespace Pewpew.Request

open SelectParser Effect

inductive RecoverableError where
  | providerDelay (provider : String)
  | bodyErr (e : String)
  | connectionErr (e : String)
  | executingExpression (e : ExecutingError)
  | timeout

/-- How the messages of errors name a position. -/
def positionText (m : Marker) : String := s!" at line {m.line} column {m.col}"

def executingText : ExecutingError → String
  | .indexingIntoJson path _ m => s!"indexing into json. Path was `{path}`" ++ positionText m
  | .invalidFunctionArguments function m =>
    s!"invalid arguments for function `{function}`" ++ positionText m

namespace RecoverableError

def code : RecoverableError → Nat
  | bodyErr _ => 1
  | connectionErr _ => 2
  | executingExpression _ => 3
  | timeout => 4
  | providerDelay _ => 5

def text : RecoverableError → String
  | bodyErr e => s!"body error: {e}"
  | connectionErr e => s!"connection error: `{e}`"
  | executingExpression e => executingText e
  | providerDelay p => s!"endpoint was delayed waiting for provider `{p}`"
  | timeout => "request timed out"

/-- What loggers see of an error. -/
def toJson (e : RecoverableError) : Json :=
  .object [("msg", .string e.text), ("code", .ofNat e.code)]

end RecoverableError

inductive TestError where
  | config (e : ExecutingError)
  | fileReading (file e : String)
  | invalidUrl (url : String)
  | recoverable (e : RecoverableError)
  | requestBuilderErr (e : String)

/-- Where an error arises: a stage of the request, the iteration of an outgoing `Select`, a logger
while it logs an error, or a provider that came late. -/
inductive Origin where
  | url
  | headers
  | body
  | builder
  | connection
  | whereClause
  | responseBody
  | outgoing (i : Nat)
  | errorLog (of : Origin) (i : Nat)
  | delay
  deriving DecidableEq

/-- An error value, which is told from equal ones by where it arises. -/
structure Raised (ε : Type) where
  origin : Origin
  error : ε

inductive StatKind where
  | recoverableError (e : Raised RecoverableError)
  | response (status : Nat)

structure ResponseStat where
  kind : StatKind
  rtt : Option Nat
  tags : List (String × String)

inductive EndpointProvidesSendOptions where
  | block
  | force
  | ifNotFull
  deriving DecidableEq

/-- Values that go back to the provider that they came from. -/
structure AutoReturn where
  sendOption : EndpointProvidesSendOptions
  channel : Nat
  jsons : List Json

inductive Event where
  | raised (e : Raised TestError)
  | responseStat (s : ResponseStat)
  | sent (sender : Origin) (v : Json)
  | autoReturn (r : AutoReturn)

def Event.isAutoReturn : Event → Bool
  | autoReturn _ => true
  | _ => false

/-- A `Select` and the provider or logger that gets its values. -/
structure Outgoing where
  select : Select
  send : EndpointProvidesSendOptions
  isLogger : Bool

/-- What the other tasks decide: how many values of a sender its receiver takes, where it does not
take all; which one ends a join of several errors; and whether the auto-returns are done by then. -/
structure World where
  accepts : Origin → Option Nat
  surfaces : Nat
  returnsInTime : Bool

/-- A request or one of its parts. -/
abbrev Effects := Traced Event (Raised TestError)

/-- A stage that may fail. -/
def stage {α : Type} (o : Origin) : Except TestError α → Effects α
  | .ok a => .done [] a
  | .error e => .fail [.raised ⟨o, e⟩] ⟨o, e⟩

def Raised.toTest (e : Raised RecoverableError) : Raised TestError :=
  ⟨e.origin, .recoverable e.error⟩

end Pewpew.Request
