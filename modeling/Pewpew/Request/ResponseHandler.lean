import Pewpew.Expression.Select

/-! The response handler: which outgoing `Select`s are iterated, and on what data. -/
namespace Pewpew.Request

open SelectParser SelectParser.Special

/-- What is used of a response: the texts of its version and status, its headers, whether its body
arrives, what the body is decoded to where it is needed, and the time it took in microseconds. -/
structure Response where
  version : String
  status : Nat
  statusText : String
  headers : List (String × String)
  arrived : Except String Unit
  decoded : Except String (Option Json)
  rtt : Nat

namespace Response

def headersJson (r : Response) : Object :=
  r.headers.foldl (fun o h => o.insert h.1 (.string h.2)) []

def headersAllJson (r : Response) : Object :=
  r.headers.foldl (fun o h =>
    let a := match Object.get o h.1 with
      | some (.array a) => a
      | _ => []
    Object.insert o h.1 (.array (a ++ [.string h.2]))) []

end Response

/-- The `response` among the template values, and `response_fields_added`. -/
structure ResponseFields where
  object : Object
  added : BitVec 16

namespace ResponseFields

/-- A field is set if it is needed and has not been, or the other way around. -/
def require (bitwise bit : BitVec 16) (set : Object → Object) (s : ResponseFields) :
    ResponseFields :=
  if (bitwise &&& bit) ^^^ (s.added &&& bit) ≠ 0 then ⟨set s.object, s.added ||| bit⟩ else s

def start (r : Response) : ResponseFields where
  object := [("status", .ofNat r.status)]
  added := 0b000111

end ResponseFields

/-- `handle_response_requirements`; the body itself is added later. -/
def handleResponseRequirements (bitwise : BitVec 16) (r : Response) (s : ResponseFields) :
    ResponseFields :=
  s.require bitwise responseStartline
      (·.insert "start-line" (.string (r.version ++ " " ++ r.statusText)))
    |>.require bitwise responseHeaders (·.insert "headers" (.object r.headersJson))
    |>.require bitwise responseHeadersAll (·.insert "headers_all" (.object r.headersAllJson))
    |>.require bitwise responseBody id

/-- What a receiver gets from an iterator: the values before the first error, and that error. -/
def sentOf : Items → List Json × Option ExecutingError
  | [] => ([], none)
  | .error e :: _ => ([], some e)
  | .ok v :: items => ((v.val :: (sentOf items).1), (sentOf items).2)

/-- What becomes of a response: an error of its own, or what is sent to each outgoing. -/
inductive Outcome where
  | failed (e : ExecutingError)
  | bodyFailed (e : String)
  | sent (outgoing : List (List Json × Option ExecutingError))

section Handle

variable (x : Externals) (values : Object)

/-- The template values with the response. -/
def withResponse (response : Object) : Object := Object.insert values "response" (.object response)

/-- `Select::iter`, whose error is its only item. -/
def iterate (s : Select) (d : Json) : List Json × Option ExecutingError :=
  match s.asIter x d with
  | .ok items => sentOf items
  | .error e => ([], some e)

/-- The loop of `BodyHandler::handle`. -/
def sendIncluded (included : List Nat) (d : Json) :
    List Select → (i : Nat) → List (List Json × Option ExecutingError)
  | [], _ => []
  | s :: outgoing, i =>
    (if i ∈ included then iterate x s d else ([], none)) :: sendIncluded included d outgoing (i + 1)

/-- The values with `stats` and, where it has been read, the body. -/
def completeValues (response : Object) (rtt : Nat) (body : Option Json) : Json :=
  let response := match body with
    | some v => Object.insert response "body" v
    | none => response
  let stats : Object := [("rtt", .ofF64 ((F64.ofInt rtt).div (.ofInt 1000)))]
  .object (Object.insert (withResponse values response) "stats" (.object stats))

/-- `BodyHandler::handle`. -/
def handleBody (included : List Nat) (outgoing : List Select) (response : Object) (rtt : Nat) :
    Except String (Option Json) → Outcome
  | .error e => .bodyFailed e
  | .ok body =>
    .sent (sendIncluded x included (completeValues values response rtt body) outgoing 0)

/-- The body is decoded only where it is needed. -/
def readBody (r : Response) (s : ResponseFields) : Except String (Option Json) :=
  if s.added &&& responseBody ≠ 0 then r.decoded else r.arrived.map fun _ => none

/-- The indexes of the outgoing whose `where` clause may hold. -/
def includedIndexes (precheck rr : BitVec 16) (r : Response) :
    List Select → (i : Nat) → ResponseFields → Except ExecutingError (List Nat × ResponseFields)
  | [], _, fields => .ok ([], fields)
  | s :: outgoing, i, fields =>
    (if precheck &&& responseBody = responseBody ∨ precheck &&& stats = stats then .ok true
      else s.executeWhere x (.object (withResponse values fields.object))).bind fun b =>
    if b then
      (includedIndexes precheck rr r outgoing (i + 1) (handleResponseRequirements rr r fields)).map
        fun (included, fields) => (i :: included, fields)
    else includedIndexes precheck rr r outgoing (i + 1) fields

/-- `ResponseHandler::handle`: the `where` clauses are executed before the body is read. -/
def handle (precheck rr : BitVec 16) (outgoing : List Select) (r : Response) : Outcome :=
  let fields := handleResponseRequirements precheck r (.start r)
  match includedIndexes x values precheck rr r outgoing 0 fields with
  | .error e => .failed e
  | .ok (included, fields) =>
    handleBody x values included outgoing fields.object r.rtt (readBody r fields)

/-- Without the filter: every outgoing is iterated on the complete data. -/
def handlePlain (rr : BitVec 16) (outgoing : List Select) (r : Response) : Outcome :=
  let fields := handleResponseRequirements rr r (.start r)
  handleBody x values (List.range outgoing.length) outgoing fields.object r.rtt (readBody r fields)

end Handle

end Pewpew.Request
