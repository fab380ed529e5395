import Pewpew.Request.Event

/-! The body of a request, from its template. -/
namespace Pewpew.Request

open SelectParser Effect

/-- What is used of a parsed url. -/
structure Url where
  href : String
  scheme : String
  host : Option String
  domain : Option String
  origin : String
  username : String
  password : Option String
  port : Option Nat
  path : String
  query : Option String
  queryPairs : List (String × String)
  fragment : Option String

/-- The libraries and files that a request uses: how urls, header names and header values are
checked, whether a value is visible ASCII, the path and query of a request that can be built, the
lengths of files and what the reads of a file fill, how a file name replaces that of a path, and a
random boundary. -/
structure Http where
  parseUrl : String → Option Url
  headerName : String → Except String String
  headerValue : String → Except String String
  toStr : String → Except String String
  build : (method uri : String) → Except String (Option String)
  fileLength : String → Except String Nat
  fileReads : String → List (List UInt8)
  withFileName : (path file : String) → String
  boundary : String

/-- A header may have several values. -/
abbrev HeaderMap := List (String × String)

namespace HeaderMap

def get (h : HeaderMap) (key : String) : Option String := h.lookup key

/-- `insert`: the values that a name has are replaced. -/
def insert (h : HeaderMap) (key value : String) : HeaderMap :=
  h.filter (·.1 ≠ key) ++ [(key, value)]

/-- What an `entry` refers to is assigned: the first value that a name has, or a new one. -/
def assign : HeaderMap → (key value : String) → HeaderMap
  | [], key, value => [(key, value)]
  | h :: hs, key, value => if h.1 = key then (key, value) :: hs else h :: assign hs key value

def toJson (h : HeaderMap) : Object := h.foldl (fun o h => o.insert h.1 (.string h.2)) []

def allToJson (h : HeaderMap) : Object :=
  h.foldl (fun o h =>
    let a := match Object.get o h.1 with
      | some (.array a) => a
      | _ => []
    Object.insert o h.1 (.array (a ++ [.string h.2]))) []

end HeaderMap

structure MultipartPiece where
  name : String
  headers : List (String × Template)
  isFile : Bool
  template : Template

structure MultipartBody where
  path : String
  pieces : List MultipartPiece

inductive BodyTemplate where
  | file (path : String) (t : Template)
  | multipart (m : MultipartBody)
  | none
  | string (t : Template)

/-- The length of a body and the chunks of its stream, its text where that is needed, and the
headers of the request. -/
structure Body where
  length : Nat
  stream : List (List UInt8)
  value : Option String
  headers : HeaderMap

def bodyErr (e : String) : TestError := .recoverable (.bodyErr e)

def bytes (s : String) : List UInt8 := s.toUTF8.data.toList

section Body

variable (x : Externals) (http : Http) (d : Json)

def evaluateText (t : Template) : Except TestError String :=
  (t.evaluate x (.borrowed d) none).mapError .config

def header (h : String × Template) : Except TestError (String × String) := do
  let key ← (http.headerName h.1).mapError bodyErr
  let value ← evaluateText x d h.2
  let value ← (http.headerValue value).mapError bodyErr
  return (key, value)

/-- The stream of a file ends at a read that fills nothing. -/
def fileStream (file : String) : List (List UInt8) := (http.fileReads file).takeWhile (· ≠ [])

/-- `create_file_hyper_body`. -/
def createFileHyperBody (file : String) : Except TestError (Nat × List (List UInt8)) := do
  let bytes ← (http.fileLength file).mapError (.fileReading file)
  return (bytes, fileStream http file)

/-- A piece of a multipart body: its text, the file that follows, and what is shown of both. -/
structure Piece where
  data : String
  file : Option String
  shown : String

def contentDisposition (mp : MultipartPiece) (body : String) : String :=
  if mp.isFile then s!"form-data; name=\"{mp.name}\"; filename=\"{body}\""
  else s!"form-data; name=\"{mp.name}\""

/-- The line that a form adds to the headers of a piece. -/
def dispositionLine (isForm : Bool) (mp : MultipartPiece) (body : String) (headers : HeaderMap) :
    Except TestError String :=
  if isForm && !headers.any (·.1 = "content-disposition") then
    ((http.headerValue (contentDisposition mp body)).mapError bodyErr).map
      ("\r\ncontent-disposition: " ++ ·)
  else .ok ""

def piece (path : String) (isForm : Bool) (i : Nat) (mp : MultipartPiece) :
    Except TestError Piece := do
  let body ← evaluateText x d mp.template
  let headers ← mp.headers.mapM (header x http d)
  let disposition ← dispositionLine http isForm mp body headers
  let start := (if i = 0 then "--" else "\r\n--") ++ http.boundary
  let lines := headers.map fun (k, v) => "\r\n" ++ k ++ ": " ++ v
  let data := start ++ String.join lines ++ disposition ++ "\r\n\r\n"
  if mp.isFile then
    return ⟨data, some (http.withFileName path body),
      data ++ "<<contents of file: " ++ body ++ ">>"⟩
  else return ⟨data ++ body, none, data ++ body⟩

/-- The content type with the boundary, and whether it is that of a form. -/
def multipartType (contentType : String) : Except TestError (String × Bool) := do
  let type ← (http.toStr contentType).mapError bodyErr
  if "multipart/".toList.isPrefixOf type.toList then
    let value ← (http.headerValue s!"{type};boundary={http.boundary}").mapError bodyErr
    return (value, "multipart/form-data".toList.isPrefixOf type.toList)
  else
    let value ← (http.headerValue s!"multipart/form-data;boundary={http.boundary}").mapError bodyErr
    return (value, true)

/-- The length and the stream of a piece. -/
def pieceBody (p : Piece) : Except TestError (Nat × List (List UInt8)) :=
  match p.file with
  | some file => do
    let (bytes, body) ← createFileHyperBody http file
    return (bytes + p.data.utf8ByteSize, Request.bytes p.data :: body)
  | none => .ok (p.data.utf8ByteSize, [bytes p.data])

/-- `multipart_body_as_hyper_body`. Of several files that cannot be read, the first one counts. -/
def multipartBodyAsHyperBody (m : MultipartBody) (headers : HeaderMap) (copy : Bool) :
    Except TestError Body := do
  let contentType := (headers.get "content-type").getD "multipart/form-data"
  let (value, isForm) ← multipartType http contentType
  let pieces ← m.pieces.zipIdx.mapM fun (mp, i) => piece x http d m.path isForm i mp
  let closing := s!"\r\n--{http.boundary}--\r\n"
  let results ← pieces.mapM (pieceBody http)
  return { length := closing.utf8ByteSize + (results.map Prod.fst).sum
           stream := results.flatMap Prod.snd ++ [bytes closing]
           value := if copy then some (String.join (pieces.map Piece.shown) ++ closing) else none
           headers := headers.assign "content-type" value }

/-- `body_template_as_hyper_body`. -/
def bodyTemplateAsHyperBody (headers : HeaderMap) (copy : Bool) :
    BodyTemplate → Except TestError Body
  | .file path t => do
    let file := http.withFileName path (← evaluateText x d t)
    let (length, stream) ← createFileHyperBody http file
    return ⟨length, stream, if copy then some s!"<<contents of file: {file}>>" else none, headers⟩
  | .multipart m => multipartBodyAsHyperBody x http d m headers copy
  | .none => .ok ⟨0, [], none, headers⟩
  | .string t => do
    let body ← evaluateText x d t
    return ⟨body.utf8ByteSize, [bytes body], if copy then some body else none, headers⟩

end Body

end Pewpew.Request
