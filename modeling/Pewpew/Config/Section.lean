import Pewpew.Config.FromYaml
import Pewpew.Request.Event

/-! The values in the sections of a config file, and the loop that reads a section. -/
namespace Pewpew.Config

open SelectParser Yaml Reader
open Request (EndpointProvidesSendOptions)

section Values

inductive Method where
  | post | get | put | head | delete | options | connect | patch | trace
  deriving DecidableEq

/-- The characters that `trim` drops. -/
def isWhitespace (c : Char) : Bool :=
  (9 ≤ c.toNat && c.toNat ≤ 13) || (0x2000 ≤ c.toNat && c.toNat ≤ 0x200a) ||
    [0x20, 0x85, 0xa0, 0x1680, 0x2028, 0x2029, 0x202f, 0x205f, 0x3000].contains c.toNat

def trim (s : String) : String :=
  .ofList ((s.toList.dropWhile isWhitespace).reverse.dropWhile isWhitespace).reverse

def Method.parse : FromYaml Method :=
  ofEvent fun event =>
    match event.asStr.map trim with
    | some s =>
      if s = "POST" then some .post
      else if s = "GET" then some .get
      else if s = "PUT" then some .put
      else if s = "HEAD" then some .head
      else if s = "DELETE" then some .delete
      else if s = "OPTIONS" then some .options
      else if s = "CONNECT" then some .connect
      else if s = "PATCH" then some .patch
      else if s = "TRACE" then some .trace
      else none
    | none => none

inductive Limit where
  | dynamic (n : Nat)
  | statik (n : Nat)

def Limit.default : Limit := .dynamic 5

def Limit.parse : FromYaml Limit :=
  ofEvent fun event =>
    match event.asX (unsigned 64) with
    | some i => some (.statik i)
    | none => if event.asStr = some "auto" then some .default else none

inductive FileFormat where
  | csv | json | line
  deriving DecidableEq

def FileFormat.parse : FromYaml FileFormat :=
  ofEvent fun event =>
    if event.asStr = some "csv" then some .csv
    else if event.asStr = some "json" then some .json
    else if event.asStr = some "line" then some .line
    else none

inductive CsvHeader where
  | bool (b : Bool)
  | string (s : String)

def CsvHeader.parse : FromYaml CsvHeader :=
  ofEvent fun event =>
    match event.asBool with
    | some b => some (.bool b)
    | none => event.asStr.map .string

/-- `from_yaml_char_u8`. -/
def fromYamlCharU8 : FromYaml UInt8 :=
  ofEvent fun event => ((event.asX charOfStr).filter (·.toNat < 128)).map fun c => c.toUInt8

def EndpointProvidesSendOptions.parse : FromYaml EndpointProvidesSendOptions :=
  ofEvent fun event =>
    if event.asStr = some "block" then some .block
    else if event.asStr = some "force" then some .force
    else if event.asStr = some "if_not_full" then some .ifNotFull
    else none

end Values

section Wrappers

variable {α : Type}

def WithMarker.parse (value : FromYaml α) : FromYaml (WithMarker α) :=
  value.map fun (inner, marker) => (⟨inner, marker⟩, marker)

/-- The text of an expression. -/
abbrev PreValueOrExpression := WithMarker String

def PreValueOrExpression.parse : FromYaml PreValueOrExpression := WithMarker.parse String.parse

/-- The text of a template, and whether the template may not fail. -/
structure PreTemplate where
  text : WithMarker String
  noFail : Bool

def PreTemplate.new (w : WithMarker String) : PreTemplate := ⟨w, false⟩

def PreTemplate.parse : FromYaml PreTemplate :=
  (WithMarker.parse String.parse).map fun (s, marker) => (.new s, marker)

abbrev PreVar := WithMarker Json

def PreVar.parse (b : Build) : FromYaml PreVar := WithMarker.parse (Value.parse b.json)

/-- Templates of durations, percentages and numbers of hits. -/
abbrev PreDuration := PreTemplate

abbrev PrePercent := PreTemplate

abbrev PreHitsPer := PreTemplate

end Wrappers

/-- A section of the config file: the fields that its keys set, which start as `init`, and what is
made of them at the end. -/
structure Section (α : Type) where
  Fields : Type
  init : Fields
  field : String → Marker → Option (Decoding (Fields → Fields))
  finish : Fields → Marker → Except Error α

namespace Section

variable {α β F : Type}

/-- One round of the loop of a section. -/
def round (s : Section α) : Bool × s.Fields → Decoding ((Bool × s.Fields) ⊕ s.Fields)
  | (sawOpening, fields) =>
    next.andThen fun (event, marker) =>
      match event with
      | .mappingStart =>
        if sawOpening then .fail (misfit marker) else .done (.inl (true, fields))
      | .sequenceStart => .fail (misfit marker)
      | .mappingEnd => .done (.inr fields)
      | .sequenceEnd => .fail (.panic "shouldn't see sequence end")
      | .scalar key _ _ =>
        match s.field key marker with
        | some value => .more (value.map fun set => .inl (sawOpening, set fields))
        | none => .fail (.err (.unrecognizedKey key none marker))

/-- The value of a section that starts at a position. -/
def close (s : Section α) (marker : Marker) (fields : s.Fields) : Except Failure (α × Marker) :=
  match s.finish fields marker with
  | .ok a => .ok (a, marker)
  | .error e => .error (.err e)

def parse (s : Section α) : FromYaml α :=
  peekThen fun (_, marker) => (loop s.round (false, s.init)).check (s.close marker)

/-- A field whose errors are named by its key, and what sets it. -/
def tryNamed (key : String) (value : FromYaml β) (set : β → Except Failure (F → F)) :
    Option (Decoding (F → F)) :=
  some ((namedErr key value).check fun (v, _) => set v)

def named (key : String) (value : FromYaml β) (set : β → F → F) : Option (Decoding (F → F)) :=
  tryNamed key value fun v => .ok (set v)

/-- A field whose errors stay as they are. -/
def unnamed (value : FromYaml β) (set : β → F → F) : Option (Decoding (F → F)) :=
  some (value.map fun (v, _) => set v)

/-- A field that has to be there. -/
def require (field : String) (marker : Marker) : Option β → Except Error β
  | some b => .ok b
  | none => .error (.missingYamlField field marker)

end Section

end Pewpew.Config
