import Pewpew.Config.Section

/-! The load patterns and the providers of a config file. -/
namespace Pewpew.Config

open SelectParser Yaml Reader Section
open Request (EndpointProvidesSendOptions)

namespace LinearBuilderPreProcessed

structure Fields where
  start : Option PrePercent := none
  stop : Option PrePercent := none
  «over» : Option PreDuration := none

end LinearBuilderPreProcessed

/-- `from`, `to` and `over`. -/
structure LinearBuilderPreProcessed where
  start : Option PrePercent
  stop : PrePercent
  «over» : PreDuration

def LinearBuilderPreProcessed.layout : Section LinearBuilderPreProcessed where
  Fields := LinearBuilderPreProcessed.Fields
  init := {}
  field key _ :=
    if key = "from" then unnamed PreTemplate.parse fun c f => { f with start := some c }
    else if key = "to" then unnamed PreTemplate.parse fun a f => { f with stop := some a }
    else if key = "over" then unnamed PreTemplate.parse fun b f => { f with «over» := some b }
    else none
  finish f marker := do
    let stop ← require "to" marker f.stop
    let «over» ← require "over" marker f.«over»
    return ⟨f.start, stop, «over»⟩

inductive LoadPatternPreProcessed where
  | linear (l : LinearBuilderPreProcessed)

/-- What ends a mapping of one key. -/
def closeMapping {α : Type} (a : α) : Decoding α :=
  next.check fun (event, marker) =>
    match event with
    | .mappingEnd => .ok a
    | _ => .error (misfit marker)

/-- A mapping of one key, after its start. -/
def onlyEntry {α : Type} (value : String → Option (FromYaml α)) : FromYaml α :=
  next.andThen fun (event, marker) =>
    match event with
    | .scalar s _ _ =>
      match value s with
      | some p => .more (p.andThen fun a => .more (closeMapping a))
      | none => .fail (.err (.unrecognizedKey s none marker))
    | _ => .fail (misfit marker)

def LoadPatternPreProcessed.parse : FromYaml LoadPatternPreProcessed :=
  next.andThen fun (event, marker) =>
    match event with
    | .mappingStart =>
      .more (onlyEntry fun s =>
        if s = "linear" then
          some (LinearBuilderPreProcessed.layout.parse.map fun (l, marker) => (.linear l, marker))
        else none)
    | _ => .fail (misfit marker)

/-- The patterns and their position. -/
abbrev PreLoadPattern := WithMarker (List LoadPatternPreProcessed)

def PreLoadPattern.parse : FromYaml PreLoadPattern :=
  WithMarker.parse (Vec.parse LoadPatternPreProcessed.parse)

structure ListWithOptions where
  random : Bool
  repeats : Bool
  values : List Json
  unique : Bool

namespace ListWithOptions

structure Fields where
  random : Bool := false
  repeats : Bool := true
  values : Option (List Json) := none
  unique : Bool := false

def layout (b : Build) : Section ListWithOptions where
  Fields := Fields
  init := {}
  field key _ :=
    if key = "random" then named key Bool.parse fun r f => { f with random := r }
    else if key = "repeat" then named key Bool.parse fun r f => { f with repeats := r }
    else if key = "values" then
      named key (Vec.parse (Value.parse b.json)) fun v f => { f with values := some v }
    else if key = "unique" then named key Bool.parse fun u f => { f with unique := u }
    else none
  finish f marker := do
    let values ← require "values" marker f.values
    return ⟨f.random, f.repeats, values, f.unique⟩

end ListWithOptions

inductive ListProvider where
  | withOptions (l : ListWithOptions)
  | defaultOptions (values : List Json)

def ListProvider.parse (b : Build) : FromYaml ListProvider :=
  peekThen fun (event, marker) =>
    match event with
    | .sequenceStart =>
      (Vec.parse (Value.parse b.json)).map fun (e, marker) => (.defaultOptions e, marker)
    | .mappingStart =>
      (ListWithOptions.layout b).parse.map fun (i, marker) => (.withOptions i, marker)
    | _ => refuse (misfit marker)

/-- The step of a range, which is not 0, is kept with its bounds. -/
structure RangeProviderPreProcessed where
  start : Int := 0
  stop : Int := 2 ^ 63 - 1
  step : Nat := 1
  repeats : Bool := false
  unique : Bool := false

def RangeProviderPreProcessed.layout : Section RangeProviderPreProcessed where
  Fields := RangeProviderPreProcessed
  init := {}
  field key _ :=
    if key = "start" then named key I64.parse fun s f => { f with start := s }
    else if key = "end" then named key I64.parse fun e f => { f with stop := e }
    else if key = "step" then named key NonZeroU16.parse fun s f => { f with step := s }
    else if key = "repeat" then named key Bool.parse fun r f => { f with repeats := r }
    else if key = "unique" then named key Bool.parse fun u f => { f with unique := u }
    else none
  finish f _ := .ok f

structure CsvSettings where
  comment : Option UInt8 := none
  delimiter : Option UInt8 := none
  doubleQuote : Option Bool := none
  escape : Option UInt8 := none
  headers : CsvHeader := .bool false
  terminator : Option UInt8 := none
  quote : Option UInt8 := none

def CsvSettings.layout : Section CsvSettings where
  Fields := CsvSettings
  init := {}
  field key _ :=
    if key = "comment" then named key fromYamlCharU8 fun c f => { f with comment := some c }
    else if key = "delimiter" then
      named key fromYamlCharU8 fun a f => { f with delimiter := some a }
    else if key = "double_quote" then
      named key Bool.parse fun b f => { f with doubleQuote := some b }
    else if key = "escape" then named key fromYamlCharU8 fun c f => { f with escape := some c }
    else if key = "headers" then named key CsvHeader.parse fun p f => { f with headers := p }
    else if key = "terminator" then
      named key fromYamlCharU8 fun r f => { f with terminator := some r }
    else if key = "quote" then named key fromYamlCharU8 fun r f => { f with quote := some r }
    else none
  finish f _ := .ok f

structure FileProviderPreProcessed where
  csv : CsvSettings
  autoReturn : Option EndpointProvidesSendOptions
  buffer : Limit
  format : FileFormat
  path : PreTemplate
  random : Bool
  repeats : Bool
  unique : Bool

namespace FileProviderPreProcessed

structure Fields where
  csv : CsvSettings := {}
  autoReturn : Option EndpointProvidesSendOptions := none
  buffer : Limit := .default
  format : FileFormat := .line
  path : Option PreTemplate := none
  random : Bool := false
  repeats : Bool := false
  unique : Bool := false

def layout : Section FileProviderPreProcessed where
  Fields := Fields
  init := {}
  field key _ :=
    if key = "csv" then named key CsvSettings.layout.parse fun c f => { f with csv := c }
    else if key = "auto_return" then
      named key EndpointProvidesSendOptions.parse fun a f => { f with autoReturn := some a }
    else if key = "buffer" then named key Limit.parse fun b f => { f with buffer := b }
    else if key = "format" then named key FileFormat.parse fun s f => { f with format := s }
    else if key = "path" then
      named key (WithMarker.parse String.parse) fun s f => { f with path := some (.new s) }
    else if key = "random" then named key Bool.parse fun r f => { f with random := r }
    else if key = "repeat" then named key Bool.parse fun r f => { f with repeats := r }
    else if key = "unique" then named key Bool.parse fun u f => { f with unique := u }
    else none
  finish f marker := do
    let path ← require "path" marker f.path
    return ⟨f.csv, f.autoReturn, f.buffer, f.format, path, f.random, f.repeats, f.unique⟩

end FileProviderPreProcessed

structure ResponseProvider where
  autoReturn : Option EndpointProvidesSendOptions := none
  buffer : Limit := .default
  unique : Bool := false

def ResponseProvider.layout : Section ResponseProvider where
  Fields := ResponseProvider
  init := {}
  field key _ :=
    if key = "auto_return" then
      named key EndpointProvidesSendOptions.parse fun c f => { f with autoReturn := some c }
    else if key = "buffer" then named key Limit.parse fun a f => { f with buffer := a }
    else if key = "unique" then named key Bool.parse fun u f => { f with unique := u }
    else none
  finish f _ := .ok f

inductive ProviderPreProcessed where
  | file (f : FileProviderPreProcessed)
  | range (r : RangeProviderPreProcessed)
  | response (r : ResponseProvider)
  | list (l : ListProvider)

namespace ProviderPreProcessed

/-- The provider that a key stands for. -/
def kind (b : Build) (key : String) : Option (FromYaml ProviderPreProcessed) :=
  let named {β : Type} (p : FromYaml β) (f : β → ProviderPreProcessed) :=
    some ((namedErr key p).map fun (c, marker) => (f c, marker))
  if key = "file" then named FileProviderPreProcessed.layout.parse .file
  else if key = "range" then named RangeProviderPreProcessed.layout.parse .range
  else if key = "response" then named ResponseProvider.layout.parse .response
  else if key = "list" then named (ListProvider.parse b) .list
  else none

/-- One round of the loop of a provider, up to its only key. -/
def round (b : Build) (sawOpening : Bool) : Decoding (Bool ⊕ (ProviderPreProcessed × Marker)) :=
  next.andThen fun (event, marker) =>
    match event with
    | .mappingStart => if sawOpening then .fail (misfit marker) else .done (.inl true)
    | .sequenceStart | .mappingEnd => .fail (misfit marker)
    | .sequenceEnd => .fail (.panic "shouldn't see sequence end")
    | .scalar key _ _ =>
      match kind b key with
      | some p => .more (p.map .inr)
      | none => .fail (.err (.unrecognizedKey key none marker))

def parse (b : Build) : FromYaml ProviderPreProcessed :=
  (loop (round b) false).andThen fun a => .more (closeMapping a)

end ProviderPreProcessed

end Pewpew.Config
