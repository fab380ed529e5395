import Pewpew.Config.LoadTest

/-! The types of config values, and the types that their parsers read their parts as. -/
namespace Pewpew.Config

open SelectParser Yaml Reader Section
open Request (EndpointProvidesSendOptions)

/-- The types that are read from one scalar. -/
inductive ScalarType where
  | bool | nonZeroU16 | nonZeroUsize | i64 | usize | string | charU8 | method | limit | fileFormat
  | csvHeader | sendOptions

/-- The types that are read from a mapping with known keys. -/
inductive SectionType where
  | linearBuilder | listWithOptions | rangeProvider | csvSettings | fileProvider
  | responseProvider | logger | logs | bodyMultipartPiece | endpointProvides | endpoint
  | clientConfig | generalConfig | config | loadTest

/-- The types with a `FromYaml`, and what two keys make of a text themselves.
`PreValueOrExpression`, `PreVar` and `PreLoadPattern` are values with their positions. -/
inductive ConfigType where
  | scalar (k : ScalarType)
  | logProviderStats
  | logLevel
  | json
  | preTemplate
  | vec (t : ConfigType)
  | tupleVec (t : ConfigType)
  | btreeMap (t : ConfigType)
  | nullable (t : ConfigType)
  | withMarker (t : ConfigType)
  | loadPattern
  | listProvider
  | provider
  | multipartPieceBody
  | body
  | section (s : SectionType)

namespace ScalarType

def Val : ScalarType → Type
  | bool => Bool
  | nonZeroU16 | nonZeroUsize | usize => Nat
  | i64 => Int
  | string => String
  | charU8 => UInt8
  | method => Method
  | limit => Limit
  | fileFormat => FileFormat
  | csvHeader => CsvHeader
  | sendOptions => EndpointProvidesSendOptions

def parse : (k : ScalarType) → FromYaml k.Val
  | bool => Bool.parse
  | nonZeroU16 => NonZeroU16.parse
  | nonZeroUsize => NonZeroUsize.parse
  | i64 => I64.parse
  | usize => Usize.parse
  | string => String.parse
  | charU8 => fromYamlCharU8
  | method => Method.parse
  | limit => Limit.parse
  | fileFormat => FileFormat.parse
  | csvHeader => CsvHeader.parse
  | sendOptions => EndpointProvidesSendOptions.parse

end ScalarType

namespace SectionType

def Val : SectionType → Type
  | linearBuilder => LinearBuilderPreProcessed
  | listWithOptions => ListWithOptions
  | rangeProvider => RangeProviderPreProcessed
  | csvSettings => CsvSettings
  | fileProvider => FileProviderPreProcessed
  | responseProvider => ResponseProvider
  | logger => LoggerPreProcessed
  | logs => LogsPreProcessed
  | bodyMultipartPiece => BodyMultipartPiece
  | endpointProvides => EndpointProvidesPreProcessed
  | endpoint => EndpointPreProcessed
  | clientConfig => ClientConfigPreProcessed
  | generalConfig => GeneralConfigPreProcessed
  | config => ConfigPreProcessed
  | loadTest => LoadTestPreProcessed

def layout (b : Build) : (s : SectionType) → Section s.Val
  | linearBuilder => LinearBuilderPreProcessed.layout
  | listWithOptions => ListWithOptions.layout b
  | rangeProvider => RangeProviderPreProcessed.layout
  | csvSettings => CsvSettings.layout
  | fileProvider => FileProviderPreProcessed.layout
  | responseProvider => ResponseProvider.layout
  | logger => LoggerPreProcessed.layout b
  | logs => LogsPreProcessed.layout b
  | bodyMultipartPiece => BodyMultipartPiece.layout
  | endpointProvides => EndpointProvidesPreProcessed.layout b
  | endpoint => EndpointPreProcessed.layout b
  | clientConfig => ClientConfigPreProcessed.layout
  | generalConfig => GeneralConfigPreProcessed.layout b
  | config => ConfigPreProcessed.layout b
  | loadTest => LoadTestPreProcessed.layout b

end SectionType

/-- A text, and what is made of it at its own position. -/
def GeneralConfigPreProcessed.readText {α : Type}
    (f : String → Marker → String → Except Failure α) : FromYaml α :=
  String.parse.check fun (d, marker) => (f "" marker d).map fun a => (a, marker)

namespace ConfigType

abbrev string : ConfigType := .scalar .string

abbrev bool : ConfigType := .scalar .bool

abbrev preLoadPattern : ConfigType := .withMarker (.vec .loadPattern)

def Val : ConfigType → Type
  | scalar k => k.Val
  | logProviderStats => Bool
  | logLevel => LevelFilter
  | json => Json
  | preTemplate => PreTemplate
  | vec t => List t.Val
  | tupleVec t => List (String × t.Val)
  | btreeMap t => BTreeMap t.Val
  | nullable t => Option t.Val
  | withMarker t => WithMarker t.Val
  | loadPattern => LoadPatternPreProcessed
  | listProvider => ListProvider
  | provider => ProviderPreProcessed
  | multipartPieceBody => BodyMultipartPieceBody
  | body => Body
  | «section» s => s.Val

def parse (b : Build) : (t : ConfigType) → FromYaml t.Val
  | scalar k => k.parse
  | logProviderStats => GeneralConfigPreProcessed.readText (GeneralConfigPreProcessed.statsValue b)
  | logLevel => GeneralConfigPreProcessed.readText (GeneralConfigPreProcessed.levelValue b)
  | json => Value.parse b.json
  | preTemplate => PreTemplate.parse
  | vec t => Vec.parse (t.parse b)
  | tupleVec t => TupleVec.parse (t.parse b)
  | btreeMap t => BTreeMap.parse (t.parse b)
  | nullable t => Nullable.parse (t.parse b)
  | withMarker t => WithMarker.parse (t.parse b)
  | loadPattern => LoadPatternPreProcessed.parse
  | listProvider => ListProvider.parse b
  | provider => ProviderPreProcessed.parse b
  | multipartPieceBody => BodyMultipartPieceBody.parse
  | body => Body.parse
  | «section» s => (s.layout b).parse

end ConfigType

open ConfigType in
/-- The type that the value of a key is read as. -/
def SectionType.field : SectionType → String → Option ConfigType
  | linearBuilder, key =>
    if key = "from" then some preTemplate
    else if key = "to" then some preTemplate
    else if key = "over" then some preTemplate
    else none
  | listWithOptions, key =>
    if key = "random" then some bool
    else if key = "repeat" then some bool
    else if key = "values" then some (vec json)
    else if key = "unique" then some bool
    else none
  | rangeProvider, key =>
    if key = "start" then some (scalar .i64)
    else if key = "end" then some (scalar .i64)
    else if key = "step" then some (scalar .nonZeroU16)
    else if key = "repeat" then some bool
    else if key = "unique" then some bool
    else none
  | csvSettings, key =>
    if key = "comment" then some (scalar .charU8)
    else if key = "delimiter" then some (scalar .charU8)
    else if key = "double_quote" then some bool
    else if key = "escape" then some (scalar .charU8)
    else if key = "headers" then some (scalar .csvHeader)
    else if key = "terminator" then some (scalar .charU8)
    else if key = "quote" then some (scalar .charU8)
    else none
  | fileProvider, key =>
    if key = "csv" then some («section» csvSettings)
    else if key = "auto_return" then some (scalar .sendOptions)
    else if key = "buffer" then some (scalar .limit)
    else if key = "format" then some (scalar .fileFormat)
    else if key = "path" then some (withMarker string)
    else if key = "random" then some bool
    else if key = "repeat" then some bool
    else if key = "unique" then some bool
    else none
  | responseProvider, key =>
    if key = "auto_return" then some (scalar .sendOptions)
    else if key = "buffer" then some (scalar .limit)
    else if key = "unique" then some bool
    else none
  | logger, key =>
    if key = "select" then some (withMarker json)
    else if key = "for_each" then some (vec (withMarker string))
    else if key = "where" then some (withMarker string)
    else if key = "to" then some preTemplate
    else if key = "pretty" then some bool
    else if key = "limit" then some (scalar .usize)
    else if key = "kill" then some bool
    else none
  | logs, key =>
    if key = "select" then some (withMarker json)
    else if key = "for_each" then some (vec (withMarker string))
    else if key = "where" then some (withMarker string)
    else none
  | bodyMultipartPiece, key =>
    if key = "headers" then some (tupleVec preTemplate)
    else if key = "body" then some multipartPieceBody
    else none
  | endpointProvides, key =>
    if key = "send" then some (scalar .sendOptions)
    else if key = "select" then some (withMarker json)
    else if key = "for_each" then some (vec (withMarker string))
    else if key = "where" then some (withMarker string)
    else none
  | endpoint, key =>
    if key = "declare" then some (btreeMap (withMarker string))
    else if key = "headers" then some (tupleVec (nullable preTemplate))
    else if key = "body" then some body
    else if key = "load_pattern" then some preLoadPattern
    else if key = "method" then some (scalar .method)
    else if key = "on_demand" then some bool
    else if key = "peak_load" then some preTemplate
    else if key = "tags" then some (btreeMap preTemplate)
    else if key = "url" then some preTemplate
    else if key = "provides" then some (tupleVec («section» endpointProvides))
    else if key = "logs" then some (tupleVec («section» logs))
    else if key = "max_parallel_requests" then some (scalar .nonZeroUsize)
    else if key = "no_auto_returns" then some bool
    else if key = "request_timeout" then some preTemplate
    else none
  | clientConfig, key =>
    if key = "request_timeout" then some preTemplate
    else if key = "keepalive" then some preTemplate
    else if key = "headers" then some (tupleVec preTemplate)
    else none
  | generalConfig, key =>
    if key = "auto_buffer_start_size" then some (scalar .usize)
    else if key = "bucket_size" then some preTemplate
    else if key = "log_provider_stats" then some logProviderStats
    else if key = "watch_transition_time" then some preTemplate
    else if key = "log_level" then some logLevel
    else none
  | config, key =>
    if key = "client" then some («section» clientConfig)
    else if key = "general" then some («section» generalConfig)
    else none
  | loadTest, key =>
    if key = "config" then some («section» config)
    else if key = "endpoints" then some (vec («section» endpoint))
    else if key = "load_pattern" then some preLoadPattern
    else if key = "providers" then some (btreeMap provider)
    else if key = "loggers" then some (btreeMap («section» logger))
    else if key = "vars" then some (btreeMap (withMarker json))
    else none

namespace ConfigType

/-- The type that the value of the only key of a mapping is read as. -/
def entry : ConfigType → String → Option ConfigType
  | loadPattern, key => if key = "linear" then some («section» .linearBuilder) else none
  | provider, key =>
    if key = "file" then some («section» .fileProvider)
    else if key = "range" then some («section» .rangeProvider)
    else if key = "response" then some («section» .responseProvider)
    else if key = "list" then some listProvider
    else none
  | multipartPieceBody, key => if key = "file" then some preTemplate else none
  | body, key =>
    if key = "file" then some preTemplate
    else if key = "multipart" then some (tupleVec («section» .bodyMultipartPiece))
    else none
  | _, _ => none

end ConfigType

section Agree

variable {b : Build} {γ F α β : Type}

/-- Both are values, both are errors, or both are panics. -/
inductive SameKind : Except Failure α → Except Failure β → Prop
  | ok (a : α) (b : β) : SameKind (.ok a) (.ok b)
  | error {e e' : Failure} (h : e.isPanic = e'.isPanic) : SameKind (.error e) (.error e')

theorem SameKind.map {r : Except Failure α} {r' : Except Failure β} (h : SameKind r r')
    (f : α → γ) (g : β → F) : SameKind (r.map f) (r'.map g) := by
  cases h with
  | ok a b => exact .ok _ _
  | error h => exact .error h

/-- Two runs leave the same events, or fail in the same way. -/
inductive Alike : Except Failure (α × List Delivered) → Except Failure (β × List Delivered) → Prop
  | ok (a : α) (b : β) (rest : List Delivered) : Alike (.ok (a, rest)) (.ok (b, rest))
  | error {e e' : Failure} (h : e.isPanic = e'.isPanic) : Alike (.error e) (.error e')

/-- A parser reads a value as a type. -/
def ReadsAs (b : Build) (p : Decoding γ) (t : ConfigType) : Prop :=
  ∀ stop ts, Alike (p.run stop ts) ((t.parse b).run stop ts)

/-- There is a parser where there is a type, and it reads a value as that type. -/
inductive Agree (b : Build) : Option ConfigType → Option (Decoding γ) → Prop where
  | none : Agree b none none
  | some {t : ConfigType} {p : Decoding γ} (h : ReadsAs b p t) : Agree b (some t) (some p)

theorem some_of_agree {t : Option ConfigType} {p : Option (Decoding γ)} (ha : Agree b t p)
    (ht : t.isSome) : ∃ q, p = some q := by
  cases ha with
  | none => nomatch ht
  | some hr => exact ⟨_, rfl⟩

theorem none_of_agree {t : Option ConfigType} {p : Option (Decoding γ)} (ha : Agree b t p)
    (ht : ¬ t.isSome) : p = none := by
  cases ha with
  | none => rfl
  | some hr => simp at ht

theorem agree_ite {key a : String} {t u : Option ConfigType} {p q : Option (Decoding γ)}
    (h : Agree b t p) (h' : Agree b u q) :
    Agree b (if key = a then t else u) (if key = a then p else q) := by
  split
  · exact h
  · exact h'

theorem alike_map (r : Decoding α) (f : α → β) (stop : Failure) (ts : List Delivered) :
    Alike ((r.map f).run stop ts) (r.run stop ts) := by
  simp only [map, andThen]
  cases r.run stop ts with
  | error e => exact .error rfl
  | ok q => exact .ok _ _ _

theorem readsAs_map (t : ConfigType) (f : t.Val × Marker → γ) :
    ReadsAs b ((t.parse b).map f) t := fun stop ts => alike_map _ f stop ts

/-- A value of which two parsers make the same, but for the names in the errors. -/
theorem alike_check (r : Decoding α) (name : String) {f : α → Except Failure β}
    {g : α → Except Failure γ} (h : ∀ a, SameKind (f a) (g a)) (stop : Failure)
    (ts : List Delivered) :
    Alike (((namedErr name r).check f).run stop ts) ((r.check g).run stop ts) := by
  simp only [check, andThen, namedErr, mapError]
  cases r.run stop ts with
  | error e => exact .error (isPanic_mapYamlDeserializeErr name e)
  | ok q =>
    have hq := h q.1
    simp only [Except.mapError]
    generalize f q.1 = x at hq ⊢
    generalize g q.1 = y at hq ⊢
    cases hq with
    | ok b c => exact .ok _ _ _
    | error h => exact .error h

theorem check_ok (r : Decoding α) : r.check .ok = r := by
  ext stop ts : 3
  simp only [check, andThen]
  cases r.run stop ts <;> rfl

theorem agree_named {key : String} (t : ConfigType) (set : t.Val → F → F) :
    Agree b (some t) (named key (t.parse b) set) := by
  refine .some fun stop ts => ?_
  have h := alike_check (t.parse b) key (f := fun v => .ok (set v.1)) (g := .ok)
    (fun _ => .ok _ _) stop ts
  rwa [check_ok] at h

/-- Which names the errors get does not decide whether there is one. -/
theorem statsValue_sameKind (b : Build) (key key' : String) (m m' : Marker) (d : String) :
    SameKind (GeneralConfigPreProcessed.statsValue b key m d)
      (GeneralConfigPreProcessed.statsValue b key' m' d) := by
  unfold GeneralConfigPreProcessed.statsValue
  by_cases ht : d = "true"
  · simpa [ht] using .ok _ _
  · by_cases hf : d = "false"
    · simpa [hf] using .ok _ _
    · simp only [ht, hf, if_false]
      cases durationFromString b d ⟨1, 0⟩ with
      | ok n => exact .ok _ _
      | error e =>
        cases e with
        | err e => exact .error rfl
        | panic message => exact .error rfl

theorem levelValue_sameKind (b : Build) (key key' : String) (m m' : Marker) (d : String) :
    SameKind (GeneralConfigPreProcessed.levelValue b key m d)
      (GeneralConfigPreProcessed.levelValue b key' m' d) := by
  unfold GeneralConfigPreProcessed.levelValue
  cases b.level d with
  | some level => exact .ok _ _
  | none => exact .error rfl

/-- Each key of a section is read as its type. -/
theorem layout_agree (b : Build) (s : SectionType) (key : String) (marker : Marker) :
    Agree b (s.field key) ((s.layout b).field key marker) := by
  cases s
  case linearBuilder =>
    have h (set : PreTemplate → LinearBuilderPreProcessed.Fields →
        LinearBuilderPreProcessed.Fields) :
        Agree b (some .preTemplate) (unnamed PreTemplate.parse set) :=
      .some (readsAs_map .preTemplate fun v => set v.1)
    exact agree_ite (h _) (agree_ite (h _) (agree_ite (h _) .none))
  case generalConfig =>
    have hstats : ReadsAs b _ .logProviderStats := fun stop ts => alike_check String.parse key
      (fun a => (statsValue_sameKind b key "" marker a.2 a.1).map
        (fun v (f : GeneralConfigPreProcessed.Fields) => { f with logProviderStats := v }) _)
        stop ts
    have hlevel : ReadsAs b _ .logLevel := fun stop ts => alike_check String.parse key
      (fun a => (levelValue_sameKind b key "" marker a.2 a.1).map
        (fun l (f : GeneralConfigPreProcessed.Fields) => { f with logLevel := some l }) _) stop ts
    exact agree_ite (agree_named _ _) (agree_ite (agree_named _ _) (agree_ite (.some hstats)
      (agree_ite (agree_named _ _) (agree_ite (.some hlevel) .none))))
  all_goals
    repeat' refine agree_ite ?_ ?_
    all_goals first | exact .none | exact agree_named _ _

end Agree

end Pewpew.Config
