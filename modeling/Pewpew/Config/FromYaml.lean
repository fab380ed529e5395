import Pewpew.Library.Reader
import Pewpew.Yaml.Decoder
import Std.Data.ExtTreeMap

/-! `FromYaml`: what the parsers of config values make of the events of the decoder. -/
namespace Pewpew.Config

open SelectParser Yaml Reader

inductive Error where
  | yamlDeserialize (name : Option String) (m : Marker)
  | unrecognizedKey (key : String) (name : Option String) (m : Marker)
  | missingYamlField (field : String) (m : Marker)
  | invalidYaml (e : String)
  | invalidDuration (dur : String) (m : Marker)
  deriving DecidableEq

/-- An `Err` or a panic. -/
inductive Failure where
  | err (e : Error)
  | panic (message : String)
  deriving DecidableEq

def Failure.isPanic : Failure → Bool
  | err _ => false
  | panic _ => true

/-- Failures are alike if both or none of them are panics. -/
instance : Setoid Failure where
  r f f' := f.isPanic = f'.isPanic
  iseqv := ⟨fun _ => rfl, Eq.symm, Eq.trans⟩

/-- `map_yaml_deserialize_err`: an error without a name gets one. -/
def mapYamlDeserializeErr (name : String) : Failure → Failure
  | .err (.yamlDeserialize none m) => .err (.yamlDeserialize (some name) m)
  | .err (.unrecognizedKey key none m) => .err (.unrecognizedKey key (some name) m)
  | f => f

theorem isPanic_mapYamlDeserializeErr (name : String) (f : Failure) :
    (mapYamlDeserializeErr name f).isPanic = f.isPanic := by
  unfold mapYamlDeserializeErr
  split <;> rfl

/-- The parsers on a decoder, which fails where the events end. -/
abbrev Decoding (α : Type) := Reader Delivered Failure α

/-- A parser whose errors get a name. -/
def namedErr {α : Type} (name : String) (p : Decoding α) : Decoding α :=
  p.mapError (mapYamlDeserializeErr name) (isPanic_mapYamlDeserializeErr name)

/-- A parser of a value, which also gives the position of the value. -/
abbrev FromYaml (α : Type) := Decoding (α × Marker)

/-- `parse_into`. -/
def FromYaml.into {α : Type} (p : FromYaml α) : Decoding α := p.map Prod.fst

/-- The error of a parser that meets an event that does not fit. -/
def misfit (m : Marker) : Failure := .err (.yamlDeserialize none m)

end Pewpew.Config

namespace Pewpew.Yaml.YamlEvent

def asStr : YamlEvent → Option String
  | scalar s _ _ => some s
  | _ => none

def asX {α : Type} (fromStr : String → Option α) : YamlEvent → Option α
  | scalar s .plain _ => fromStr s
  | _ => none

def asBool : YamlEvent → Option Bool
  | scalar s .plain _ => if s = "true" then some true else if s = "false" then some false else none
  | _ => none

end Pewpew.Yaml.YamlEvent

namespace Pewpew.Config

open SelectParser Yaml Reader

section Scalars

/-- The parsers that take the next event, whatever it is. -/
def ofEvent {α : Type} (f : YamlEvent → Option α) : FromYaml α :=
  next.check fun (event, marker) =>
    match f event with
    | some a => .ok (a, marker)
    | none => .error (misfit marker)

def digits (cs : List Char) : Option Nat :=
  if cs ≠ [] ∧ cs.all Char.isDigit then
    some (cs.foldl (fun n c => n * 10 + (c.toNat - '0'.toNat)) 0)
  else none

/-- `from_str` of an unsigned integer. -/
def unsigned (bits : Nat) (s : String) : Option Nat :=
  let n := match s.toList with
    | '+' :: cs => digits cs
    | cs => digits cs
  n.filter (· < 2 ^ bits)

def nonZero (bits : Nat) (s : String) : Option Nat := (unsigned bits s).filter (· ≠ 0)

def i64OfStr (s : String) : Option Int :=
  let i := match s.toList with
    | '-' :: cs => (digits cs).map fun n => -(n : Int)
    | '+' :: cs => (digits cs).map fun n => (n : Int)
    | cs => (digits cs).map fun n => (n : Int)
  i.filter fun i => -2 ^ 63 ≤ i ∧ i < 2 ^ 63

def charOfStr (s : String) : Option Char :=
  match s.toList with
  | [c] => some c
  | _ => none

def Bool.parse : FromYaml Bool := ofEvent YamlEvent.asBool

def NonZeroU16.parse : FromYaml Nat := ofEvent (·.asX (nonZero 16))

def NonZeroUsize.parse : FromYaml Nat := ofEvent (·.asX (nonZero 64))

def I64.parse : FromYaml Int := ofEvent (·.asX i64OfStr)

def Usize.parse : FromYaml Nat := ofEvent (·.asX (unsigned 64))

def String.parse : FromYaml String := ofEvent YamlEvent.asStr

end Scalars

inductive LevelFilter where
  | off | error | warn | info | debug | trace
  deriving DecidableEq

def LevelFilter.name : LevelFilter → String
  | off => "OFF"
  | error => "ERROR"
  | warn => "WARN"
  | info => "INFO"
  | debug => "DEBUG"
  | trace => "TRACE"

/-- What a build fixes: what the crates make of a text (the JSON value that it spells, the level
that it names, the captures of the expression for durations where it is one), and whether the
arithmetic is checked for overflow. -/
structure Build where
  json : String → Option Json
  level : String → Option LevelFilter
  level_name : ∀ l : LevelFilter, level l.name = some l
  durations : String → Option (List (String × String))
  overflowChecks : Bool

section Value

variable (json : String → Option Json)

/-- `get_value`. -/
def getValue (s : String) (style : TScalarStyle) : Json :=
  if style = .plain then
    if s = "null" ∨ s = "NaN" then .null
    else if s = "true" then .bool true
    else if s = "false" then .bool false
    else (json s).getD (.string s)
  else .string s

/-- One round of the loop for `json::Value`; `value` is the recursion. -/
def Value.round (value : Decoding Json) (root : Option Json) :
    Decoding (Option Json ⊕ Option Json) :=
  peekThen fun (event, marker) =>
    match event with
    | .mappingStart =>
      match root with
      | none => next.map fun _ => .inl (some (.object []))
      | some (.array a) => value.map fun v => .inl (some (.array (a ++ [v])))
      | some _ => refuse (misfit marker)
    | .sequenceStart =>
      match root with
      | none => next.map fun _ => .inl (some (.array []))
      | some (.array a) => value.map fun v => .inl (some (.array (a ++ [v])))
      | some _ => refuse (misfit marker)
    | .sequenceEnd | .mappingEnd => next.map fun _ => .inr root
    | .scalar s style _ =>
      next.andThen fun _ =>
        match root with
        | some (.object o) => .more (value.map fun v => .inl (some (.object (Object.insert o s v))))
        | some (.array a) => .done (.inl (some (.array (a ++ [getValue json s style]))))
        | _ => .done (.inr (some (getValue json s style)))

/-- A value that is not there is `null`. -/
def Value.body (value : Decoding Json) : Decoding Json :=
  (loop (round json value) none).map fun root => root.getD .null

variable {json}

theorem Value.round_agree {bound : Nat} {value value' : Decoding Json}
    (h : AgreeBelow bound value value') (root : Option Json) :
    AgreeBelow bound (round json value root) (round json value' root) := by
  intro stop ts hl
  cases ts with
  | nil => rfl
  | cons t ts =>
    obtain ⟨event, marker⟩ := t
    have hm (f : Json → Option Json ⊕ Option Json) := map_agree h f
    cases event with
    | mappingEnd => rfl
    | sequenceEnd => rfl
    | mappingStart =>
      rcases root with _ | ⟨_ | _ | _ | _ | _ | _⟩
      all_goals first | rfl | exact hm _ stop _ hl
    | sequenceStart =>
      rcases root with _ | ⟨_ | _ | _ | _ | _ | _⟩
      all_goals first | rfl | exact hm _ stop _ hl
    | scalar s style tag =>
      rcases root with _ | ⟨_ | _ | _ | _ | _ | _⟩
      all_goals first | rfl | exact hm _ stop ts (Nat.lt_of_succ_lt hl)

/-- Before the first event the loop does not come back to the recursion. -/
theorem Value.body_guarded : Guarded (body json) := by
  intro bound value value' h
  refine map_agree ?_ _
  intro stop ts hl
  have hn : (round json value none).run stop ts = (round json value' none).run stop ts := rfl
  rw [loop_run, loop_run, hn]
  cases hr : (round json value' none).run stop ts with
  | error e => rfl
  | ok p =>
    obtain ⟨c, rest⟩ := p
    cases c with
    | inr b => rfl
    | inl root =>
      have := length_lt hr
      exact loop_agree (round_agree h) root stop rest (by omega)

variable (json)

def Value.read : Decoding Json :=
  fix (body json) body_guarded (.panic "should have gotten a scalar for next")

def Value.parse : FromYaml Json :=
  peekThen fun (_, marker) => (Value.read json).map fun v => (v, marker)

end Value

section Collections

variable {C V : Type}

/-- `Insert`: the empty collection, and what adds a value to one that began with an event. -/
structure Insert (C V : Type) where
  default : C
  insert : C → V → YamlEvent → Option C

def Vec.insert (V : Type) : Insert (List V) V where
  default := []
  insert c v start := if start = .sequenceStart then some (c ++ [v]) else none

def TupleVec.insert (V : Type) : Insert (List (String × V)) (String × V) where
  default := []
  insert c v start := if start = .mappingStart then some (c ++ [v]) else none

abbrev BTreeMap (V : Type) := Std.ExtTreeMap String V

def BTreeMap.insert (V : Type) : Insert (BTreeMap V) (String × V) where
  default := ∅
  insert c v start := if start = .mappingStart then some (Std.ExtTreeMap.insert c v.1 v.2) else none

/-- A key and a value. -/
def Pair.parse (value : FromYaml V) : FromYaml (String × V) :=
  String.parse.into.andThen fun s => .more (value.map fun (v, marker) => ((s, v), marker))

/-- A value of a collection, after the start of the collection in the first round. -/
def element (value : FromYaml V) (firstRound : Bool) : Decoding V :=
  if firstRound then next.andThen fun _ => .more value.into else value.into

/-- The next state of the loop for collections, with a value more. -/
def Insert.add (i : Insert C V) (first : YamlEvent) (marker : Marker) (ret : C) (v : V) :
    Except Failure ((Bool × C) ⊕ C) :=
  match i.insert ret v first with
  | some ret => .ok (.inl (false, ret))
  | none => .error (misfit marker)

/-- One round of the loop for collections. -/
def Insert.round (i : Insert C V) (value : FromYaml V) (first : YamlEvent) :
    Bool × C → Decoding ((Bool × C) ⊕ C)
  | (firstRound, ret) =>
    peekThen fun (event, marker) =>
      match event with
      | .scalar .. => value.into.check (i.add first marker ret)
      | .mappingStart | .sequenceStart =>
        (element value firstRound).check (i.add first marker ret)
      | .sequenceEnd | .mappingEnd => next.map fun _ => .inr ret

def Insert.parse (i : Insert C V) (value : FromYaml V) : FromYaml C :=
  peekThen fun (first, marker) =>
    (loop (i.round value first) (true, i.default)).map fun ret => (ret, marker)

def Vec.parse (value : FromYaml V) : FromYaml (List V) := (Vec.insert V).parse value

def TupleVec.parse (value : FromYaml V) : FromYaml (List (String × V)) :=
  (TupleVec.insert V).parse (Pair.parse value)

def BTreeMap.parse (value : FromYaml V) : FromYaml (BTreeMap V) :=
  (BTreeMap.insert V).parse (Pair.parse value)

/-- `Nullable`: `none` is `Null`. -/
def isNull : YamlEvent → Bool
  | .scalar _ _ (some (bangBang, null)) => bangBang = "!!" && null = "null"
  | .scalar null .plain none => null = "null"
  | _ => false

def Nullable.parse (value : FromYaml V) : FromYaml (Option V) :=
  peekThen fun (event, marker) =>
    if isNull event then next.map fun _ => (none, marker)
    else value.map fun (v, marker) => (some v, marker)

end Collections

end Pewpew.Config
