import Pewpew.Library.Generator
import Pewpew.Expression.Functions

/-! The YAML decoder: the events of the parser, with the aliases replayed. -/
namespace Pewpew.Yaml

open SelectParser Generator

inductive TScalarStyle where
  | any | plain | singleQuoted | doubleQuoted | literal | folded
  deriving DecidableEq, Repr

inductive YamlEvent where
  | mappingEnd
  | mappingStart
  | sequenceEnd
  | sequenceStart
  | scalar (s : String) (style : TScalarStyle) (tag : Option (String × String))
  deriving DecidableEq, Repr

/-- The events of the parser; the number of an anchor is 0 where there is none. -/
inductive YamlParseEvent where
  | nothing
  | streamStart
  | streamEnd
  | documentStart
  | documentEnd
  | alias (id : Nat)
  | scalar (s : String) (style : TScalarStyle) (anchor : Nat) (tag : Option (String × String))
  | sequenceStart (anchor : Nat)
  | sequenceEnd
  | mappingStart (anchor : Nat)
  | mappingEnd

/-- An event and its position. -/
abbrev Delivered := YamlEvent × Marker

structure Range where
  start : Nat
  stop : Nat

inductive AliasOrEvent where
  | alias (range : Range)
  | event (e : YamlEvent) (m : Marker)

/-- `YamlDecoder` without `peek`. The last reference and the last replayed range come first; the
parser ends with `streamEnd` for ever. -/
structure Decoder where
  aliasedEvents : List AliasOrEvent
  aliasMap : List (Nat × Range)
  parser : List (Except String (YamlParseEvent × Marker))
  referenceStack : List (Option (Nat × Nat))
  replayingAlias : List Range

inductive Error where
  | invalidYaml (e : String)
  | yamlDeserialize (m : Marker)
  | indexOutOfBounds

namespace YamlEvent

def isScalar : YamlEvent → Bool
  | scalar .. => true
  | _ => false

def isNestedEnd : YamlEvent → Bool
  | mappingEnd | sequenceEnd => true
  | _ => false

def isNestedStart : YamlEvent → Bool
  | mappingStart | sequenceStart => true
  | _ => false

end YamlEvent

namespace Decoder

def new (parser : List (Except String (YamlParseEvent × Marker))) : Decoder :=
  ⟨[], [], parser, [], []⟩

/-- What an event with an anchor, and the start and end of a reference, are noted for. -/
def note (d : Decoder) (anchor : Nat) (e : YamlEvent) (m : Marker) : Decoder :=
  let inReference := !d.referenceStack.isEmpty
  let d := if inReference || 0 < anchor then
      { d with aliasedEvents := d.aliasedEvents ++ [.event e m] }
    else d
  if 0 < anchor then
    let i := d.aliasedEvents.length - 1
    if e.isScalar then { d with aliasMap := (anchor, ⟨i, i⟩) :: d.aliasMap }
    else { d with referenceStack := some (anchor, i) :: d.referenceStack }
  else if e.isNestedEnd then
    match d.referenceStack with
    | [] => d
    | none :: stack => { d with referenceStack := stack }
    | some (anchor, i) :: stack =>
      { d with referenceStack := stack
               aliasMap := (anchor, ⟨i, d.aliasedEvents.length⟩) :: d.aliasMap }
  else if e.isNestedStart && inReference then
    { d with referenceStack := none :: d.referenceStack }
  else d

/-- An alias is replayed; one that is not known is skipped. -/
def replay (d : Decoder) (id : Nat) : Decoder :=
  match d.aliasMap.lookup id with
  | none => d
  | some range =>
    { d with replayingAlias := range :: d.replayingAlias
             aliasedEvents := if d.referenceStack.isEmpty then d.aliasedEvents
               else d.aliasedEvents ++ [.alias range] }

/-- The event of a parser event that is one by itself, and its anchor. -/
def eventOf : YamlParseEvent → Option (Nat × YamlEvent)
  | .scalar s style anchor tag => some (anchor, .scalar s style tag)
  | .mappingStart anchor => some (anchor, .mappingStart)
  | .mappingEnd => some (0, .mappingEnd)
  | .sequenceStart anchor => some (anchor, .sequenceStart)
  | .sequenceEnd => some (0, .sequenceEnd)
  | _ => none

/-- One event of the parser. -/
def parse (d : Decoder) (e : YamlParseEvent) (m : Marker) : Round Decoder Delivered Error :=
  match e, eventOf e with
  | .alias id, _ => .again (d.replay id)
  | .streamEnd, _ | .documentEnd, _ => .fail (.yamlDeserialize m) d
  | _, some (anchor, e) => .yield (e, m) (d.note anchor e m)
  | _, none => .again d

/-- One round of the loop of `peek`. -/
def step (d : Decoder) : Round Decoder Delivered Error :=
  match d.replayingAlias with
  | r :: rs =>
    if r.start < r.stop then
      let rs := { r with start := r.start + 1 } :: rs
      match d.aliasedEvents[r.start]? with
      | some (.alias range) => .again { d with replayingAlias := range :: rs }
      | some (.event e m) => .yield (e, m) { d with replayingAlias := rs }
      | none => .fail .indexOutOfBounds d
    else .again { d with replayingAlias := rs }
  | [] =>
    match d.parser with
    | [] => .fail (.yamlDeserialize ⟨0, 0⟩) d
    | .error e :: parser => .fail (.invalidYaml e) { d with parser := parser }
    | .ok (e, m) :: parser => parse { d with parser := parser } e m

end Decoder

/-- A document, with the numbers of its anchors and aliases; a mapping has its keys and values in
turn. -/
inductive Node where
  | scalar (anchor : Nat) (s : String) (style : TScalarStyle) (tag : Option (String × String))
      (m : Marker)
  | alias (id : Nat) (m : Marker)
  | collection (anchor : Nat) (isMapping : Bool) (start : Marker) (items : List Node)
    (stop : Marker)

/-- The events of collections. -/
def startEvent (isMapping : Bool) : YamlEvent := if isMapping then .mappingStart else .sequenceStart

def stopEvent (isMapping : Bool) : YamlEvent := if isMapping then .mappingEnd else .sequenceEnd

def startParseEvent (isMapping : Bool) (anchor : Nat) : YamlParseEvent :=
  if isMapping then .mappingStart anchor else .sequenceStart anchor

def stopParseEvent (isMapping : Bool) : YamlParseEvent :=
  if isMapping then .mappingEnd else .sequenceEnd

mutual

/-- What the parser gives for a node. -/
def Node.events : Node → List (YamlParseEvent × Marker)
  | .scalar anchor s style tag m => [(.scalar s style anchor tag, m)]
  | .alias id m => [(.alias id, m)]
  | .collection anchor isMapping start items stop =>
    (startParseEvent isMapping anchor, start) ::
      (itemEvents items ++ [(stopParseEvent isMapping, stop)])

def itemEvents : List Node → List (YamlParseEvent × Marker)
  | [] => []
  | n :: ns => n.events ++ itemEvents ns

end

/-- The events of the nodes under the anchors that are complete, the latest first. -/
abbrev Anchors := List (Nat × List Delivered)

def Anchors.bind (a : Anchors) (anchor : Nat) (es : List Delivered) : Anchors :=
  if 0 < anchor then (anchor, es) :: a else a

mutual

/-- A node with its aliases replaced by copies of the nodes that they stand for, and the anchors
after it. `copy` is what an alias of a scalar is replaced by. -/
def Node.expand (copy : Delivered → List Delivered) (a : Anchors) : Node → List Delivered × Anchors
  | .scalar anchor s style tag m =>
    ([(.scalar s style tag, m)], a.bind anchor (copy (.scalar s style tag, m)))
  | .alias id _ => ((a.lookup id).getD [], a)
  | .collection anchor isMapping start items stop =>
    let inner := expandItems copy a items
    let es := (startEvent isMapping, start) :: (inner.1 ++ [(stopEvent isMapping, stop)])
    (es, inner.2.bind anchor es)

def expandItems (copy : Delivered → List Delivered) (a : Anchors) :
    List Node → List Delivered × Anchors
  | [] => ([], a)
  | n :: ns =>
    let first := n.expand copy a
    let rest := expandItems copy first.2 ns
    (first.1 ++ rest.1, rest.2)

end

/-- A stream whose first document is the node. -/
def Node.stream (n : Node) (start stop : Marker)
    (rest : List (Except String (YamlParseEvent × Marker))) :
    List (Except String (YamlParseEvent × Marker)) :=
  .ok (.streamStart, start) :: .ok (.documentStart, start) ::
    (n.events.map .ok ++ .ok (.documentEnd, stop) :: rest)

end Pewpew.Yaml
