import Pewpew.Library.F64
import Mathlib.Data.List.Basic

/-! JSON values as the expressions of `lib/config` use them. -/
namespace Pewpew.SelectParser

/-- A `serde_json::Number`: an integer of 64 bits, signed or unsigned, or a finite float. -/
inductive JsonNumber where
  | int (i : Int)
  | float (neg : Bool) (magnitude : ℚ)
  deriving DecidableEq, Repr

/-- A `serde_json::Value`; objects keep the order of insertion. -/
inductive Json where
  | null
  | bool (b : Bool)
  | number (n : JsonNumber)
  | string (s : String)
  | array (a : List Json)
  | object (o : List (String × Json))
  deriving Inhabited

abbrev Object := List (String × Json)

namespace JsonNumber

def asF64 : JsonNumber → F64
  | .int i => .ofInt i
  | .float neg q => .fin neg q

def asU64 : JsonNumber → Option Nat
  | .int i => if 0 ≤ i then some i.toNat else none
  | .float _ _ => none

def eq : JsonNumber → JsonNumber → Bool
  | .int i, .int j => i == j
  | .float s a, .float t b => F64.eq (.fin s a) (.fin t b)
  | _, _ => false

end JsonNumber

namespace Object

def get (o : Object) (key : String) : Option Json := o.lookup key

/-- `Map::insert`: a present key keeps its place. -/
def insert : Object → String → Json → Object
  | [], key, v => [(key, v)]
  | (k, w) :: o, key, v => if k = key then (k, v) :: o else (k, w) :: insert o key v

theorem get_insert_self (o : Object) (key : String) (v : Json) :
    (o.insert key v).get key = some v := by
  induction o with
  | nil => simp [insert, get]
  | cons e o ih =>
    obtain ⟨k, w⟩ := e
    rw [insert]
    split
    · next heq => simp [get, heq]
    · next hne =>
      rw [get, List.lookup_cons, beq_false_of_ne (Ne.symm hne)]
      exact ih

theorem get_insert_ne {k key : String} {v : Json} (h : k ≠ key) (o : Object) :
    (o.insert key v).get k = o.get k := by
  have hk : (k == key) = false := beq_false_of_ne h
  induction o with
  | nil => simp [insert, get, List.lookup_cons, hk]
  | cons e o ih =>
    obtain ⟨k', w⟩ := e
    simp only [get] at ih
    simp only [insert, get]
    split
    · next heq =>
      subst heq
      simp [List.lookup_cons, hk]
    · simp [List.lookup_cons, ih]

/-- `Map::remove`: the last entry takes the place of the removed one. -/
def swapRemove : Object → String → Object
  | [], _ => []
  | (k, w) :: o, key =>
    if k = key then match o.getLast? with
      | some last => last :: o.dropLast
      | none => []
    else (k, w) :: swapRemove o key

/-- `collect` into a map. -/
def ofEntries (entries : List (String × Json)) : Object :=
  entries.foldl (fun o e => insert o e.1 e.2) []

end Object

namespace Json

/-- The place of a natural number in JSON. -/
def ofNat (n : Nat) : Json := .number (.int n)

/-- `From<f64>`: a float that is not finite is `null`. -/
def ofF64 : F64 → Json
  | .fin neg q => .number (.float neg q)
  | _ => .null

/-- `bool_value`: which values are truthy. -/
def boolValue : Json → Bool
  | .null => false
  | .bool b => b
  | .number (.int i) => i ≠ 0
  | .number (.float _ q) => q ≠ 0
  | .string s => s ≠ ""
  | .array _ | .object _ => true

/-- `f64_value`. -/
def f64Value : Json → F64
  | .number n => n.asF64
  | _ => .nan

def asU64 : Json → Option Nat
  | .number n => n.asU64
  | _ => none

/-- The elements of an array, and any other value alone. -/
def elements : Json → List Json
  | .array a => a
  | v => [v]

def isArray : Json → Bool
  | .array _ => true
  | _ => false

mutual
/-- `==` of two values: the order of an object's entries does not count. -/
def eq : Json → Json → Bool
  | .null, .null => true
  | .bool a, .bool b => a == b
  | .number a, .number b => a.eq b
  | .string a, .string b => a == b
  | .array a, .array b => eqArray a b
  | .object a, .object b => a.length == b.length && eqObject a b
  | _, _ => false
def eqArray : List Json → List Json → Bool
  | [], [] => true
  | v :: a, w :: b => v.eq w && eqArray a b
  | _, _ => false
def eqObject : List (String × Json) → Object → Bool
  | [], _ => true
  | e :: a, b => eqEntry e b && eqObject a b
def eqEntry : String × Json → Object → Bool
  | (k, v), b => match b.get k with
    | some w => v.eq w
    | none => false
end

end Json

/-- The encodings of `encode`. -/
inductive Encoding where
  | base64
  | percentSimple
  | percentQuery
  | percent
  | percentPath
  | percentUserinfo
  | nonAlphanumeric
  deriving DecidableEq, Repr

/-- The crates that the expressions call: the text of a float (`ryu`), grapheme clusters, the
`base64` and `percent_encoding` crates, regular expressions (their capture names, and the captures
of a match), JSON paths (whether one compiles, and what it selects), the clock and the random
numbers of one evaluation. -/
structure Externals where
  floatText : F64 → String
  graphemes : String → List String
  encode : Encoding → String → String
  captureNames : String → Option (List (Option String))
  captures : String → String → Option (List (Option String))
  pathCompiles : String → Bool
  pathSelect : String → Json → List Json
  epochNanos : Nat
  sample : Nat → Nat → Nat
  sampleF64 : F64 → F64 → F64

namespace Json

/-- One character of a serialized string. -/
def escapeChar (c : Char) : String :=
  if c = '"' then "\\\""
  else if c = '\\' then "\\\\"
  else if c = '\n' then "\\n"
  else if c = '\r' then "\\r"
  else if c = '\t' then "\\t"
  else if c.toNat = 8 then "\\b"
  else if c.toNat = 12 then "\\f"
  else if c.toNat < 32 then
    "\\u00" ++ String.ofList [Nat.digitChar (c.toNat / 16), Nat.digitChar (c.toNat % 16)]
  else c.toString

def escape (s : String) : String := "\"" ++ String.join (s.toList.map escapeChar) ++ "\""

def numberText (x : Externals) : JsonNumber → String
  | .int i => toString i
  | .float neg q => x.floatText (.fin neg q)

mutual
/-- The serialization of a value, without whitespace. -/
def toText (x : Externals) : Json → String
  | .null => "null"
  | .bool b => if b then "true" else "false"
  | .number n => numberText x n
  | .string s => escape s
  | .array a => "[" ++ ",".intercalate (arrayTexts x a) ++ "]"
  | .object o => "\x7b" ++ ",".intercalate (objectTexts x o) ++ "\x7d"
def arrayTexts (x : Externals) : List Json → List String
  | [] => []
  | v :: a => toText x v :: arrayTexts x a
def objectTexts (x : Externals) : List (String × Json) → List String
  | [] => []
  | e :: o => entryText x e :: objectTexts x o
def entryText (x : Externals) : String × Json → String
  | (k, v) => escape k ++ ":" ++ toText x v
end

/-- `json_value_to_string`: a string stands for itself. -/
def valueToString (x : Externals) : Json → String
  | .string s => s
  | v => toText x v

end Json

end Pewpew.SelectParser
