import Pewpew.Expression.Syntax
import Std.Data.ExtTreeMap

/-! The providers that expressions refer to, and bits for the ones of the program itself. -/
namespace Pewpew.SelectParser

namespace Special

def requestStartline : BitVec 16 := 0b0000000000100
def requestHeaders : BitVec 16 := 0b0000000000010
def requestHeadersAll : BitVec 16 := 0b0100000000000
def requestBody : BitVec 16 := 0b0000000000001
def requestMethod : BitVec 16 := 0b0010000000000
def requestUrl : BitVec 16 := 0b0000100000000
def requestAll : BitVec 16 :=
  requestStartline ||| requestHeaders ||| requestHeadersAll ||| requestBody ||| requestUrl |||
    requestMethod
def responseStartline : BitVec 16 := 0b0000000100000
def responseHeaders : BitVec 16 := 0b0000000010000
def responseHeadersAll : BitVec 16 := 0b1000000000000
def responseBody : BitVec 16 := 0b0000000001000
def responseStatus : BitVec 16 := 0b0000100000000
def responseAll : BitVec 16 :=
  responseStartline ||| responseHeaders ||| responseHeadersAll ||| responseBody ||| responseStatus
def forEach : BitVec 16 := 0b0000001000000
def stats : BitVec 16 := 0b0000010000000
def error : BitVec 16 := 0b0001000000000

/-- The bits of a name that does not stand for a provider of the config file. -/
def ofName (s : String) : Option (BitVec 16) :=
  if s = "request.start-line" then some requestStartline
  else if s = "request.headers" then some requestHeaders
  else if s = "request.headers_all" then some requestHeadersAll
  else if s = "request.body" then some requestBody
  else if s = "request.method" then some requestMethod
  else if s = "request.url" then some requestUrl
  else if s = "request" then some requestAll
  else if s = "response.start-line" then some responseStartline
  else if s = "response.headers" then some responseHeaders
  else if s = "response.headers_all" then some responseHeadersAll
  else if s = "response.body" then some responseBody
  else if s = "response" then some responseAll
  else if s = "response.status" then some responseStatus
  else if s = "stats" then some stats
  else if s = "for_each" then some forEach
  else if s = "error" then some error
  else none

end Special

theorem mem_insertAll {l : List (String × Marker)} {m : Std.ExtTreeMap String Marker} {s : String} :
    s ∈ l.foldl (fun m e => m.insert e.1 e.2) m ↔ s ∈ m ∨ s ∈ l.map Prod.fst := by
  induction l generalizing m with
  | nil => simp
  | cons e l ih =>
    rw [List.foldl_cons, ih, Std.ExtTreeMap.mem_insert, Std.LawfulEqCmp.compare_eq_iff_eq]
    simp [or_assoc, or_left_comm, eq_comm]

theorem mem_insertMap {m m' : Std.ExtTreeMap String Marker} {s : String} :
    s ∈ m'.foldl (fun m s marker => m.insert s marker) m ↔ s ∈ m ∨ s ∈ m' := by
  rw [Std.ExtTreeMap.foldl_eq_foldl_toList, mem_insertAll, Std.ExtTreeMap.map_fst_toList_eq_keys,
    Std.ExtTreeMap.mem_keys]

/-- The names in `inner` are not special; those are kept as bits. -/
structure RequiredProviders where
  inner : Std.ExtTreeMap String Marker
  special : BitVec 16
  whereSpecial : BitVec 16
  isWhere : Bool
  plain : ∀ s ∈ inner, Special.ofName s = none

namespace RequiredProviders

variable {p q : RequiredProviders} {bits : BitVec 16}

def new : RequiredProviders where
  inner := ∅
  special := 0
  whereSpecial := 0
  isWhere := false
  plain _ hs := absurd hs Std.ExtTreeMap.not_mem_empty

/-- `is_where`. -/
def setIsWhere (p : RequiredProviders) : RequiredProviders := { p with isWhere := true }

def insert (p : RequiredProviders) (s : String) (marker : Marker) : RequiredProviders :=
  match hs : Special.ofName s with
  | some bits =>
    if p.isWhere then { p with whereSpecial := p.whereSpecial ||| bits }
    else { p with special := p.special ||| bits }
  | none =>
    { p with
      inner := p.inner.insert s marker
      plain := fun t ht => by
        rcases Std.ExtTreeMap.mem_insert.mp ht with heq | ht
        · rwa [← Std.LawfulEqCmp.compare_eq_iff_eq.mp heq]
        · exact p.plain t ht }

/-- Both kinds of bits take the other's `special` ones. -/
def extend (p other : RequiredProviders) : RequiredProviders where
  inner := other.inner.foldl (fun m s marker => m.insert s marker) p.inner
  special := p.special ||| other.special
  whereSpecial := p.whereSpecial ||| other.special
  isWhere := p.isWhere
  plain s hs := (mem_insertMap.mp hs).elim (p.plain s) (other.plain s)

def isEmpty (p : RequiredProviders) : Bool := p.special == 0 && p.inner.isEmpty

@[simp] theorem extend_special : (p.extend q).special = p.special ||| q.special := rfl

@[simp] theorem extend_whereSpecial :
    (p.extend q).whereSpecial = p.whereSpecial ||| q.special := rfl

@[simp] theorem extend_isWhere : (p.extend q).isWhere = p.isWhere := rfl

@[simp] theorem new_special : new.special = 0 := rfl

@[simp] theorem new_whereSpecial : new.whereSpecial = 0 := rfl

@[simp] theorem new_isWhere : new.isWhere = false := rfl

/-- `q` has the bits of `p` and the given ones, of both kinds. -/
def Adds (bits : BitVec 16) (p q : RequiredProviders) : Prop :=
  q.special = p.special ||| bits ∧ q.whereSpecial = p.whereSpecial ||| bits ∧
    q.isWhere = p.isWhere

theorem adds_zero : Adds 0 p p := by simp [Adds]

theorem adds_extend : Adds q.special p (p.extend q) := ⟨rfl, rfl, rfl⟩

theorem Adds.trans {r : RequiredProviders} {more : BitVec 16} (h : Adds bits p q)
    (h' : Adds more q r) : Adds (bits ||| more) p r := by
  obtain ⟨hs, hw, hi⟩ := h
  obtain ⟨hs', hw', hi'⟩ := h'
  exact ⟨by rw [hs', hs, BitVec.or_assoc], by rw [hw', hw, BitVec.or_assoc], hi'.trans hi⟩

theorem insert_of_special {s : String} {marker : Marker} (h : Special.ofName s = some bits) :
    p.insert s marker = if p.isWhere then { p with whereSpecial := p.whereSpecial ||| bits }
      else { p with special := p.special ||| bits } := by
  rw [insert]
  split
  · next bits' hs => rw [Option.some.inj (hs.symm.trans h)]
  · next hs => simp [hs] at h

theorem insert_of_plain {s : String} {marker : Marker} (h : Special.ofName s = none) :
    (p.insert s marker).inner = p.inner.insert s marker ∧
      (p.insert s marker).special = p.special := by
  rw [insert]
  split
  · next bits hs => simp [hs] at h
  · exact ⟨rfl, rfl⟩

@[simp] theorem insert_isWhere {s : String} {marker : Marker} :
    (p.insert s marker).isWhere = p.isWhere := by
  rw [insert]
  split
  · split <;> rfl
  · rfl

/-- A special name is not among the providers of the config file. -/
theorem mem_insert {s t : String} {marker : Marker} :
    t ∈ (p.insert s marker).inner ↔ t ∈ p.inner ∨ Special.ofName s = none ∧ t = s := by
  cases hs : Special.ofName s with
  | some bits =>
    rw [insert_of_special hs]
    split
    · simp
    · simp
  | none =>
    rw [(insert_of_plain hs).1, Std.ExtTreeMap.mem_insert, Std.LawfulEqCmp.compare_eq_iff_eq]
    simp [or_comm, eq_comm]

theorem mem_extend {s : String} : s ∈ (p.extend q).inner ↔ s ∈ p.inner ∨ s ∈ q.inner :=
  mem_insertMap

/-- The names of the entries are in the map. -/
theorem mem_of_mem_toList {e : String × Marker} (h : e ∈ p.inner.toList) : e.1 ∈ p.inner := by
  rw [← Std.ExtTreeMap.mem_keys, ← Std.ExtTreeMap.map_fst_toList_eq_keys]
  exact List.mem_map_of_mem h

end RequiredProviders

/-- Two sets of bits together lack a bit that each of them lacks. -/
theorem or_and_eq_zero {a b m : BitVec 16} : (a ||| b) &&& m = 0 ↔ a &&& m = 0 ∧ b &&& m = 0 := by
  simp [BitVec.eq_of_getLsbD_eq_iff, or_imp, imp_and, forall_and]

/-- Two sets of bits together are within a set that each of them is within. -/
theorem or_or_eq {a b r : BitVec 16} : a ||| b ||| r = r ↔ a ||| r = r ∧ b ||| r = r := by
  simp [BitVec.eq_of_getLsbD_eq_iff, or_imp, forall_and]

namespace RequiredProviders

variable {p q r : RequiredProviders} {s : String} {marker : Marker} {bits : BitVec 16}

/-- No reference with these bits has been noted. -/
def Lacks (bits : BitVec 16) (p : RequiredProviders) : Prop :=
  p.special &&& bits = 0

/-- All that `p` has noted, `r` has noted too. -/
structure Within (p r : RequiredProviders) : Prop where
  inner : ∀ s ∈ p.inner, s ∈ r.inner
  special : p.special ||| r.special = r.special

/-- The name is noted, as a provider of the config file or by the bits that stand for it. -/
def Has (r : RequiredProviders) (s : String) : Prop :=
  match Special.ofName s with
  | some bits => bits ||| r.special = r.special
  | none => s ∈ r.inner

theorem within_refl : p.Within p := ⟨fun _ => id, BitVec.or_self⟩

theorem Within.of_insert (h : (p.insert s marker).Within r) : p.Within r := by
  rw [insert] at h
  split at h
  · split at h
    · exact ⟨h.inner, h.special⟩
    · exact ⟨h.inner, (or_or_eq.mp h.special).1⟩
  · exact ⟨fun name hn => h.inner name (Std.ExtTreeMap.mem_insert.mpr (.inr hn)), h.special⟩

theorem Within.has_insert (h : (p.insert s marker).Within r) (hp : p.isWhere = false) :
    r.Has s := by
  rw [Has]
  cases hs : Special.ofName s with
  | some bits =>
    rw [insert_of_special hs, if_neg (by simp [hp])] at h
    exact (or_or_eq.mp h.special).2
  | none => exact h.inner s (mem_insert.mpr (.inr ⟨hs, rfl⟩))

theorem Within.of_extend (h : (p.extend q).Within r) : p.Within r ∧ q.Within r := by
  obtain ⟨hp, hq⟩ := or_or_eq.mp h.special
  exact ⟨⟨fun s hs => h.inner s (mem_extend.mpr (.inl hs)), hp⟩,
    ⟨fun s hs => h.inner s (mem_extend.mpr (.inr hs)), hq⟩⟩

theorem extend_lacks : (p.extend q).Lacks bits ↔ p.Lacks bits ∧ q.Lacks bits := or_and_eq_zero

end RequiredProviders

/-- Why an expression is not created: an error of its text, a panic, or templates nested deeper
than the parser's bound. -/
inductive Failure where
  | executing (e : ExecutingError)
  | invalidExpression (marker : Marker)
  | unknownFunction (name : String) (marker : Marker)
  | recursiveForEachReference (marker : Marker)
  | missingForEach (marker : Marker)
  | panic
  | tooDeep

end Pewpew.SelectParser
