import Pewpew.Expression.Evaluate
import Pewpew.Library.Fallible

/-! Evaluation as an iterator, and when it yields the elements of the value. -/
namespace Pewpew.SelectParser

/-- The items of an iterator, each of which may be an error. -/
abbrev Items := List (Except ExecutingError Cow)

variable (x : Externals)

/-- `FunctionCall::evaluate_as_iter`. -/
def FunctionCall.evaluateAsIter : FunctionCall → Cow → Bool → Option (List Cow) →
    Except ExecutingError (List Cow)
  | .entries arg, d, noErr, forEach =>
    (arg.evaluate x d noErr forEach).map fun v =>
      match entriesOf x v.val with
      | some es => es.map .owned
      | none => [v]
  | .jsonPath _ selector _, d, _, _ => .ok ((x.pathSelect selector d.val).map .owned)
  | .range first second marker, d, noErr, forEach =>
    (first.evaluate x d.borrow noErr forEach).bind fun l =>
      if l.val.asU64.isNone then .error (invalidRange marker)
      else (second.evaluate x d noErr forEach).bind fun r =>
        (rangeOf marker l.val r.val).map fun range => range.items.map .owned
  | .rangeConstant r, _, _, _ => .ok (r.items.map .owned)
  | .repeatNull min random, _, _, _ =>
    .ok (List.replicate (evaluateRandom x min random) (.owned .null))
  | f, d, noErr, forEach => (f.evaluate x d noErr forEach).map fun v => [v]

/-- `Path::evaluate_as_iter`: the segments after a function call are applied to each item, those
after a constant not at all. -/
def Path.evaluateAsIter : Path → Cow → Bool → Option (List Cow) → Except ExecutingError Items
  | .mk (.functionCall f) rest marker, d, noErr, forEach =>
    (f.evaluateAsIter x d noErr forEach).map fun js =>
      js.map fun j => indexJson2 x rest j noErr none marker
  | .mk (.ident s) rest marker, d, noErr, forEach =>
    match (if s = "for_each" then forEach else none) with
    | some tuple =>
      match rest with
      | [] => .ok [.ok (.owned (.array (tuple.map Cow.val)))]
      | .number n :: rest =>
        (indexJson2 x rest (tuple[n]?.getD (.owned .null)) noErr forEach marker).map
          fun v => [.ok v]
      | _ :: rest => (indexJson2 x rest (.owned .null) noErr forEach marker).map fun v => [.ok v]
    | none =>
      (indexStep d (.key s) noErr marker).bind fun v =>
        (indexJson2 x rest v noErr forEach marker).map fun v => [.ok v]
  | .mk (.value v) _ _, _, _, _ => .ok [.ok (.borrowed v)]

/-- An array among the items is replaced by its elements. -/
def flattenItem : Except ExecutingError Cow → Items
  | .ok v => v.elements.map .ok
  | .error e => [.error e]

def Value.evaluateAsIter : Value → Cow → Bool → Option (List Cow) → Except ExecutingError Items
  | .path p, d, noErr, forEach =>
    (p.evaluateAsIter x d noErr forEach).map fun items => items.flatMap flattenItem
  | v, d, noErr, forEach => (v.evaluate x d noErr forEach).map fun v => v.elements.map .ok

def Expression.evaluateAsIter : Expression → Cow → Bool → Option (List Cow) →
    Except ExecutingError Items
  | .mk none (.value v) none, d, noErr, forEach => v.evaluateAsIter x d noErr forEach
  | e, d, noErr, forEach => (e.evaluate x d noErr forEach).map fun v => v.elements.map .ok

def ValueOrExpression.evaluateAsIter : ValueOrExpression → Cow → Bool → Option (List Cow) →
    Except ExecutingError Items
  | .value v, d, noErr, forEach => v.evaluateAsIter x d noErr forEach
  | .expression e, d, noErr, forEach => e.evaluateAsIter x d noErr forEach

/-- The iterator yields the elements of the value, or the value alone. -/
def YieldsElements (items : Except ExecutingError Items) (v : Cow) : Prop :=
  items.map (·.map (·.map Cow.val)) = .ok (v.val.elements.map .ok)

/-- The functions that yield the items of their array by themselves. -/
def FunctionCall.iterates : FunctionCall → Bool
  | .entries _ | .jsonPath _ _ _ | .range _ _ _ | .rangeConstant _ | .repeatNull _ _ => true
  | _ => false

/-- Indexing each item, without a `for_each` binding, gives what indexing the whole gives. -/
def IndexesItemwise (rest : List PathSegment) (noErr : Bool) (forEach : Option (List Cow))
    (marker : Marker) (items : List Cow) (whole : Cow) : Prop :=
  ∀ w, indexJson2 x rest whole noErr forEach marker = .ok w →
    ∃ ys, items.mapM (fun j => indexJson2 x rest j noErr none marker) = .ok ys ∧
      ys.flatMap (·.val.elements) = w.val.elements

/-- The items of a path are flattened exactly once: the segments after a constant leave its
elements; a function that yields its own items yields no arrays or, before further segments, items
that these index one by one as they index its value. -/
def Path.FlattensOnce (d : Cow) (noErr : Bool) (forEach : Option (List Cow)) : Path → Prop
  | .mk (.ident _) _ _ => True
  | .mk (.value v) rest marker => rest = [] ∨
      ∀ w, indexJson2 x rest (.borrowed v) noErr forEach marker = .ok w →
        v.elements = w.val.elements
  | .mk (.functionCall f) rest marker =>
      ∀ items whole, f.evaluateAsIter x d noErr forEach = .ok items →
        f.evaluate x d noErr forEach = .ok whole →
          if rest = [] then f.iterates = true → ∀ j ∈ items, j.val.isArray = false
          else IndexesItemwise x rest noErr forEach marker items whole

/-- The path that an expression consists of, if it is nothing but a path. -/
def ValueOrExpression.barePath : ValueOrExpression → Option Path
  | .value (.path p) | .expression (.mk none (.value (.path p)) none) => some p
  | _ => none

section Elements

variable {v : Json} {vs : List Json}

mutual
/-- The size of a value, as an array. -/
def Json.size : Json → Nat
  | .array a => weight a + 1
  | _ => 1
def weight : List Json → Nat
  | [] => 0
  | v :: vs => v.size + weight vs
end

@[simp] theorem weight_nil : weight [] = 0 := by simp [weight]

@[simp] theorem weight_cons : weight (v :: vs) = v.size + weight vs := by simp [weight]

@[simp] theorem weight_append {ws : List Json} : weight (vs ++ ws) = weight vs + weight ws := by
  induction vs with
  | nil => simp
  | cons v vs ih => simp [ih]; omega

theorem weight_elements_lt (h : v.isArray = true) : weight v.elements < v.size := by
  cases v with
  | array a => simp [Json.elements, Json.size]
  | _ => simp [Json.isArray] at h

theorem weight_elements_le : weight v.elements ≤ v.size := by
  cases v <;> simp [Json.elements, Json.size]

theorem elements_of_not_isArray (h : v.isArray = false) : v.elements = [v] := by
  cases v <;> first | rfl | simp [Json.isArray] at h

theorem weight_flatMap_le : weight (vs.flatMap Json.elements) ≤ weight vs := by
  induction vs with
  | nil => simp
  | cons v vs ih =>
    have := weight_elements_le (v := v)
    simp only [List.flatMap_cons, weight_append, weight_cons]
    omega

theorem weight_flatMap_lt (h : v ∈ vs) (hv : v.isArray = true) :
    weight (vs.flatMap Json.elements) < weight vs := by
  induction vs with
  | nil => simp at h
  | cons w vs ih =>
    simp only [List.flatMap_cons, weight_append, weight_cons]
    obtain rfl | h := List.mem_cons.mp h
    · have := weight_elements_lt hv
      have : weight (vs.flatMap Json.elements) ≤ weight vs := weight_flatMap_le
      omega
    · have := weight_elements_le (v := w)
      have := ih h
      omega

/-- Flattening changes a list exactly where it holds an array. -/
theorem flatMap_elements_eq_self_iff :
    vs.flatMap Json.elements = vs ↔ ∀ v ∈ vs, v.isArray = false := by
  constructor
  · intro h v hv
    by_contra hne
    have := weight_flatMap_lt hv (by simpa using hne)
    rw [h] at this
    omega
  · intro h
    induction vs with
    | nil => rfl
    | cons v vs ih =>
      have hv := elements_of_not_isArray (h v (by simp))
      have := ih fun w hw => h w (by simp [hw])
      simp [hv, this]

end Elements

section Flatten

variable {v w : Cow} {items : List Cow} {ys : Items}

theorem yieldsElements_elements : YieldsElements (.ok (v.elements.map .ok)) v := by
  simp [YieldsElements, Except.map, Function.comp_def, ← Cow.elements_val]

/-- Items without errors, flattened, are the elements of `v` where their own elements are. -/
theorem yieldsElements_flatten_iff (items : List Cow) :
    YieldsElements (.ok ((items.map Except.ok).flatMap flattenItem)) v ↔
      items.flatMap (·.val.elements) = v.val.elements := by
  have key : ((items.map Except.ok).flatMap flattenItem).map (·.map Cow.val) =
      (items.flatMap (·.val.elements)).map (Except.ok (ε := ExecutingError)) := by
    induction items with
    | nil => rfl
    | cons i items ih =>
      have hi : (flattenItem (.ok i)).map (·.map Cow.val) = i.val.elements.map .ok := by
        simp [flattenItem, Function.comp_def, Except.map, ← Cow.elements_val]
      simp only [List.map_cons, List.flatMap_cons, List.map_append, ih, hi]
  have hinj : Function.Injective (List.map (Except.ok (ε := ExecutingError) (α := Json))) :=
    List.map_injective_iff.mpr fun _ _ h => by simpa using h
  rw [YieldsElements, Except.map, key, Except.ok.injEq]
  exact hinj.eq_iff

/-- Items computed one by one are the elements of `v` where none is an error. -/
theorem yieldsElements_map_iff (g : Cow → Except ExecutingError Cow) :
    YieldsElements (.ok ((items.map g).flatMap flattenItem)) v ↔
      ∃ ys, items.mapM g = .ok ys ∧ ys.flatMap (·.val.elements) = v.val.elements := by
  cases hm : items.mapM g with
  | ok ys =>
    rw [Fallible.mapM_eq_map hm, yieldsElements_flatten_iff]
    simp
  | error e =>
    refine iff_of_false (fun h => ?_) (by simp)
    have hg : .error e ∈ (items.map g).flatMap flattenItem :=
      List.mem_flatMap.mpr ⟨.error e, Fallible.mapM_error hm, by simp [flattenItem]⟩
    have he : .error e ∈ ((items.map g).flatMap flattenItem).map (·.map Cow.val) :=
      List.mem_map.mpr ⟨_, hg, rfl⟩
    rw [YieldsElements, Except.map, Except.ok.injEq] at h
    rw [h] at he
    simp at he

end Flatten

section Agreement

variable {x} {d v whole : Cow} {items : List Cow} {noErr : Bool} {forEach : Option (List Cow)}

/-- A function yields the items of its array by itself, or its value as the only item. -/
theorem FunctionCall.evaluateAsIter_cases {f : FunctionCall}
    (h : f.evaluate x d noErr forEach = .ok whole) :
    ∃ items, f.evaluateAsIter x d noErr forEach = .ok items ∧
      (f.iterates = true ∧ (∃ vs, items = vs.map .owned ∧ whole = .owned (.array vs)) ∨
        (f.iterates = true → whole.val.isArray = false) ∧ items = [whole]) := by
  cases f with
  | entries arg =>
    simp only [FunctionCall.evaluate, FunctionCall.evaluateAsIter] at h ⊢
    cases ha : arg.evaluate x d noErr forEach with
    | error e => simp [ha, Except.map] at h
    | ok u =>
      simp only [ha, Except.map, Except.ok.injEq] at h
      simp only [Except.map, Except.ok.injEq, exists_eq_left']
      cases he : entriesOf x u.val with
      | some es =>
        exact .inl ⟨rfl, es, rfl, by simpa [he] using h.symm⟩
      | none =>
        obtain rfl : u = whole := by simpa [he] using h
        refine .inr ⟨fun _ => ?_, rfl⟩
        cases hu : u.val <;> simp [hu, entriesOf, Json.isArray] at he ⊢
  | jsonPath provider selector marker =>
    simp only [FunctionCall.evaluate, Except.ok.injEq] at h
    exact ⟨_, rfl, .inl ⟨rfl, _, rfl, h.symm⟩⟩
  | range first second marker =>
    simp only [FunctionCall.evaluate, FunctionCall.evaluateAsIter] at h ⊢
    cases h₁ : first.evaluate x d.borrow noErr forEach with
    | error e => simp [h₁, Except.bind] at h
    | ok l =>
      by_cases hl : l.val.asU64.isNone
      · simp [h₁, hl, Except.bind] at h
      · cases h₂ : second.evaluate x d noErr forEach with
        | error e => simp [h₁, hl, h₂, Except.bind] at h
        | ok r =>
          cases hr : rangeOf marker l.val r.val with
          | error e => simp [h₁, hl, h₂, hr, Except.bind, Except.map] at h
          | ok range =>
            simp only [h₁, hl, h₂, hr, Except.bind, Except.map, Bool.false_eq_true, ↓reduceIte,
              Except.ok.injEq] at h ⊢
            exact ⟨_, rfl, .inl ⟨rfl, _, rfl, h.symm⟩⟩
  | rangeConstant r =>
    simp only [FunctionCall.evaluate, Except.ok.injEq] at h
    exact ⟨_, rfl, .inl ⟨rfl, _, rfl, h.symm⟩⟩
  | repeatNull min random =>
    simp only [FunctionCall.evaluate, Except.ok.injEq] at h
    exact ⟨_, rfl, .inl ⟨rfl, List.replicate (evaluateRandom x min random) .null,
      List.map_replicate.symm, h.symm⟩⟩
  | _ =>
    exact ⟨[whole], by simp only [FunctionCall.evaluateAsIter, h, Except.map],
      .inr ⟨fun hi => by simp [FunctionCall.iterates] at hi, rfl⟩⟩

/-- A path that starts with an identifier yields its value. -/
theorem Path.evaluateAsIter_ident {s : String} {rest : List PathSegment} {marker : Marker} :
    Path.evaluateAsIter x (.mk (.ident s) rest marker) d noErr forEach =
      (Path.evaluate x (.mk (.ident s) rest marker) d noErr forEach).map fun v => [.ok v] := by
  rw [Path.evaluateAsIter, Path.evaluate]
  generalize (if s = "for_each" then forEach else none) = tuple
  cases tuple with
  | some tuple =>
    rcases rest with _ | ⟨segment, rest⟩
    · rfl
    · cases segment <;> rfl
  | none => cases indexStep d (.key s) noErr marker <;> rfl

theorem Path.flattensOnce_functionCall_iff {f : FunctionCall} {rest : List PathSegment}
    {marker : Marker} (hf : f.evaluate x d noErr forEach = .ok whole)
    (hitems : f.evaluateAsIter x d noErr forEach = .ok items) :
    Path.FlattensOnce x d noErr forEach (.mk (.functionCall f) rest marker) ↔
      if rest = [] then f.iterates = true → ∀ j ∈ items, j.val.isArray = false
      else IndexesItemwise x rest noErr forEach marker items whole := by
  rw [Path.FlattensOnce]
  refine ⟨fun h => h items whole hitems hf, fun h items' whole' hitems' hf' => ?_⟩
  obtain rfl : items = items' := by simpa [hitems] using hitems'
  obtain rfl : whole = whole' := by simpa [hf] using hf'
  exact h

/-- A path that starts with a function yields its items as they are, or indexed one by one. -/
theorem Path.functionCall_yieldsElements_iff {f : FunctionCall} {rest : List PathSegment}
    {marker : Marker} (hf : f.evaluate x d noErr forEach = .ok whole)
    (hv : indexJson2 x rest whole noErr forEach marker = .ok v) :
    YieldsElements ((Path.evaluateAsIter x (.mk (.functionCall f) rest marker) d noErr forEach).map
        (·.flatMap flattenItem)) v ↔
      Path.FlattensOnce x d noErr forEach (.mk (.functionCall f) rest marker) := by
  obtain ⟨items, hitems, hcase⟩ := FunctionCall.evaluateAsIter_cases hf
  rw [flattensOnce_functionCall_iff hf hitems]
  simp only [Path.evaluateAsIter, hitems, Except.map, yieldsElements_map_iff]
  cases rest with
  | cons segment rest =>
    rw [if_neg (by simp)]
    simp [IndexesItemwise, hv]
  | nil =>
    obtain rfl : whole = v := by simpa [indexJson2] using hv
    rw [if_pos rfl, ← yieldsElements_map_iff]
    simp only [indexJson2]
    rw [yieldsElements_flatten_iff]
    obtain ⟨hi, vs, rfl, rfl⟩ | ⟨hi, rfl⟩ := hcase
    · have hmap : (vs.map Cow.owned).flatMap (·.val.elements) = vs.flatMap Json.elements := by
        rw [List.flatMap_map]
        rfl
      have hval : (Cow.owned (.array vs)).val.elements = vs := rfl
      rw [hmap, hval, flatMap_elements_eq_self_iff]
      simp [hi]
    · simpa using hi

/-- A path that starts with a constant yields the constant. -/
theorem Path.value_yieldsElements_iff {u : Json} {rest : List PathSegment} {marker : Marker}
    (hv : indexJson2 x rest (.borrowed u) noErr forEach marker = .ok v) :
    YieldsElements ((Path.evaluateAsIter x (.mk (.value u) rest marker) d noErr forEach).map
        (·.flatMap flattenItem)) v ↔
      Path.FlattensOnce x d noErr forEach (.mk (.value u) rest marker) := by
  have := yieldsElements_flatten_iff (v := v) [.borrowed u]
  simp only [List.map_cons, List.map_nil, List.flatMap_cons, List.flatMap_nil, List.append_nil,
    Cow.val_borrowed] at this
  simp only [Path.evaluateAsIter, Except.map, Path.FlattensOnce, hv, Except.ok.injEq, forall_eq',
    List.flatMap_cons, List.flatMap_nil, List.append_nil, this]
  refine ⟨.inr, ?_⟩
  rintro (rfl | h)
  · obtain rfl : .borrowed u = v := by simpa [indexJson2] using hv
    rfl
  · exact h

theorem Path.yieldsElements_iff {p : Path} (h : p.evaluate x d noErr forEach = .ok v) :
    YieldsElements ((p.evaluateAsIter x d noErr forEach).map (·.flatMap flattenItem)) v ↔
      p.FlattensOnce x d noErr forEach := by
  obtain ⟨start, rest, marker⟩ := p
  cases start with
  | functionCall f =>
    simp only [Path.evaluate] at h
    cases hf : f.evaluate x d noErr forEach with
    | error e => simp [hf, Except.bind] at h
    | ok whole => exact functionCall_yieldsElements_iff hf (by simpa [hf, Except.bind] using h)
  | ident s =>
    rw [evaluateAsIter_ident, h]
    simpa [Path.FlattensOnce, Except.map, flattenItem] using yieldsElements_elements
  | value u => exact value_yieldsElements_iff (by simpa [Path.evaluate] using h)

theorem Value.yieldsElements_iff {u : Value} (h : u.evaluate x d noErr forEach = .ok v) :
    YieldsElements (u.evaluateAsIter x d noErr forEach) v ↔
      ∀ p, u = .path p → p.FlattensOnce x d noErr forEach := by
  cases u with
  | path p =>
    rw [Value.evaluateAsIter, Path.yieldsElements_iff (by simpa [Value.evaluate] using h)]
    simp
  | json j =>
    rw [Value.evaluateAsIter, h]
    · simpa [Except.map] using yieldsElements_elements
    · simp
  | template t =>
    rw [Value.evaluateAsIter, h]
    · simpa [Except.map] using yieldsElements_elements
    · simp

/-- The iterator yields the elements of the value exactly where a bare path flattens once. -/
theorem yieldsElements_iff_flattensOnce {e : ValueOrExpression}
    (h : e.evaluate x d noErr forEach = .ok v) :
    YieldsElements (e.evaluateAsIter x d noErr forEach) v ↔
      ∀ p, e.barePath = some p → p.FlattensOnce x d noErr forEach := by
  have hexp : ∀ {e : Expression}, e.evaluate x d noErr forEach = .ok v →
      YieldsElements ((e.evaluate x d noErr forEach).map fun v => v.elements.map .ok) v := by
    intro e he
    rw [he]
    exact yieldsElements_elements
  match e with
  | .value u =>
    rw [ValueOrExpression.evaluateAsIter,
      Value.yieldsElements_iff (by simpa [ValueOrExpression.evaluate] using h)]
    cases u <;> simp [ValueOrExpression.barePath]
  | .expression (.mk none (.value u) none) =>
    have hu : u.evaluate x d noErr forEach = .ok v := by
      simp only [ValueOrExpression.evaluate, Expression.evaluate, ExpressionLhs.evaluate] at h
      cases hu : u.evaluate x d noErr forEach with
      | error e => simp [hu, Except.map] at h
      | ok w => simpa [hu, Except.map, applyNot] using h
    rw [ValueOrExpression.evaluateAsIter, Expression.evaluateAsIter, Value.yieldsElements_iff hu]
    cases u <;> simp [ValueOrExpression.barePath]
  | .expression (.mk (some _) lhs op) =>
    simpa [ValueOrExpression.barePath, ValueOrExpression.evaluateAsIter,
      Expression.evaluateAsIter] using hexp h
  | .expression (.mk none lhs (some op)) =>
    simpa [ValueOrExpression.barePath, ValueOrExpression.evaluateAsIter,
      Expression.evaluateAsIter] using hexp h
  | .expression (.mk none (.expression e) none) =>
    simpa [ValueOrExpression.barePath, ValueOrExpression.evaluateAsIter,
      Expression.evaluateAsIter] using hexp h

end Agreement

/-- Externals for concrete runs: texts are plain and nothing matches. -/
def Externals.plain : Externals where
  floatText _ := "0.5"
  graphemes s := s.toList.map toString
  encode _ s := s
  captureNames _ := some []
  captures _ _ := none
  pathCompiles _ := true
  pathSelect _ v := [v]
  epochNanos := 0
  sample min _ := min
  sampleF64 min _ := min

/-- `f(a)` for a function of one argument. -/
def callOnA (f : ValueOrExpression → FunctionCall) : ValueOrExpression :=
  .value (.path (.mk (.functionCall (f (.value (.path (.mk (.ident "a") [] ⟨0, 0⟩))))) [] ⟨0, 0⟩))

/-- `range(a, 2)` on 0 yields 0 and 1. -/
theorem yieldsElements_iff_flattensOnce_range :
    YieldsElements
      ((callOnA fun a => .range a (.value (.json (.ofNat 2))) ⟨0, 0⟩).evaluateAsIter .plain
        (.borrowed (.object [("a", .ofNat 0)])) false none)
      (.owned (.array [.ofNat 0, .ofNat 1])) :=
  (yieldsElements_iff_flattensOnce rfl).mpr fun p hp => by
    obtain rfl := Option.some.inj hp
    intro items _ hi _ _ j hj
    obtain rfl := Except.ok.inj hi
    simp [ReversibleRange.items, ReversibleRange.new, List.range'] at hj
    obtain rfl | rfl := hj <;> rfl

/-- Iterating any expression yields the elements of its value. -/
def IterationAgrees : Prop :=
  ∀ (x : Externals) (e : ValueOrExpression) (d : Cow) (noErr : Bool) (forEach : Option (List Cow))
    (v : Cow), e.evaluate x d noErr forEach = .ok v →
      YieldsElements (e.evaluateAsIter x d noErr forEach) v

/-- `entries(a)` on a list of one element is a list of one pair, but the pair is flattened too. -/
theorem not_iterationAgrees : ¬IterationAgrees := by
  intro h
  have := h .plain (callOnA .entries) (.borrowed (.object [("a", .array [.ofNat 5])])) false none
    (.owned (.array [.array [.ofNat 0, .ofNat 5]])) rfl
  have hl : (2 : Nat) = 1 := Except.ok.inj (congrArg (Except.map List.length) this)
  omega

end Pewpew.SelectParser
