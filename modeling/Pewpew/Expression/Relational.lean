import Pewpew.Expression.Indexing
import Pewpew.Expression.SameReads
import Pewpew.Expression.Tracking

/-! A `Select` as a query: the product of its joins, filtered by `where` and mapped by `select`. -/
namespace Pewpew.SelectParser

section Product

variable {α β : Type}

theorem cartesianProduct_map (f : α → β) (ls : List (List α)) :
    cartesianProduct (ls.map (List.map f)) = (cartesianProduct ls).map (List.map f) := by
  induction ls with
  | nil => simp [cartesianProduct]
  | cons l ls ih =>
    simp [cartesianProduct, ih, List.flatMap_map, List.map_flatMap, Function.comp_def]

/-- A row that keeps the same value for each of its elements keeps all of them. -/
theorem map_const_eq_filter_iff {l : List α} {p : α → Bool} {b : β} :
    l.map (fun _ => b) = (l.filter p).map (fun _ => b) ↔ ∀ a ∈ l, p a = true := by
  constructor
  · intro h
    have hlen := congrArg List.length h
    simp only [List.length_map] at hlen
    exact List.length_filter_eq_length_iff.mp hlen.symm
  · intro h
    rw [List.filter_eq_self.mpr h]

end Product

section Joins

variable {x : Externals} {d v w : Cow} {noErr : Bool} {forEach : Option (List Cow)}
  {rest : List PathSegment} {marker : Marker} {u : Json}

theorem owned_elements : (Cow.owned u).elements = u.elements.map .owned := by
  cases u <;> rfl

/-- A part of an owned value is owned. -/
theorem indexJson2_isOwned (h : indexJson2 x rest (.owned u) noErr forEach marker = .ok w) :
    w = .owned w.val := by
  induction rest generalizing u with
  | nil =>
    rw [indexJson2] at h
    exact Except.ok.inj h ▸ rfl
  | cons segment rest ih =>
    rw [indexJson2] at h
    obtain ⟨index, -, h⟩ := Fallible.except_bind_ok.mp h
    rw [indexStep_owned_self] at h
    obtain ⟨_, hstep, h⟩ := Fallible.except_bind_ok.mp h
    obtain ⟨found, -, rfl⟩ := Fallible.map_ok.mp hstep
    exact ih h

theorem flatten_ok (items : List Cow) :
    (items.map Except.ok).flatMap flattenItem = (items.flatMap Cow.elements).map .ok := by
  induction items with
  | nil => rfl
  | cons item items ih =>
    rw [List.map_cons, List.flatMap_cons, List.flatMap_cons, ih, List.map_append]
    rfl

/-- Owned items have the elements of an owned value where they have them as values. -/
theorem owned_flatMap_elements {ys : List Cow} (hys : ∀ y ∈ ys, y = .owned y.val)
    (hw : w = .owned w.val) (h : ys.flatMap (·.val.elements) = w.val.elements) :
    ys.flatMap Cow.elements = w.elements := by
  have hy : ∀ y ∈ ys, y.elements = y.val.elements.map .owned := fun y hmem => by
    rw [← owned_elements, ← hys y hmem]
  rw [hw, owned_elements, ← h, List.map_flatMap]
  exact List.flatMap_congr hy

/-- The segments after a constant leave its elements as they are. -/
def Path.KeepsConstant (x : Externals) (noErr : Bool) : Path → Prop
  | .mk (.value u) rest marker =>
      ∀ w, indexJson2 x rest (.borrowed u) noErr none marker = .ok w →
        (Cow.borrowed u).elements = w.elements
  | _ => True

/-- The items of a function are indexed one by one. -/
theorem functionCall_items {f : FunctionCall} (hv : f.evaluate x d noErr none = .ok v)
    (hw : indexJson2 x rest v noErr none marker = .ok w)
    (hf : Path.FlattensOnce x d noErr none (.mk (.functionCall f) rest marker)) :
    ∃ items, Path.evaluateAsIter x (.mk (.functionCall f) rest marker) d noErr none = .ok items ∧
      items.flatMap flattenItem = w.elements.map .ok := by
  obtain ⟨js, hjs, hcase⟩ := FunctionCall.evaluateAsIter_cases hv
  refine ⟨js.map fun j => indexJson2 x rest j noErr none marker, ?_, ?_⟩
  · rw [Path.evaluateAsIter, hjs]
    rfl
  obtain ⟨hi, vs, rfl, rfl⟩ | ⟨-, rfl⟩ := hcase
  · rw [Path.flattensOnce_functionCall_iff hv hjs] at hf
    cases rest with
    | nil =>
      rw [if_pos rfl] at hf
      obtain rfl : Cow.owned (.array vs) = w := by simpa [indexJson2] using hw
      have hplain : vs.flatMap Json.elements = vs :=
        flatMap_elements_eq_self_iff.mpr fun u hu => hf hi _ (List.mem_map_of_mem hu)
      have hown : ∀ y ∈ vs.map Cow.owned, y = .owned y.val := by simp
      have hsame : (vs.map Cow.owned).flatMap (·.val.elements) = vs := by
        rw [List.flatMap_map]
        exact hplain
      simp only [indexJson2]
      rw [flatten_ok, owned_flatMap_elements (w := .owned (.array vs)) hown rfl hsame]
    | cons segment rest =>
      rw [if_neg (List.cons_ne_nil _ _)] at hf
      obtain ⟨ys, hys, heq⟩ := hf w hw
      have hmap := Fallible.mapM_eq_map hys
      have hown : ∀ y ∈ ys, y = .owned y.val := by
        intro y hy
        have hmem := List.mem_map_of_mem (f := Except.ok (ε := ExecutingError)) hy
        rw [← hmap, List.map_map] at hmem
        obtain ⟨u, -, hu⟩ := List.mem_map.mp hmem
        exact indexJson2_isOwned hu
      rw [hmap, flatten_ok, owned_flatMap_elements hown (indexJson2_isOwned hw) heq]
  · rw [List.map_singleton, hw, List.flatMap_singleton]
    rfl

theorem path_items {p : Path} (h : p.evaluate x d noErr none = .ok w)
    (hf : p.FlattensOnce x d noErr none) (hc : p.KeepsConstant x noErr) :
    ∃ items, p.evaluateAsIter x d noErr none = .ok items ∧
      items.flatMap flattenItem = w.elements.map .ok := by
  obtain ⟨start, rest, marker⟩ := p
  cases start with
  | functionCall f =>
    rw [Path.evaluate] at h
    obtain ⟨v, hv, hw⟩ := Fallible.except_bind_ok.mp h
    exact functionCall_items hv hw hf
  | ident s =>
    refine ⟨[.ok w], ?_, ?_⟩
    · rw [Path.evaluateAsIter_ident, h]
      rfl
    · simp [flattenItem]
  | value u =>
    rw [Path.evaluate] at h
    refine ⟨_, rfl, ?_⟩
    rw [← hc w h]
    simp [flattenItem]

theorem value_items {value : Value} (h : value.evaluate x d noErr none = .ok w)
    (hf : ∀ p, value = .path p → p.FlattensOnce x d noErr none ∧ p.KeepsConstant x noErr) :
    value.evaluateAsIter x d noErr none = .ok (w.elements.map .ok) := by
  cases value with
  | path p =>
    rw [Value.evaluate] at h
    obtain ⟨hflat, hkeeps⟩ := hf p rfl
    obtain ⟨items, hitems, heq⟩ := path_items h hflat hkeeps
    rw [Value.evaluateAsIter, hitems, ← heq]
    rfl
  | json j =>
    rw [Value.evaluateAsIter, h]
    · rfl
    · simp
  | template t =>
    rw [Value.evaluateAsIter, h]
    · rfl
    · simp

/-- An expression that flattens its items once yields the elements of its value, held alike. -/
theorem expression_items {e : ValueOrExpression} (h : e.evaluate x d noErr none = .ok w)
    (hf : ∀ p, e.barePath = some p → p.FlattensOnce x d noErr none ∧ p.KeepsConstant x noErr) :
    e.evaluateAsIter x d noErr none = .ok (w.elements.map .ok) := by
  match e with
  | .value value =>
    rw [ValueOrExpression.evaluate] at h
    refine value_items h fun p hp => hf p ?_
    rw [hp, ValueOrExpression.barePath]
  | .expression (.mk none (.value value) none) =>
    have hvalue : value.evaluate x d noErr none = .ok w := by
      simp only [ValueOrExpression.evaluate, Expression.evaluate, ExpressionLhs.evaluate] at h
      obtain ⟨v, hv, hw⟩ := Fallible.map_ok.mp h
      rw [hv]
      exact congrArg _ hw
    refine value_items hvalue fun p hp => hf p ?_
    rw [hp, ValueOrExpression.barePath]
  | .expression (.mk (some _) lhs op) =>
    rw [ValueOrExpression.evaluate] at h
    rw [ValueOrExpression.evaluateAsIter, Expression.evaluateAsIter, h]
    · rfl
    · simp
  | .expression (.mk none lhs (some op)) =>
    rw [ValueOrExpression.evaluate] at h
    rw [ValueOrExpression.evaluateAsIter, Expression.evaluateAsIter, h]
    · rfl
    · simp
  | .expression (.mk none (.expression inner) none) =>
    rw [ValueOrExpression.evaluate] at h
    rw [ValueOrExpression.evaluateAsIter, Expression.evaluateAsIter, h]
    · rfl
    · simp

end Joins

namespace Select

variable {x : Externals} {g : Grammar} {vars : Object} {noErr : Bool} {depth : Nat}
  {provides : EndpointProvidesPreProcessed} {providers q : RequiredProviders} {s : Select}
  {d : Json} {joins : List (List Cow)}

/-- What `Select::new` notes about `for_each`: without joins nothing refers to it, and a part that
is not noted does not. -/
structure Notes (s : Select) : Prop where
  whereNeedsJoin : s.join = [] → s.whereReferencesForEach = false
  selectNeedsJoin : s.join = [] → s.referencesForEach = false
  whereFree : s.whereReferencesForEach = false → ∀ clause, s.whereClause = some clause →
    Avoids "for_each" clause.references
  selectFree : s.referencesForEach = false → Avoids "for_each" s.select.references

theorem lacks_of_refers {p : RequiredProviders} (h : p.refersToForEach = false) :
    p.Lacks Special.forEach := by
  simpa [RequiredProviders.refersToForEach, RequiredProviders.Lacks] using h

theorem newWhere_notes {hasJoin refers : Bool} {clause : Option (WithMarker String)}
    {parsed : Option Expression}
    (h : newWhere x g vars noErr depth hasJoin clause providers = .ok ((parsed, refers), q)) :
    (hasJoin = false → refers = false) ∧
      (refers = false → ∀ clause, parsed = some clause → Avoids "for_each" clause.references) := by
  rw [newWhere.eq_def] at h
  cases clause with
  | none =>
    obtain ⟨⟨rfl, rfl⟩, -⟩ := by simpa only [Except.ok.injEq, Prod.mk.injEq] using h
    simp
  | some v =>
    dsimp only at h
    cases ht : parseText x g vars noErr v.marker depth v.inner
      RequiredProviders.new.setIsWhere with
    | error f => simp [ht, Except.bind] at h
    | ok r =>
      obtain ⟨e, providers2⟩ := r
      simp only [ht, Except.bind] at h
      split at h
      · simp at h
      · next hjoin =>
        obtain ⟨⟨rfl, rfl⟩, -⟩ := by simpa only [Except.ok.injEq, Prod.mk.injEq] using h
        refine ⟨fun hno => by simpa [hno] using hjoin, fun hrefers clause hclause => ?_⟩
        obtain rfl := Option.some.inj hclause
        have hreads :=
          (parseText_tracks depth v.inner _ e providers2 ht).2 RequiredProviders.within_refl
        rw [e.references_eq]
        exact avoids_of_noted Special.names_forEach hreads.2 (lacks_of_refers hrefers)

theorem new_notes (h : Select.new x g vars noErr depth provides providers = .ok (s, q)) :
    s.Notes := by
  rw [Select.new] at h
  cases hj : newJoins x g vars noErr depth provides.forEach providers with
  | error f => simp [hj, Except.bind] at h
  | ok r =>
    obtain ⟨join, providers⟩ := r
    simp only [hj, Except.bind] at h
    cases hw : newWhere x g vars noErr depth (!join.isEmpty) provides.whereClause providers with
    | error f => simp [hw] at h
    | ok r =>
      obtain ⟨⟨whereClause, refers⟩, providers⟩ := r
      simp only [hw] at h
      cases hs : parseSelect x g vars noErr depth provides.select.marker provides.select.inner
        .new with
      | error f => simp [hs] at h
      | ok r =>
        obtain ⟨select, providers2⟩ := r
        simp only [hs] at h
        split at h
        · simp at h
        · next hjoin =>
          obtain ⟨rfl, -⟩ := by simpa only [Except.ok.injEq, Prod.mk.injEq] using h
          obtain ⟨hneeds, hfree⟩ := newWhere_notes hw
          refine ⟨fun hno => hneeds (by simp [show join = [] from hno]), fun hno => ?_, hfree,
            fun hrefers => ?_⟩
          · simpa [show join = [] from hno] using hjoin
          · have hreads :=
              (parseSelect_tracks depth _ _ select providers2 hs).2 RequiredProviders.within_refl
            rw [select.references_eq]
            exact avoids_of_noted Special.names_forEach hreads.2 (lacks_of_refers hrefers)

theorem Notes.whereHolds_eq (hs : s.Notes) (hw : s.whereReferencesForEach = false)
    (forEach : Option (List Cow)) : s.whereHolds x d forEach = s.whereHolds x d none := by
  rw [whereHolds, whereHolds]
  cases hc : s.whereClause with
  | none => rfl
  | some clause =>
    dsimp only
    rw [Expression.evaluate_same (allSame_unbound (hs.whereFree hw clause hc) _ forEach none)]

theorem Notes.evaluateSelect_eq (hs : s.Notes) (hr : s.referencesForEach = false)
    (forEach : Option (List Cow)) : s.evaluateSelect x d forEach = s.evaluateSelect x d none := by
  rw [evaluateSelect, evaluateSelect,
    ParsedSelect.evaluate_same (allSame_unbound (hs.selectFree hr) _ forEach none)]

/-- The `where` clause with the tuple bound to `for_each` is truthy. -/
def whereTruthy (x : Externals) (s : Select) (d : Json) (tuple : List Cow) : Bool :=
  match s.whereHolds x d (some tuple) with
  | .ok b => b
  | .error _ => false

/-- The relational meaning: the `select` of the tuples that satisfy the `where` clause. -/
def relation (x : Externals) (s : Select) (d : Json) (joins : List (List Cow)) : Items :=
  ((cartesianProduct joins).filter (s.whereTruthy x d)).map fun tuple =>
    s.evaluateSelect x d (some tuple)

/-- On these data the joins evaluate to values with the given elements, and the `where` clause and
the `select` of the tuples that satisfy it evaluate without error. -/
structure Evaluates (x : Externals) (s : Select) (d : Json) (joins : List (List Cow)) : Prop where
  elements : List.Forall₂ (fun join elements => ∃ v,
    join.evaluate x (.borrowed d) s.noRecoverableError none = .ok v ∧ elements = v.elements)
    s.join joins
  whereOnce : s.whereReferencesForEach = false → ∃ b, s.whereHolds x d none = .ok b
  whereEach : s.whereReferencesForEach = true → ∀ tuple ∈ cartesianProduct joins,
    ∃ b, s.whereHolds x d (some tuple) = .ok b
  select : ∀ tuple ∈ cartesianProduct joins, s.whereTruthy x d tuple = true →
    ∃ v, s.evaluateSelect x d (some tuple) = .ok v

/-- A join that is a bare path flattens the items of its function exactly once, and has no segments
that change a constant. -/
def JoinsFlattenOnce (x : Externals) (s : Select) (d : Json) : Prop :=
  ∀ join ∈ s.join, ∀ p, join.barePath = some p →
    p.FlattensOnce x (.borrowed d) s.noRecoverableError none ∧
      p.KeepsConstant x s.noRecoverableError

/-- A `where` clause that refers to `for_each` where the `select` does not gives the same without
the tuples. -/
def WhereKeepsTuples (x : Externals) (s : Select) (d : Json) (joins : List (List Cow)) : Prop :=
  s.whereReferencesForEach = true → s.referencesForEach = false →
    ∀ tuple ∈ cartesianProduct joins, s.whereHolds x d none = s.whereHolds x d (some tuple)

theorem whereTruthy_eq {tuple : List Cow} {b : Bool}
    (h : s.whereHolds x d (some tuple) = .ok b) : s.whereTruthy x d tuple = b := by
  rw [whereTruthy, h]

theorem Evaluates.joinItems_eq (he : s.Evaluates x d joins) (hf : s.JoinsFlattenOnce x d) :
    s.join.map (s.joinItems x d) = joins.map (List.map .ok) := by
  have hall := he.elements
  clear he
  rw [JoinsFlattenOnce] at hf
  generalize s.join = exprs at hall hf
  induction hall with
  | nil => rfl
  | cons h _ ih =>
    obtain ⟨v, hv, rfl⟩ := h
    obtain ⟨hfirst, hrest⟩ := List.forall_mem_cons.mp hf
    rw [List.map_cons, List.map_cons, ih hrest, joinItems, expression_items hv hfirst]

theorem Evaluates.tuples_eq (he : s.Evaluates x d joins) (hf : s.JoinsFlattenOnce x d) :
    s.tuples x d = (cartesianProduct joins).map (List.map .ok) := by
  rw [tuples, he.joinItems_eq hf, cartesianProduct_map]

theorem binding_ok (tuple : List Cow) :
    s.binding (tuple.map .ok) = .ok (if s.referencesForEach then some tuple else none) := by
  have hm : (tuple.map .ok).mapM id = (.ok tuple : Except ExecutingError _) := by
    induction tuple with
    | nil => rfl
    | cons v tuple ih => simp [List.mapM_cons, ih, bind, Except.bind, pure, Except.pure]
  rw [binding, hm]
  cases s.referencesForEach <;> rfl

theorem Notes.evaluateSelect_bound (hs : s.Notes) (tuple : List Cow) :
    s.evaluateSelect x d (if s.referencesForEach then some tuple else none) =
      s.evaluateSelect x d (some tuple) := by
  cases hr : s.referencesForEach
  · exact (hs.evaluateSelect_eq hr _).symm
  · rfl

/-- Without joins there is one empty tuple. -/
theorem asIter_noJoin (hs : s.Notes) (he : s.Evaluates x d joins) (hj : s.join = []) :
    s.asIter x d = .ok (s.relation x d joins) := by
  obtain rfl : joins = [] := by simpa [hj] using he.elements
  have hw := hs.whereNeedsJoin hj
  obtain ⟨b, hb⟩ := he.whereOnce hw
  have ht : s.whereTruthy x d [] = b := whereTruthy_eq (hs.whereHolds_eq hw _ ▸ hb)
  rw [asIter, if_pos hj, hb, relation, cartesianProduct]
  simp only [Except.map, List.filter_cons, ht, List.filter_nil]
  cases b
  · rfl
  · simp [hs.evaluateSelect_eq (hs.selectNeedsJoin hj) (some [])]

/-- A `where` clause without `for_each` is evaluated once. -/
theorem asIter_whereOnce (hs : s.Notes) (he : s.Evaluates x d joins) (hf : s.JoinsFlattenOnce x d)
    (hj : s.join ≠ []) (hw : s.whereReferencesForEach = false) :
    s.asIter x d = .ok (s.relation x d joins) := by
  obtain ⟨b, hb⟩ := he.whereOnce hw
  have ht (tuple : List Cow) : s.whereTruthy x d tuple = b :=
    whereTruthy_eq (hs.whereHolds_eq hw _ ▸ hb)
  rw [asIter, if_neg hj, hw, if_neg Bool.false_ne_true, hb, relation, he.tuples_eq hf]
  simp only [Except.map, funext ht, List.map_map, Function.comp_def, binding_ok, Except.bind,
    hs.evaluateSelect_bound]
  cases b <;> simp

/-- A `where` clause with `for_each` is evaluated for each tuple. -/
theorem asIter_whereEach (he : s.Evaluates x d joins) (hf : s.JoinsFlattenOnce x d)
    (hj : s.join ≠ []) (hw : s.whereReferencesForEach = true) :
    s.asIter x d = .ok ((cartesianProduct joins).filterMap fun tuple =>
      s.filteredItem x d (tuple.map .ok)) := by
  rw [asIter, if_neg hj, if_pos hw, he.tuples_eq hf, List.filterMap_map]
  rfl

/-- The tuple is bound where the `select` refers to it. -/
theorem filteredItem_bound (he : s.Evaluates x d joins) (hw : s.whereReferencesForEach = true)
    (hr : s.referencesForEach = true) :
    ((cartesianProduct joins).filterMap fun tuple => s.filteredItem x d (tuple.map .ok)) =
      s.relation x d joins := by
  simp only [relation, ← List.filterMap_eq_filter, List.map_filterMap]
  refine List.filterMap_congr fun tuple hmem => ?_
  obtain ⟨b, hb⟩ := he.whereEach hw tuple hmem
  simp only [filteredItem, binding_ok, hr, if_true, hb]
  cases b <;> simp [Option.guard, whereTruthy_eq hb]

/-- The `where` clause is evaluated without the tuple where only it refers to one. -/
theorem filteredItem_unbound (hs : s.Notes) (he : s.Evaluates x d joins)
    (hw : s.whereReferencesForEach = true) (hr : s.referencesForEach = false) :
    ((cartesianProduct joins).filterMap fun tuple => s.filteredItem x d (tuple.map .ok)) =
        s.relation x d joins ↔
      ∀ tuple ∈ cartesianProduct joins, s.whereHolds x d none = s.whereHolds x d (some tuple) := by
  have hselect (tuple : List Cow) := hs.evaluateSelect_eq (x := x) (d := d) hr (some tuple)
  have hagree {b : Bool} (hb : s.whereHolds x d none = .ok b) (tuple : List Cow)
      (hmem : tuple ∈ cartesianProduct joins) :
      s.whereHolds x d none = s.whereHolds x d (some tuple) ↔ s.whereTruthy x d tuple = b := by
    obtain ⟨b', hb'⟩ := he.whereEach hw tuple hmem
    rw [hb, hb', whereTruthy_eq hb', Except.ok.injEq, eq_comm]
  simp only [filteredItem, binding_ok, hr, Bool.false_eq_true, if_false, relation, hselect]
  cases hn : s.whereHolds x d none with
  | error e =>
    constructor
    · intro heq tuple hmem
      have herror : Except.error e ∈ ((cartesianProduct joins).filter (s.whereTruthy x d)).map
          fun _ => s.evaluateSelect x d none := by
        rw [← heq]
        exact List.mem_filterMap.mpr ⟨tuple, hmem, rfl⟩
      obtain ⟨passed, hpassed, hv⟩ := List.mem_map.mp herror
      obtain ⟨hmem', ht⟩ := List.mem_filter.mp hpassed
      obtain ⟨v, hv'⟩ := he.select passed hmem' ht
      rw [hselect, hv] at hv'
      simp at hv'
    · intro hall
      have hempty : cartesianProduct joins = [] := by
        refine List.eq_nil_iff_forall_not_mem.mpr fun tuple hmem => ?_
        obtain ⟨b, hb⟩ := he.whereEach hw tuple hmem
        exact absurd ((hall tuple hmem).trans hb) (by simp)
      simp [hempty]
  | ok b =>
    rw [hn] at hagree
    rw [forall₂_congr (hagree rfl)]
    cases b with
    | false => simp [List.filter_eq_nil_iff]
    | true => simpa using map_const_eq_filter_iff (b := s.evaluateSelect x d none)

/-- The matches of a path. -/
def pathPairs (text ident : String) (rest : List Pair) : List Pair :=
  [.mk .expression text [.mk .value text [.mk .jsonPath text (.mk .jsonIdent ident [] :: rest)]],
    .mk .eoi "" []]

/-- The grammar on the texts `c` and `for_each[0]`. -/
def twoPaths : Grammar where
  parse rule text :=
    if rule = .entryPoint ∧ text = "c" then some (pathPairs "c" "c" [])
    else if rule = .entryPoint ∧ text = "for_each[0]" then
      some (pathPairs "for_each[0]" "for_each" [.mk .indexedProperty "[0]" [.mk .integer "0" []]])
    else none
  number _ := none

/-- `for_each: [c]`, `where: for_each[0]`. -/
def overElements (select : Json) : EndpointProvidesPreProcessed where
  forEach := [⟨"c", ⟨1, 1⟩⟩]
  select := ⟨select, ⟨2, 1⟩⟩
  whereClause := some ⟨"for_each[0]", ⟨3, 1⟩⟩

def pathExpression (ident : String) (rest : List PathSegment) (marker : Marker) : Expression :=
  .mk none (.value (.path (.mk (.ident ident) rest marker))) none

/-- The `Select` that it is parsed to. -/
def overElementsParsed (referencesForEach : Bool) (select : ParsedSelect) : Select where
  join := [.expression (pathExpression "c" [] ⟨1, 1⟩)]
  referencesForEach := referencesForEach
  whereReferencesForEach := true
  select := select
  whereClause := some (pathExpression "for_each" [.number 0] ⟨3, 1⟩)
  noRecoverableError := false

theorem parseText_c {marker : Marker} {providers : RequiredProviders} :
    parseText .plain twoPaths [] false marker 0 "c" providers =
      .ok (.mk none (.value (.path (.mk (.ident "c") [] marker))) none,
        providers.extend (.insert .new "c" marker)) := by
  rw [parseText]
  simp [twoPaths, pathPairs, parseExpression, Pieces.expression, parseExpressionPieces,
    parseExpressionPiece, parseValue, parseValuePair, parsePathPairs, parsePathPair,
    PathPieces.path, providerName, Object.get, Except.bind, Except.map, notOf, Expression.setNot,
    mergeNot, expressionHelper_single]

theorem parseText_forEach {marker : Marker} {providers : RequiredProviders} :
    parseText .plain twoPaths [] false marker 0 "for_each[0]" providers =
      .ok (.mk none (.value (.path (.mk (.ident "for_each") [.number 0] marker))) none,
        providers.extend (.insert .new "for_each" marker)) := by
  have h0 : usizeOfText "0" = some 0 := by decide
  rw [parseText]
  simp [twoPaths, pathPairs, parseExpression, Pieces.expression, parseExpressionPieces,
    parseExpressionPiece, parseValue, parseValuePair, parsePathPairs, parsePathPair,
    parseIndexedProperty, PathPieces.path, providerName, Object.get, Except.bind, Except.map, notOf,
    Expression.setNot, mergeNot, h0, expressionHelper_single]

theorem exists_of_map {r : Except Failure (Select × RequiredProviders)} {bits : BitVec 16}
    (h : (r.map fun r => (r.1, r.2.special)) = .ok (s, bits)) :
    ∃ q, r = .ok (s, q) ∧ q.special = bits := by
  cases r with
  | error f => simp [Except.map] at h
  | ok r =>
    obtain ⟨hs, hbits⟩ := Prod.mk.inj (Except.ok.inj h)
    exact ⟨r.2, by rw [← hs], hbits⟩

/-- What the three texts refer to. -/
theorem overElements_refers :
    (RequiredProviders.extend .new (.insert .new "c" ⟨1, 1⟩)).refersToForEach = false ∧
      (RequiredProviders.extend RequiredProviders.new.setIsWhere
        (.insert .new "for_each" ⟨3, 1⟩)).refersToForEach = true ∧
      (RequiredProviders.extend .new (.insert .new "for_each" ⟨2, 1⟩)).refersToForEach = true :=
  ⟨rfl, rfl, rfl⟩

theorem new_overElements_true : ∃ q,
    Select.new .plain twoPaths [] false 0 (overElements (.bool true)) .new =
      .ok (overElementsParsed false (.bool true), q) ∧ q.special = Special.forEach := by
  obtain ⟨hc, hw, -⟩ := overElements_refers
  have hs : RequiredProviders.new.refersToForEach = false := rfl
  refine exists_of_map ?_
  simp [Select.new, newJoins, newJoin, newWhere, overElements, parseText_c, parseText_forEach,
    Except.bind, Except.map, hc, hw, hs, parseSelect, overElementsParsed, pathExpression,
    ValueOrExpression.fromExpression, Expression.simplifyToJson]
  rfl

theorem new_overElements_forEach : ∃ q,
    Select.new .plain twoPaths [] false 0 (overElements (.string "for_each[0]")) .new =
      .ok (overElementsParsed true
        (.expression (.expression (pathExpression "for_each" [.number 0] ⟨2, 1⟩))), q) ∧
        q.special = Special.forEach := by
  obtain ⟨hc, hw, hs⟩ := overElements_refers
  refine exists_of_map ?_
  simp [Select.new, newJoins, newJoin, newWhere, overElements, parseText_c, parseText_forEach,
    Except.bind, Except.map, hc, hw, hs, parseSelect, overElementsParsed, pathExpression,
    ValueOrExpression.new, ValueOrExpression.fromExpression, Expression.simplifyToJson]
  rfl

/-- Every `Select` yields its relation. -/
def SelectIsRelational : Prop :=
  ∀ (x : Externals) (g : Grammar) (vars : Object) (noErr : Bool) (depth : Nat)
    (provides : EndpointProvidesPreProcessed) (providers q : RequiredProviders) (s : Select)
    (d : Json) (joins : List (List Cow)),
    Select.new x g vars noErr depth provides providers = .ok (s, q) → s.Evaluates x d joins →
      s.asIter x d = .ok (s.relation x d joins)

/-- The data `{c: [..]}`. -/
def dataOf (c : List Nat) : Json := .object [("c", .array (c.map .ofNat))]

theorem evaluates_true :
    (overElementsParsed false (.bool true)).Evaluates .plain (dataOf [1])
      [[.borrowed (.ofNat 1)]] where
  elements := .cons ⟨_, rfl, rfl⟩ .nil
  whereOnce h := by simp [overElementsParsed] at h
  whereEach := by
    intro _ tuple hmem
    obtain rfl : tuple = [.borrowed (.ofNat 1)] := by simpa [cartesianProduct] using hmem
    exact ⟨true, rfl⟩
  select tuple _ _ := ⟨.owned (.bool true), by
    simp [evaluateSelect, overElementsParsed, ParsedSelect.evaluate]⟩

theorem evaluates_forEach :
    (overElementsParsed true (.expression (.expression
      (pathExpression "for_each" [.number 0] ⟨2, 1⟩)))).Evaluates .plain (dataOf [0, 1])
        [[.borrowed (.ofNat 0), .borrowed (.ofNat 1)]] where
  elements := .cons ⟨_, rfl, rfl⟩ .nil
  whereOnce h := by simp [overElementsParsed] at h
  whereEach := by
    intro _ tuple hmem
    obtain rfl | rfl : tuple = [.borrowed (.ofNat 0)] ∨ tuple = [.borrowed (.ofNat 1)] := by
      simpa [cartesianProduct] using hmem
    · exact ⟨false, rfl⟩
    · exact ⟨true, rfl⟩
  select := by
    intro tuple hmem _
    obtain rfl | rfl : tuple = [.borrowed (.ofNat 0)] ∨ tuple = [.borrowed (.ofNat 1)] := by
      simpa [cartesianProduct] using hmem
    · exact ⟨.borrowed (.ofNat 0), rfl⟩
    · exact ⟨.borrowed (.ofNat 1), rfl⟩

end Select

end Pewpew.SelectParser
