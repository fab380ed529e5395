import Pewpew.Expression.Iterate
import Mathlib.Data.List.Infix

/-! Indexing into a value that is owned and into one that is borrowed. -/
namespace Pewpew.SelectParser

/-- `index_json`: one step, by a segment or by a name. -/
def indexJson (x : Externals) (json : Cow) (index : PathSegment ⊕ String) (noErr : Bool)
    (forEach : Option (List Cow)) (marker : Marker) : Except ExecutingError Cow :=
  let strOrNumber := match index with
    | .inl jps => jps.evaluate x json.borrow forEach
    | .inr s => .ok (.key s)
  strOrNumber.bind fun index => indexStep json index noErr marker

/-- The part of a value that an index names: a number names an entry of an object, too. -/
def Json.at : Json → Index → Option Json
  | .object m, .key s => Object.get m s
  | .object m, .position n => Object.get m (toString n)
  | .array a, .position n => a[n]?
  | .array a, .key s => if s = "length" then some (.ofNat a.length) else none
  | _, _ => none

/-- A number that indexes into an object, where that is an error or finds something. -/
def Clash (noErr : Bool) (v : Json) (index : Index) : Prop :=
  ∃ m n, v = .object m ∧ index = .position n ∧
    (noErr = false ∨ ∃ e, Object.get m (toString n) = some e ∧ e ≠ .null)

variable {x : Externals} {v w : Json} {index : Index} {noErr : Bool}
  {forEach : Option (List Cow)} {marker : Marker} {segments : List PathSegment}

/-! ### One step -/

/-- A value without parts. -/
def Json.IsScalar : Json → Prop
  | .array _ | .object _ => False
  | _ => True

theorem Json.IsScalar.at_eq (hv : v.IsScalar) : v.at index = none := by
  cases v with
  | array a | object m => exact hv.elim
  | _ => cases index <;> rfl

theorem array_at_length (a : List Json) :
    (Json.array a).at (.key "length") = some (.ofNat a.length) := rfl

theorem array_at_key {a : List Json} {s : String} (hs : s ≠ "length") :
    (Json.array a).at (.key s) = none := if_neg hs

/-- What a look-up in a borrowed value leads to. -/
theorem borrowed_getD (o : Option Json) :
    (o.map Cow.borrowed).getD (.owned .null) = .borrowed (o.getD .null) ∨
      (o.map Cow.borrowed).getD (.owned .null) = .owned (o.getD .null) ∧
        (o.getD .null).IsScalar := by
  cases o with
  | some e => exact .inl rfl
  | none => exact .inr ⟨rfl, trivial⟩

theorem owned_getD (o : Option Json) :
    (o.map Cow.owned).getD (.owned .null) = .owned (o.getD .null) := by
  cases o <;> rfl

/-- A borrowed value gives a part of its own, or a value without parts. -/
theorem indexStep_borrowed {c : Cow} (h : indexStep (.borrowed v) index noErr marker = .ok c) :
    c = .borrowed ((v.at index).getD .null) ∨
      c = .owned ((v.at index).getD .null) ∧ ((v.at index).getD .null).IsScalar := by
  cases index with
  | key s =>
    cases v with
    | object m =>
      obtain rfl := Except.ok.inj h
      exact borrowed_getD _
    | array a =>
      right
      by_cases hs : s = "length"
      · subst hs
        obtain rfl := Except.ok.inj h
        rw [array_at_length]
        exact ⟨rfl, trivial⟩
      · rw [array_at_key hs]
        cases noErr with
        | false => simp [indexStep, hs, Except.map] at h
        | true =>
          simp only [indexStep, hs, if_false, if_true, Except.map, Cow.val_borrowed] at h
          obtain rfl := Except.ok.inj h
          exact ⟨rfl, trivial⟩
    | _ =>
      cases noErr with
      | false => cases h
      | true =>
        obtain rfl := Except.ok.inj h
        exact .inr ⟨rfl, trivial⟩
  | position n =>
    cases v with
    | object m | array a =>
      obtain rfl := Except.ok.inj h
      exact borrowed_getD _
    | _ =>
      cases noErr with
      | false => cases h
      | true =>
        obtain rfl := Except.ok.inj h
        exact .inr ⟨rfl, trivial⟩

/-- Without a clash, both fail alike or the owned value gives the same, owned. -/
theorem indexStep_owned_cases (hclash : ¬ Clash noErr v index) :
    (v.at index = none ∧ ∃ e, indexStep (.owned v) index noErr marker = .error e ∧
      indexStep (.borrowed v) index noErr marker = .error e) ∨
    indexStep (.owned v) index noErr marker = .ok (.owned ((v.at index).getD .null)) ∧
      ∃ c, indexStep (.borrowed v) index noErr marker = .ok c := by
  cases index with
  | key s =>
    cases v with
    | object m => exact .inr ⟨congrArg Except.ok (owned_getD _), _, rfl⟩
    | array a =>
      by_cases hs : s = "length"
      · subst hs
        exact .inr ⟨rfl, _, rfl⟩
      · rw [array_at_key hs]
        cases noErr with
        | false =>
          refine .inl ⟨rfl, .indexingIntoJson s (.array a) marker, ?_, ?_⟩
          · simp [indexStep, hs, Except.map]
          · simp [indexStep, hs, Except.map]
        | true =>
          refine .inr ⟨?_, .owned .null, ?_⟩
          · simp [indexStep, hs, Except.map]
          · simp [indexStep, hs, Except.map]
    | _ =>
      cases noErr with
      | false => exact .inl ⟨rfl, _, rfl, rfl⟩
      | true => exact .inr ⟨rfl, _, rfl⟩
  | position n =>
    cases v with
    | object m =>
      right
      cases noErr with
      | false => exact absurd ⟨m, n, rfl, rfl, .inl rfl⟩ hclash
      | true =>
        refine ⟨?_, _, rfl⟩
        have hnull : (Object.get m (toString n)).getD .null = .null := by
          by_contra hne
          cases hget : Object.get m (toString n) with
          | none => exact hne (by rw [hget]; rfl)
          | some e =>
            refine hclash ⟨m, n, rfl, rfl, .inr ⟨e, hget, fun he => hne ?_⟩⟩
            rw [hget, he]
            rfl
        change _ = Except.ok (Cow.owned ((Object.get m (toString n)).getD .null))
        rw [hnull]
        rfl
    | array a => exact .inr ⟨congrArg Except.ok (owned_getD _), _, rfl⟩
    | _ =>
      cases noErr with
      | false => exact .inl ⟨rfl, _, rfl, rfl⟩
      | true => exact .inr ⟨rfl, _, rfl⟩

theorem indexStep_owned_self : indexStep (.owned v) index noErr marker =
    (indexStep (.owned v) index noErr marker).map fun w => .owned w.val := by
  by_cases hclash : Clash noErr v index
  · obtain ⟨m, n, rfl, rfl, -⟩ := hclash
    cases noErr <;> rfl
  · rcases indexStep_owned_cases hclash with ⟨-, e, ho, -⟩ | ⟨ho, -⟩
    · rw [ho]
      rfl
    · rw [ho]
      rfl

/-- Without a clash, the owned value gives an owned copy of what the borrowed one gives. -/
theorem indexStep_owned_map (hclash : ¬ Clash noErr v index) :
    indexStep (.owned v) index noErr marker =
      (indexStep (.borrowed v) index noErr marker).map fun w => .owned w.val := by
  rcases indexStep_owned_cases hclash with ⟨-, e, ho, hb⟩ | ⟨ho, c, hb⟩
  · rw [ho, hb]
    rfl
  · rw [ho, hb]
    rcases indexStep_borrowed hb with rfl | ⟨rfl, -⟩
    · rfl
    · rfl

/-- A clash is seen at once. -/
theorem indexStep_clash (hclash : Clash noErr v index) :
    (indexStep (.owned v) index noErr marker).map Cow.val ≠
      (indexStep (.borrowed v) index noErr marker).map Cow.val := by
  obtain ⟨m, n, rfl, rfl, hno | ⟨e, he, hne⟩⟩ := hclash
  · subst hno
    intro h
    cases h
  · cases noErr with
    | false =>
      intro h
      cases h
    | true =>
      intro h
      have hval : Json.null =
          (((Object.get m (toString n)).map Cow.borrowed).getD (.owned .null)).val :=
        Except.ok.inj h
      rw [he] at hval
      exact hne hval.symm

/-! ### Many steps -/

/-- No number indexes into an object on the way, unless that finds nothing and is no error. -/
def Clears (x : Externals) (noErr : Bool) (forEach : Option (List Cow)) :
    List PathSegment → Json → Prop
  | [], _ => True
  | segment :: rest, v => ∀ index, segment.evaluate x (.borrowed v) forEach = .ok index →
    ¬ Clash noErr v index ∧ Clears x noErr forEach rest ((v.at index).getD .null)

/-- Indexing does not depend on whether the value is owned, and steps one by one. -/
structure OwnershipFree (x : Externals) (v : Json) (segments : List PathSegment) (noErr : Bool)
    (forEach : Option (List Cow)) (marker : Marker) : Prop where
  one : ∀ segment, segments.head? = some segment →
    (indexJson x (.owned v) (.inl segment) noErr forEach marker).map Cow.val =
      (indexJson x (.borrowed v) (.inl segment) noErr forEach marker).map Cow.val
  named : ∀ s, (indexJson x (.owned v) (.inr s) noErr forEach marker).map Cow.val =
    (indexJson x (.borrowed v) (.inr s) noErr forEach marker).map Cow.val
  many : ∀ initial, initial <+: segments →
    (indexJson2 x initial (.owned v) noErr forEach marker).map Cow.val =
      (indexJson2 x initial (.borrowed v) noErr forEach marker).map Cow.val
  steps : ∀ json, indexJson2 x segments json noErr forEach marker =
    segments.foldlM (fun json segment => indexJson x json (.inl segment) noErr forEach marker) json

theorem clears_of_isScalar (hv : v.IsScalar) : Clears x noErr forEach segments v := by
  induction segments generalizing v with
  | nil => trivial
  | cons segment rest ih =>
    intro index _
    constructor
    · rintro ⟨m, n, rfl, -, -⟩
      exact hv
    · rw [hv.at_eq]
      exact ih trivial

theorem Clears.initial {initial : List PathSegment} (hpre : initial <+: segments)
    (h : Clears x noErr forEach segments v) : Clears x noErr forEach initial v := by
  induction initial generalizing segments v with
  | nil => trivial
  | cons segment initial ih =>
    obtain ⟨rest, rfl⟩ := hpre
    intro index hindex
    obtain ⟨hclash, hrest⟩ := h index hindex
    exact ⟨hclash, ih (List.prefix_append initial rest) hrest⟩

theorem indexJson2_cons {segment : PathSegment} {rest : List PathSegment} {c : Cow}
    (hc : c.val = v) (hi : segment.evaluate x (.borrowed v) forEach = .ok index) :
    indexJson2 x (segment :: rest) c noErr forEach marker =
      (indexStep c index noErr marker).bind fun w => indexJson2 x rest w noErr forEach marker := by
  rw [indexJson2, Cow.borrow, hc, hi]
  rfl

theorem indexJson2_single {segment : PathSegment} {c : Cow}
    (hc : c.val = v) (hi : segment.evaluate x (.borrowed v) forEach = .ok index) :
    indexJson2 x [segment] c noErr forEach marker = indexStep c index noErr marker := by
  rw [indexJson2_cons hc hi]
  cases indexStep c index noErr marker with
  | error e => rfl
  | ok w =>
    change indexJson2 x [] w noErr forEach marker = _
    rw [indexJson2]

theorem indexJson2_same (h : Clears x noErr forEach segments v) :
    (indexJson2 x segments (.owned v) noErr forEach marker).map Cow.val =
      (indexJson2 x segments (.borrowed v) noErr forEach marker).map Cow.val := by
  induction segments generalizing v with
  | nil =>
    rw [indexJson2, indexJson2]
    rfl
  | cons segment rest ih =>
    cases hi : segment.evaluate x (.borrowed v) forEach with
    | error e =>
      rw [indexJson2, indexJson2, Cow.borrow, Cow.borrow, Cow.val_owned, Cow.val_borrowed, hi]
      rfl
    | ok index =>
      obtain ⟨hclash, hrest⟩ := h index hi
      rw [indexJson2_cons rfl hi, indexJson2_cons rfl hi]
      rcases indexStep_owned_cases hclash with ⟨-, e, ho, hb⟩ | ⟨ho, c, hb⟩
      · rw [ho, hb]
      · rw [ho, hb]
        rcases indexStep_borrowed hb with rfl | ⟨rfl, -⟩
        · exact ih hrest
        · rfl

theorem indexJson2_clash (marker : Marker) (h : ¬ Clears x noErr forEach segments v) :
    ∃ initial, initial <+: segments ∧
      (indexJson2 x initial (.owned v) noErr forEach marker).map Cow.val ≠
        (indexJson2 x initial (.borrowed v) noErr forEach marker).map Cow.val := by
  induction segments generalizing v with
  | nil => exact absurd trivial h
  | cons segment rest ih =>
    simp only [Clears, not_forall, not_and] at h
    obtain ⟨index, hi, hrest⟩ := h
    by_cases hclash : Clash noErr v index
    · refine ⟨[segment], List.prefix_append [segment] rest, ?_⟩
      rw [indexJson2_single rfl hi, indexJson2_single rfl hi]
      exact indexStep_clash hclash
    · rcases indexStep_owned_cases hclash with ⟨hnone, -⟩ | ⟨ho, c, hb⟩
      · -- where indexing fails, nothing would be indexed any more
        have hnull : ((v.at index).getD .null).IsScalar := by
          rw [hnone]
          trivial
        exact absurd (clears_of_isScalar hnull) (hrest hclash)
      · obtain ⟨initial, hpre, hne⟩ := ih (hrest hclash)
        rcases indexStep_borrowed hb with rfl | ⟨-, hscalar⟩
        · refine ⟨segment :: initial, List.prefix_cons_inj segment |>.mpr hpre, ?_⟩
          rw [indexJson2_cons rfl hi, indexJson2_cons rfl hi, ho, hb]
          exact hne
        · exact absurd (clears_of_isScalar hscalar) (hrest hclash)

theorem indexJson2_steps (json : Cow) : indexJson2 x segments json noErr forEach marker =
    segments.foldlM
      (fun json segment => indexJson x json (.inl segment) noErr forEach marker) json := by
  induction segments generalizing json with
  | nil =>
    rw [indexJson2]
    rfl
  | cons segment rest ih =>
    rw [indexJson2, List.foldlM_cons, indexJson]
    cases segment.evaluate x json.borrow forEach with
    | error e => rfl
    | ok index =>
      change (indexStep json index noErr marker).bind _ = (indexStep json index noErr marker).bind _
      cases indexStep json index noErr marker with
      | error e => rfl
      | ok c => exact ih c

theorem indexJson_eq_indexJson2 (segment : PathSegment) (json : Cow) :
    indexJson x json (.inl segment) noErr forEach marker =
      indexJson2 x [segment] json noErr forEach marker := by
  rw [indexJson2_steps, List.foldlM_cons]
  cases indexJson x json (.inl segment) noErr forEach marker <;> rfl

/-- A name, other than a number, is looked up in the same way in both. -/
theorem indexStep_named (s : String) : (indexStep (.owned v) (.key s) noErr marker).map Cow.val =
    (indexStep (.borrowed v) (.key s) noErr marker).map Cow.val := by
  have hclash : ¬ Clash noErr v (.key s) := by
    rintro ⟨m, n, -, hindex, -⟩
    cases hindex
  rw [indexStep_owned_map hclash]
  cases indexStep (.borrowed v) (.key s) noErr marker with
  | error e => rfl
  | ok c => rfl

/-- Ownership does not matter exactly where no number clashes with an object on the way. -/
theorem ownershipFree_iff :
    OwnershipFree x v segments noErr forEach marker ↔ Clears x noErr forEach segments v := by
  constructor
  · intro h
    by_contra hclears
    obtain ⟨initial, hpre, hne⟩ := indexJson2_clash marker hclears
    exact hne (h.many initial hpre)
  · intro h
    have hmany : ∀ initial, initial <+: segments →
        (indexJson2 x initial (.owned v) noErr forEach marker).map Cow.val =
          (indexJson2 x initial (.borrowed v) noErr forEach marker).map Cow.val :=
      fun initial hpre => indexJson2_same (h.initial hpre)
    refine ⟨fun segment hhead => ?_, indexStep_named, hmany, indexJson2_steps⟩
    obtain ⟨rest, rfl⟩ := List.head?_eq_some_iff.mp hhead
    rw [indexJson_eq_indexJson2, indexJson_eq_indexJson2]
    exact hmany [segment] (List.prefix_append [segment] rest)

/-- An owned object is not indexed by a number, and a borrowed one is. -/
theorem not_ownershipFree_number :
    ¬ OwnershipFree .plain (.object [("0", .ofNat 5)]) [.number 0] false none ⟨1, 1⟩ := by
  intro h
  have hsame := h.many [.number 0] (List.prefix_refl _)
  rw [indexJson2_single rfl rfl, indexJson2_single rfl rfl] at hsame
  cases hsame

end Pewpew.SelectParser
