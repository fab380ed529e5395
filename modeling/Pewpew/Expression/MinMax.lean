import Pewpew.Expression.Arithmetic
import Pewpew.Expression.FunctionCall
import Pewpew.Expression.IntoStream

/-! What `min` and `max` yield, in all the ways in which they are evaluated. -/
namespace Pewpew.SelectParser

open Polling F64

/-- The value of a number as a float; other values have none. -/
def Json.numeric (v : Json) : Option ℚ :=
  match v.f64Value with
  | .fin neg q => some (signed neg q)
  | _ => none

def Json.isNumber : Json → Bool
  | .number _ => true
  | _ => false

/-- The numbers among the values are integers of 64 bits or finite floats. -/
def ValidNumbers (values : List Json) : Prop := ∀ n, .number n ∈ values → n.Valid

variable {min : Bool} {values values' : List Json} {v w : Json} {q r : ℚ} {n : JsonNumber}
  {o : Option (F64 × Json)} {f : F64}

/-- No number lies beyond: below the minimum, or above the maximum. -/
def MinMax.Bounds (min : Bool) (q r : ℚ) : Prop := if min then q ≤ r else r ≤ q

/-- The least or greatest number among the values, or `null` where there is none. -/
structure MinMax.IsResult (min : Bool) (values : List Json) (v : Json) : Prop where
  null : v = .null ↔ ∀ w ∈ values, w.isNumber = false
  number : v ≠ .null → v ∈ values ∧ v.isNumber = true
  bounds : ∀ q, v.numeric = some q → ∀ w ∈ values, ∀ r, w.numeric = some r → Bounds min q r

/-- A call that evaluates to the given value, as a constant, by value and as a stream. -/
structure MinMax.Yields (min : Bool) (values : List Json) (v : Json) : Prop where
  folded : MinMax.new min (values.map fun w => .value (.json w)) = .inr v
  evaluate : ∀ x args d noErr forEach, evaluateArgs x args d noErr forEach = .ok values →
    (FunctionCall.minMax args min).evaluate x d noErr forEach = .ok (.owned v)
  intoStream : ∀ {Ar : Type} (z : Zip) x draws (providers : String →
    Option (PollStream (Item Json Ar))) args noErr streams,
    argsIntoStream z x draws providers args noErr = some streams →
    ∃ u, (FunctionCall.minMax args min).intoStream z x draws providers noErr = some u ∧
      ∀ row t, row.map Prod.fst = values → Next (ZipAll.zipAll streams) (some (.ok row)) t →
        ∃ u', Next u (some (.ok (v, row.flatMap Prod.snd))) u'

/-! ### Numbers -/

theorem isFinite_asF64 (h : n.Valid) : ∃ neg q, n.asF64 = .fin neg q := by
  cases n with
  | int i =>
    obtain ⟨hlow, hhigh⟩ := h
    have habs : |i| ≤ 2 ^ 64 := abs_le.mpr ⟨by omega, by omega⟩
    have hle : |(i : ℚ)| ≤ 2 ^ (64 : Int) := by exact_mod_cast habs
    obtain ⟨r, hr, -⟩ := exists_round (abs_nonneg (i : ℚ)) hle (by decide) (by decide)
      ((i : ℚ) < 0)
    exact ⟨_, r, hr⟩
  | float neg q => exact ⟨neg, q, rfl⟩

/-- A value is no number, or a finite one. -/
theorem f64Value_cases (h : ∀ n, v = .number n → n.Valid) :
    (v.f64Value = .nan ∧ v.numeric = none ∧ v.isNumber = false) ∨
      ∃ neg q, v.f64Value = .fin neg q ∧ v.numeric = some (signed neg q) ∧ v.isNumber = true := by
  cases v with
  | number n =>
    obtain ⟨neg, q, hf⟩ := isFinite_asF64 (h n rfl)
    have hf' : (Json.number n).f64Value = .fin neg q := hf
    exact .inr ⟨neg, q, hf', by rw [Json.numeric, hf'], rfl⟩
  | _ => exact .inl ⟨rfl, rfl, rfl⟩

theorem ValidNumbers.of_mem (h : ValidNumbers values) (hv : v ∈ values) :
    ∀ n, v = .number n → n.Valid := by
  rintro n rfl
  exact h n hv

theorem ValidNumbers.cons (h : ValidNumbers (v :: values)) : ValidNumbers values :=
  fun n hn => h n (List.mem_cons_of_mem v hn)

/-! ### One round -/

namespace MinMax

variable {s t : Bool} {a b : ℚ} {seen : List Json}

theorem Bounds.trans {q r u : ℚ} (h : Bounds min q r) (h' : Bounds min r u) : Bounds min q u := by
  cases min
  · exact le_trans h' h
  · exact le_trans h h'

theorem Bounds.refl (q : ℚ) : Bounds min q q := by
  cases min
  · exact le_refl q
  · exact le_refl q

/-- Of two numbers, a round keeps the first one or the second one. -/
theorem evaluateStep_fin (hw : w.f64Value = .fin t b) :
    (evaluateStep min (some (.fin s a, v)) w = some (.fin s a, v) ∧
        Bounds min (signed s a) (signed t b)) ∨
      (evaluateStep min (some (.fin s a, v)) w = some (.fin t b, w) ∧
        Bounds min (signed t b) (signed s a)) := by
  have hcmp : (F64.fin s a).partialCmp (.fin t b) = some (compare (signed s a) (signed t b)) := rfl
  unfold evaluateStep
  simp only [hw, hcmp]
  rcases lt_trichotomy (signed s a) (signed t b) with hlt | heq | hgt
  · rw [compare_lt_iff_lt.mpr hlt]
    cases min
    · exact .inr ⟨rfl, hlt.le⟩
    · exact .inl ⟨rfl, hlt.le⟩
  · rw [compare_eq_iff_eq.mpr heq]
    rw [heq]
    cases min
    · exact .inr ⟨rfl, .refl _⟩
    · exact .inr ⟨rfl, .refl _⟩
  · rw [compare_gt_iff_gt.mpr hgt]
    cases min
    · exact .inl ⟨rfl, hgt.le⟩
    · exact .inr ⟨rfl, hgt.le⟩

/-- What has been found among the values seen: none of them is a number, or none lies beyond. -/
def Best (min : Bool) (seen : List Json) : Option (F64 × Json) → Prop
  | none => ∀ w ∈ seen, w.numeric = none
  | some (f, v) => v ∈ seen ∧ v.f64Value = f ∧ ∃ neg q, f = .fin neg q ∧
      ∀ w ∈ seen, ∀ r, w.numeric = some r → Bounds min (signed neg q) r

/-- A bound of the values seen that bounds one more value, too. -/
theorem bounds_append {q : ℚ} (h : ∀ u ∈ seen, ∀ r, u.numeric = some r → Bounds min q r)
    (hw : ∀ r, w.numeric = some r → Bounds min q r) :
    ∀ u ∈ seen ++ [w], ∀ r, u.numeric = some r → Bounds min q r := by
  intro u hu
  rcases List.mem_append.mp hu with hu | hu
  · exact h u hu
  · rwa [List.mem_singleton.mp hu]

theorem best_step (h : Best min seen o) (hw : ∀ n, w = .number n → n.Valid) :
    Best min (seen ++ [w]) (evaluateStep min o w) := by
  rcases f64Value_cases hw with ⟨hnan, hnone, -⟩ | ⟨t, b, hfin, hsome, -⟩
  · rcases o with _ | ⟨f, v⟩
    · have hstep : evaluateStep min none w = none := by
        rw [evaluateStep, hnan]
        rfl
      rw [hstep]
      intro u hu
      rcases List.mem_append.mp hu with hu | hu
      · exact h u hu
      · rw [List.mem_singleton.mp hu, hnone]
    · obtain ⟨hv, hf, neg, q, rfl, hbound⟩ := h
      have hstep : evaluateStep min (some (.fin neg q, v)) w = some (.fin neg q, v) := by
        unfold evaluateStep
        simp only [hnan]
        rfl
      rw [hstep]
      refine ⟨List.mem_append_left _ hv, hf, neg, q, rfl, bounds_append hbound fun r hr => ?_⟩
      rw [hnone] at hr
      cases hr
  · have hlast : w ∈ seen ++ [w] := List.mem_append_right _ (List.mem_singleton_self w)
    have hbounds {q : ℚ} (hle : Bounds min q (signed t b)) :
        ∀ r, w.numeric = some r → Bounds min q r := by
      intro r hr
      rw [hsome] at hr
      rwa [← Option.some.inj hr]
    rcases o with _ | ⟨f, v⟩
    · have hstep : evaluateStep min none w = some (.fin t b, w) := by
        rw [evaluateStep, hfin]
        rfl
      rw [hstep]
      refine ⟨hlast, hfin, t, b, rfl, bounds_append (fun u hu r hr => ?_) (hbounds (.refl _))⟩
      rw [h u hu] at hr
      cases hr
    · obtain ⟨hv, hf, neg, q, rfl, hbound⟩ := h
      have hcases : (evaluateStep min (some (.fin neg q, v)) w = some (.fin neg q, v) ∧ _) ∨ _ :=
        evaluateStep_fin hfin
      rcases hcases with ⟨hstep, hle⟩ | ⟨hstep, hle⟩
      · rw [hstep]
        exact ⟨List.mem_append_left _ hv, hf, neg, q, rfl, bounds_append hbound (hbounds hle)⟩
      · rw [hstep]
        exact ⟨hlast, hfin, t, b, rfl,
          bounds_append (fun u hu r hr => hle.trans (hbound u hu r hr)) (hbounds (.refl _))⟩

theorem best_foldl (h : Best min seen o) (hvalid : ValidNumbers values) :
    Best min (seen ++ values) (values.foldl (evaluateStep min) o) := by
  induction values generalizing seen o with
  | nil => simpa using h
  | cons w values ih =>
    have hstep := best_step h (hvalid.of_mem (List.mem_cons_self ..))
    have hrest := ih hstep hvalid.cons
    rw [List.append_assoc] at hrest
    exact hrest

/-! ### The results -/

theorem isNumber_of_numeric (h : v.numeric = some q) : v.isNumber = true ∧ v ≠ .null := by
  cases v <;> first | cases h | exact ⟨rfl, by simp⟩

theorem isResult_evaluateValues (hvalid : ValidNumbers values) :
    IsResult min values (evaluateValues min values) := by
  have hnone : Best min [] none := by simp [Best]
  have hbest := best_foldl hnone hvalid
  rw [List.nil_append] at hbest
  rw [evaluateValues]
  rcases hfold : values.foldl (evaluateStep min) none with _ | ⟨f, v⟩
  · rw [hfold] at hbest
    have hno : ∀ w ∈ values, w.isNumber = false := by
      intro w hw
      rcases f64Value_cases (hvalid.of_mem hw) with ⟨-, -, hno⟩ | ⟨t, b, -, hsome, -⟩
      · exact hno
      · cases (hbest w hw).symm.trans hsome
    exact ⟨iff_of_true rfl hno, fun h => absurd rfl h, fun q hq => by cases hq⟩
  · rw [hfold] at hbest
    obtain ⟨hv, hf, neg, q, rfl, hbound⟩ := hbest
    have hnumeric : v.numeric = some (signed neg q) := by rw [Json.numeric, hf]
    obtain ⟨hnum, hne⟩ := isNumber_of_numeric hnumeric
    refine ⟨iff_of_false hne fun hno => ?_, fun _ => ⟨hv, hnum⟩, fun r hr w hw u hu => ?_⟩
    · cases hnum.symm.trans (hno v hv)
    · obtain rfl := Option.some.inj (hnumeric.symm.trans hr)
      exact hbound w hw u hu

/-- The iterator of values goes along with the loop over the arguments. -/
theorem iterStep_eq (h : Best min seen o) (hw : ∀ n, w = .number n → n.Valid) :
    iterStep min ((o.map Prod.snd).getD .null) w =
      ((evaluateStep min o w).map Prod.snd).getD .null := by
  rcases o with _ | ⟨f, v⟩
  · rcases f64Value_cases hw with ⟨hnan, -, -⟩ | ⟨t, b, hfin, -, -⟩
    · unfold iterStep evaluateStep
      simp only [hnan]
      rfl
    · unfold iterStep evaluateStep
      simp only [hfin]
      rfl
  · obtain ⟨-, hf, neg, q, rfl, -⟩ := h
    rcases f64Value_cases hw with ⟨hnan, -, -⟩ | ⟨t, b, hfin, -, -⟩
    · unfold iterStep evaluateStep
      simp only [Option.map_some, Option.getD_some, hf, hnan]
      rfl
    · have hcmp : (F64.fin neg q).partialCmp (.fin t b) =
          some (compare (signed neg q) (signed t b)) := rfl
      unfold iterStep evaluateStep
      simp only [Option.map_some, Option.getD_some, hf, hfin, hcmp]
      cases compare (signed neg q) (signed t b) <;> cases min <;> rfl

theorem evalIter_eq (hvalid : ValidNumbers values) :
    evalIter min values = evaluateValues min values := by
  have hfold (seen : List Json) (o : Option (F64 × Json)) (h : Best min seen o)
      (hvalid : ValidNumbers values) :
      values.foldl (iterStep min) ((o.map Prod.snd).getD .null) =
        ((values.foldl (evaluateStep min) o).map Prod.snd).getD .null := by
    induction values generalizing seen o with
    | nil => rfl
    | cons w values ih =>
      have hw := hvalid.of_mem (List.mem_cons_self ..)
      rw [List.foldl_cons, iterStep_eq h hw]
      exact ih hvalid.cons _ _ (best_step h hw) hvalid.cons
  have hnone : Best min [] none := by simp [Best]
  exact hfold [] none hnone hvalid

theorem constants_eq (values : List Json) :
    (values.map fun w => ValueOrExpression.value (.json w)).filterMap
      ValueOrExpression.constant? = values := by
  rw [List.filterMap_map]
  exact List.filterMap_some

theorem yields_evaluateValues (hvalid : ValidNumbers values) :
    Yields min values (evaluateValues min values) := by
  refine ⟨?_, ?_, ?_⟩
  · rw [MinMax.new, constants_eq, List.length_map, if_pos rfl, evalIter_eq hvalid]
  · intro x args d noErr forEach hargs
    rw [FunctionCall.evaluate, hargs]
    rfl
  · intro Ar z x draws providers args noErr streams hstreams
    refine ⟨mapItems (minMaxItem min) (ZipAll.zipAll streams), ?_, fun row t hrow hn => ?_⟩
    · rw [FunctionCall.intoStream, hstreams]
      rfl
    · have hmap := hn.mapItems (f := minMaxItem min)
      have hitem : minMaxItem min (.ok row) =
          .ok (evaluateValues min values, row.flatMap Prod.snd) := by
        rw [← evalIter_eq hvalid, ← hrow]
        rfl
      rw [Option.map_some, hitem] at hmap
      exact ⟨_, hmap⟩

/-- Two results bound each other. -/
theorem IsResult.numeric_eq (h : IsResult min values v) (h' : IsResult min values' w)
    (hvalid : ValidNumbers values) (hperm : values.Perm values') :
    (v = .null ↔ w = .null) ∧ v.numeric = w.numeric := by
  have hnull : v = .null ↔ w = .null := by
    rw [h.null, h'.null]
    exact forall_congr' fun u => by rw [hperm.mem_iff]
  refine ⟨hnull, ?_⟩
  by_cases hv : v = .null
  · rw [hv, hnull.mp hv]
  · obtain ⟨hmem, hnum⟩ := h.number hv
    obtain ⟨hmem', hnum'⟩ := h'.number fun hw => hv (hnull.mpr hw)
    have hmem'' := hperm.mem_iff.mpr hmem'
    rcases f64Value_cases (hvalid.of_mem hmem) with ⟨-, -, hno⟩ | ⟨s, a, -, ha, -⟩
    · cases hno.symm.trans hnum
    rcases f64Value_cases (hvalid.of_mem hmem'') with ⟨-, -, hno⟩ | ⟨t, b, -, hb, -⟩
    · cases hno.symm.trans hnum'
    have hle := h.bounds _ ha w hmem'' _ hb
    have hge := h'.bounds _ hb v (hperm.mem_iff.mp hmem) _ ha
    rw [ha, hb]
    cases min
    · exact congrArg some (le_antisymm hge hle)
    · exact congrArg some (le_antisymm hle hge)

end MinMax

/-- `min` and `max` yield the least or greatest number in every way, whatever the order of the
arguments. -/
theorem minMax_result (min : Bool) (values : List Json) (hvalid : ValidNumbers values) :
    ∃ v, MinMax.IsResult min values v ∧ MinMax.Yields min values v ∧
      ∀ values', values.Perm values' → ∃ w, MinMax.Yields min values' w ∧
        (v = .null ↔ w = .null) ∧ v.numeric = w.numeric := by
  have hresult : MinMax.IsResult min values _ := MinMax.isResult_evaluateValues hvalid
  refine ⟨_, hresult, MinMax.yields_evaluateValues hvalid, fun values' hperm => ?_⟩
  have hvalid' : ValidNumbers values' := fun n hn => hvalid n (hperm.mem_iff.mpr hn)
  exact ⟨_, MinMax.yields_evaluateValues hvalid',
    hresult.numeric_eq (MinMax.isResult_evaluateValues hvalid') hvalid hperm⟩

theorem minMax_result_three : ∃ v, MinMax.IsResult true
    [.string "a", .number (.int 3), .null, .number (.int (-2))] v ∧
    MinMax.Yields true [.string "a", .number (.int 3), .null, .number (.int (-2))] v := by
  obtain ⟨v, hresult, hyields, -⟩ := minMax_result true
    [.string "a", .number (.int 3), .null, .number (.int (-2))] (by
      intro n hn
      simp only [List.mem_cons, Json.number.injEq, reduceCtorEq, List.not_mem_nil, or_false,
        false_or] at hn
      rcases hn with rfl | rfl
      · exact ⟨by decide, by decide⟩
      · exact ⟨by decide, by decide⟩)
  exact ⟨v, hresult, hyields⟩

end Pewpew.SelectParser
