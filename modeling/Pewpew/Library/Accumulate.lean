import Std.Data.ExtTreeMap
import Mathlib.Data.List.Basic

/-! Maps whose entries are accumulated with a binary operation, key by key. -/
namespace Pewpew.Accumulate

open Std

variable {κ M : Type*} {cmp : κ → κ → Ordering} [TransCmp cmp] {f : M → M → M}
  {m m₁ m₂ m₃ : ExtTreeMap κ M cmp} {k k' : κ} {v w : M}

/-- Add to the entry of a key, which is created where it is absent. -/
def bump (f : M → M → M) (m : ExtTreeMap κ M cmp) (k : κ) (v : M) : ExtTreeMap κ M cmp :=
  m.alter k fun old => old.merge f (some v)

/-- Add all entries of the second map to the first. -/
def merge (f : M → M → M) (m₁ m₂ : ExtTreeMap κ M cmp) : ExtTreeMap κ M cmp :=
  m₂.foldl (bump f) m₁

variable [LawfulEqCmp cmp]

theorem getElem?_bump [DecidableEq κ] :
    (bump f m k v)[k']? = m[k']?.merge f (if k = k' then some v else none) := by
  rw [bump, ExtTreeMap.getElem?_alter]
  by_cases h : k = k'
  · subst h
    simp
  · simp [h, LawfulEqCmp.compare_eq_iff_eq]

theorem getElem?_foldl_bump (l : List (κ × M))
    (hl : l.Pairwise fun a b => ¬ cmp a.1 b.1 = .eq) :
    (∀ v, (k, v) ∈ l →
      (l.foldl (fun m p => bump f m p.1 p.2) m)[k]? = m[k]?.merge f (some v)) ∧
    ((∀ v, (k, v) ∉ l) → (l.foldl (fun m p => bump f m p.1 p.2) m)[k]? = m[k]?) := by
  classical
  induction l generalizing m with
  | nil => simp
  | cons p l ih =>
    obtain ⟨hp, hl⟩ := List.pairwise_cons.mp hl
    obtain ⟨ih₁, ih₂⟩ := ih (m := bump f m p.1 p.2) hl
    by_cases hk : p.1 = k
    · -- the key occurs in the head, and so nowhere else
      have hnot : ∀ v, (k, v) ∉ l := fun v hm => hp _ hm (by simp [hk])
      refine ⟨fun v hm => ?_, fun hno => absurd List.mem_cons_self (hk ▸ hno p.2)⟩
      rcases List.mem_cons.mp hm with rfl | hm
      · simpa [getElem?_bump] using ih₂ hnot
      · exact absurd hm (hnot v)
    · simp only [getElem?_bump, if_neg hk, Option.merge_none_right] at ih₁ ih₂
      refine ⟨fun v hm => ih₁ v ?_, fun hno => ih₂ fun v hm => hno v (List.mem_cons_of_mem _ hm)⟩
      rcases List.mem_cons.mp hm with rfl | hm
      · exact absurd rfl hk
      · exact hm

/-- The entry of a merged map combines the two entries. -/
theorem getElem?_merge : (merge f m₁ m₂)[k]? = m₁[k]?.merge f m₂[k]? := by
  obtain ⟨h₁, h₂⟩ := getElem?_foldl_bump (f := f) (m := m₁) (k := k) m₂.toList
    ExtTreeMap.distinct_keys_toList
  rw [merge, ExtTreeMap.foldl_eq_foldl_toList]
  cases hm : m₂[k]? with
  | none =>
    rw [h₂ fun v hv => by simp [ExtTreeMap.mem_toList_iff_getElem?_eq_some, hm] at hv]
    simp
  | some v => exact h₁ v (ExtTreeMap.mem_toList_iff_getElem?_eq_some.mpr hm)

@[simp] theorem merge_empty : merge f m ∅ = m := ExtTreeMap.ext_getElem? fun k => by
  simp [getElem?_merge]

theorem merge_assoc [Std.Associative f] :
    merge f (merge f m₁ m₂) m₃ = merge f m₁ (merge f m₂ m₃) := by
  refine ExtTreeMap.ext_getElem? fun k => ?_
  simp only [getElem?_merge]
  exact (Option.associative_merge f).assoc _ _ _

/-- One more bump is a merge with a single entry. -/
theorem bump_eq_merge : bump f m k v = merge f m (bump f ∅ k v) := by
  classical
  refine ExtTreeMap.ext_getElem? fun k' => ?_
  simp [getElem?_merge, getElem?_bump]

end Pewpew.Accumulate
