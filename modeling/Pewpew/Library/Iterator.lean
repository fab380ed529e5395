import Mathlib.Data.List.Basic

/-! Iterators: what their calls yield, once and over and over. -/
namespace Pewpew.Iterator

variable {S α β : Type} {next : S → Option (α × S)} {s orig : S} {vs : List α}
  {item : Nat → Option α} {k : Nat}

/-- What the call after so many others yields. -/
def itemAt (next : S → Option (α × S)) : S → Nat → Option α
  | s, 0 => (next s).map (·.1)
  | s, n + 1 => (next s).bind fun r => itemAt next r.2 n

/-- The iterator of a vector. -/
def vecNext : List α → Option (α × List α)
  | [] => none
  | v :: vs => some (v, vs)

/-- `Cycle::next`: at its end the iterator begins again as it was at the start. -/
def cycleNext (next : S → Option (α × S)) (c : S × S) : Option (α × (S × S)) :=
  match next c.2 with
  | some (v, s) => some (v, (c.1, s))
  | none => (next c.1).map fun r => (r.1, (c.1, r.2))

/-- An iterator that is seen as another one, and its items as others. -/
theorem itemAt_map {T : Type} {next' : T → Option (β × T)} (f : S → T) (g : α → β)
    (h : ∀ s, next' (f s) = (next s).map fun r => (g r.1, f r.2)) (s : S) (i : Nat) :
    itemAt next' (f s) i = (itemAt next s i).map g := by
  induction i generalizing s with
  | zero =>
    rw [itemAt, itemAt, h, Option.map_map, Option.map_map]
    rfl
  | succ i ih =>
    rw [itemAt, itemAt, h]
    cases next s with
    | none => rfl
    | some r => exact ih r.2

theorem itemAt_vec (vs : List α) (i : Nat) : itemAt vecNext vs i = vs[i]? := by
  induction i generalizing vs with
  | zero => cases vs <;> rfl
  | succ i ih =>
    cases vs with
    | nil => rfl
    | cons v vs =>
      rw [List.getElem?_cons_succ]
      exact ih vs

/-- An iterator at the item `k` of those that it has. -/
def Has (next : S → Option (α × S)) (vs : List α) (k : Nat) (s : S) : Prop :=
  ∀ i, itemAt next s i = vs[k + i]?

theorem has_next {v : α} (h : Has next vs k s) (hv : vs[k]? = some v) :
    ∃ s', next s = some (v, s') ∧ Has next vs (k + 1) s' := by
  have hzero := h 0
  rw [Nat.add_zero, hv, itemAt, Option.map_eq_some_iff] at hzero
  obtain ⟨⟨v, s'⟩, hnext, rfl⟩ := hzero
  refine ⟨s', hnext, fun i => ?_⟩
  have hsucc := h (i + 1)
  rw [itemAt, hnext, Option.bind_some] at hsucc
  rw [hsucc, Nat.add_right_comm]
  rfl

theorem next_of_has_end (h : Has next vs k s) (hv : vs[k]? = none) : next s = none := by
  have hzero := h 0
  rwa [Nat.add_zero, hv, itemAt, Option.map_eq_none_iff] at hzero

/-- A cycled iterator yields the next item, which is the first one after the last. -/
theorem cycle_next (h : Has next vs 0 orig) (hs : Has next vs k s) (hk : k ≤ vs.length)
    (hne : vs ≠ []) : ∃ v s' k', cycleNext next (orig, s) = some (v, (orig, s')) ∧
      vs[k % vs.length]? = some v ∧ Has next vs k' s' ∧ k' ≤ vs.length ∧
        ∀ i, (k' + i) % vs.length = (k + (i + 1)) % vs.length := by
  have hpos := List.length_pos_iff.mpr hne
  rcases Nat.lt_or_eq_of_le hk with hlt | rfl
  · have hv := List.getElem?_eq_getElem hlt
    obtain ⟨s', hnext, hs'⟩ := has_next hs hv
    refine ⟨vs[k], s', k + 1, by simp [cycleNext, hnext], ?_, hs', hlt, fun i => ?_⟩
    · rw [Nat.mod_eq_of_lt hlt, hv]
    · rw [Nat.add_assoc, Nat.add_comm 1 i]
  · have hnone := next_of_has_end hs (List.getElem?_eq_none (Nat.le_refl _))
    have hv := List.getElem?_eq_getElem hpos
    obtain ⟨s', hnext, hs'⟩ := has_next h hv
    refine ⟨vs[0], s', 1, by simp [cycleNext, hnone, hnext], ?_, hs', hpos, fun i => ?_⟩
    · rw [Nat.mod_self, hv]
    · rw [Nat.add_mod_left, Nat.add_comm 1 i]

/-- A cycled iterator yields its items over and over. -/
theorem itemAt_cycle (h : Has next vs 0 orig) (hs : Has next vs k s) (hk : k ≤ vs.length)
    (i : Nat) :
    itemAt (cycleNext next) (orig, s) i = vs[(k + i) % vs.length]? := by
  by_cases hne : vs = []
  · subst hne
    have hnone : cycleNext next (orig, s) = none := by
      simp [cycleNext, next_of_has_end hs rfl, next_of_has_end h rfl]
    cases i <;> simp [itemAt, hnone]
  · induction i generalizing k s with
    | zero =>
      obtain ⟨v, s', k', hnext, hv, -⟩ := cycle_next h hs hk hne
      rw [itemAt, hnext, Nat.add_zero, hv]
      rfl
    | succ i ih =>
      obtain ⟨v, s', k', hnext, -, hs', hk', hmod⟩ := cycle_next h hs hk hne
      rw [itemAt, hnext, Option.bind_some, ih hs' hk', hmod]

/-! ### Modes -/

/-- What calls yield of a list of values: each in order, or each once in some order; or over and
over, or any of them. -/
def InMode (repeats random : Bool) (vs : List α) (item : Nat → Option α) : Prop :=
  match repeats, random with
  | false, false => ∀ i, item i = vs[i]?
  | false, true => ∃ l : List α, l.Perm vs ∧ ∀ i, item i = l[i]?
  | true, false => ∀ i, item i = vs[i % vs.length]?
  | true, true => ∀ i, ∃ v ∈ vs, item i = some v

theorem InMode.map {repeats random : Bool} (h : InMode repeats random vs item) (g : α → β) :
    InMode repeats random (vs.map g) fun i => (item i).map g := by
  cases repeats <;> cases random
  · intro i
    simp only [h i, List.getElem?_map]
  · obtain ⟨l, hperm, hl⟩ := h
    refine ⟨l.map g, hperm.map g, fun i => ?_⟩
    simp only [hl i, List.getElem?_map]
  · intro i
    simp only [h i, List.length_map, List.getElem?_map]
  · intro i
    obtain ⟨v, hv, hi⟩ := h i
    exact ⟨g v, List.mem_map_of_mem hv, by simp only [hi, Option.map_some]⟩

end Pewpew.Iterator
