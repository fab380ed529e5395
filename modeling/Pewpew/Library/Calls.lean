import Mathlib.Data.List.Basic

/-! A function of a state that is given fuel, called again and again: what its calls return, and
where none returns. -/
namespace Pewpew.Calls

variable {S A T B : Type} {f : Nat → S → Option (A × S)} {g : Nat → T → Option (B × T)} {s : S}

/-- Calls one after another return these values, each with enough fuel. -/
def Returns (f : Nat → S → Option (A × S)) : List A → S → Prop
  | [], _ => True
  | a :: as, s => ∃ fuel s', f fuel s = some (a, s') ∧ Returns f as s'

/-- Calls one after another return these values and lead to a state. -/
def Leads (f : Nat → S → Option (A × S)) : List A → S → S → Prop
  | [], s, s' => s = s'
  | a :: as, s, s' => ∃ fuel t, f fuel s = some (a, t) ∧ Leads f as t s'

/-- What a call returns does not depend on the fuel. -/
def Steady (f : Nat → S → Option (A × S)) : Prop :=
  ∀ m n s r r', f m s = some r → f n s = some r' → r = r'

theorem steady_of_mono (h : ∀ n s r, f n s = some r → f (n + 1) s = some r) : Steady f := by
  have hadd : ∀ n k s r, f n s = some r → f (n + k) s = some r := by
    intro n k s r hr
    induction k with
    | zero => exact hr
    | succ k ih => exact h _ _ _ ih
  intro m n s r r' hr hr'
  have hm := hadd m n s r hr
  rw [Nat.add_comm, hadd n m s r' hr'] at hm
  exact (Option.some.inj hm).symm

theorem Returns.take {as : List A} (h : Returns f as s) (k : Nat) : Returns f (as.take k) s := by
  induction as generalizing s k with
  | nil => rwa [List.take_nil]
  | cons a as ih =>
    cases k with
    | zero => trivial
    | succ k =>
      obtain ⟨fuel, s', hcall, hrest⟩ := h
      exact ⟨fuel, s', hcall, ih hrest k⟩

theorem Returns.unique (hf : Steady f) {as bs : List A} (ha : Returns f as s)
    (hb : Returns f bs s) (hlen : as.length = bs.length) : as = bs := by
  induction as generalizing s bs with
  | nil => exact (List.length_eq_zero_iff.mp hlen.symm).symm
  | cons a as ih =>
    cases bs with
    | nil => cases hlen
    | cons b bs =>
      obtain ⟨m, u, hcall, hrest⟩ := ha
      obtain ⟨n, u', hcall', hrest'⟩ := hb
      obtain ⟨rfl, rfl⟩ := Prod.mk.inj (hf m n s _ _ hcall hcall')
      rw [ih hrest hrest' (Nat.succ.inj hlen)]

/-- Where any number of calls return values with a property, there is one sequence of them. -/
theorem exists_sequence (hf : Steady f) {P : A → Prop}
    (h : ∀ k, ∃ as : List A, as.length = k ∧ (∀ a ∈ as, P a) ∧ Returns f as s) :
    ∃ item : Nat → A, (∀ i, P (item i)) ∧ ∀ k, Returns f ((List.range k).map item) s := by
  choose as hlen hP hreturns using h
  have hlt (i : Nat) : i < (as (i + 1)).length := by
    rw [hlen]
    exact Nat.lt_succ_self i
  refine ⟨fun i => (as (i + 1)).get ⟨i, hlt i⟩, fun i => hP _ _ (List.get_mem _ _), fun k => ?_⟩
  have hall : as k = (List.range k).map fun i => (as (i + 1)).get ⟨i, hlt i⟩ := by
    refine List.ext_getElem (by simp [hlen]) fun i hi hi' => ?_
    have hik : i + 1 ≤ k := by
      rw [hlen] at hi
      exact hi
    have htake : (as k).take (i + 1) = as (i + 1) := by
      refine ((hreturns k).take (i + 1)).unique hf (hreturns (i + 1)) ?_
      rw [List.length_take, hlen, hlen, Nat.min_eq_left hik]
    simp only [List.get_eq_getElem, List.getElem_map, List.getElem_range, ← htake,
      List.getElem_take]
  rw [← hall]
  exact hreturns k

theorem Leads.returns {as : List A} {t : S} (h : Leads f as s t) : Returns f as s := by
  induction as generalizing s with
  | nil => trivial
  | cons a as ih =>
    obtain ⟨fuel, u, hcall, hrest⟩ := h
    exact ⟨fuel, u, hcall, ih hrest⟩

theorem Leads.concat {as : List A} {a : A} {t u : S} {fuel : Nat} (h : Leads f as s t)
    (hcall : f fuel t = some (a, u)) : Leads f (as ++ [a]) s u := by
  induction as generalizing s with
  | nil =>
    obtain rfl := h
    exact ⟨fuel, u, hcall, rfl⟩
  | cons b as ih =>
    obtain ⟨n, v, hb, hrest⟩ := h
    exact ⟨n, v, hb, ih hrest⟩

/-- The calls return what each step says, where it leads to a state from which the next one does. -/
theorem returns_of_step {g : Nat → A} (I : Nat → S → Prop)
    (hstep : ∀ i s, I i s → ∃ fuel s', f fuel s = some (g i, s') ∧ I (i + 1) s') {i : Nat}
    (hs : I i s) (k : Nat) : Returns f ((List.range' i k).map g) s := by
  induction k generalizing i s with
  | zero => trivial
  | succ k ih =>
    obtain ⟨fuel, s', hcall, hs'⟩ := hstep i s hs
    rw [List.range'_succ, List.map_cons]
    exact ⟨fuel, s', hcall, ih hs'⟩

theorem returns_replicate {a : A} (I : S → Prop)
    (hstep : ∀ s, I s → ∃ fuel s', f fuel s = some (a, s') ∧ I s') (hs : I s) (k : Nat) :
    Returns f (List.replicate k a) s := by
  have hall := returns_of_step (g := fun _ => a) (fun _ => I) (fun _ => hstep) (i := 0) hs k
  rwa [List.map_const', List.length_range'] at hall

/-- All calls return where each of them returns with an invariant, and what they return has the
property that the step gives it. -/
theorem exists_returns {P : A → Prop} (I : S → Prop)
    (hstep : ∀ s, I s → ∃ fuel a s', f fuel s = some (a, s') ∧ P a ∧ I s') (hs : I s) (k : Nat) :
    ∃ as : List A, as.length = k ∧ (∀ a ∈ as, P a) ∧ Returns f as s := by
  induction k generalizing s with
  | zero => exact ⟨[], rfl, by simp, trivial⟩
  | succ k ih =>
    obtain ⟨fuel, a, s', hcall, ha, hs'⟩ := hstep s hs
    obtain ⟨as, hlen, has, hreturns⟩ := ih hs'
    exact ⟨a :: as, congrArg Nat.succ hlen, List.forall_mem_cons.mpr ⟨ha, has⟩, fuel, s', hcall,
      hreturns⟩

/-- What is called through a view of the states returns views of the values. -/
theorem Returns.map {as : List A} (h : Returns f as s) (state : S → T) (value : A → B)
    (hcall : ∀ fuel s, g fuel (state s) = (f fuel s).map fun r => (value r.1, state r.2)) :
    Returns g (as.map value) (state s) := by
  induction as generalizing s with
  | nil => trivial
  | cons a as ih =>
    obtain ⟨fuel, s', hf, hrest⟩ := h
    refine ⟨fuel, state s', ?_, ih hrest⟩
    rw [hcall, hf]
    rfl

/-- No fuel is enough for a call that comes to call itself in a state like its own. -/
theorem eq_none_of_progress (hzero : ∀ s, f 0 s = none) (I : S → Prop)
    (hstep : ∀ s, I s → ∃ s', I s' ∧ ∀ fuel, f (fuel + 1) s = f fuel s') (hs : I s) (fuel : Nat) :
    f fuel s = none := by
  induction fuel generalizing s with
  | zero => exact hzero s
  | succ fuel ih =>
    obtain ⟨s', hs', hcall⟩ := hstep s hs
    rw [hcall]
    exact ih hs'

end Pewpew.Calls
