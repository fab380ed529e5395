import Mathlib.Algebra.BigOperators.Group.List.Basic
import Mathlib.Data.List.Basic

/-! Finite runs of a labelled step relation, and what every step preserves. -/
namespace Pewpew.Transition

variable {σ α : Type*} {step : σ → α → σ → Prop} {s t u : σ} {as bs : List α}

/-- A finite run: the labels in the order in which the steps are taken. -/
inductive Run (step : σ → α → σ → Prop) : σ → List α → σ → Prop where
  | refl (s : σ) : Run step s [] s
  | stepL {s t u : σ} {a : α} {as : List α} :
      step s a t → Run step t as u → Run step s (a :: as) u

/-- The steps that meet a condition on the label and the state before the step. -/
def Guarded (cond : σ → α → Prop) (step : σ → α → σ → Prop) : σ → α → σ → Prop :=
  fun s a t => cond s a ∧ step s a t

theorem Run.mono {step' : σ → α → σ → Prop} (hm : ∀ s a t, step s a t → step' s a t)
    (h : Run step s as t) : Run step' s as t := by
  induction h with
  | refl => exact .refl _
  | stepL hs _ ih => exact .stepL (hm _ _ _ hs) ih

theorem Run.append (h : Run step s as t) (h' : Run step t bs u) : Run step s (as ++ bs) u := by
  induction h with
  | refl => exact h'
  | stepL hs _ ih => exact .stepL hs (ih h')

/-- What one step preserves, a run preserves. -/
theorem Run.invariant (inv : σ → Prop) (hstep : ∀ s a t, inv s → step s a t → inv t)
    (h : Run step s as t) (hs : inv s) : inv t := by
  induction h with
  | refl => exact hs
  | stepL hst _ ih => exact ih (hstep _ _ _ hs hst)

/-- Where an invariant gives the condition, each step meets it. -/
theorem Run.guarded {cond : σ → α → Prop} (inv : σ → Prop) (hcond : ∀ s a, inv s → cond s a)
    (hstep : ∀ s a t, inv s → step s a t → inv t) (h : Run step s as t) (hs : inv s) :
    Run (Guarded cond step) s as t := by
  induction h with
  | refl => exact .refl _
  | stepL hst _ ih => exact .stepL ⟨hcond _ _ hs, hst⟩ (ih (hstep _ _ _ hs hst))

/-- All states that runs along the labels reach satisfy `p`. -/
def Throughout (step : σ → α → σ → Prop) (p : σ → Prop) (s : σ) (as : List α) : Prop :=
  ∀ bs t, bs <+: as → Run step s bs t → p t

theorem throughout_nil {p : σ → Prop} : Throughout step p s [] ↔ p s := by
  constructor
  · intro h
    exact h [] s List.prefix_rfl (.refl s)
  · intro h bs t hbs hrun
    obtain rfl := List.prefix_nil.mp hbs
    cases hrun
    exact h

theorem throughout_cons {p : σ → Prop} {a : α} :
    Throughout step p s (a :: as) ↔ p s ∧ ∀ t, step s a t → Throughout step p t as := by
  constructor
  · intro h
    refine ⟨h [] s List.nil_prefix (.refl s), fun t hst bs u hbs hrun => ?_⟩
    exact h (a :: bs) u (List.cons_prefix_cons.mpr ⟨rfl, hbs⟩) (.stepL hst hrun)
  · rintro ⟨hs, hstep⟩ bs t hbs hrun
    cases hrun with
    | refl => exact hs
    | stepL hst hrun =>
      obtain ⟨rfl, hrest⟩ := List.cons_prefix_cons.mp hbs
      exact hstep _ hst _ _ hrest hrun

/-- The run of an executable step function along a list of labels. -/
def exec (next : σ → α → Option σ) : σ → List α → Option σ
  | s, [] => some s
  | s, a :: as => (next s a).bind fun t => exec next t as

theorem run_of_exec {next : σ → α → Option σ} :
    ∀ {s : σ} {as : List α} {t : σ}, exec next s as = some t →
      Run (fun s a t => next s a = some t) s as t
  | s, [], t, h => by
    cases h
    exact .refl _
  | s, a :: as, t, h => by
    simp only [exec, Option.bind_eq_some_iff] at h
    obtain ⟨u, hu, ht⟩ := h
    exact .stepL hu (run_of_exec ht)

/-- A guarded run whose last state passes a test, found by executing it. -/
theorem guarded_run_of_exec (cond : σ → α → Prop) [∀ s a, Decidable (cond s a)]
    (next : σ → α → Option σ) (s : σ) (as : List α) (p : σ → Bool)
    (h : (exec (fun s a => if cond s a then next s a else none) s as).map p = some true) :
    ∃ t, Run (Guarded cond fun s a t => next s a = some t) s as t ∧ p t = true := by
  obtain ⟨t, ht, hp⟩ := Option.map_eq_some_iff.mp h
  refine ⟨t, (run_of_exec ht).mono fun s a u hu => ?_, hp⟩
  simpa [Guarded] using hu

theorem run_of_exec_map (next : σ → α → Option σ) (s : σ) (as : List α) (p : σ → Bool)
    (h : (exec next s as).map p = some true) :
    ∃ t, Run (fun s a t => next s a = some t) s as t ∧ p t = true := by
  obtain ⟨t, ht, hp⟩ := Option.map_eq_some_iff.mp h
  exact ⟨t, run_of_exec ht, hp⟩

/-- What all parties hold together, when the one at a place changes. -/
theorem sum_map_set {β M : Type*} [AddCommMonoid M] {f : β → M} {xs : List β} {i : Nat} {x : β}
    (hi : xs[i]? = some x) (y : β) :
    ((xs.set i y).map f).sum + f x = (xs.map f).sum + f y := by
  induction xs generalizing i with
  | nil => simp at hi
  | cons z xs ih =>
    cases i with
    | zero =>
      obtain rfl := Option.some.inj hi
      simp only [List.set_cons_zero, List.map_cons, List.sum_cons]
      rw [add_right_comm, add_comm (f y), add_right_comm]
    | succ i =>
      simp only [List.set_cons_succ, List.map_cons, List.sum_cons]
      rw [add_assoc, ih hi, add_assoc]

end Pewpew.Transition
