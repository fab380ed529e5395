import Mathlib.Data.List.Basic

/-! Computations that extend what they are given and do not look at it otherwise. -/
namespace Pewpew.Extending

variable {ε σ τ υ ρ A : Type*} {ext : A → A → A} {mk : σ → A → τ} {mk' : ρ → A → υ}
  {f : A → Except ε τ} {g : τ → Except ε υ}

/-- The computation has the same result for all that it may be given, which it extends by the same
others. -/
def Extends (ext : A → A → A) (mk : σ → A → τ) (f : A → Except ε τ) : Prop :=
  ∃ o : Except ε (σ × List A), ∀ a, f a = o.map fun r => mk r.1 (r.2.foldl ext a)

theorem extends_ok (s : σ) : Extends ext mk fun a => (.ok (mk s a) : Except ε τ) :=
  ⟨.ok (s, []), fun _ => rfl⟩

theorem extends_ext (s : σ) (b : A) : Extends ext mk fun a => (.ok (mk s (ext a b)) : Except ε τ) :=
  ⟨.ok (s, [b]), fun _ => rfl⟩

theorem extends_error (e : ε) : Extends ext mk fun _ => (.error e : Except ε τ) :=
  ⟨.error e, fun _ => rfl⟩

theorem Extends.bind (hf : Extends ext mk f) (hg : ∀ s, Extends ext mk' fun a => g (mk s a)) :
    Extends ext mk' fun a => (f a).bind g := by
  obtain ⟨o, ho⟩ := hf
  choose next hnext using hg
  cases o with
  | error e =>
    refine ⟨.error e, fun a => ?_⟩
    show (f a).bind g = .error e
    rw [ho]
    rfl
  | ok r =>
    refine ⟨(next r.1).map fun r' => (r'.1, r.2 ++ r'.2), fun a => ?_⟩
    have hr : (f a).bind g = g (mk r.1 (r.2.foldl ext a)) := by
      rw [ho]
      rfl
    refine hr.trans ((hnext r.1 _).trans ?_)
    cases next r.1 with
    | error e => rfl
    | ok r' => simp only [Except.map, List.foldl_append]

theorem Extends.map {h : τ → υ} (hf : Extends ext mk f)
    (hh : ∀ s, ∃ s', ∀ a, h (mk s a) = mk' s' a) : Extends ext mk' fun a => (f a).map h := by
  obtain ⟨o, ho⟩ := hf
  choose value hvalue using hh
  refine ⟨o.map fun r => (value r.1, r.2), fun a => ?_⟩
  show (f a).map h = _
  rw [ho]
  cases o with
  | error e => rfl
  | ok r => simp only [Except.map, hvalue]

/-- What it gives for one accumulator, it gives for all. -/
theorem Extends.of_ok (hf : Extends ext mk f) {a : A} {t : τ} (h : f a = .ok t) :
    ∃ (s : σ) (others : List A), t = mk s (others.foldl ext a) ∧
      ∀ b, f b = .ok (mk s (others.foldl ext b)) := by
  obtain ⟨o, ho⟩ := hf
  cases o with
  | error e =>
    rw [ho] at h
    cases h
  | ok r =>
    refine ⟨r.1, r.2, ?_, ho⟩
    rw [ho] at h
    exact (Except.ok.inj h).symm

end Pewpew.Extending
