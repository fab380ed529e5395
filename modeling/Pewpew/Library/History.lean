import Pewpew.Library.Transition

/-! What the steps of a run put out, in order. -/
namespace Pewpew.Transition

variable {σ α β : Type*} {next : σ → α → Option σ} {out : σ → α → List β} {s t : σ} {as : List α}
  {bs : List β}

/-- The outputs of the steps along the labels, as far as they can be taken. -/
def outputs (next : σ → α → Option σ) (out : σ → α → List β) : σ → List α → List β
  | _, [] => []
  | s, a :: as => out s a ++ (next s a).elim [] fun t => outputs next out t as

/-- What each step preserves of the state and of all outputs so far, a run preserves, also a run of
some of the steps only. -/
theorem Run.outputs_of {step : σ → α → σ → Prop} (hnext : ∀ s a t, step s a t → next s a = some t)
    (P : List β → σ → Prop) (hstep : ∀ bs s a t, P bs s → step s a t → P (bs ++ out s a) t)
    (h : Run step s as t) (hs : P bs s) : P (bs ++ Transition.outputs next out s as) t := by
  induction h generalizing bs with
  | refl => simpa [Transition.outputs] using hs
  | @stepL s t u a as hst _ ih =>
    rw [Transition.outputs, hnext _ _ _ hst, Option.elim_some, ← List.append_assoc]
    exact ih (hstep _ _ _ _ hs hst)

theorem Run.outputs (P : List β → σ → Prop)
    (hstep : ∀ bs s a t, P bs s → next s a = some t → P (bs ++ out s a) t)
    (h : Run (fun s a t => next s a = some t) s as t) (hs : P bs s) :
    P (bs ++ Transition.outputs next out s as) t :=
  h.outputs_of (fun _ _ _ hst => hst) P hstep hs

end Pewpew.Transition
