import Mathlib.Data.List.Basic

/-! Computations that leave a trace and end with a value, an error or a panic, and what it means
that no error of theirs is lost. -/
namespace Pewpew.Effect

inductive Ending (ε α : Type*) where
  | ok (a : α)
  | error (e : ε)
  | panicked

structure Traced (ω ε α : Type*) where
  trace : List ω
  ending : Ending ε α

namespace Traced

variable {ω ε α β κ : Type*}

def fail (ws : List ω) (e : ε) : Traced ω ε α := ⟨ws, .error e⟩

def done (ws : List ω) (a : α) : Traced ω ε α := ⟨ws, .ok a⟩

def panic : Traced ω ε α := ⟨[], .panicked⟩

/-- What follows a value. -/
def andThen (t : Traced ω ε α) (f : α → Traced ω ε β) : Traced ω ε β :=
  match t.ending with
  | .ok a => ⟨t.trace ++ (f a).trace, (f a).ending⟩
  | .error e => ⟨t.trace, .error e⟩
  | .panicked => ⟨t.trace, .panicked⟩

/-- What follows an error. -/
def orElse (t : Traced ω ε α) (f : ε → Traced ω ε α) : Traced ω ε α :=
  match t.ending with
  | .ok a => ⟨t.trace, .ok a⟩
  | .error e => ⟨t.trace ++ (f e).trace, (f e).ending⟩
  | .panicked => ⟨t.trace, .panicked⟩

/-- What follows a value and an error alike; it knows what has been done. -/
def always (t : Traced ω ε α) (f : List ω → Traced ω ε β) : Traced ω ε β :=
  match t.ending with
  | .panicked => ⟨t.trace, .panicked⟩
  | _ => ⟨t.trace ++ (f t.trace).trace, (f t.trace).ending⟩

section Endings

variable {t : Traced ω ε α} {ws : List ω} {e : ε} {a : α}

@[simp] theorem fail_trace : (fail ws e : Traced ω ε α).trace = ws := rfl
@[simp] theorem fail_ending : (fail ws e : Traced ω ε α).ending = .error e := rfl
@[simp] theorem done_trace : (done ws a : Traced ω ε α).trace = ws := rfl
@[simp] theorem done_ending : (done ws a : Traced ω ε α).ending = .ok a := rfl
@[simp] theorem panic_ending : (panic : Traced ω ε α).ending = .panicked := rfl

theorem done_andThen (ws : List ω) (a : α) (f : α → Traced ω ε β) :
    (done ws a).andThen f = ⟨ws ++ (f a).trace, (f a).ending⟩ := rfl

theorem orElse_ok (h : t.ending = .ok a) (f : ε → Traced ω ε α) : t.orElse f = t := by
  cases t
  simp_all [orElse]

theorem orElse_error (h : t.ending = .error e) (f : ε → Traced ω ε α) :
    t.orElse f = ⟨t.trace ++ (f e).trace, (f e).ending⟩ := by simp [orElse, h]

theorem orElse_panicked (h : t.ending = .panicked) (f : ε → Traced ω ε α) : t.orElse f = t := by
  cases t
  simp_all [orElse]

theorem always_panicked (h : t.ending = .panicked) (f : List ω → Traced ω ε β) :
    t.always f = ⟨t.trace, .panicked⟩ := by simp [always, h]

theorem always_of_not_panicked (h : t.ending ≠ .panicked) (f : List ω → Traced ω ε β) :
    t.always f = ⟨t.trace ++ (f t.trace).trace, (f t.trace).ending⟩ := by
  cases he : t.ending with
  | panicked => exact absurd he h
  | ok a => simp [always, he]
  | error e => simp [always, he]

end Endings

end Traced

end Pewpew.Effect
