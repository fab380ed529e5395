import Mathlib.Data.List.Forall2

/-! Runs of `Except` that do not fail. -/
namespace Pewpew.Fallible

variable {ε α β : Type}

theorem bind_ok {r : Except ε α} {f : α → Except ε β} {b : β} :
    (r >>= f) = .ok b ↔ ∃ a, r = .ok a ∧ f a = .ok b := by
  cases r with
  | error e => simp [bind, Except.bind]
  | ok a => simp [bind, Except.bind]

theorem except_bind_ok {r : Except ε α} {f : α → Except ε β} {b : β} :
    r.bind f = .ok b ↔ ∃ a, r = .ok a ∧ f a = .ok b := bind_ok

theorem map_ok {r : Except ε α} {f : α → β} {b : β} :
    r.map f = .ok b ↔ ∃ a, r = .ok a ∧ f a = b := by
  cases r with
  | error e => simp [Except.map]
  | ok a => simp [Except.map]

theorem mapM_ok_iff {f : α → Except ε β} {l : List α} {l' : List β} :
    l.mapM f = .ok l' ↔ List.Forall₂ (fun a b => f a = .ok b) l l' := by
  induction l generalizing l' with
  | nil =>
    rw [List.mapM_nil, List.forall₂_nil_left_iff]
    exact ⟨fun h => (Except.ok.inj h).symm, fun h => h ▸ rfl⟩
  | cons a l ih =>
    rw [List.mapM_cons, bind_ok]
    constructor
    · rintro ⟨b, hb, h⟩
      obtain ⟨bs, hbs, h⟩ := bind_ok.mp h
      obtain rfl : b :: bs = l' := Except.ok.inj h
      exact .cons hb (ih.mp hbs)
    · intro h
      cases h with
      | cons hb hbs => exact ⟨_, hb, bind_ok.mpr ⟨_, ih.mpr hbs, rfl⟩⟩

theorem mapM_forall {f : α → Except ε β} {P : β → Prop} {l : List α} {l' : List β}
    (hf : ∀ a b, f a = .ok b → P b) (h : l.mapM f = .ok l') : ∀ b ∈ l', P b := by
  have hall := mapM_ok_iff.mp h
  clear h
  induction hall with
  | nil => exact List.forall_mem_nil _
  | cons hb _ ih => exact List.forall_mem_cons.mpr ⟨hf _ _ hb, ih⟩

theorem mapM_eq_map {f : α → Except ε β} {l : List α} {l' : List β} (h : l.mapM f = .ok l') :
    l.map f = l'.map .ok := by
  have hall := mapM_ok_iff.mp h
  clear h
  induction hall with
  | nil => rfl
  | cons ha _ ih => rw [List.map_cons, List.map_cons, ha, ih]

/-- The error is that of one of the calls. -/
theorem mapM_error {f : α → Except ε β} {l : List α} {e : ε} (h : l.mapM f = .error e) :
    .error e ∈ l.map f := by
  induction l with
  | nil => cases h
  | cons a l ih =>
    rw [List.mapM_cons] at h
    cases ha : f a with
    | error e' =>
      obtain rfl : e' = e := by simpa [ha, bind, Except.bind] using h
      simp [ha]
    | ok b =>
      cases hl : l.mapM f with
      | error e' =>
        obtain rfl : e' = e := by simpa [ha, hl, bind, Except.bind] using h
        exact List.mem_cons_of_mem _ (ih hl)
      | ok bs => simp [ha, hl, bind, Except.bind, pure, Except.pure] at h

/-- What every call keeps stays the same along the list. -/
theorem mapM_map_eq {κ : Type} {f : α → Except ε β} {k : α → κ} {k' : β → κ} {l : List α}
    {l' : List β} (hf : ∀ a b, f a = .ok b → k' b = k a) (h : l.mapM f = .ok l') :
    l'.map k' = l.map k := by
  have hall := mapM_ok_iff.mp h
  clear h
  induction hall with
  | nil => rfl
  | cons ha _ ih => rw [List.map_cons, List.map_cons, hf _ _ ha, ih]

theorem mapM_getElem? {f : α → Except ε β} {l : List α} {l' : List β} {i : Nat} {b : β}
    (h : l.mapM f = .ok l') (hb : l'[i]? = some b) : ∃ a, l[i]? = some a ∧ f a = .ok b := by
  have hall := mapM_ok_iff.mp h
  clear h
  induction hall generalizing i with
  | nil => simp at hb
  | cons ha _ ih =>
    cases i with
    | zero =>
      obtain rfl := Option.some.inj hb
      exact ⟨_, rfl, ha⟩
    | succ i => exact ih hb

/-- What every step of a loop keeps holds at its end. -/
theorem foldlM_keeps {f : β → α → Except ε β} {P : β → Prop} {l : List α} {b b' : β}
    (hstep : ∀ b a b', P b → f b a = .ok b' → P b') (hb : P b) (h : l.foldlM f b = .ok b') :
    P b' := by
  induction l generalizing b with
  | nil =>
    cases h
    exact hb
  | cons a l ih =>
    rw [List.foldlM_cons, bind_ok] at h
    obtain ⟨b₁, hb₁, h⟩ := h
    exact ih (hstep b a b₁ hb hb₁) h

theorem forM_ok {f : α → Except ε Unit} {l : List α} (h : l.forM f = .ok ()) :
    ∀ a ∈ l, f a = .ok () := by
  induction l with
  | nil => exact List.forall_mem_nil _
  | cons a l ih =>
    obtain ⟨u, ha, hl⟩ := bind_ok.mp h
    exact List.forall_mem_cons.mpr ⟨ha, ih hl⟩

end Pewpew.Fallible
