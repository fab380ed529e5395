import Mathlib.Data.List.Basic
import Mathlib.Tactic.Common

/-! Generators that may loop before they yield, and the sequences that peeking consumers get. -/
namespace Pewpew.Generator

/-- What one round of the loop comes to. -/
inductive Round (σ ω ε : Type*) where
  | again (s : σ)
  | yield (w : ω) (s : σ)
  | fail (e : ε) (s : σ)

/-- The round of a generator whose states are those of another one. -/
def Round.map {σ τ ω ε : Type*} (f : σ → τ) : Round σ ω ε → Round τ ω ε
  | .again s => .again (f s)
  | .yield w s => .yield w (f s)
  | .fail e s => .fail e (f s)

/-- A generator with the item that has been peeked at. -/
structure Peekable (σ ω : Type*) where
  state : σ
  peeked : Option ω

inductive Op where
  | peek
  | next

variable {σ ω ε : Type*} (step : σ → Round σ ω ε)

/-- The loop; it is given up when the fuel is used up. -/
def pull : Nat → σ → Option (Except ε ω × σ)
  | 0, _ => none
  | fuel + 1, s =>
    match step s with
    | .again s => pull fuel s
    | .yield w s => some (.ok w, s)
    | .fail e s => some (.error e, s)

/-- All items up to the first error, and the error. -/
def collect : Nat → σ → Option (List ω × ε)
  | 0, _ => none
  | fuel + 1, s =>
    match step s with
    | .again s => collect fuel s
    | .yield w s => (collect fuel s).map fun (ws, e) => (w :: ws, e)
    | .fail e _ => some ([], e)

def Peekable.peek (fuel : Nat) (p : Peekable σ ω) : Option (Except ε ω × Peekable σ ω) :=
  match p.peeked with
  | some w => some (.ok w, p)
  | none => (pull step fuel p.state).map fun (r, s) => (r, ⟨s, r.toOption⟩)

def Peekable.next (fuel : Nat) (p : Peekable σ ω) : Option (Except ε ω × Peekable σ ω) :=
  (p.peek step fuel).map fun (r, p) => (r, ⟨p.state, none⟩)

/-- What the calls return up to the first error, which is `none`. -/
def run (fuel : Nat) : List Op → Peekable σ ω → Option (List (Option ω))
  | [], _ => some []
  | op :: ops, p =>
    match (match op with | .peek => p.peek step fuel | .next => p.next step fuel) with
    | none => none
    | some (.error _, _) => some [none]
    | some (.ok w, p) => (run fuel ops p).map (some w :: ·)

/-- What the calls return if the items are these, and an error follows. -/
def script : List ω → List Op → List (Option ω)
  | _, [] => []
  | [], _ :: _ => [none]
  | w :: es, .peek :: ops => some w :: script (w :: es) ops
  | w :: es, .next :: ops => some w :: script es ops

/-- Whatever the order of peeks and nexts is, exactly these items are delivered. -/
def Delivers (p : Peekable σ ω) (es : List ω) : Prop :=
  ∀ ops, ∃ bound, ∀ fuel, bound ≤ fuel → run step fuel ops p = some (script es ops)

/-- The rounds from one state to another, with all that they yield. -/
inductive Emits : σ → List ω → σ → Prop where
  | refl (s : σ) : Emits s [] s
  | again {s t u : σ} {es : List ω} : step s = .again t → Emits t es u → Emits s es u
  | yield {s t u : σ} {w : ω} {es : List ω} :
      step s = .yield w t → Emits t es u → Emits s (w :: es) u

variable {step} {s t u : σ} {es fs : List ω} {w : ω}

theorem Emits.trans (h : Emits step s es t) (h' : Emits step t fs u) :
    Emits step s (es ++ fs) u := by
  induction h with
  | refl => exact h'
  | again hs _ ih => exact .again hs (ih h')
  | yield hs _ ih => exact .yield hs (ih h')

theorem Emits.single (h : step s = .yield w t) : Emits step s [w] t := .yield h (.refl t)

theorem pull_again (h : step s = .again t) (fuel : Nat) :
    pull step (fuel + 1) s = pull step fuel t := by simp [pull, h]

/-- With enough fuel the loop gets to the next item. -/
theorem Emits.pull_cons (h : Emits step s (w :: es) t) :
    ∃ bound u, (∀ fuel, bound ≤ fuel → pull step fuel s = some (.ok w, u)) ∧
      Emits step u es t := by
  generalize hes : w :: es = all at h
  induction h with
  | refl => cases hes
  | again hs _ ih =>
    obtain ⟨bound, u, hpull, hrest⟩ := ih hes
    refine ⟨bound + 1, u, fun fuel hfuel => ?_, hrest⟩
    obtain ⟨fuel, rfl⟩ : ∃ f, fuel = f + 1 := ⟨fuel - 1, by omega⟩
    rw [pull_again hs]
    exact hpull fuel (by omega)
  | yield hs hrest _ =>
    obtain ⟨rfl, rfl⟩ := List.cons.inj hes
    refine ⟨1, _, fun fuel hfuel => ?_, hrest⟩
    obtain ⟨fuel, rfl⟩ : ∃ f, fuel = f + 1 := ⟨fuel - 1, by omega⟩
    simp [pull, hs]

/-- With enough fuel the loop gets to the error behind the last item. -/
theorem Emits.pull_nil (h : Emits step s [] t) {e : ε} {u : σ} (ht : step t = .fail e u) :
    ∃ bound, ∀ fuel, bound ≤ fuel → pull step fuel s = some (.error e, u) := by
  generalize hes : ([] : List ω) = all at h
  induction h with
  | refl s =>
    refine ⟨1, fun fuel hfuel => ?_⟩
    obtain ⟨fuel, rfl⟩ : ∃ f, fuel = f + 1 := ⟨fuel - 1, by omega⟩
    simp [pull, ht]
  | again hs _ ih =>
    obtain ⟨bound, hpull⟩ := ih ht hes
    refine ⟨bound + 1, fun fuel hfuel => ?_⟩
    obtain ⟨fuel, rfl⟩ : ∃ f, fuel = f + 1 := ⟨fuel - 1, by omega⟩
    rw [pull_again hs]
    exact hpull fuel (by omega)
  | yield => cases hes

/-- What is collected with some fuel is collected with more. -/
theorem collect_le {fuel fuel' : Nat} {r : List ω × ε} (h : collect step fuel s = some r)
    (hle : fuel ≤ fuel') : collect step fuel' s = some r := by
  induction fuel generalizing fuel' s r with
  | zero => simp [collect] at h
  | succ fuel ih =>
    obtain ⟨fuel', rfl⟩ : ∃ f, fuel' = f + 1 := ⟨fuel' - 1, by omega⟩
    simp only [collect] at h ⊢
    cases hs : step s with
    | again t =>
      rw [hs] at h
      exact ih h (by omega)
    | yield w t =>
      rw [hs] at h
      obtain ⟨q, hq, rfl⟩ := Option.map_eq_some_iff.mp h
      simp [ih hq (by omega : fuel ≤ fuel')]
    | fail e t =>
      rw [hs] at h
      exact h

/-- With enough fuel all items are collected. -/
theorem Emits.collects (h : Emits step s es t) {e : ε} {u : σ} (ht : step t = .fail e u) :
    ∃ bound, ∀ fuel, bound ≤ fuel → collect step fuel s = some (es, e) := by
  induction h with
  | refl s =>
    refine ⟨1, fun fuel hfuel => ?_⟩
    obtain ⟨fuel, rfl⟩ : ∃ f, fuel = f + 1 := ⟨fuel - 1, by omega⟩
    simp [collect, ht]
  | again hs _ ih =>
    obtain ⟨bound, hall⟩ := ih ht
    refine ⟨bound + 1, fun fuel hfuel => ?_⟩
    obtain ⟨fuel, rfl⟩ : ∃ f, fuel = f + 1 := ⟨fuel - 1, by omega⟩
    simpa [collect, hs] using hall fuel (by omega)
  | yield hs _ ih =>
    obtain ⟨bound, hall⟩ := ih ht
    refine ⟨bound + 1, fun fuel hfuel => ?_⟩
    obtain ⟨fuel, rfl⟩ : ∃ f, fuel = f + 1 := ⟨fuel - 1, by omega⟩
    simp [collect, hs, hall fuel (by omega)]

/-- The items that are still to come before an error, of which the first may have been peeked at. -/
def Ready (step : σ → Round σ ω ε) (p : Peekable σ ω) (es : List ω) : Prop :=
  ∃ rest t e u, Emits step p.state rest t ∧ step t = .fail e u ∧ p.peeked.toList ++ rest = es

/-- A peek shows the next item and leaves it there. -/
theorem Ready.peek_cons {p : Peekable σ ω} (h : Ready step p (w :: es)) :
    ∃ bound s, (∀ fuel, bound ≤ fuel → p.peek step fuel = some (.ok w, ⟨s, some w⟩)) ∧
      Ready step ⟨s, none⟩ es := by
  obtain ⟨rest, t, e, u, hemits, ht, hes⟩ := h
  obtain ⟨s, peeked⟩ := p
  cases peeked with
  | some w' =>
    obtain ⟨rfl, rfl⟩ := List.cons.inj hes
    exact ⟨0, s, fun _ _ => rfl, rest, t, e, u, hemits, ht, rfl⟩
  | none =>
    obtain rfl : rest = w :: es := hes
    obtain ⟨bound, v, hpull, hrest⟩ := hemits.pull_cons
    refine ⟨bound, v, fun fuel hfuel => ?_, es, t, e, u, hrest, ht, rfl⟩
    simp [Peekable.peek, hpull fuel hfuel, Except.toOption]

theorem Ready.peek_nil {p : Peekable σ ω} (h : Ready step p []) :
    ∃ bound e s, ∀ fuel, bound ≤ fuel → p.peek step fuel = some (.error e, ⟨s, none⟩) := by
  obtain ⟨rest, t, e, u, hemits, ht, hes⟩ := h
  obtain ⟨s, peeked⟩ := p
  obtain ⟨hpeeked, rfl⟩ := List.append_eq_nil_iff.mp hes
  obtain rfl : peeked = none := by simpa using hpeeked
  obtain ⟨bound, hpull⟩ := hemits.pull_nil ht
  refine ⟨bound, e, u, fun fuel hfuel => ?_⟩
  simp [Peekable.peek, hpull fuel hfuel, Except.toOption]

/-- All items are delivered, by induction on the calls. -/
theorem delivers_of_ready {p : Peekable σ ω} (h : Ready step p es) : Delivers step p es := by
  intro ops
  induction ops generalizing p es with
  | nil => exact ⟨0, fun _ _ => by simp [run, script]⟩
  | cons op ops ih =>
    cases es with
    | nil =>
      obtain ⟨bound, e, s, hpeek⟩ := h.peek_nil
      refine ⟨bound, fun fuel hfuel => ?_⟩
      cases op <;> simp [run, script, Peekable.next, hpeek fuel hfuel]
    | cons w es =>
      obtain ⟨bound, s, hpeek, hrest⟩ := h.peek_cons
      cases op with
      | peek =>
        obtain ⟨rest, t, e, u, hemits, ht, hes⟩ := hrest
        have hready : Ready step ⟨s, some w⟩ (w :: es) :=
          ⟨rest, t, e, u, hemits, ht, congrArg (w :: ·) hes⟩
        obtain ⟨bound', hrun⟩ := ih hready
        refine ⟨max bound bound', fun fuel hfuel => ?_⟩
        simp [run, script, hpeek fuel (by omega), hrun fuel (by omega)]
      | next =>
        obtain ⟨bound', hrun⟩ := ih hrest
        refine ⟨max bound bound', fun fuel hfuel => ?_⟩
        simp [run, script, Peekable.next, hpeek fuel (by omega), hrun fuel (by omega)]

theorem delivers_of_emits {e : ε} {u : σ} (h : Emits step s es t) (ht : step t = .fail e u) :
    Delivers step ⟨s, none⟩ es :=
  delivers_of_ready ⟨es, t, e, u, h, ht, rfl⟩

theorem script_replicate_next (es : List ω) {n : Nat} (hn : es.length < n) :
    script es (List.replicate n .next) = es.map some ++ [none] := by
  induction es generalizing n with
  | nil =>
    obtain ⟨n, rfl⟩ : ∃ k, n = k + 1 := ⟨n - 1, by omega⟩
    simp [List.replicate_succ, script]
  | cons w es ih =>
    obtain ⟨n, rfl⟩ : ∃ k, n = k + 1 := ⟨n - 1, by omega⟩
    have := ih (n := n) (by simpa using hn)
    simp [List.replicate_succ, script, this]

/-- A generator delivers one sequence only. -/
theorem Delivers.unique {p : Peekable σ ω} (h : Delivers step p es) (h' : Delivers step p fs) :
    es = fs := by
  obtain ⟨bound, hrun⟩ := h (List.replicate (es.length + fs.length + 1) .next)
  obtain ⟨bound', hrun'⟩ := h' (List.replicate (es.length + fs.length + 1) .next)
  have heq := (hrun (max bound bound') (by omega)).symm.trans (hrun' (max bound bound') (by omega))
  rw [Option.some.injEq, script_replicate_next es (by omega), script_replicate_next fs (by omega),
    List.append_cancel_right_eq] at heq
  exact List.map_injective_iff.mpr (fun _ _ h => Option.some.inj h) heq

end Pewpew.Generator
