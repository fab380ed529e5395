import Pewpew.Library.Peg

/-! What the matches of an expression take and give: rules of postconditions. -/
namespace Pewpew.Peg

variable {ρ τ α β : Type*} [DecidableEq α] {G : Grammar ρ τ α β} {a : Atomicity} {e e' : Expr ρ α}
  {n : Nat} {P Q R : List α → List β → Prop}

/-- What every match of an expression, by a run of at most `n` steps, takes and gives. -/
def Ensures (G : Grammar ρ τ α β) (n : Nat) (a : Atomicity) (e : Expr ρ α)
    (Q : List α → List β → Prop) : Prop :=
  ∀ k ≤ n, ∀ s m, G.run k a e s = some (some m) → ∃ w, s.rest = w ++ m.1.rest ∧ Q w m.2

/-- An expression gives no pairs. -/
abbrev Silent (G : Grammar ρ τ α β) (n : Nat) (a : Atomicity) (e : Expr ρ α) : Prop :=
  Ensures G n a e fun _ ps => ps = []

/-- The pairs of a text that is not too long. -/
abbrev Within (N : Nat) (R : List β → Prop) (w : List α) (pairs : List β) : Prop :=
  w.length ≤ N → R pairs

/-- A text and pairs in two parts. -/
def Both (P Q : List α → List β → Prop) (w : List α) (pairs : List β) : Prop :=
  ∃ v u ps qs, w = v ++ u ∧ pairs = ps ++ qs ∧ P v ps ∧ Q u qs

theorem Ensures.imp (h : Ensures G n a e P) (hPQ : ∀ w ps, P w ps → Q w ps) :
    Ensures G n a e Q := by
  intro k hk s m hm
  obtain ⟨w, hw, hP⟩ := h k hk s m hm
  exact ⟨w, hw, hPQ w m.2 hP⟩

theorem ensures_zero : Ensures G 0 a e Q := by
  intro k hk s m hm
  obtain rfl := Nat.le_zero.mp hk
  cases hm

theorem ensures_char {p : α → Bool} (hQ : ∀ c, p c → Q [c] []) : Ensures G n a (.char p) Q := by
  rintro (_ | k) hk s m hm
  · cases hm
  · obtain ⟨i, _ | ⟨c, t⟩, σ⟩ := s
    · simp at hm
    · by_cases hc : p c
      · simp only [Grammar.run, hc, if_true, Option.some.injEq] at hm
        subst hm
        exact ⟨[c], rfl, hQ c hc⟩
      · simp [hc] at hm

theorem literal_some {w : List α} {s : State α} {m : State α × List β}
    (h : Grammar.literal w s = some m) : s.rest = w ++ m.1.rest ∧ m.2 = [] := by
  rw [Grammar.literal] at h
  split at h
  · next hp =>
    obtain ⟨t, ht⟩ := List.isPrefixOf_iff_prefix.mp hp
    cases h
    exact ⟨by simp [State.advance, ← ht], rfl⟩
  · cases h

theorem ensures_text {w : List α} (hQ : Q w []) : Ensures G n a (.text w) Q := by
  rintro (_ | k) hk s m hm
  · cases hm
  · obtain ⟨hrest, hpairs⟩ := literal_some (Option.some.inj hm)
    exact ⟨w, hrest, hpairs ▸ hQ⟩

theorem ensures_andThen (h : Ensures G n a e P) (h' : Ensures G n a e' Q) :
    Ensures G n a (.andThen e e') (Both P Q) := by
  rintro (_ | k) hk s m hm
  · cases hm
  · obtain ⟨r, hr, hm⟩ := Option.bind_eq_some_iff.mp hm
    rcases r with _ | m₁
    · cases hm
    · obtain ⟨r, hr', hm⟩ := Option.map_eq_some_iff.mp hm
      obtain ⟨m₂, rfl, rfl⟩ := Option.map_eq_some_iff.mp hm
      obtain ⟨v, hv, hP⟩ := h k (by omega) s m₁ hr
      obtain ⟨u, hu, hQ⟩ := h' k (by omega) m₁.1 m₂ hr'
      exact ⟨v ++ u, by rw [hv, hu, List.append_assoc], v, u, _, _, rfl, rfl, hP, hQ⟩

theorem ensures_choice (h : Ensures G n a e Q) (h' : Ensures G n a e' Q) :
    Ensures G n a (.choice e e') Q := by
  rintro (_ | k) hk s m hm
  · cases hm
  · obtain ⟨r, hr, hm⟩ := Option.bind_eq_some_iff.mp hm
    rcases r with _ | m₁
    · exact h' k (by omega) s m hm
    · cases hm
      exact h k (by omega) s _ hr

/-- What holds of nothing, and of a match and what is after it, holds of a repetition. -/
theorem ensures_rep (h : Ensures G n a e P) (hnil : Q [] [])
    (hcons : ∀ w ps, Both P Q w ps → Q w ps) : Ensures G n a (.rep e) Q := by
  intro k
  induction k with
  | zero => exact fun hk s m hm => by cases hm
  | succ k ih =>
    intro hk s m hm
    obtain ⟨r, hr, hm⟩ := Option.bind_eq_some_iff.mp hm
    rcases r with _ | m₁
    · cases hm
      exact ⟨[], rfl, hnil⟩
    · obtain ⟨r, hr', hm⟩ := Option.map_eq_some_iff.mp hm
      obtain ⟨m₂, rfl, rfl⟩ := Option.map_eq_some_iff.mp hm
      obtain ⟨v, hv, hP⟩ := h k (by omega) s m₁ hr
      obtain ⟨u, hu, hQ⟩ := ih (by omega) m₁.1 m₂ hr'
      exact ⟨v ++ u, by rw [hv, hu, List.append_assoc], hcons _ _ ⟨v, u, _, _, rfl, rfl, hP, hQ⟩⟩

theorem ensures_not (hQ : Q [] []) : Ensures G n a (.not e) Q := by
  rintro (_ | k) hk s m hm
  · cases hm
  · obtain ⟨r, hr, hm⟩ := Option.map_eq_some_iff.mp hm
    rcases r with _ | m₁
    · cases hm
      exact ⟨[], rfl, hQ⟩
    · cases hm

theorem ensures_start (hQ : Q [] []) : Ensures G n a .start Q := by
  rintro (_ | k) hk s m hm
  · cases hm
  · by_cases hs : s.seen = 0
    · simp only [Grammar.run, hs, if_true, Option.some.injEq] at hm
      subst hm
      exact ⟨[], rfl, hQ⟩
    · simp [hs] at hm

theorem ensures_finish (hQ : Q [] []) : Ensures G n a .finish Q := by
  rintro (_ | k) hk s m hm
  · cases hm
  · by_cases hs : s.rest.isEmpty
    · simp only [Grammar.run, hs, if_true, Option.some.injEq] at hm
      subst hm
      exact ⟨[], rfl, hQ⟩
    · simp [hs] at hm

theorem ensures_push (h : Ensures G n a e Q) : Ensures G n a (.push e) Q := by
  rintro (_ | k) hk s m hm
  · cases hm
  · obtain ⟨r, hr, hm⟩ := Option.map_eq_some_iff.mp hm
    obtain ⟨m₁, rfl, rfl⟩ := Option.map_eq_some_iff.mp hm
    exact h k (by omega) s m₁ hr

theorem ensures_peek (hQ : ∀ w, Q w []) : Ensures G n a .peek Q := by
  rintro (_ | k) hk s m hm
  · cases hm
  · obtain ⟨w, hw, hm⟩ := Option.map_eq_some_iff.mp hm
    obtain ⟨hrest, hpairs⟩ := literal_some hm
    exact ⟨w, hrest, by rw [hpairs]; exact hQ w⟩

theorem ensures_pop (hQ : ∀ w, Q w []) : Ensures G n a .pop Q := by
  rintro (_ | k) hk s m hm
  · cases hm
  · obtain ⟨w, hw, hm⟩ := Option.map_eq_some_iff.mp hm
    obtain ⟨m₁, hm₁, rfl⟩ := Option.map_eq_some_iff.mp hm
    obtain ⟨hrest, hpairs⟩ := literal_some hm₁
    exact ⟨w, hrest, by rw [hpairs]; exact hQ w⟩

theorem ensures_skip (h : Ensures G n .atomic (.rule G.whitespace) P) (hnil : Q [] [])
    (hcons : ∀ w ps, Both P Q w ps → Q w ps) : Ensures G n a .skip Q := by
  rintro (_ | k) hk s m hm
  · cases hm
  · by_cases ha : a = .nonAtomic
    · simp only [Grammar.run, ha, if_true] at hm
      exact ensures_rep h hnil hcons k (by omega) s m hm
    · simp only [Grammar.run, ha, if_false, Option.some.injEq] at hm
      subst hm
      exact ⟨[], rfl, hnil⟩

/-- What a rule takes and gives, when its body does. -/
def Labelled (G : Grammar ρ τ α β) (r : ρ) (a : Atomicity) (Q : List α → List β → Prop)
    (w : List α) (pairs : List β) : Prop :=
  match (G.kind r).label a with
  | some l => ∃ ps, pairs = [G.pair l w ps] ∧ Q w ps
  | none => Q w pairs

theorem ensures_rule {r : ρ} (h : Ensures G n ((G.kind r).inside a) (G.body r) Q) :
    Ensures G (n + 1) a (.rule r) (Labelled G r a Q) := by
  rintro (_ | k) hk s m hm
  · cases hm
  · obtain ⟨o, hr, hm⟩ := Option.map_eq_some_iff.mp hm
    obtain ⟨m₁, rfl, rfl⟩ := Option.map_eq_some_iff.mp hm
    obtain ⟨w, hw, hQ⟩ := h k (by omega) s m₁ hr
    unfold Grammar.leave Labelled
    cases (G.kind r).label a with
    | some l => exact ⟨w, hw, m₁.2, by simp [State.taken, hw], hQ⟩
    | none => exact ⟨w, hw, hQ⟩

/-- Rules keep to their specifications when each body does, as long as the rules in it do: by
induction on the length of the run. -/
theorem ensures_rules {S : ρ → Atomicity → List α → List β → Prop}
    (h : ∀ n, (∀ r a, Ensures G n a (.rule r) (Labelled G r a (S r a))) →
      ∀ r a, Ensures G n ((G.kind r).inside a) (G.body r) (S r a)) (n : Nat) :
    ∀ r a, Ensures G n a (.rule r) (Labelled G r a (S r a)) := by
  induction n with
  | zero => exact fun r a => ensures_zero
  | succ n ih => exact fun r a => ensures_rule (h n ih r a)

theorem ensures_rule_of {r : ρ} {l : τ} (h : Ensures G n a (.rule r) (Labelled G r a P))
    (hl : (G.kind r).label a = some l) (hQ : ∀ w ps, P w ps → Q w [G.pair l w ps]) :
    Ensures G n a (.rule r) Q := by
  refine h.imp fun w ps hp => ?_
  rw [Labelled, hl] at hp
  obtain ⟨qs, rfl, hP⟩ := hp
  exact hQ w qs hP

theorem ensures_silent {r : ρ} (h : Ensures G n a (.rule r) (Labelled G r a P))
    (hl : (G.kind r).label a = none) : Ensures G n a (.rule r) P := by
  refine h.imp fun w ps hp => ?_
  rwa [Labelled, hl] at hp

section Blanks

variable (hws : Silent G n .atomic (.rule G.whitespace))
include hws

/-- Blanks give no pairs. -/
theorem ensures_blanks : Silent G n a .skip := by
  refine ensures_skip hws rfl ?_
  rintro w ps ⟨v, u, ps, qs, rfl, rfl, rfl, rfl⟩
  rfl

theorem ensures_seq (h : Ensures G n a e P) (h' : Ensures G n a e' Q)
    (hR : ∀ v t u ps qs, P v ps → Q u qs → R (v ++ (t ++ u)) (ps ++ qs)) :
    Ensures G n a (.seq e e') R := by
  refine (ensures_andThen h (ensures_andThen (ensures_blanks hws) h')).imp ?_
  rintro w ps ⟨v, u', ps, qs, rfl, rfl, hP, t, u, ps', qs, rfl, rfl, rfl, hQ⟩
  exact hR v t u ps qs hP hQ

theorem ensures_star (h : Ensures G n a e P) (hnil : Q [] [])
    (hcons : ∀ t v u ps qs, P v ps → Q u qs → Q (t ++ (v ++ u)) (ps ++ qs)) :
    Ensures G n a (.star e) Q := by
  have hrep : Ensures G n a (.rep (.andThen .skip e)) Q := by
    refine ensures_rep (ensures_andThen (ensures_blanks hws) h) hnil ?_
    rintro w ps ⟨v', u, ps', qs, rfl, rfl, ⟨t, v, ps₀, ps, rfl, rfl, rfl, hP⟩, hQ⟩
    rw [List.append_assoc]
    exact hcons t v u ps qs hP hQ
  refine ensures_choice ((ensures_andThen h hrep).imp ?_) (ensures_text hnil)
  rintro w ps ⟨v, u, ps, qs, rfl, rfl, hP, hQ⟩
  exact hcons [] v u ps qs hP hQ

section Within

variable {N : Nat} {S T : List β → Prop}

/-- The pairs of a match go before those of the next one. -/
theorem ensures_append (h : Ensures G n a e (Within N fun ps => ∀ qs, T qs → S (ps ++ qs)))
    (h' : Ensures G n a e' (Within N T)) : Ensures G n a (.seq e e') (Within N S) := by
  refine ensures_seq hws h h' ?_
  intro v t u ps qs hp hq hle
  simp only [List.length_append] at hle
  exact hp (by omega) qs (hq (by omega))

theorem ensures_after (h : Silent G n a e) (h' : Ensures G n a e' (Within N T)) :
    Ensures G n a (.seq e e') (Within N T) := by
  refine ensures_seq hws h h' ?_
  rintro v t u ps qs rfl hq hle
  simp only [List.length_append] at hle
  exact hq (by omega)

theorem ensures_before (h : Ensures G n a e (Within N T)) (h' : Silent G n a e') :
    Ensures G n a (.seq e e') (Within N T) := by
  refine ensures_seq hws h h' ?_
  rintro v t u ps qs hp rfl hle
  simp only [List.length_append] at hle
  rw [List.append_nil]
  exact hp (by omega)

/-- A repetition gives the pairs of its matches one after another. -/
theorem ensures_list (hnil : T [])
    (h : Ensures G n a e (Within N fun ps => ∀ qs, T qs → T (ps ++ qs))) :
    Ensures G n a (.star e) (Within N T) := by
  refine ensures_star hws h (fun _ => hnil) ?_
  intro t v u ps qs hp hq hle
  simp only [List.length_append] at hle
  exact hp (by omega) qs (hq (by omega))

end Within

theorem Silent.seq (h : Silent G n a e) (h' : Silent G n a e') : Silent G n a (.seq e e') :=
  ensures_seq hws h h' fun _ _ _ _ _ hp hq => List.append_eq_nil_iff.mpr ⟨hp, hq⟩

theorem Silent.star (h : Silent G n a e) : Silent G n a (.star e) :=
  ensures_star hws h rfl fun _ _ _ _ _ hp hq => List.append_eq_nil_iff.mpr ⟨hp, hq⟩

theorem Silent.plus (h : Silent G n a e) : Silent G n a (.plus e) :=
  Silent.seq hws h (Silent.star hws h)

end Blanks

theorem ensures_opt (h : Ensures G n a e Q) (hnil : Q [] []) : Ensures G n a (.opt e) Q :=
  ensures_choice h (ensures_text hnil)

theorem ensures_texts {ws : List (List α)} (hQ : ∀ w ∈ ws, Q w []) :
    Ensures G n a (.texts ws) Q := by
  induction ws with
  | nil => exact ensures_char fun c hc => by cases hc
  | cons w ws ih =>
    have hw := ensures_text (G := G) (n := n) (a := a) (hQ w (by simp))
    cases ws with
    | nil => exact hw
    | cons w' ws => exact ensures_choice hw (ih fun v hv => hQ v (List.mem_cons_of_mem w hv))

/-- A match takes a text from the front of what is left. -/
theorem ensures_trivial (n : Nat) (a : Atomicity) (e : Expr ρ α) (hQ : ∀ w ps, Q w ps) :
    Ensures G n a e Q := by
  suffices h : Ensures G n a e fun _ _ => True from h.imp fun w ps _ => hQ w ps
  induction n generalizing a e with
  | zero => exact ensures_zero
  | succ n ih =>
    have hrule (r : ρ) (a : Atomicity) : Ensures G (n + 1) a (.rule r) fun _ _ => True :=
      (ensures_rule (ih _ _)).imp fun _ _ _ => trivial
    induction e with
    | char p => exact ensures_char fun _ _ => trivial
    | text w => exact ensures_text trivial
    | andThen e e' he he' => exact (ensures_andThen he he').imp fun _ _ _ => trivial
    | choice e e' he he' => exact ensures_choice he he'
    | rep e he => exact ensures_rep he trivial fun _ _ _ => trivial
    | not e he => exact ensures_not trivial
    | rule r => exact hrule r a
    | skip => exact ensures_skip (hrule _ _) trivial fun _ _ _ => trivial
    | push e he => exact ensures_push he
    | peek => exact ensures_peek fun _ => trivial
    | pop => exact ensures_pop fun _ => trivial
    | start => exact ensures_start trivial
    | finish => exact ensures_finish trivial

end Pewpew.Peg
