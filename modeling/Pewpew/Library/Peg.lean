import Mathlib.Data.List.Basic

/-! Parsing expression grammars with implicit whitespace, a stack, and rules that give pairs. -/
namespace Pewpew.Peg

/-- Whether whitespace is skipped between the parts of a sequence, and whether rules give pairs. -/
inductive Atomicity where
  | nonAtomic | compound | atomic
  deriving DecidableEq

/-- What a rule does to the atomicity inside it, and the label of its pairs. -/
inductive Kind (τ : Type*) where
  | silent
  | normal (label : τ)
  | atomic (label : τ)
  | compound (label : τ)
  | nonAtomic (label : τ)

inductive Expr (ρ α : Type*) where
  | char (p : α → Bool)
  | text (w : List α)
  | andThen (e e' : Expr ρ α)
  | choice (e e' : Expr ρ α)
  | rep (e : Expr ρ α)
  | not (e : Expr ρ α)
  | rule (r : ρ)
  | skip
  | push (e : Expr ρ α)
  | peek
  | pop
  | start
  | finish

variable {ρ τ α β : Type*}

namespace Expr

/-- `~`. -/
def seq (e e' : Expr ρ α) : Expr ρ α := .andThen e (.andThen .skip e')

/-- `?`. -/
def opt (e : Expr ρ α) : Expr ρ α := .choice e (.text [])

/-- `*`. -/
def star (e : Expr ρ α) : Expr ρ α := opt (.andThen e (.rep (.andThen .skip e)))

/-- `+`. -/
def plus (e : Expr ρ α) : Expr ρ α := seq e (star e)

/-- `|`, of several texts. -/
def texts : List (List α) → Expr ρ α
  | [] => .char fun _ => false
  | [w] => .text w
  | w :: ws => .choice (.text w) (texts ws)

end Expr

/-- The rules, and the one for whitespace; a pair is made of a label, a text and its inner pairs. -/
structure Grammar (ρ τ α β : Type*) where
  kind : ρ → Kind τ
  body : ρ → Expr ρ α
  whitespace : ρ
  pair : τ → List α → List β → β

/-- How much has been taken, what is left, and the texts that have been pushed. -/
structure State (α : Type*) where
  seen : Nat
  rest : List α
  stack : List (List α)

/-- Where an expression ends, with its pairs, if it matches. -/
abbrev Result (α β : Type*) := Option (State α × List β)

namespace Kind

def inside : Kind τ → Atomicity → Atomicity
  | silent, a | normal _, a => a
  | atomic _, _ => .atomic
  | compound _, _ => .compound
  | nonAtomic _, _ => .nonAtomic

/-- The label of the pair that a rule gives, if it gives one. -/
def label : Kind τ → Atomicity → Option τ
  | silent, _ => none
  | normal l, a | atomic l, a => if a = .atomic then none else some l
  | compound l, _ | nonAtomic l, _ => some l

end Kind

namespace State

def advance (s : State α) (n : Nat) : State α := ⟨s.seen + n, s.rest.drop n, s.stack⟩

/-- The text between two states. -/
def taken (s s' : State α) : List α := s.rest.take (s.rest.length - s'.rest.length)

end State

namespace Grammar

variable [DecidableEq α] (G : Grammar ρ τ α β)

/-- The pairs of a rule, with those inside it. -/
def leave (r : ρ) (a : Atomicity) (s : State α) (m : State α × List β) : State α × List β :=
  match (G.kind r).label a with
  | some l => (m.1, [G.pair l (s.taken m.1) m.2])
  | none => m

/-- A text at the start of what is left. -/
def literal (w : List α) (s : State α) : Result α β :=
  if w.isPrefixOf s.rest then some (s.advance w.length, []) else none

/-- A second match after a first one. -/
def joined (pairs : List β) (r : Result α β) : Result α β := r.map fun m => (m.1, pairs ++ m.2)

omit [DecidableEq α] in
@[simp] theorem joined_nil (r : Result α β) : joined [] r = r := by
  cases r <;> rfl

/-- The result of an expression, unless the fuel or the stack is too small for it. -/
@[simp] def run : (fuel : Nat) → Atomicity → Expr ρ α → State α → Option (Result α β)
  | 0, _, _, _ => none
  | n + 1, a, e, s =>
    match e with
    | .char p => some <| match s.rest with
      | c :: _ => if p c then some (s.advance 1, []) else none
      | [] => none
    | .text w => some (literal w s)
    | .andThen e e' => (run n a e s).bind fun
      | some m => (run n a e' m.1).map (joined m.2)
      | none => some none
    | .choice e e' => (run n a e s).bind fun
      | some m => some (some m)
      | none => run n a e' s
    | .rep e => (run n a e s).bind fun
      | some m => (run n a (.rep e) m.1).map (joined m.2)
      | none => some (some (s, []))
    | .not e => (run n a e s).map fun
      | some _ => none
      | none => some (s, [])
    | .rule r => (run n ((G.kind r).inside a) (G.body r) s).map (Option.map (G.leave r a s))
    | .skip =>
      if a = .nonAtomic then run n .atomic (.rep (.rule G.whitespace)) s else some (some (s, []))
    | .push e => (run n a e s).map (Option.map fun m =>
        ({ m.1 with stack := s.taken m.1 :: m.1.stack }, m.2))
    | .peek => s.stack.head?.map fun w => literal w s
    | .pop => s.stack.head?.map fun w =>
        (literal w s).map fun m => ({ m.1 with stack := m.1.stack.tail }, m.2)
    | .start => some (if s.seen = 0 then some (s, []) else none)
    | .finish => some (if s.rest.isEmpty then some (s, []) else none)

/-- An expression comes to a result. -/
def Gives (a : Atomicity) (e : Expr ρ α) (s : State α) (r : Result α β) : Prop :=
  ∃ n, G.run n a e s = some r

end Grammar

section Rules

variable [DecidableEq α] {G : Grammar ρ τ α β} {a : Atomicity} {e e' : Expr ρ α} {s : State α}
  {m : State α × List β} {r r' : Result α β} {n n' : Nat}

open Grammar

/-- More fuel changes no result. -/
theorem run_succ (h : G.run n a e s = some r) : G.run (n + 1) a e s = some r := by
  induction n generalizing a e s r with
  | zero => simp at h
  | succ n ih =>
    cases e <;> simp only [run] at h ⊢
    case char | text | start | finish | peek | pop => exact h
    case skip =>
      split at h
      · rw [if_pos ‹_›]
        exact ih h
      · rw [if_neg ‹_›]
        exact h
    case not | push | rule =>
      obtain ⟨m, hm, rfl⟩ := Option.map_eq_some_iff.mp h
      exact Option.map_eq_some_iff.mpr ⟨m, ih hm, rfl⟩
    case andThen | rep =>
      obtain ⟨m, hm, hr⟩ := Option.bind_eq_some_iff.mp h
      refine Option.bind_eq_some_iff.mpr ⟨m, ih hm, ?_⟩
      cases m with
      | none => exact hr
      | some m =>
        obtain ⟨m', hm', rfl⟩ := Option.map_eq_some_iff.mp hr
        exact Option.map_eq_some_iff.mpr ⟨m', ih hm', rfl⟩
    case choice =>
      obtain ⟨m, hm, hr⟩ := Option.bind_eq_some_iff.mp h
      refine Option.bind_eq_some_iff.mpr ⟨m, ih hm, ?_⟩
      cases m with
      | none => exact ih hr
      | some m => exact hr

theorem run_mono (hn : n ≤ n') (h : G.run n a e s = some r) : G.run n' a e s = some r := by
  induction hn with
  | refl => exact h
  | step _ ih => exact run_succ ih

/-- An expression has one result: no later alternative is tried once one has matched. -/
theorem Grammar.Gives.unique (h : G.Gives a e s r) (h' : G.Gives a e s r') : r = r' := by
  obtain ⟨n, hn⟩ := h
  obtain ⟨n', hn'⟩ := h'
  have hmax := run_mono (Nat.le_max_left n n') hn
  rw [run_mono (Nat.le_max_right n n') hn'] at hmax
  exact (Option.some.inj hmax).symm

/-! ### One lemma for each way an expression can end -/

theorem gives_char_none {p : α → Bool} (h : ∀ c ∈ s.rest.head?, p c = false) :
    G.Gives a (.char p) s none :=
  ⟨1, by cases hs : s.rest <;> simp_all⟩

theorem gives_text {k : Nat} {σ : List (List α)} (w t : List α) :
    G.Gives a (.text w) ⟨k, w ++ t, σ⟩ (some (⟨k + w.length, t, σ⟩, [])) :=
  ⟨1, by simp [literal, State.advance]⟩

theorem gives_text_none {w : List α} (h : ¬ w <+: s.rest) : G.Gives a (.text w) s none :=
  ⟨1, by simp [literal, h]⟩

theorem gives_andThen (h : G.Gives a e s (some m)) (h' : G.Gives a e' m.1 r) :
    G.Gives a (.andThen e e') s (joined m.2 r) := by
  obtain ⟨n, hn⟩ := h
  obtain ⟨n', hn'⟩ := h'
  exact ⟨max n n' + 1, by
    simp [run_mono (Nat.le_max_left n n') hn, run_mono (Nat.le_max_right n n') hn']⟩

theorem gives_andThen_none (h : G.Gives a e s none) : G.Gives a (.andThen e e') s none := by
  obtain ⟨n, hn⟩ := h
  exact ⟨n + 1, by simp [hn]⟩

theorem gives_left (h : G.Gives a e s (some m)) : G.Gives a (.choice e e') s (some m) := by
  obtain ⟨n, hn⟩ := h
  exact ⟨n + 1, by simp [hn]⟩

theorem gives_right (h : G.Gives a e s none) (h' : G.Gives a e' s r) :
    G.Gives a (.choice e e') s r := by
  obtain ⟨n, hn⟩ := h
  obtain ⟨n', hn'⟩ := h'
  exact ⟨max n n' + 1, by
    simp [run_mono (Nat.le_max_left n n') hn, run_mono (Nat.le_max_right n n') hn']⟩

theorem gives_rep_none (h : G.Gives a e s none) : G.Gives a (.rep e) s (some (s, [])) := by
  obtain ⟨n, hn⟩ := h
  exact ⟨n + 1, by simp [hn]⟩

theorem gives_rep_some (h : G.Gives a e s (some m)) (h' : G.Gives a (.rep e) m.1 r) :
    G.Gives a (.rep e) s (joined m.2 r) := by
  obtain ⟨n, hn⟩ := h
  obtain ⟨n', hn'⟩ := h'
  exact ⟨max n n' + 1, by
    simp [run_mono (Nat.le_max_left n n') hn, run_mono (Nat.le_max_right n n') hn']⟩

theorem gives_rule {q : ρ} (h : G.Gives ((G.kind q).inside a) (G.body q) s r) :
    G.Gives a (.rule q) s (r.map (G.leave q a s)) := by
  obtain ⟨n, hn⟩ := h
  exact ⟨n + 1, by simp [hn]⟩

theorem gives_skip (h : G.Gives .atomic (.rep (.rule G.whitespace)) s r) :
    G.Gives .nonAtomic .skip s r := by
  obtain ⟨n, hn⟩ := h
  exact ⟨n + 1, by simp [hn]⟩

/-- Nothing is skipped inside an atomic rule. -/
theorem gives_skip_inside (h : a ≠ .nonAtomic) : G.Gives a .skip s (some (s, [])) :=
  ⟨1, by simp [h]⟩

theorem gives_start (h : s.seen = 0) : G.Gives a .start s (some (s, [])) := ⟨1, by simp [h]⟩

theorem gives_finish (h : s.rest = []) : G.Gives a .finish s (some (s, [])) := ⟨1, by simp [h]⟩

theorem gives_finish_none (h : s.rest ≠ []) : G.Gives a .finish s none := ⟨1, by simp [h]⟩

/-! ### Sequences, repetitions and alternatives of texts -/

theorem gives_seq {s' : State α} (h : G.Gives a e s (some m))
    (hskip : G.Gives a .skip m.1 (some (s', []))) (h' : G.Gives a e' s' r) :
    G.Gives a (.seq e e') s (joined m.2 r) := by
  have hsecond : G.Gives a (.andThen .skip e') m.1 (joined [] r) := gives_andThen hskip h'
  rw [joined_nil] at hsecond
  exact gives_andThen h hsecond

theorem gives_star_none (h : G.Gives a e s none) : G.Gives a (.star e) s (some (s, [])) := by
  have hempty : G.Gives a (.text []) s (some (s, [])) := gives_text [] s.rest
  exact gives_right (gives_andThen_none h) hempty

theorem gives_texts_none {ws : List (List α)} (h : ∀ w ∈ ws, ¬ w <+: s.rest) :
    G.Gives a (.texts ws) s none := by
  induction ws with
  | nil => exact gives_char_none (by simp)
  | cons w ws ih =>
    have hw := gives_text_none (G := G) (a := a) (h w (by simp))
    cases ws with
    | nil => exact hw
    | cons w' ws => exact gives_right hw (ih fun v hv => h v (List.mem_cons_of_mem w hv))

/-- The first of the texts that is at the start of what is left. -/
theorem gives_texts (ws ws' : List (List α)) {k : Nat} {σ : List (List α)} {w t : List α}
    (h : ∀ v ∈ ws, ¬ v <+: w ++ t) :
    G.Gives a (.texts (ws ++ w :: ws')) ⟨k, w ++ t, σ⟩ (some (⟨k + w.length, t, σ⟩, [])) := by
  induction ws with
  | nil =>
    cases ws' with
    | nil => exact gives_text w t
    | cons w' ws' => exact gives_left (gives_text w t)
  | cons v ws ih =>
    have hrest := ih fun u hu => h u (List.mem_cons_of_mem v hu)
    have hv := gives_text_none (G := G) (a := a) (s := ⟨k, w ++ t, σ⟩) (h v (by simp))
    cases ws with
    | nil => exact gives_right hv hrest
    | cons v' ws => exact gives_right hv hrest

/-! ### Classes of characters -/

/-- What an expression does that takes one character of a class. -/
def one (p : α → Bool) (s : State α) : Result α β :=
  match s.rest with
  | c :: _ => if p c then some (s.advance 1, []) else none
  | [] => none

/-- An expression takes one character of a class. -/
def TakesOne (G : Grammar ρ τ α β) (a : Atomicity) (e : Expr ρ α) (p : α → Bool) : Prop :=
  ∀ s, G.Gives a e s (one p s)

variable {p p' : α → Bool} {k : Nat} {σ : List (List α)} {c : α} {w t : List α}

omit [DecidableEq α] in
@[simp] theorem one_cons :
    one p ⟨k, c :: t, σ⟩ = if p c then some (⟨k + 1, t, σ⟩, ([] : List β)) else none := rfl

theorem takesOne_char : TakesOne G a (.char p) p := by
  intro s
  refine ⟨1, ?_⟩
  cases h : s.rest <;> simp [one, h]

theorem takesOne_text (c : α) : TakesOne G a (.text [c]) (c == ·) := by
  intro s
  refine ⟨1, ?_⟩
  cases h : s.rest <;> simp [one, literal, h]

theorem takesOne_choice (h : TakesOne G a e p) (h' : TakesOne G a e' p') :
    TakesOne G a (.choice e e') fun c => p c || p' c := by
  rintro ⟨k, _ | ⟨c, t⟩, σ⟩
  · exact gives_right (h _) (h' _)
  · have hp := h ⟨k, c :: t, σ⟩
    have hp' := h' ⟨k, c :: t, σ⟩
    cases hc : p c <;> simp only [one_cons, hc, Bool.true_or, Bool.false_or] at hp hp' ⊢
    · exact gives_right hp hp'
    · exact gives_left hp

/-- A silent rule gives what its body gives. -/
theorem gives_silent {q : ρ} (hq : G.kind q = .silent) (h : G.Gives a (G.body q) s r) :
    G.Gives a (.rule q) s r := by
  have hleave : r.map (G.leave q a s) = r := by
    cases r <;> simp [leave, hq, Kind.label]
  rw [← hleave]
  exact gives_rule (by rwa [hq])

/-- A rule with a label gives one pair, with the text it takes. -/
theorem gives_pair {q : ρ} {l : τ} {s' : State α} {inner : List β}
    (hl : (G.kind q).label a = some l)
    (h : G.Gives ((G.kind q).inside a) (G.body q) ⟨k, w ++ t, σ⟩ (some (s', inner)))
    (hs : s'.rest = t) :
    G.Gives a (.rule q) ⟨k, w ++ t, σ⟩ (some (s', [G.pair l w inner])) := by
  subst hs
  have hrule := gives_rule h
  simpa [leave, hl, State.taken] using hrule

theorem gives_rule_none {q : ρ} (h : G.Gives ((G.kind q).inside a) (G.body q) s none) :
    G.Gives a (.rule q) s none :=
  gives_rule h

theorem takesOne_rule {q : ρ} (hq : G.kind q = .silent) (h : TakesOne G a (G.body q) p) :
    TakesOne G a (.rule q) p :=
  fun s => gives_silent hq (h s)

theorem TakesOne.some (he : TakesOne G a e p) (hc : p c) :
    G.Gives a e ⟨k, c :: t, σ⟩ (some (⟨k + 1, t, σ⟩, [])) := by
  have h := he ⟨k, c :: t, σ⟩
  rwa [one_cons, if_pos hc] at h

theorem TakesOne.none (he : TakesOne G a e p) (ht : ∀ c ∈ t.head?, p c = false) :
    G.Gives a e ⟨k, t, σ⟩ none := by
  have h := he ⟨k, t, σ⟩
  cases t with
  | nil => exact h
  | cons c t => rwa [one_cons, ht c rfl] at h

omit [DecidableEq α] in
/-- The longest run of a class at the start of a text. -/
theorem exists_run (p : α → Bool) (w : List α) :
    ∃ v t, w = v ++ t ∧ (∀ c ∈ v, p c) ∧ ∀ c ∈ t.head?, p c = false := by
  induction w with
  | nil => exact ⟨[], [], rfl, by simp, by simp⟩
  | cons c w ih =>
    cases hc : p c with
    | false => exact ⟨[], c :: w, rfl, by simp, by simp [hc]⟩
    | true =>
      obtain ⟨v, t, rfl, hv, ht⟩ := ih
      exact ⟨c :: v, t, rfl, by simpa [hc] using hv, ht⟩

section Run

variable (he : TakesOne G a e p) (ha : a ≠ .nonAtomic) (hw : ∀ c ∈ w, p c)
  (ht : ∀ c ∈ t.head?, p c = false)
include he ha hw ht

theorem gives_rep :
    G.Gives a (.rep (.andThen .skip e)) ⟨k, w ++ t, σ⟩ (some (⟨k + w.length, t, σ⟩, [])) := by
  induction w generalizing k with
  | nil => exact gives_rep_none (gives_andThen (gives_skip_inside ha) (he.none ht))
  | cons c w ih =>
    obtain ⟨hc, hw⟩ := List.forall_mem_cons.mp hw
    have hstep : G.Gives a (.andThen .skip e) ⟨k, c :: (w ++ t), σ⟩
        (some (⟨k + 1, w ++ t, σ⟩, [])) := gives_andThen (gives_skip_inside ha) (he.some hc)
    have hrun := gives_rep_some hstep (ih hw)
    rwa [joined_nil, Nat.add_right_comm] at hrun

/-- A repetition takes as many characters of the class as there are. -/
theorem gives_star :
    G.Gives a (.star e) ⟨k, w ++ t, σ⟩ (some (⟨k + w.length, t, σ⟩, [])) := by
  cases w with
  | nil => exact gives_star_none (he.none ht)
  | cons c w =>
    obtain ⟨hc, hw⟩ := List.forall_mem_cons.mp hw
    have hrest : G.Gives a (.andThen e (.rep (.andThen .skip e))) ⟨k, c :: (w ++ t), σ⟩
        (some (⟨k + 1 + w.length, t, σ⟩, [])) :=
      gives_andThen (he.some hc) (gives_rep he ha hw ht)
    rw [Nat.add_right_comm] at hrest
    exact gives_left hrest

end Run

theorem gives_plus (he : TakesOne G a e p) (ha : a ≠ .nonAtomic) (hc : p c) (hw : ∀ c ∈ w, p c)
    (ht : ∀ c ∈ t.head?, p c = false) :
    G.Gives a (.plus e) ⟨k, c :: w ++ t, σ⟩ (some (⟨k + (c :: w).length, t, σ⟩, [])) := by
  have hall : G.Gives a (.plus e) ⟨k, c :: (w ++ t), σ⟩ (some (⟨k + 1 + w.length, t, σ⟩, [])) :=
    gives_seq (he.some hc) (gives_skip_inside ha) (gives_star he ha hw ht)
  rwa [Nat.add_right_comm] at hall

end Rules

end Pewpew.Peg
