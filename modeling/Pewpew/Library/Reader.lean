import Mathlib.Data.List.Basic

/-! Readers: what is read from the front of a list of tokens. -/
namespace Pewpew

/-- A reader takes some tokens, at least one; what it makes of them does not depend on what follows
them. `stop` is the failure at the end of the tokens, and a failure that is not like it does not
depend on what follows them either. -/
@[ext]
structure Reader (τ φ α : Type) [Setoid φ] where
  run : (stop : φ) → List τ → Except φ (α × List τ)
  reads : ∀ {stop ts v rest}, run stop ts = .ok (v, rest) →
    ∃ used, used ≠ [] ∧ ts = used ++ rest ∧
      ∀ stop' rest', run stop' (used ++ rest') = .ok (v, rest')
  fails : ∀ {stop ts e}, run stop ts = .error e →
    e ≈ stop ∨ ∀ stop' rest', run stop' (ts ++ rest') = .error e

namespace Reader

variable {τ φ α β σ : Type} [Setoid φ] {stop : φ} {ts rest : List τ}

theorem length_lt {r : Reader τ φ α} {v : α} (h : r.run stop ts = .ok (v, rest)) :
    rest.length < ts.length := by
  obtain ⟨used, hne, rfl, -⟩ := r.reads h
  have := List.length_pos_iff.mpr hne
  simp only [List.length_append]
  omega

/-- What follows the tokens that are read can be changed. -/
theorem run_append {r : Reader τ φ α} {v : α} {used : List τ}
    (h : r.run stop (used ++ rest) = .ok (v, rest)) (stop' : φ) (rest' : List τ) :
    r.run stop' (used ++ rest') = .ok (v, rest') := by
  obtain ⟨used', -, he, hr⟩ := r.reads h
  rw [List.append_cancel_right he]
  exact hr stop' rest'

/-- A failure that is not like the one at the end stays, whatever follows. -/
theorem error_append {r : Reader τ φ α} {e : φ} (h : r.run stop ts = .error e) (he : ¬ e ≈ stop)
    (stop' : φ) (rest' : List τ) : r.run stop' (ts ++ rest') = .error e :=
  (r.fails h).resolve_left he stop' rest'

/-- What is done after some tokens are read. -/
inductive Next (τ φ β : Type) [Setoid φ] where
  | fail (f : φ)
  | done (b : β)
  | more (r : Reader τ φ β)

def Next.run (stop : φ) : Next τ φ β → List τ → Except φ (β × List τ)
  | .fail f, _ => .error f
  | .done b, ts => .ok (b, ts)
  | .more r, ts => r.run stop ts

theorem Next.reads {n : Next τ φ β} {b : β} (h : n.run stop ts = .ok (b, rest)) :
    ∃ used, ts = used ++ rest ∧ ∀ stop' rest', n.run stop' (used ++ rest') = .ok (b, rest') := by
  cases n with
  | fail f => simp [run] at h
  | done b' =>
    obtain ⟨rfl, rfl⟩ : b' = b ∧ ts = rest := by simpa [run] using h
    exact ⟨[], rfl, fun _ _ => rfl⟩
  | more r =>
    obtain ⟨used, -, ht, hr⟩ := r.reads h
    exact ⟨used, ht, hr⟩

theorem Next.fails {n : Next τ φ β} {e : φ} (h : n.run stop ts = .error e) :
    e ≈ stop ∨ ∀ stop' rest', n.run stop' (ts ++ rest') = .error e := by
  cases n with
  | fail f => exact .inr fun _ _ => h
  | done b => simp [run] at h
  | more r => exact r.fails h

/-- The next token. -/
def next : Reader τ φ τ where
  run
  | stop, [] => .error stop
  | _, t :: ts => .ok (t, ts)
  reads := by
    intro stop ts v rest h
    cases ts with
    | nil => simp at h
    | cons t ts =>
      obtain ⟨rfl, rfl⟩ : t = v ∧ ts = rest := by simpa using h
      exact ⟨[t], by simp, rfl, fun _ _ => rfl⟩
  fails := by
    intro stop ts e h
    cases ts with
    | nil =>
      obtain rfl := Except.error.inj h
      exact .inl (Setoid.refl _)
    | cons t ts => simp at h

/-- A reader, and what is done with its value. -/
def andThen (r : Reader τ φ α) (f : α → Next τ φ β) : Reader τ φ β where
  run stop ts :=
    match r.run stop ts with
    | .error e => .error e
    | .ok (a, rest) => (f a).run stop rest
  reads := by
    intro stop ts b rest h
    cases hr : r.run stop ts with
    | error e => simp [hr] at h
    | ok p =>
      rw [hr] at h
      obtain ⟨used, hne, ht, hu⟩ := r.reads hr
      obtain ⟨used', ht', hu'⟩ := Next.reads h
      refine ⟨used ++ used', by simp [hne], by rw [ht, ht', List.append_assoc],
        fun stop' rest' => ?_⟩
      rw [List.append_assoc, hu]
      exact hu' stop' rest'
  fails := by
    intro stop ts e h
    cases hr : r.run stop ts with
    | error e' =>
      rw [hr] at h
      obtain rfl := Except.error.inj h
      exact (r.fails hr).imp_right fun hu stop' rest' => by rw [hu]
    | ok p =>
      rw [hr] at h
      obtain ⟨used, -, ht, hu⟩ := r.reads hr
      refine (Next.fails h).imp_right fun hu' stop' rest' => ?_
      rw [ht, List.append_assoc, hu]
      exact hu' stop' rest'

/-- A choice by the next token, which is not taken. -/
def peekThen (f : τ → Reader τ φ β) : Reader τ φ β where
  run
  | stop, [] => .error stop
  | stop, t :: ts => (f t).run stop (t :: ts)
  reads := by
    intro stop ts b rest h
    cases ts with
    | nil => simp at h
    | cons t ts =>
      obtain ⟨used, hne, ht, hu⟩ := (f t).reads h
      obtain ⟨u, used, rfl⟩ := List.exists_cons_of_ne_nil hne
      obtain rfl : t = u := (List.cons.inj ht).1
      exact ⟨t :: used, hne, ht, hu⟩
  fails := by
    intro stop ts e h
    cases ts with
    | nil =>
      obtain rfl := Except.error.inj h
      exact .inl (Setoid.refl _)
    | cons t ts => exact (f t).fails h

def refuse (e : φ) : Reader τ φ β where
  run _ _ := .error e
  reads := by simp
  fails h := .inr fun _ _ => h

def check (r : Reader τ φ α) (f : α → Except φ β) : Reader τ φ β :=
  r.andThen fun a =>
    match f a with
    | .ok b => .done b
    | .error e => .fail e

def map (r : Reader τ φ α) (f : α → β) : Reader τ φ β := r.andThen fun a => .done (f a)

theorem map_run {r : Reader τ φ α} {a : α} (h : r.run stop ts = .ok (a, rest)) (f : α → β) :
    (r.map f).run stop ts = .ok (f a, rest) := by
  simp only [map, andThen, h]
  rfl

theorem check_run {r : Reader τ φ α} {a : α} {f : α → Except φ β} {b : β}
    (h : r.run stop ts = .ok (a, rest)) (hf : f a = .ok b) :
    (r.check f).run stop ts = .ok (b, rest) := by
  simp only [check, andThen, h, hf]
  rfl

theorem andThen_run {r : Reader τ φ α} {a : α} (h : r.run stop ts = .ok (a, rest))
    (f : α → Next τ φ β) : (r.andThen f).run stop ts = (f a).run stop rest := by
  simp only [andThen, h]

/-- A reader whose failures are replaced by others like them. -/
def mapError (g : φ → φ) (hg : ∀ e, g e ≈ e) (r : Reader τ φ α) : Reader τ φ α where
  run stop ts := (r.run stop ts).mapError g
  reads := by
    intro stop ts v rest h
    cases hr : r.run stop ts with
    | error e => simp [hr, Except.mapError] at h
    | ok p =>
      obtain rfl : p = (v, rest) := by simpa [hr, Except.mapError] using h
      obtain ⟨used, hne, ht, hu⟩ := r.reads hr
      exact ⟨used, hne, ht, fun stop' rest' => by rw [hu]; rfl⟩
  fails := by
    intro stop ts e h
    cases hr : r.run stop ts with
    | error e' =>
      obtain rfl : g e' = e := by simpa [hr, Except.mapError] using h
      refine (r.fails hr).imp (Setoid.trans (hg e')) fun hu stop' rest' => ?_
      rw [hu]
      rfl
    | ok p => simp [hr, Except.mapError] at h

/-- The rounds of a loop; `bound` is more than the tokens that are left. -/
def rounds (body : σ → Reader τ φ (σ ⊕ β)) (stop : φ) :
    (bound : Nat) → σ → (ts : List τ) → ts.length < bound → Except φ (β × List τ)
  | bound + 1, s, ts, h =>
    match hr : (body s).run stop ts with
    | .error e => .error e
    | .ok (.inr b, rest) => .ok (b, rest)
    | .ok (.inl s', rest) =>
      rounds body stop bound s' rest (by have := (body s).length_lt hr; omega)

theorem rounds_eq {body : σ → Reader τ φ (σ ⊕ β)} {bound bound' : Nat} {s : σ}
    (h : ts.length < bound) (h' : ts.length < bound') :
    rounds body stop bound s ts h = rounds body stop bound' s ts h' := by
  induction bound generalizing bound' s ts with
  | zero => omega
  | succ bound ih =>
    cases bound' with
    | zero => omega
    | succ bound' =>
      unfold rounds
      split
      · rfl
      · rfl
      · exact ih _ _

/-- A round, and the rounds after it. -/
theorem rounds_succ {body : σ → Reader τ φ (σ ⊕ β)} {s : σ} {bound : Nat} (h : ts.length < bound) :
    rounds body stop bound s ts h =
      match (body s).run stop ts with
      | .error e => .error e
      | .ok (.inr b, rest) => .ok (b, rest)
      | .ok (.inl s', rest) => rounds body stop (rest.length + 1) s' rest (Nat.lt_succ_self _) := by
  cases bound with
  | zero => omega
  | succ bound =>
    conv_lhs => unfold rounds
    split <;> rename_i hr <;> simp only [hr]
    exact rounds_eq _ _

theorem rounds_reads {body : σ → Reader τ φ (σ ⊕ β)} {bound : Nat} {s : σ} {b : β}
    {h : ts.length < bound} (hr : rounds body stop bound s ts h = .ok (b, rest)) :
    ∃ used, used ≠ [] ∧ ts = used ++ rest ∧ ∀ stop' rest',
      rounds body stop' ((used ++ rest').length + 1) s (used ++ rest') (Nat.lt_succ_self _) =
        .ok (b, rest') := by
  induction bound generalizing s ts with
  | zero => omega
  | succ bound ih =>
    unfold rounds at hr
    split at hr
    · simp at hr
    · rename_i b' mid hb
      obtain ⟨rfl, rfl⟩ : b' = b ∧ mid = rest := by simpa using hr
      obtain ⟨used, hne, ht, hu⟩ := (body s).reads hb
      exact ⟨used, hne, ht, fun stop' rest' => by rw [rounds_succ, hu]⟩
    · rename_i s' mid hb
      obtain ⟨used, hne, ht, hu⟩ := (body s).reads hb
      obtain ⟨used', -, ht', hu'⟩ := ih hr
      refine ⟨used ++ used', by simp [hne], by rw [ht, ht', List.append_assoc], ?_⟩
      intro stop' rest'
      rw [rounds_succ, List.append_assoc, hu]
      exact hu' stop' rest'

theorem rounds_fails {body : σ → Reader τ φ (σ ⊕ β)} {bound : Nat} {s : σ} {e : φ}
    {h : ts.length < bound} (hr : rounds body stop bound s ts h = .error e) :
    e ≈ stop ∨ ∀ stop' rest', rounds body stop' ((ts ++ rest').length + 1) s (ts ++ rest')
      (Nat.lt_succ_self _) = .error e := by
  induction bound generalizing s ts with
  | zero => omega
  | succ bound ih =>
    unfold rounds at hr
    split at hr
    · rename_i e' hb
      obtain rfl := Except.error.inj hr
      exact ((body s).fails hb).imp_right fun hu stop' rest' => by rw [rounds_succ, hu]
    · simp at hr
    · rename_i s' mid hb
      obtain ⟨used, -, ht, hu⟩ := (body s).reads hb
      refine (ih hr).imp_right fun hu' stop' rest' => ?_
      subst ht
      rw [rounds_succ, List.append_assoc, hu]
      exact hu' stop' rest'

/-- The body of a loop gives the next state or the value that the loop ends with. -/
def loop (body : σ → Reader τ φ (σ ⊕ β)) (s : σ) : Reader τ φ β where
  run stop ts := rounds body stop (ts.length + 1) s ts (Nat.lt_succ_self _)
  reads := rounds_reads
  fails := rounds_fails

theorem loop_run (body : σ → Reader τ φ (σ ⊕ β)) (s : σ) (stop : φ) (ts : List τ) :
    (loop body s).run stop ts =
      match (body s).run stop ts with
      | .error e => .error e
      | .ok (.inr b, rest) => .ok (b, rest)
      | .ok (.inl s', rest) => (loop body s').run stop rest :=
  rounds_succ _

/-- Two readers agree on the lists that are shorter than a bound. -/
def AgreeBelow (bound : Nat) (r r' : Reader τ φ α) : Prop :=
  ∀ stop (ts : List τ), ts.length < bound → r.run stop ts = r'.run stop ts

theorem map_agree {bound : Nat} {r r' : Reader τ φ α} (h : AgreeBelow bound r r') (f : α → β) :
    AgreeBelow bound (r.map f) (r'.map f) := by
  intro stop ts hl
  simp only [map, andThen, h stop ts hl]

theorem loop_agree {bound : Nat} {body body' : σ → Reader τ φ (σ ⊕ β)}
    (h : ∀ s, AgreeBelow bound (body s) (body' s)) (s : σ) :
    AgreeBelow bound (loop body s) (loop body' s) := by
  intro stop ts hl
  induction hn : ts.length using Nat.strongRecOn generalizing s ts with
  | ind n ih =>
    rw [loop_run, loop_run, h s stop ts hl]
    cases hr : (body' s).run stop ts with
    | error e => rfl
    | ok p =>
      obtain ⟨c, rest⟩ := p
      have hlt := length_lt hr
      cases c with
      | inr b => rfl
      | inl s' => exact ih rest.length (by omega) s' rest (by omega) rfl

/-- A recursion that takes a token before it comes back to itself. -/
def Guarded (body : Reader τ φ α → Reader τ φ α) : Prop :=
  ∀ bound r r', AgreeBelow bound r r' → AgreeBelow (bound + 1) (body r) (body r')

/-- The body, so often nested. -/
def nest (body : Reader τ φ α → Reader τ φ α) (e : φ) : Nat → Reader τ φ α
  | 0 => refuse e
  | depth + 1 => body (nest body e depth)

theorem nest_agree {body : Reader τ φ α → Reader τ φ α} (hb : Guarded body) {e : φ}
    {bound depth depth' : Nat} (h : bound ≤ depth) (h' : bound ≤ depth') :
    AgreeBelow bound (nest body e depth) (nest body e depth') := by
  induction bound generalizing depth depth' with
  | zero => intro _ _ hl; omega
  | succ bound ih =>
    obtain ⟨depth, rfl⟩ := Nat.exists_eq_succ_of_ne_zero (by omega : depth ≠ 0)
    obtain ⟨depth', rfl⟩ := Nat.exists_eq_succ_of_ne_zero (by omega : depth' ≠ 0)
    exact hb _ _ _ (ih (by omega) (by omega))

/-- The recursion. The failure `e` is that of a depth that no run gets to. -/
def fix (body : Reader τ φ α → Reader τ φ α) (hb : Guarded body) (e : φ) : Reader τ φ α where
  run stop ts := (nest body e (ts.length + 1)).run stop ts
  reads := by
    intro stop ts v rest h
    obtain ⟨used, hne, ht, hu⟩ := (nest body e (ts.length + 1)).reads h
    refine ⟨used, hne, ht, fun stop' rest' => ?_⟩
    let depth := max (ts.length + 1) ((used ++ rest').length + 1)
    have hd : (nest body e depth).run stop ts = .ok (v, rest) := by
      rw [← h]
      exact nest_agree hb (Nat.le_max_left _ _) (Nat.le_refl _) stop ts (Nat.lt_succ_self _)
    rw [nest_agree hb (Nat.le_refl _) (Nat.le_max_right (ts.length + 1) _) stop' _
      (Nat.lt_succ_self _)]
    rw [ht] at hd
    exact run_append hd stop' rest'
  fails := by
    intro stop ts e' h
    -- at a depth that is enough for the tokens with and without what follows them
    have hd (rest' : List τ) :
        (nest body e ((ts ++ rest').length + 1)).run stop ts = .error e' := by
      rw [← h]
      exact nest_agree hb (by simp) (Nat.le_refl _) stop ts (Nat.lt_succ_self _)
    by_cases hs : e' ≈ stop
    · exact .inl hs
    · exact .inr fun stop' rest' => ((nest body e _).fails (hd rest')).resolve_left hs stop' rest'

theorem fix_run {body : Reader τ φ α → Reader τ φ α} (hb : Guarded body) (e stop : φ)
    (ts : List τ) : (fix body hb e).run stop ts = (body (fix body hb e)).run stop ts := by
  refine hb ts.length _ _ ?_ stop ts (Nat.lt_succ_self _)
  intro stop ts' hl
  exact nest_agree hb (by omega) (Nat.le_refl _) stop ts' (Nat.lt_succ_self _)

/-- Where a run ends: what holds of the value and the tokens that are left, or of the failure. -/
def Ends (post : α → List τ → Prop) (fault : φ → Prop) : Except φ (α × List τ) → Prop
  | .ok (a, rest) => post a rest
  | .error e => fault e

section Ends

variable {post : β → List τ → Prop} {fault : φ → Prop}

omit [Setoid φ] in
theorem Ends.mono {post post' : α → List τ → Prop} {fault fault' : φ → Prop}
    {result : Except φ (α × List τ)} (h : Ends post fault result)
    (hp : ∀ a rest, post a rest → post' a rest) (hf : ∀ e, fault e → fault' e) :
    Ends post' fault' result := by
  cases result with
  | error e => exact hf e h
  | ok p => exact hp p.1 p.2 h

omit [Setoid φ] in
/-- What holds at the end of a run holds of its result. -/
theorem Ends.with_eq {post : α → List τ → Prop} {result : Except φ (α × List τ)}
    (h : Ends post fault result) :
    Ends (fun a rest => post a rest ∧ result = .ok (a, rest)) fault result := by
  cases result with
  | error e => exact h
  | ok p => exact ⟨h, rfl⟩

omit [Setoid φ] in
/-- What holds of the failures need not be carried through a run that is followed for its value. -/
theorem ends_ok {post : α → List τ → Prop} {result : Except φ (α × List τ)} :
    Ends post (fun _ => True) result ↔ ∀ a rest, result = .ok (a, rest) → post a rest := by
  cases result with
  | error e => simp [Ends]
  | ok p =>
    refine ⟨fun h a rest he => ?_, fun h => h _ _ rfl⟩
    obtain rfl := Except.ok.inj he
    exact h

@[simp] theorem ends_next_nil {post : τ → List τ → Prop} :
    Ends post fault ((next : Reader τ φ τ).run stop []) ↔ fault stop := Iff.rfl

@[simp] theorem ends_next_cons {post : τ → List τ → Prop} {t : τ} :
    Ends post fault ((next : Reader τ φ τ).run stop (t :: ts)) ↔ post t ts := Iff.rfl

@[simp] theorem ends_refuse {e : φ} :
    Ends post fault ((refuse e : Reader τ φ β).run stop ts) ↔ fault e := Iff.rfl

@[simp] theorem ends_peekThen_nil {f : τ → Reader τ φ β} :
    Ends post fault ((peekThen f).run stop []) ↔ fault stop := Iff.rfl

@[simp] theorem ends_peekThen_cons {f : τ → Reader τ φ β} {t : τ} :
    Ends post fault ((peekThen f).run stop (t :: ts)) ↔
      Ends post fault ((f t).run stop (t :: ts)) := Iff.rfl

@[simp] theorem ends_fail {e : φ} :
    Ends post fault (Next.run stop (.fail e : Next τ φ β) ts) ↔ fault e := Iff.rfl

@[simp] theorem ends_done {b : β} :
    Ends post fault (Next.run stop (.done b : Next τ φ β) ts) ↔ post b ts := Iff.rfl

@[simp] theorem ends_more {r : Reader τ φ β} :
    Ends post fault (Next.run stop (.more r) ts) ↔ Ends post fault (r.run stop ts) := Iff.rfl

@[simp] theorem ends_andThen {r : Reader τ φ α} {f : α → Next τ φ β} :
    Ends post fault ((r.andThen f).run stop ts) ↔
      Ends (fun a rest => Ends post fault ((f a).run stop rest)) fault (r.run stop ts) := by
  simp only [andThen]
  cases r.run stop ts <;> rfl

@[simp] theorem ends_map {r : Reader τ φ α} {f : α → β} :
    Ends post fault ((r.map f).run stop ts) ↔
      Ends (fun a rest => post (f a) rest) fault (r.run stop ts) := by
  simp [map]

@[simp] theorem ends_check {r : Reader τ φ α} {f : α → Except φ β} :
    Ends post fault ((r.check f).run stop ts) ↔
      Ends (fun a rest => Ends post fault ((f a).map (·, rest))) fault (r.run stop ts) := by
  rw [check, ends_andThen]
  have hn (a : α) (rest : List τ) : Ends post fault (Next.run stop (match f a with
      | .ok b => .done b
      | .error e => .fail e) rest) ↔ Ends post fault ((f a).map (·, rest)) := by
    cases f a <;> rfl
  simp only [hn]

@[simp] theorem ends_mapError {r : Reader τ φ β} {g : φ → φ} {hg : ∀ e, g e ≈ e} :
    Ends post fault ((r.mapError g hg).run stop ts) ↔
      Ends post (fun e => fault (g e)) (r.run stop ts) := by
  simp only [mapError]
  cases r.run stop ts <;> rfl

/-- One round of a loop. -/
theorem ends_loop {body : σ → Reader τ φ (σ ⊕ β)} {s : σ} :
    Ends post fault ((loop body s).run stop ts) ↔
      Ends (fun c rest => c.elim (fun s' => Ends post fault ((loop body s').run stop rest))
        (fun b => post b rest)) fault ((body s).run stop ts) := by
  rw [loop_run]
  cases (body s).run stop ts with
  | error e => rfl
  | ok p =>
    obtain ⟨c, rest⟩ := p
    cases c <;> rfl

/-- A loop fails, if at all, as its rounds do. -/
theorem loop_ends {body : σ → Reader τ φ (σ ⊕ β)} {bound : Nat}
    (h : ∀ s (ts : List τ), ts.length ≤ bound →
      Ends (fun _ _ => True) fault ((body s).run stop ts)) (s : σ) (hl : ts.length ≤ bound) :
    Ends (fun _ _ => True) fault ((loop body s).run stop ts) := by
  induction hn : ts.length using Nat.strongRecOn generalizing s ts with
  | ind n ih =>
    rw [ends_loop]
    refine (h s ts hl).with_eq.mono (fun c rest hc => ?_) fun _ h => h
    have hlt := length_lt hc.2
    cases c with
    | inr b => trivial
    | inl s' => exact ih rest.length (by omega) s' (by omega) rfl

end Ends

end Reader

end Pewpew
