import Mathlib.Data.Stream.Init
import Mathlib.Logic.Basic

/-! Streams that are polled: what they yield, however often a poll answers that it is pending. -/
namespace Pewpew.Polling

universe u

inductive Poll (α : Type u) where
  | pending
  | ready (a : α)
  deriving DecidableEq, Repr

/-- The results of polling a stream from now on; an item, or `none` at its end, is ready. -/
abbrev PollStream (α : Type u) : Type u := Stream' (Poll (Option α))

variable {α β V W σ : Type u} {s s' t t' : PollStream α} {i j : Option α} {a : α}

/-- The stream of a poll function. -/
def run (poll : σ → Poll (Option α) × σ) : σ → PollStream α := Stream'.corec' poll

@[simp] theorem head_run (poll : σ → Poll (Option α) × σ) (x : σ) :
    (run poll x).head = (poll x).1 := rfl

@[simp] theorem tail_run (poll : σ → Poll (Option α) × σ) (x : σ) :
    (run poll x).tail = run poll (poll x).2 := by
  rw [run, Stream'.corec'_eq, Stream'.tail_cons]

/-- States in which the poll function answers the same have the same stream. -/
theorem run_congr {poll : σ → Poll (Option α) × σ} {x y : σ} (h : poll x = poll y) :
    run poll x = run poll y := by
  rw [run, Stream'.corec'_eq, h, ← Stream'.corec'_eq]

/-- Polled until it is ready, the stream answers `i`; `t` is the stream after that. -/
inductive Next : PollStream α → Option α → PollStream α → Prop where
  | ready {s : PollStream α} {i : Option α} : s.head = .ready i → Next s i s.tail
  | pending {s t : PollStream α} {i : Option α} :
      s.head = .pending → Next s.tail i t → Next s i t

theorem Next.unique (h : Next s i t) (h' : Next s j t') : i = j ∧ t = t' := by
  induction h with
  | ready hs =>
    cases h' with
    | ready hs' => simpa [hs] using hs'
    | pending hs' _ => simp [hs] at hs'
  | pending hs _ ih =>
    cases h' with
    | ready hs' => simp [hs] at hs'
    | pending _ hn => exact ih hn

/-- Polled until they are ready, the answers of the stream are the given items; `t` is the stream
right after the last of them. -/
inductive Gives : PollStream α → List α → PollStream α → Prop where
  | nil (s : PollStream α) : Gives s [] s
  | cons {s t u : PollStream α} {a : α} {l : List α} :
      Next s (some a) t → Gives t l u → Gives s (a :: l) u

/-- The stream has no item at its next poll. -/
def Lacks (s : PollStream α) : Prop := ∀ a, s.head ≠ .ready (some a)

/-- After some polls the stream has given exactly these items, and is `t`. -/
inductive Taken : PollStream α → List α → PollStream α → Prop where
  | refl (s : PollStream α) : Taken s [] s
  | lacks {s t : PollStream α} {l : List α} : Lacks s → Taken s.tail l t → Taken s l t
  | item {s t : PollStream α} {a : α} {l : List α} :
      s.head = .ready (some a) → Taken s.tail l t → Taken s (a :: l) t

theorem lacks_of_pending (h : s.head = .pending) : Lacks s := by
  intro a ha
  cases h.symm.trans ha

theorem Taken.then_lacks {l : List α} (h : Taken s l t) (ht : Lacks t) : Taken s l t.tail := by
  induction h with
  | refl s => exact .lacks ht (.refl _)
  | lacks hs _ ih => exact .lacks hs (ih ht)
  | item hs _ ih => exact .item hs (ih ht)

theorem Taken.then_item {l : List α} (h : Taken s l t) (ht : t.head = .ready (some a)) :
    Taken s (l ++ [a]) t.tail := by
  induction h with
  | refl s => exact .item ht (.refl _)
  | lacks hs _ ih => exact .lacks hs (ih ht)
  | item hs _ ih => exact .item hs (ih ht)

/-- The items among the first answers. -/
def firstItems (s : PollStream α) : Nat → List α
  | 0 => []
  | n + 1 =>
    match s.head with
    | .ready (some a) => a :: firstItems s.tail n
    | _ => firstItems s.tail n

theorem firstItems_item (h : s.head = .ready (some a)) (n : Nat) :
    firstItems s (n + 1) = a :: firstItems s.tail n := by
  rw [firstItems, h]

theorem firstItems_add (s : PollStream α) (m n : Nat) :
    firstItems s (m + n) = firstItems s m ++ firstItems (s.drop m) n := by
  induction m generalizing s with
  | zero =>
    rw [Nat.zero_add]
    rfl
  | succ m ih =>
    rw [Nat.succ_add, firstItems, firstItems, ih, Stream'.drop_succ]
    split <;> rfl

/-- The state of a poll function after some polls. -/
def stateAfter (poll : σ → Poll (Option α) × σ) (x : σ) : Nat → σ
  | 0 => x
  | n + 1 => (poll (stateAfter poll x n)).2

theorem stateAfter_succ (poll : σ → Poll (Option α) × σ) (x : σ) (n : Nat) :
    stateAfter poll x (n + 1) = stateAfter poll (poll x).2 n := by
  induction n with
  | zero => rfl
  | succ n ih => rw [stateAfter, ih, stateAfter]

theorem stateAfter_add (poll : σ → Poll (Option α) × σ) (x : σ) (m n : Nat) :
    stateAfter poll (stateAfter poll x m) n = stateAfter poll x (m + n) := by
  induction n with
  | zero => rfl
  | succ n ih => rw [stateAfter, ih, Nat.add_succ, stateAfter]

theorem drop_run (poll : σ → Poll (Option α) × σ) (x : σ) (n : Nat) :
    (run poll x).drop n = run poll (stateAfter poll x n) := by
  induction n with
  | zero => rfl
  | succ n ih => rw [← Stream'.tail_drop', ih, tail_run, stateAfter]

theorem get_run (poll : σ → Poll (Option α) × σ) (x : σ) (n : Nat) :
    (run poll x).get n = (poll (stateAfter poll x n)).1 := by
  rw [← Stream'.head_drop, drop_run, head_run]

/-- The item that a poll answers, if it does. -/
def Poll.items : Poll (Option α) → List α
  | .ready (some a) => [a]
  | _ => []

theorem firstItems_run_succ (poll : σ → Poll (Option α) × σ) (x : σ) (n : Nat) :
    firstItems (run poll x) (n + 1) =
      firstItems (run poll x) n ++ (poll (stateAfter poll x n)).1.items := by
  rw [firstItems_add, drop_run, firstItems, head_run]
  split
  · next h => rw [h, Poll.items, firstItems]
  · next h =>
    congr 1
    rw [firstItems]
    unfold Poll.items
    split
    · next h' => exact absurd h' (h _)
    · rfl

/-- A poll function that is pending is polled again. -/
theorem next_run_pending {poll : σ → Poll (Option α) × σ} {x y : σ} (h : poll x = (.pending, y))
    (hn : Next (run poll y) i t) : Next (run poll x) i t := by
  refine .pending (by simp [h]) ?_
  simpa [h] using hn

theorem next_run_ready {poll : σ → Poll (Option α) × σ} {x y : σ} (h : poll x = (.ready i, y)) :
    Next (run poll x) i (run poll y) := by
  have hn : Next (run poll x) i (run poll x).tail := .ready (by simp [h])
  simpa [h] using hn

/-! ### What a stream yields -/

/-- Every item satisfies `p`, the stream does not end, and another item always follows. -/
def Yields (p : α → Prop) (s : PollStream α) : Prop :=
  (∀ n, s.get n = .pending ∨ ∃ a, s.get n = .ready (some a) ∧ p a) ∧
    ∀ n, ∃ m, n ≤ m ∧ s.get m ≠ .pending

variable {p q : α → Prop}

theorem Yields.head (h : Yields p s) :
    s.head = .pending ∨ ∃ a, s.head = .ready (some a) ∧ p a := h.1 0

theorem Yields.tail (h : Yields p s) : Yields p s.tail := by
  refine ⟨fun n => h.1 (n + 1), fun n => ?_⟩
  obtain ⟨m, hm, hready⟩ := h.2 (n + 1)
  obtain ⟨k, rfl⟩ : ∃ k, m = k + 1 := ⟨m - 1, by omega⟩
  exact ⟨k, by omega, hready⟩

theorem Yields.next (h : Yields p s) : ∃ a t, Next s (some a) t ∧ p a ∧ Yields p t := by
  obtain ⟨m, -, hm⟩ := h.2 0
  induction m generalizing s with
  | zero =>
    rcases h.head with hs | ⟨a, hs, ha⟩
    · exact (hm hs).elim
    · exact ⟨a, s.tail, .ready hs, ha, h.tail⟩
  | succ m ih =>
    rcases h.head with hs | ⟨a, hs, ha⟩
    · obtain ⟨a, t, hn, ha, ht⟩ := ih h.tail hm
      exact ⟨a, t, .pending hs hn, ha, ht⟩
    · exact ⟨a, s.tail, .ready hs, ha, h.tail⟩

/-- A property of the stream that each item gives again, and that makes the item satisfy `p`. -/
theorem yields_of_invariant {I : PollStream α → Prop}
    (hstep : ∀ s, I s → ∃ a t, Next s (some a) t ∧ p a ∧ I t) (h : I s) : Yields p s := by
  have hpoll (s : PollStream α) (hs : ∃ a t, Next s (some a) t ∧ p a ∧ I t) :
      (s.head = .pending ∨ ∃ a, s.head = .ready (some a) ∧ p a) ∧
        ∃ a t, Next s.tail (some a) t ∧ p a ∧ I t := by
    obtain ⟨a, t, hn, ha, ht⟩ := hs
    cases hn with
    | ready hs => exact ⟨.inr ⟨a, hs, ha⟩, hstep _ ht⟩
    | pending hs hn => exact ⟨.inl hs, a, t, hn, ha, ht⟩
  have hdrop (n : Nat) : ∃ a t, Next (s.drop n) (some a) t ∧ p a ∧ I t := by
    induction n with
    | zero => exact hstep s h
    | succ n ih =>
      have hn := (hpoll _ ih).2
      rwa [Stream'.tail_drop'] at hn
  constructor
  · intro n
    have hn := (hpoll _ (hdrop n)).1
    rwa [Stream'.head_drop] at hn
  · intro n
    obtain ⟨a, t, hn, -⟩ := hdrop n
    generalize hu : s.drop n = u at hn
    clear hdrop
    generalize hi : some a = i at hn
    induction hn generalizing n with
    | ready hs =>
      refine ⟨n, le_rfl, ?_⟩
      rw [← Stream'.head_drop, hu, hs]
      simp
    | pending _ _ ih =>
      obtain ⟨m, hm, hready⟩ := ih (n + 1) (by rw [← Stream'.tail_drop', hu]) hi
      exact ⟨m, by omega, hready⟩

/-- How a stream behaves whose items stand for values, or for failures: it yields one value
forever, or the first thing it answers is a failure or its end. -/
def Behaves (value : α → Option V) (s : PollStream α) : Option V → Prop
  | some v => Yields (fun a => value a = some v) s
  | none => ∃ i t, Next s i t ∧ i.bind value = none

variable {value : α → Option V} {o : Option V}

theorem Behaves.next (h : Behaves value s o) :
    ∃ i t, Next s i t ∧ i.bind value = o ∧ (o ≠ none → Behaves value t o) := by
  cases o with
  | none =>
    obtain ⟨i, t, hn, hi⟩ := h
    exact ⟨i, t, hn, hi, by simp⟩
  | some v =>
    obtain ⟨a, t, hn, ha, ht⟩ := h.next
    exact ⟨some a, t, hn, ha, fun _ => ht⟩

/-- An item that stands for the value follows where the stream behaves. -/
theorem Behaves.item {v : V} (h : Behaves value s (some v)) :
    ∃ a t, Next s (some a) t ∧ value a = some v ∧ Behaves value t (some v) :=
  Yields.next h

theorem Behaves.yields_iff (h : Behaves value s o) {v : V} :
    Yields (fun a => value a = some v) s ↔ o = some v := by
  constructor
  · intro hy
    obtain ⟨i, t, hn, hi, -⟩ := h.next
    obtain ⟨a, u, hn', ha, -⟩ := hy.next
    obtain ⟨rfl, -⟩ := hn.unique hn'
    exact hi.symm.trans ha
  · rintro rfl
    exact h

/-! ### Combinators -/

/-- `stream::repeat`. -/
def always (a : α) : PollStream α := Stream'.const (.ready (some a))

theorem always_next (a : α) : Next (always a) (some a) (always a) := by
  have hn : Next (always a) (some a) (always a).tail := .ready rfl
  simpa [always] using hn

theorem always_behaves (value : α → Option V) (a : α) : Behaves value (always a) (value a) := by
  cases h : value a with
  | none => exact ⟨some a, _, always_next a, h⟩
  | some v =>
    apply yields_of_invariant (I := (· = always a)) _ rfl
    rintro _ rfl
    exact ⟨a, _, always_next a, h, rfl⟩

/-- `StreamExt::map`. -/
def mapItems (f : α → β) (s : PollStream α) : PollStream β :=
  Stream'.map (fun
    | .pending => .pending
    | .ready i => .ready (i.map f)) s

theorem Next.mapItems {f : α → β} (h : Next s i t) :
    Next (mapItems f s) (i.map f) (mapItems f t) := by
  induction h with
  | ready hs => exact .ready (by rw [Polling.mapItems, Stream'.head_map, hs])
  | pending hs _ ih => exact .pending (by rw [Polling.mapItems, Stream'.head_map, hs]) ih

/-- A map behaves as it acts on the values. -/
theorem Behaves.mapItems {value' : β → Option W} {f : α → β} {g : V → Option W}
    (hf : ∀ a, value' (f a) = (value a).bind g) (h : Behaves value s o) :
    Behaves value' (mapItems f s) (o.bind g) := by
  have hfails (hg : o.bind g = none) : Behaves value' (Polling.mapItems f s) none := by
    obtain ⟨i, t, hn, hi, -⟩ := h.next
    refine ⟨i.map f, _, hn.mapItems, ?_⟩
    cases i with
    | none => rfl
    | some a => exact (hf a).trans (by rw [show value a = o from hi, hg])
  cases o with
  | none => exact hfails rfl
  | some v =>
    cases hg : g v with
    | none =>
      rw [Option.bind_some, hg]
      exact hfails hg
    | some w =>
      rw [Option.bind_some, hg]
      apply yields_of_invariant
        (I := fun u => ∃ s, u = Polling.mapItems f s ∧ Behaves value s (some v)) _ ⟨s, rfl, h⟩
      rintro _ ⟨s, rfl, hs⟩
      obtain ⟨a, t, hn, ha, ht⟩ := hs.item
      exact ⟨f a, _, hn.mapItems, by rw [hf, ha, Option.bind_some, hg], t, rfl, ht⟩

/-- An adapter that pairs the items of two streams: a pair is ready where both items are, and the
pairs end where one of the streams does. -/
structure Zip where
  zip : {α β : Type} → PollStream α → PollStream β → PollStream (α × β)
  pair {α β : Type} {s s' : PollStream α} {t t' : PollStream β} {a : α} {b : β} :
    Next s (some a) s' → Next t (some b) t' → Next (zip s t) (some (a, b)) (zip s' t')
  endLeft {α β : Type} {s s' : PollStream α} (t : PollStream β) :
    Next s none s' → ∃ u, Next (zip s t) none u
  endRight {α β : Type} (s : PollStream α) {t t' : PollStream β} :
    Next t none t' → ∃ u, Next (zip s t) none u

section Zip

variable {α β V W : Type} {s : PollStream α} {t : PollStream β} {valueA : α → Option V}
  {valueB : β → Option W} {o : Option V} {r : Option W}

/-- The value of a pair. -/
def pairValue (valueA : α → Option V) (valueB : β → Option W) (p : α × β) : Option (V × W) :=
  (valueA p.1).bind fun v => (valueB p.2).map fun w => (v, w)

theorem Zip.behaves (z : Zip) (hs : Behaves valueA s o) (ht : Behaves valueB t r) :
    Behaves (pairValue valueA valueB) (z.zip s t) (o.bind fun v => r.map fun w => (v, w)) := by
  have hfails (hnone : (o.bind fun v => r.map fun w => (v, w)) = none) :
      Behaves (pairValue valueA valueB) (z.zip s t) none := by
    obtain ⟨i, s', hns, hi, -⟩ := hs.next
    obtain ⟨j, t', hnt, hj, -⟩ := ht.next
    rcases i with _ | a
    · obtain ⟨u, hu⟩ := z.endLeft t hns
      exact ⟨none, u, hu, rfl⟩
    · rcases j with _ | b
      · obtain ⟨u, hu⟩ := z.endRight s hnt
        exact ⟨none, u, hu, rfl⟩
      · refine ⟨some (a, b), _, z.pair hns hnt, ?_⟩
        rw [← hi, ← hj] at hnone
        exact hnone
  cases o with
  | none => exact hfails rfl
  | some v =>
    cases r with
    | none => exact hfails rfl
    | some w =>
      apply yields_of_invariant (I := fun u => ∃ s t, u = z.zip s t ∧
        Behaves valueA s (some v) ∧ Behaves valueB t (some w)) _ ⟨s, t, rfl, hs, ht⟩
      rintro _ ⟨s, t, rfl, hs, ht⟩
      obtain ⟨a, s', hns, ha, hs'⟩ := hs.item
      obtain ⟨b, t', hnt, hb, ht'⟩ := ht.item
      exact ⟨(a, b), _, z.pair hns hnt, by simp [pairValue, ha, hb], s', t', rfl, hs', ht'⟩

/-- The state of a zip: a stream is `none` after its end, and an item waits in its queue until
there is one for the other queue. -/
structure ZipState (α β : Type) where
  stream1 : Option (PollStream α)
  stream2 : Option (PollStream β)
  queued1 : Option α
  queued2 : Option β

/-- A stream is polled while its queue is empty. -/
def fill : Option (PollStream α) → Option α → Option (PollStream α) × Option α
  | s, some a => (s, some a)
  | none, none => (none, none)
  | some s, none =>
    match s.head with
    | .pending => (some s.tail, none)
    | .ready (some a) => (some s.tail, some a)
    | .ready none => (none, none)

def ZipState.poll (x : ZipState α β) : Poll (Option (α × β)) × ZipState α β :=
  let f := fill x.stream1 x.queued1
  let g := fill x.stream2 x.queued2
  match f.2, g.2 with
  | some a, some b => (.ready (some (a, b)), ⟨f.1, g.1, none, none⟩)
  | _, _ =>
    if f.1.isNone || g.1.isNone then (.ready none, ⟨f.1, g.1, f.2, g.2⟩)
    else (.pending, ⟨f.1, g.1, f.2, g.2⟩)

theorem fill_pending (h : s.head = .pending) : fill (some s) none = (some s.tail, none) := by
  simp [fill, h]

theorem fill_item {a : α} (h : s.head = .ready (some a)) :
    fill (some s) none = (some s.tail, some a) := by
  simp [fill, h]

theorem fill_end (h : s.head = .ready none) : fill (some s) none = (none, none) := by
  simp [fill, h]

theorem fill_queued (s : Option (PollStream α)) (a : α) : fill s (some a) = (s, some a) := by
  cases s <;> rfl

variable {s' : PollStream α} {t' : PollStream β} {a : α} {b : β} {x : ZipState α β}

theorem queued1_next (s : PollStream α) (a : α) (h : Next t (some b) t') :
    Next (run ZipState.poll ⟨some s, some t, some a, none⟩) (some (a, b))
      (run ZipState.poll ⟨some s, some t', none, none⟩) := by
  generalize hi : some b = i at h
  induction h with
  | ready ht =>
    subst hi
    apply next_run_ready
    simp [ZipState.poll, fill_queued, fill_item ht]
  | pending ht _ ih =>
    refine next_run_pending ?_ (ih hi)
    simp [ZipState.poll, fill_queued, fill_pending ht]

theorem queued2_next (t : PollStream β) (b : β) (h : Next s (some a) s') :
    Next (run ZipState.poll ⟨some s, some t, none, some b⟩) (some (a, b))
      (run ZipState.poll ⟨some s', some t, none, none⟩) := by
  generalize hi : some a = i at h
  induction h with
  | ready hs =>
    subst hi
    apply next_run_ready
    simp [ZipState.poll, fill_queued, fill_item hs]
  | pending hs _ ih =>
    refine next_run_pending ?_ (ih hi)
    simp [ZipState.poll, fill_queued, fill_pending hs]

theorem unqueued_next (hs : Next s (some a) s') (ht : Next t (some b) t') :
    Next (run ZipState.poll ⟨some s, some t, none, none⟩) (some (a, b))
      (run ZipState.poll ⟨some s', some t', none, none⟩) := by
  generalize hi : some a = i at hs
  induction hs generalizing t with
  | @ready s i hs =>
    subst hi
    cases ht with
    | ready ht =>
      apply next_run_ready
      simp [ZipState.poll, fill_item hs, fill_item ht]
    | pending ht htail =>
      refine next_run_pending ?_ (queued1_next s.tail a htail)
      simp [ZipState.poll, fill_item hs, fill_pending ht]
  | @pending s s' i hs htail ih =>
    subst hi
    cases ht with
    | ready ht =>
      refine next_run_pending ?_ (queued2_next t.tail b htail)
      simp [ZipState.poll, fill_pending hs, fill_item ht]
    | pending ht htail' =>
      refine next_run_pending ?_ (ih htail' rfl)
      simp [ZipState.poll, fill_pending hs, fill_pending ht]

theorem stream1_end (h : Next s none s') (h1 : x.stream1 = some s) (hq : x.queued1 = none) :
    ∃ u, Next (run ZipState.poll x) none u := by
  generalize hi : none = i at h
  induction h generalizing x with
  | ready hs =>
    subst hi
    refine ⟨_, next_run_ready (y := (x.poll).2) ?_⟩
    simp [ZipState.poll, h1, hq, fill_end hs]
  | @pending s s' i hs _ ih =>
    subst hi
    by_cases hg : (fill x.stream2 x.queued2).1 = none
    · refine ⟨_, next_run_ready (y := (x.poll).2) ?_⟩
      simp [ZipState.poll, h1, hq, fill_pending hs, hg]
    · obtain ⟨u, hu⟩ := @ih ⟨some s.tail, (fill x.stream2 x.queued2).1, none,
        (fill x.stream2 x.queued2).2⟩ rfl rfl rfl
      refine ⟨u, next_run_pending ?_ hu⟩
      simp [ZipState.poll, h1, hq, fill_pending hs, hg]

theorem stream2_end (h : Next t none t') (h2 : x.stream2 = some t) (hq : x.queued2 = none) :
    ∃ u, Next (run ZipState.poll x) none u := by
  generalize hi : none = i at h
  induction h generalizing x with
  | ready ht =>
    subst hi
    refine ⟨_, next_run_ready (y := (x.poll).2) ?_⟩
    simp [ZipState.poll, h2, hq, fill_end ht]
  | @pending t t' i ht _ ih =>
    subst hi
    by_cases hf : (fill x.stream1 x.queued1).1 = none
    · refine ⟨_, next_run_ready (y := (x.poll).2) ?_⟩
      simp [ZipState.poll, h2, hq, fill_pending ht, hf]
    · obtain ⟨u, hu⟩ := @ih ⟨(fill x.stream1 x.queued1).1, some t.tail,
        (fill x.stream1 x.queued1).2, none⟩ rfl rfl rfl
      refine ⟨u, next_run_pending ?_ hu⟩
      simp [ZipState.poll, h2, hq, fill_pending ht, hf]

/-- A zip that queues the items of the stream that is ahead. -/
def queueZip : Zip where
  zip s t := run ZipState.poll ⟨some s, some t, none, none⟩
  pair := unqueued_next
  endLeft _ h := stream1_end h rfl rfl
  endRight _ _ _ h := stream2_end h rfl rfl

end Zip

end Pewpew.Polling
