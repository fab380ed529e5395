import Pewpew.Library.PollStream
import Mathlib.Data.List.Forall2

/-! The crate `zip_all`: rows of one item of each of a list of streams. -/
namespace Pewpew.ZipAll

open Polling

variable {α ε V : Type}

/-- The streams, each with its item of the current row once it is polled. -/
abbrev Elems (ε α : Type) := List (PollStream (Except ε α) × Option α)

/-- What ends a round over the elements early. -/
inductive Early (ε : Type) where
  | failed (e : ε)
  | ended

/-- The round over the elements: whether all are done, and the elements after it. -/
def pollElems : Elems ε α → Except (Early ε) (Bool × Elems ε α)
  | [] => .ok (true, [])
  | (s, some v) :: elems => (pollElems elems).map fun r => (r.1, (s, some v) :: r.2)
  | (s, none) :: elems =>
    match s.head with
    | .ready (some (.ok v)) => (pollElems elems).map fun r => (r.1, (s.tail, some v) :: r.2)
    | .ready (some (.error e)) => .error (.failed e)
    | .ready none => .error .ended
    | .pending => (pollElems elems).map fun r => (false, (s.tail, none) :: r.2)

/-- `ZipAll::poll_next`. -/
def pollNext (elems : Elems ε α) : Poll (Option (Except ε (List α))) × Elems ε α :=
  match pollElems elems with
  | .error (.failed e) => (.ready (some (.error e)), [])
  | .error .ended => (.ready none, [])
  | .ok (true, elems) =>
    let result := elems.filterMap (·.2)
    (.ready (if result.isEmpty then none else some (.ok result)), elems.map fun e => (e.1, none))
  | .ok (false, elems) => (.pending, elems)

/-- `zip_all`. -/
def zipAll (elems : List (PollStream (Except ε α))) : PollStream (Except ε (List α)) :=
  run pollNext (elems.map fun s => (s, none))

/-- The value of an item that is not an error. -/
def okValue (value : α → V) : Except ε α → Option V
  | .ok a => some (value a)
  | .error _ => none

/-- The values of a row, where all streams have one. -/
def row : List (Option V) → Option (List V)
  | [] => some []
  | o :: os => o.bind fun v => (row os).map (v :: ·)

/-- The values of a row; no streams have none. -/
def firstRow (os : List (Option V)) : Option (List V) := if os.isEmpty then none else row os

variable {elems elems' : Elems ε α} {value : α → V} {v : V} {vs : List V} {os : List (Option V)}
  {n m : Nat} {s : PollStream (Except ε α)} {ss : List (PollStream (Except ε α))} {done : Bool}

/-! ### A stream that fails -/

/-- After at most `n` pending polls, the stream fails or ends. -/
inductive FailsIn : Nat → PollStream (Except ε α) → Prop where
  | failed {s : PollStream (Except ε α)} {n : Nat} (e : ε) :
      s.head = .ready (some (.error e)) → FailsIn n s
  | ended {s : PollStream (Except ε α)} {n : Nat} : s.head = .ready none → FailsIn n s
  | pending {s : PollStream (Except ε α)} {n : Nat} :
      s.head = .pending → FailsIn n s.tail → FailsIn (n + 1) s

theorem failsIn_of_behaves (h : Behaves (okValue value) s none) : ∃ n, FailsIn n s := by
  obtain ⟨i, t, hn, hi⟩ := h
  induction hn with
  | @ready s i hs =>
    rcases i with _ | e | a
    · exact ⟨0, .ended hs⟩
    · exact ⟨0, .failed e hs⟩
    · simp [okValue] at hi
  | pending hs _ ih =>
    obtain ⟨n, hn⟩ := ih hi
    exact ⟨n + 1, .pending hs hn⟩

/-- While a stream is about to fail, a round ends early, or leaves it closer to its failure. -/
theorem pollElems_fails (hmem : (s, none) ∈ elems) (h : FailsIn n s) :
    (∃ early, pollElems elems = .error early) ∨
      ∃ k elems' s', n = k + 1 ∧ pollElems elems = .ok (false, elems') ∧ (s', none) ∈ elems' ∧
        FailsIn k s' := by
  induction elems with
  | nil => cases hmem
  | cons e elems ih =>
    have hlater (b : Bool) (e' : PollStream (Except ε α) × Option α)
        (hrest : (s, none) ∈ elems)
        (hpoll : pollElems (e :: elems) =
          (pollElems elems).map fun r => (b && r.1, e' :: r.2)) :
        (∃ early, pollElems (e :: elems) = .error early) ∨
          ∃ k elems' s', n = k + 1 ∧ pollElems (e :: elems) = .ok (false, elems') ∧
            (s', none) ∈ elems' ∧ FailsIn k s' := by
      rw [hpoll]
      rcases ih hrest with ⟨early, he⟩ | ⟨k, elems', s', hk, he, hs', hf⟩
      · exact .inl ⟨early, by rw [he]; rfl⟩
      · exact .inr ⟨k, e' :: elems', s', hk, by simp [he, Except.map],
          List.mem_cons_of_mem _ hs', hf⟩
    obtain ⟨t, _ | a⟩ := e
    · rcases List.mem_cons.mp hmem with heq | hrest
      · obtain rfl : s = t := congrArg Prod.fst heq
        cases h with
        | failed e hs => exact .inl ⟨.failed e, by simp [pollElems, hs]⟩
        | ended hs => exact .inl ⟨.ended, by simp [pollElems, hs]⟩
        | @pending _ k hs hf =>
          cases hr : pollElems elems with
          | error early => exact .inl ⟨early, by simp [pollElems, hs, hr, Except.map]⟩
          | ok r =>
            exact .inr ⟨k, (s.tail, none) :: r.2, s.tail, rfl,
              by simp [pollElems, hs, hr, Except.map], List.mem_cons_self, hf⟩
      · match ht : t.head with
        | .pending => exact hlater false (t.tail, none) hrest (by simp [pollElems, ht])
        | .ready none => exact .inl ⟨.ended, by simp [pollElems, ht]⟩
        | .ready (some (.error e)) => exact .inl ⟨.failed e, by simp [pollElems, ht]⟩
        | .ready (some (.ok a)) =>
          exact hlater true (t.tail, some a) hrest (by simp [pollElems, ht])
    · rcases List.mem_cons.mp hmem with heq | hrest
      · cases heq
      · exact hlater true (t, some a) hrest (by simp [pollElems])

theorem run_early {early : Early ε} (h : pollElems elems = .error early) :
    Behaves (okValue (List.map value)) (run pollNext elems) none := by
  cases early with
  | failed e =>
    have hp : pollNext elems = (.ready (some (.error e)), []) := by simp [pollNext, h]
    exact ⟨_, _, next_run_ready hp, rfl⟩
  | ended =>
    have hp : pollNext elems = (.ready none, []) := by simp [pollNext, h]
    exact ⟨_, _, next_run_ready hp, rfl⟩

theorem run_fails (hmem : (s, none) ∈ elems) (h : FailsIn n s) :
    Behaves (okValue (List.map value)) (run pollNext elems) none := by
  induction n generalizing elems s with
  | zero =>
    rcases pollElems_fails hmem h with ⟨early, he⟩ | ⟨k, _, _, hk, -⟩
    · exact run_early he
    · omega
  | succ n ih =>
    rcases pollElems_fails hmem h with ⟨early, he⟩ | ⟨k, elems', s', hk, he, hs', hf⟩
    · exact run_early he
    · obtain rfl : n = k := by omega
      obtain ⟨i, t, hn, hi⟩ := ih hs' hf
      have hp : pollNext elems = (.pending, elems') := by simp [pollNext, he]
      exact ⟨i, t, next_run_pending hp hn, hi⟩

/-! ### Streams that have an item -/

/-- After at most `n` pending polls, the stream has an item of value `v`, again and again. -/
inductive ItemIn (value : α → V) (v : V) : Nat → PollStream (Except ε α) → Prop where
  | ready {s : PollStream (Except ε α)} {a : α} {n : Nat} : s.head = .ready (some (.ok a)) →
      value a = v → Behaves (okValue value) s.tail (some v) → ItemIn value v n s
  | pending {s : PollStream (Except ε α)} {n : Nat} :
      s.head = .pending → ItemIn value v n s.tail → ItemIn value v (n + 1) s

theorem ItemIn.mono (h : ItemIn value v n s) (hm : n ≤ m) : ItemIn value v m s := by
  induction h generalizing m with
  | ready hs hv ht => exact .ready hs hv ht
  | pending hs _ ih =>
    obtain ⟨k, rfl⟩ : ∃ k, m = k + 1 := ⟨m - 1, by omega⟩
    exact .pending hs (ih (by omega))

theorem itemIn_of_behaves (h : Behaves (okValue value) s (some v)) :
    ∃ n, ItemIn value v n s := by
  obtain ⟨i, t, hn, hi, ht⟩ := h.item
  generalize hj : some i = j at hn
  induction hn with
  | @ready s j hs =>
    subst hj
    cases i with
    | error e => simp [okValue] at hi
    | ok a => exact ⟨0, .ready hs (by simpa [okValue] using hi) ht⟩
  | pending hs _ ih =>
    obtain ⟨n, hn⟩ := ih (h.tail) ht hj
    exact ⟨n + 1, .pending hs hn⟩

/-- An element whose item of the current row has the value `v`, or will have it. -/
def Waits (value : α → V) (n : Nat) (e : PollStream (Except ε α) × Option α) (v : V) : Prop :=
  match e.2 with
  | some a => value a = v ∧ Behaves (okValue value) e.1 (some v)
  | none => ItemIn value v n e.1

/-- A round brings every element closer to its item. -/
theorem pollElems_waits (h : List.Forall₂ (Waits value n) elems vs) :
    ∃ done elems', pollElems elems = .ok (done, elems') ∧
      List.Forall₂ (Waits value (n - 1)) elems' vs ∧ (done = false → 0 < n) ∧
        (done = true → ∀ e ∈ elems', e.2 ≠ none) := by
  induction h with
  | nil => exact ⟨true, [], rfl, .nil, by simp, by simp⟩
  | @cons e v elems vs he _ ih =>
    obtain ⟨done, elems', hpoll, hw, hpos, hall⟩ := ih
    obtain ⟨s, _ | a⟩ := e
    · cases he with
      | @ready _ a _ hs hv ht =>
        refine ⟨done, (s.tail, some a) :: elems', ?_, .cons ⟨hv, ht⟩ hw, hpos, ?_⟩
        · simp [pollElems, hs, hpoll, Except.map]
        · intro hd
          simpa using hall hd
      | @pending _ k hs hk =>
        refine ⟨false, (s.tail, none) :: elems', ?_, .cons hk hw, by simp, by simp⟩
        simp [pollElems, hs, hpoll, Except.map]
    · refine ⟨done, (s, some a) :: elems', ?_, .cons he hw, hpos, ?_⟩
      · simp [pollElems, hpoll, Except.map]
      · intro hd
        simpa using hall hd

/-- The items of a complete row have its values. -/
theorem waits_row (h : List.Forall₂ (Waits value n) elems vs) (hall : ∀ e ∈ elems, e.2 ≠ none) :
    (elems.filterMap (·.2)).map value = vs ∧
      List.Forall₂ (fun e v => Behaves (okValue value) e.1 (some v)) elems vs := by
  induction h with
  | nil => exact ⟨rfl, .nil⟩
  | @cons e v elems vs he _ ih =>
    obtain ⟨hrow, hs⟩ := ih fun e he => hall e (List.mem_cons_of_mem _ he)
    obtain ⟨s, _ | a⟩ := e
    · exact (hall _ List.mem_cons_self rfl).elim
    · exact ⟨by simp [hrow, he.1], .cons he.2 hs⟩

/-- Fresh elements, whose streams have the values again and again. -/
def Fresh (value : α → V) (vs : List V) (elems : Elems ε α) : Prop :=
  (∀ e ∈ elems, e.2 = none) ∧
    List.Forall₂ (fun e v => Behaves (okValue value) e.1 (some v)) elems vs

theorem run_done (hpoll : pollElems elems = .ok (true, elems'))
    (hw : List.Forall₂ (Waits value n) elems' vs) (hall : ∀ e ∈ elems', e.2 ≠ none)
    (hne : vs ≠ []) :
    ∃ items fresh, Next (run pollNext elems) (some (.ok items)) (run pollNext fresh) ∧
      items.map value = vs ∧ Fresh value vs fresh := by
  obtain ⟨hrow, hs⟩ := waits_row hw hall
  refine ⟨elems'.filterMap (·.2), elems'.map fun e => (e.1, none), ?_, hrow, ?_, ?_⟩
  · apply next_run_ready
    have hitems : elems'.filterMap (·.2) ≠ [] := by
      intro hnil
      rw [hnil] at hrow
      exact hne hrow.symm
    simp only [pollNext, hpoll, List.isEmpty_iff, if_neg hitems]
  · intro e he
    obtain ⟨_, _, rfl⟩ := List.mem_map.mp he
    rfl
  · rwa [List.forall₂_map_left_iff]

theorem run_waits (h : List.Forall₂ (Waits value n) elems vs) (hne : vs ≠ []) :
    ∃ items fresh, Next (run pollNext elems) (some (.ok items)) (run pollNext fresh) ∧
      items.map value = vs ∧ Fresh value vs fresh := by
  induction n generalizing elems with
  | zero =>
    obtain ⟨done, elems', hpoll, hw, hpos, hall⟩ := pollElems_waits h
    cases done with
    | false => exact absurd (hpos rfl) (by omega)
    | true => exact run_done hpoll hw (hall rfl) hne
  | succ n ih =>
    obtain ⟨done, elems', hpoll, hw, hpos, hall⟩ := pollElems_waits h
    cases done with
    | false =>
      obtain ⟨items, fresh, hn, hrest⟩ := ih hw
      have hp : pollNext elems = (.pending, elems') := by simp [pollNext, hpoll]
      exact ⟨items, fresh, next_run_pending hp hn, hrest⟩
    | true => exact run_done hpoll hw (hall rfl) hne

/-- Fresh elements wait for their items, within a common number of polls. -/
theorem Fresh.waits (h : Fresh value vs elems) :
    ∃ n, List.Forall₂ (Waits value n) elems vs := by
  obtain ⟨hnone, hs⟩ := h
  induction hs with
  | nil => exact ⟨0, .nil⟩
  | @cons e v elems vs he _ ih =>
    obtain ⟨n, hn⟩ := ih fun e he => hnone e (List.mem_cons_of_mem _ he)
    obtain ⟨m, hm⟩ := itemIn_of_behaves he
    have hfresh : e.2 = none := hnone e List.mem_cons_self
    refine ⟨max m n, .cons ?_ (hn.imp fun e v hw => ?_)⟩
    · rw [Waits, hfresh]
      exact hm.mono (le_max_left m n)
    · rw [Waits] at hw ⊢
      cases h2 : e.2 with
      | none =>
        rw [h2] at hw
        exact hw.mono (le_max_right m n)
      | some a =>
        rw [h2] at hw
        exact hw

theorem Fresh.behaves (h : Fresh value vs elems) (hne : vs ≠ []) :
    Behaves (okValue (List.map value)) (run pollNext elems) (some vs) := by
  apply yields_of_invariant (I := fun s => ∃ elems, s = run pollNext elems ∧
    Fresh value vs elems) _ ⟨elems, rfl, h⟩
  rintro _ ⟨elems, rfl, h⟩
  obtain ⟨n, hw⟩ := h.waits
  obtain ⟨items, fresh, hn, hrow, hf⟩ := run_waits hw hne
  exact ⟨.ok items, _, hn, by rw [okValue, hrow], fresh, rfl, hf⟩

/-- Some stream fails, or all of them have a value. -/
theorem row_cases (h : List.Forall₂ (fun s o => Behaves (okValue value) s o) ss os) :
    (row os = none ∧ ∃ s ∈ ss, ∃ n, FailsIn n s) ∨
      ∃ vs, row os = some vs ∧ os = vs.map some := by
  induction h with
  | nil => exact .inr ⟨[], rfl, rfl⟩
  | @cons s o ss os hs _ ih =>
    cases o with
    | none => exact .inl ⟨rfl, s, List.mem_cons_self, failsIn_of_behaves hs⟩
    | some v =>
      rcases ih with ⟨hrow, s', hs', hf⟩ | ⟨vs, hrow, rfl⟩
      · exact .inl ⟨by simp [row, hrow], s', List.mem_cons_of_mem _ hs', hf⟩
      · exact .inr ⟨v :: vs, by simp [row, hrow], rfl⟩

/-- A zip of no streams ends at once; others yield the rows of the values. -/
theorem zipAll_behaves (h : List.Forall₂ (fun s o => Behaves (okValue value) s o) ss os) :
    Behaves (okValue (List.map value)) (zipAll ss) (firstRow os) := by
  cases h with
  | nil => exact ⟨none, _, next_run_ready (y := []) rfl, rfl⟩
  | @cons s o ss os hs hss =>
    have h := List.Forall₂.cons hs hss
    change Behaves _ _ (row (o :: os))
    rcases row_cases h with ⟨hrow, t, ht, n, hf⟩ | ⟨vs, hrow, hvs⟩
    · rw [hrow]
      exact run_fails (List.mem_map_of_mem ht) hf
    · rw [hrow]
      rw [hvs, List.forall₂_map_right_iff] at h
      apply Fresh.behaves ⟨by simp, by rwa [List.forall₂_map_left_iff]⟩
      rintro rfl
      cases hvs

/-! ### A stream with one item -/

/-- What a round makes of an element that does not end it. -/
def Polled (e e' : PollStream (Except ε α) × Option α) : Prop :=
  (∃ v, e.2 = some v ∧ e' = e) ∨
    e.2 = none ∧ (e.1.head = .pending ∧ e' = (e.1.tail, none) ∨
      ∃ v, e.1.head = .ready (some (.ok v)) ∧ e' = (e.1.tail, some v))

theorem of_map_ok {β γ δ : Type} {x : Except β γ} {f : γ → δ} {d : δ} (h : x.map f = .ok d) :
    ∃ c, x = .ok c ∧ f c = d := by
  cases x with
  | error _ => cases h
  | ok c => exact ⟨c, rfl, Except.ok.inj h⟩

theorem exists_right {β γ : Type} {R : β → γ → Prop} {bs : List β} {cs : List γ} {b : β}
    (h : List.Forall₂ R bs cs) (hb : b ∈ bs) : ∃ c ∈ cs, R b c := by
  induction h with
  | nil => cases hb
  | cons hr _ ih =>
    rcases List.mem_cons.mp hb with rfl | hb
    · exact ⟨_, List.mem_cons_self, hr⟩
    · exact List.exists_mem_cons_of_exists (ih hb)

/-- A round that nothing ends keeps each item that it has and polls each of the other streams
once. -/
theorem pollElems_forall (h : pollElems elems = .ok (done, elems')) :
    List.Forall₂ Polled elems elems' := by
  induction elems generalizing done elems' with
  | nil =>
    cases h
    exact .nil
  | cons e elems ih =>
    obtain ⟨s, _ | v⟩ := e
    · rw [pollElems] at h
      split at h
      · next v hs =>
        obtain ⟨⟨b, rest⟩, hr, heq⟩ := of_map_ok h
        cases heq
        exact .cons (.inr ⟨rfl, .inr ⟨v, hs, rfl⟩⟩) (ih hr)
      · cases h
      · cases h
      · next hs =>
        obtain ⟨⟨b, rest⟩, hr, heq⟩ := of_map_ok h
        cases heq
        exact .cons (.inr ⟨rfl, .inl ⟨hs, rfl⟩⟩) (ih hr)
    · obtain ⟨⟨b, rest⟩, hr, heq⟩ := of_map_ok h
      cases heq
      exact .cons (.inl ⟨v, rfl, rfl⟩) (ih hr)

/-- No stream is left, or one of those that the row waits for has ended. -/
def Spent (elems : Elems ε α) : Prop :=
  elems = [] ∨ ∃ e ∈ elems, e.2 = none ∧ e.1.head = .ready none

/-- The stream gave its last item to the current row. -/
def Gave (e : PollStream (Except ε α) × Option α) : Prop := e.2.isSome ∧ e.1.head = .ready none

/-- The stream has its last item before it. -/
def Keeps (e : PollStream (Except ε α) × Option α) : Prop :=
  e.2 = none ∧ (∃ a, e.1.head = .ready (some (.ok a))) ∧ e.1.tail.head = .ready none

theorem Polled.gave {e e' : PollStream (Except ε α) × Option α} (hp : Polled e e')
    (h : Keeps e ∨ Gave e) : Gave e' := by
  rcases hp with ⟨v, hv, rfl⟩ | ⟨hnone, hs⟩
  · rcases h with ⟨hnone, -⟩ | hg
    · cases hnone.symm.trans hv
    · exact hg
  · rcases h with ⟨-, ⟨a, ha⟩, htail⟩ | ⟨hsome, -⟩
    · rcases hs with ⟨hs, -⟩ | ⟨v, -, rfl⟩
      · cases hs.symm.trans ha
      · exact ⟨rfl, htail⟩
    · rw [hnone] at hsome
      cases hsome

/-- One of the streams has its last item before it, or gave it to the current row. -/
def Last (elems : Elems ε α) : Prop := ∃ e ∈ elems, Keeps e ∨ Gave e

/-- The poll yields a row. -/
def IsRow : Poll (Option (Except ε (List α))) → Bool
  | .ready (some (.ok _)) => true
  | _ => false

theorem spent_pollNext (h : Spent elems) :
    IsRow (pollNext elems).1 = false ∧ Spent (pollNext elems).2 := by
  rcases h with rfl | ⟨e, he, hnone, hhead⟩
  · exact ⟨rfl, .inl rfl⟩
  · rw [pollNext]
    split
    · exact ⟨rfl, .inl rfl⟩
    · exact ⟨rfl, .inl rfl⟩
    all_goals
      next hp =>
      obtain ⟨e', -, ⟨v, hv, -⟩ | ⟨-, ⟨hs, -⟩ | ⟨v, hs, -⟩⟩⟩ :=
        exists_right (pollElems_forall hp) he
      · cases hnone.symm.trans hv
      · cases hhead.symm.trans hs
      · cases hhead.symm.trans hs

/-- A row takes the last item. -/
theorem last_pollNext (h : Last elems) : Spent (pollNext elems).2 ∨
    IsRow (pollNext elems).1 = false ∧ Last (pollNext elems).2 := by
  obtain ⟨e, he, hlast⟩ := h
  rw [pollNext]
  split
  · exact .inl (.inl rfl)
  · exact .inl (.inl rfl)
  · next hp =>
    obtain ⟨e', he', hpolled⟩ := exists_right (pollElems_forall hp) he
    have hgave := hpolled.gave hlast
    exact .inl (.inr ⟨_, List.mem_map_of_mem he', rfl, hgave.2⟩)
  · next hp =>
    obtain ⟨e', he', hpolled⟩ := exists_right (pollElems_forall hp) he
    exact .inr ⟨rfl, e', he', .inr (hpolled.gave hlast)⟩

theorem spent_get (h : Spent elems) (n : Nat) : IsRow ((run pollNext elems).get n) = false := by
  induction n generalizing elems with
  | zero => exact (spent_pollNext h).1
  | succ n ih =>
    rw [Stream'.get_succ, tail_run]
    exact ih (spent_pollNext h).2

/-- A zip with a stream of one item yields at most one row. -/
theorem last_get {m n : Nat} (h : Last elems) (hm : IsRow ((run pollNext elems).get m))
    (hn : IsRow ((run pollNext elems).get n)) : m = n := by
  induction m generalizing elems n with
  | zero =>
    cases n with
    | zero => rfl
    | succ n =>
      rw [Stream'.get_succ, tail_run] at hn
      rcases last_pollNext h with hs | ⟨hrow, -⟩
      · cases (spent_get hs n).symm.trans hn
      · cases hrow.symm.trans hm
  | succ m ih =>
    rw [Stream'.get_succ, tail_run] at hm
    rcases last_pollNext h with hs | ⟨hrow, hl⟩
    · cases (spent_get hs m).symm.trans hm
    · cases n with
      | zero => cases hrow.symm.trans hn
      | succ n =>
        rw [Stream'.get_succ, tail_run] at hn
        rw [ih hl hm hn]

end Pewpew.ZipAll
