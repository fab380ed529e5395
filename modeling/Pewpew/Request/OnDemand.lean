import Pewpew.Stream.SelectAny
import Pewpew.Stream.ZipRows
import Mathlib.Algebra.BigOperators.Group.Finset.Piecewise

/-! The stream of an endpoint that runs on demand: each row of values takes a need of its own. -/
namespace Pewpew.Request

open Polling

/-- The needs, whether one has been taken for the next row, and the rows. -/
structure OnDemand (σ τ : Type) where
  needs : σ
  odContinue : Bool
  rows : τ

section Gate

variable {σ τ ρ : Type} (pollNeeds : σ → Poll (Option Unit) × σ)
  (pollRows : τ → Poll (Option ρ) × τ)

/-- The poll of the rows; a row, or their end, uses the need up. -/
def OnDemand.pollZipped (needs : σ) (rows : τ) : Poll (Option ρ) × OnDemand σ τ :=
  match pollRows rows with
  | (.ready i, rows) => (.ready i, ⟨needs, false, rows⟩)
  | (.pending, rows) => (.pending, ⟨needs, true, rows⟩)

/-- The `poll_fn` of `into_future`. -/
def OnDemand.poll (x : OnDemand σ τ) : Poll (Option ρ) × OnDemand σ τ :=
  let p := pollNeeds x.needs
  if x.odContinue then pollZipped pollRows p.2 x.rows
  else
    match p.1 with
    | .ready (some ()) => pollZipped pollRows p.2 x.rows
    | .ready none => (.ready none, { x with needs := p.2 })
    | .pending => (.pending, { x with needs := p.2 })

variable {pollNeeds pollRows} {x : OnDemand σ τ} {needs : σ} {rows : τ} {n : Nat}

theorem pollZipped_answer (pollRows : τ → Poll (Option ρ) × τ) (needs : σ) (rows : τ) :
    (OnDemand.pollZipped pollRows needs rows).1 = (pollRows rows).1 ∧
      (OnDemand.pollZipped pollRows needs rows).2.needs = needs ∧
      (OnDemand.pollZipped pollRows needs rows).2.rows = (pollRows rows).2 ∧
      (pollRows rows).1.items.length +
        (OnDemand.pollZipped pollRows needs rows).2.odContinue.toNat ≤ 1 := by
  unfold OnDemand.pollZipped
  split
  · next i _ h =>
    rw [h]
    rcases i with _ | _ <;> simp [Poll.items]
  · next h => simp [h, Poll.items]

/-- What one poll does: it polls the needs; and with a need that was taken before, or that it takes,
it polls the rows. -/
theorem poll_cases (pollNeeds : σ → Poll (Option Unit) × σ) (pollRows : τ → Poll (Option ρ) × τ)
    (x : OnDemand σ τ) :
    (x.poll pollNeeds pollRows).2.needs = (pollNeeds x.needs).2 ∧
      ((x.poll pollNeeds pollRows).1 = (pollRows x.rows).1 ∧
          (x.poll pollNeeds pollRows).2.rows = (pollRows x.rows).2 ∧
          (pollRows x.rows).1.items.length + (x.poll pollNeeds pollRows).2.odContinue.toNat ≤
            x.odContinue.toNat + (pollNeeds x.needs).1.items.length ∨
        ((x.poll pollNeeds pollRows).1 = .pending ∨
            (x.poll pollNeeds pollRows).1 = .ready none ∧
              (pollNeeds x.needs).1 = .ready none) ∧
          (x.poll pollNeeds pollRows).2.rows = x.rows ∧
          (x.poll pollNeeds pollRows).2.odContinue = false) := by
  obtain ⟨needs, taken, rows⟩ := x
  obtain ⟨hanswer, hneeds, hrows, hone⟩ :=
    pollZipped_answer pollRows (pollNeeds needs).2 rows
  cases taken with
  | true =>
    simp only [OnDemand.poll, if_true]
    refine ⟨hneeds, .inl ⟨hanswer, hrows, ?_⟩⟩
    rw [Bool.toNat_true]
    omega
  | false =>
    simp only [OnDemand.poll, Bool.false_eq_true, if_false]
    split
    · next hneed =>
      refine ⟨hneeds, .inl ⟨hanswer, hrows, ?_⟩⟩
      rw [hneed, Bool.toNat_false, Poll.items, List.length_singleton]
      omega
    · next hended => exact ⟨rfl, .inr ⟨.inr ⟨rfl, hended⟩, rfl, rfl⟩⟩
    · exact ⟨rfl, .inr ⟨.inl rfl, rfl, rfl⟩⟩

/-- After some polls: the rows have been polled `k` times and what they gave has been handed on, and
each row, and the one that is waited for, has taken a need. -/
structure Gated (pollNeeds : σ → Poll (Option Unit) × σ) (pollRows : τ → Poll (Option ρ) × τ)
    (x : OnDemand σ τ) (n k : Nat) : Prop where
  needs : (stateAfter (OnDemand.poll pollNeeds pollRows) x n).needs =
    stateAfter pollNeeds x.needs n
  rows : (stateAfter (OnDemand.poll pollNeeds pollRows) x n).rows = stateAfter pollRows x.rows k
  handed : firstItems (run (OnDemand.poll pollNeeds pollRows) x) n =
    firstItems (run pollRows x.rows) k
  taken : (firstItems (run pollRows x.rows) k).length +
      (stateAfter (OnDemand.poll pollNeeds pollRows) x n).odContinue.toNat ≤
    x.odContinue.toNat + (firstItems (run pollNeeds x.needs) n).length

theorem gated_step {k : Nat} (h : Gated pollNeeds pollRows x n k) :
    Gated pollNeeds pollRows x (n + 1) k ∨ Gated pollNeeds pollRows x (n + 1) (k + 1) := by
  obtain ⟨hneeds, hrows, hhanded, htaken⟩ := h
  obtain ⟨hpolled, hopen | hclosed⟩ :=
    poll_cases pollNeeds pollRows (stateAfter (OnDemand.poll pollNeeds pollRows) x n)
  · obtain ⟨hanswer, hnext, hlength⟩ := hopen
    right
    rw [hneeds] at hpolled hlength
    rw [hrows] at hanswer hnext hlength
    refine ⟨hpolled, hnext, ?_, ?_⟩
    · rw [firstItems_run_succ, hhanded, hanswer, ← firstItems_run_succ]
    · rw [firstItems_run_succ, firstItems_run_succ, List.length_append, List.length_append,
        stateAfter]
      omega
  · obtain ⟨hanswer, hnext, htakes⟩ := hclosed
    left
    have hnone : (OnDemand.poll pollNeeds pollRows
        (stateAfter (OnDemand.poll pollNeeds pollRows) x n)).1.items = [] := by
      rcases hanswer with hanswer | ⟨hanswer, -⟩ <;> rw [hanswer] <;> rfl
    rw [hneeds] at hpolled
    refine ⟨hpolled, hnext.trans hrows, ?_, ?_⟩
    · rw [firstItems_run_succ, hnone, List.append_nil, hhanded]
    · rw [firstItems_run_succ, List.length_append, stateAfter, htakes]
      simp only [Bool.toNat_false]
      omega

theorem gated_after (pollNeeds : σ → Poll (Option Unit) × σ) (pollRows : τ → Poll (Option ρ) × τ)
    (x : OnDemand σ τ) (n : Nat) : ∃ k ≤ n, Gated pollNeeds pollRows x n k := by
  induction n with
  | zero => exact ⟨0, Nat.le_refl 0, rfl, rfl, rfl, by simp [firstItems, stateAfter]⟩
  | succ n ih =>
    obtain ⟨k, hk, h⟩ := ih
    rcases gated_step h with h | h
    · exact ⟨k, by omega, h⟩
    · exact ⟨k + 1, by omega, h⟩

end Gate

/-! ### The needs of several streams -/

section Needs

open SelectAny

variable {n : Nat} {α : Type}

/-- Each item comes from one of the streams. -/
theorem length_eq_sum {l : List (Nat × α)} (h : ∀ p ∈ l, p.1 < n) :
    l.length = ∑ i : Fin n, (itemsOf i l).length := by
  induction l with
  | nil => simp [itemsOf]
  | cons p l ih =>
    obtain ⟨hp, hl⟩ := List.forall_mem_cons.mp h
    have hcons (i : Fin n) : (itemsOf i (p :: l)).length =
        (if ⟨p.1, hp⟩ = i then 1 else 0) + (itemsOf i l).length := by
      by_cases hi : (⟨p.1, hp⟩ : Fin n) = i
      · subst hi
        simp [itemsOf, Nat.add_comm]
      · have hne : p.1 ≠ i.val := fun h => hi (Fin.ext h)
        simp [itemsOf, hne, hi]
    rw [List.length_cons, ih hl, Finset.sum_congr rfl fun i _ => hcons i, Finset.sum_add_distrib,
      Finset.sum_ite_eq, if_pos (Finset.mem_univ _), Nat.add_comm]

variable [NeZero n]

theorem items_pollNext (x : SelectAny n α) :
    (pollNext x).1.items = (yieldOf x).map Prod.snd := by
  rw [yieldOf]
  split
  · next h => rw [h, Poll.items, List.map_singleton]
  · next h =>
    unfold Poll.items
    split
    · next h' => exact absurd h' (h _)
    · rfl

theorem firstItems_selectAny (x : SelectAny n α) (m : Nat) :
    firstItems (run pollNext x) m = (yieldsBefore x m).map Prod.snd := by
  induction m with
  | zero => rfl
  | succ m ih =>
    rw [firstItems_run_succ, yieldsBefore, List.map_append, ih, items_pollNext]

theorem yields_lt (x : SelectAny n α) (m : Nat) : ∀ p ∈ yieldsBefore x m, p.1 < n := by
  induction m with
  | zero => exact List.forall_mem_nil _
  | succ m ih =>
    intro p hp
    rcases List.mem_append.mp hp with hp | hp
    · exact ih p hp
    · rcases pollsOne (stateAfter pollNext x m) with ⟨i, v, hv, htakes⟩ | ⟨hanswer, -⟩
      · rw [yieldOf, hv, htakes.index] at hp
        obtain rfl := List.mem_singleton.mp hp
        exact i.isLt
      · rcases hanswer with hanswer | hanswer <;> rw [yieldOf, hanswer] at hp <;> cases hp

end Needs

/-! ### An endpoint -/

variable {ε α : Type} {n : Nat}

/-- The stream of rows that `into_future` makes requests of: an endpoint on demand that provides
something waits for the needs. -/
def endpointStream (provides : Bool) : {n : Nat} → (Fin n → PollStream Unit) →
    List (PollStream (Except ε α)) → PollStream (Except ε (List α))
  | 0, _, ss => ZipAll.zipAll ss
  | _ + 1, onDemand, ss =>
    if provides then
      run (OnDemand.poll SelectAny.pollNext ZipAll.pollNext)
        ⟨SelectAny.selectAny onDemand, false, ss.map fun s => (s, none)⟩
    else ZipAll.zipAll ss

/-- Whatever its needs and its providers answer: the rows of an endpoint on demand are the first
rows of its providers, no more than needs have been taken, and they end only where the rows of the
providers end or all needs have. -/
theorem runs_on_demand (onDemand : Fin (n + 1) → PollStream Unit)
    (ss : List (PollStream (Except ε α))) (m : Nat) :
    ∃ k ≤ m, ∃ (taken : Fin (n + 1) → List Unit) (rest : Fin (n + 1) → PollStream Unit),
      (∀ i, Taken (onDemand i) (taken i) (rest i)) ∧
      firstItems (endpointStream true onDemand ss) m = firstItems (ZipAll.zipAll ss) k ∧
      (firstItems (endpointStream true onDemand ss) m).length ≤ ∑ i, (taken i).length ∧
      ((endpointStream true onDemand ss).get m = .ready none →
        (ZipAll.zipAll ss).get k = .ready none ∨ ∀ i, (rest i).head = .ready none) := by
  let x : OnDemand (SelectAny (n + 1) Unit) (ZipAll.Elems ε α) :=
    ⟨SelectAny.selectAny onDemand, false, ss.map fun s => (s, none)⟩
  obtain ⟨k, hk, hneeds, hrows, hhanded, htaken⟩ :=
    gated_after SelectAny.pollNext ZipAll.pollNext x m
  have hstream : endpointStream true onDemand ss =
      run (OnDemand.poll SelectAny.pollNext ZipAll.pollNext) x := rfl
  have hzip : ZipAll.zipAll ss = run ZipAll.pollNext x.rows := rfl
  refine ⟨k, hk, fun i => SelectAny.itemsOf i (SelectAny.yieldsBefore x.needs m),
    (stateAfter SelectAny.pollNext x.needs m).elems, ?_, ?_, ?_, ?_⟩
  · intro i
    exact SelectAny.taken_after onDemand i m
  · rw [hstream, hzip, hhanded]
  · rw [hstream, hhanded, ← length_eq_sum (yields_lt x.needs m)]
    have hlength := congrArg List.length (firstItems_selectAny x.needs m)
    rw [List.length_map] at hlength
    have hfalse : x.odContinue.toNat = 0 := rfl
    omega
  · rw [hstream, hzip, get_run, get_run]
    intro hend
    obtain ⟨-, ⟨hanswer, -⟩ | ⟨hanswer, -⟩⟩ := poll_cases SelectAny.pollNext ZipAll.pollNext
      (stateAfter (OnDemand.poll SelectAny.pollNext ZipAll.pollNext) x m)
    · left
      rw [← hrows, ← hanswer, hend]
    · right
      rcases hanswer with hpending | ⟨-, hended⟩
      · rw [hend] at hpending
        cases hpending
      · rw [hneeds] at hended
        exact SelectAny.pollNext_end hended

end Pewpew.Request
