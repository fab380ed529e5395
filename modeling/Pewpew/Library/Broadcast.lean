import Mathlib.Data.List.Basic
import Mathlib.Tactic.Common

/-! A broadcast channel that keeps its last messages, and the receivers that read it at their own
pace. -/
namespace Pewpew.Broadcast

variable {α : Type*} {capacity n : Nat} {log more : List α} {start pos : Nat} {skip : α → Bool}
  {a : α}

/-- What a receiver is given: a message, or how many it has missed. -/
inductive Answer (α : Type*) where
  | item (a : α)
  | lagged (n : Nat)
  deriving DecidableEq, Repr

/-- A receiver that has read the messages before `pos` of all that were ever sent reads on; `none`
where there are no new ones. One that is too far behind goes on with the oldest that is kept. -/
def recv (capacity : Nat) (log : List α) (pos : Nat) : Option (Answer α × Nat) :=
  if capacity < log.length - pos then
    some (.lagged (log.length - capacity - pos), log.length - capacity)
  else log[pos]?.map fun a => (.item a, pos + 1)

theorem recv_none (h : recv capacity log pos = none) : log.length ≤ pos := by
  unfold recv at h
  split at h
  · cases h
  · exact List.getElem?_eq_none_iff.mp (Option.map_eq_none_iff.mp h)

theorem recv_item (h : recv capacity log pos = some (.item a, n)) :
    log[pos]? = some a ∧ n = pos + 1 := by
  unfold recv at h
  split at h
  · cases h
  · obtain ⟨b, hb, heq⟩ := Option.map_eq_some_iff.mp h
    cases heq
    exact ⟨hb, rfl⟩

theorem recv_lagged {m : Nat} (h : recv capacity log pos = some (.lagged m, n)) :
    pos + capacity < log.length := by
  unfold recv at h
  split at h
  · omega
  · obtain ⟨b, -, heq⟩ := Option.map_eq_some_iff.mp h
    cases heq

/-- A listener passes over some messages and stops at any other answer. -/
inductive Listening (α : Type*) where
  | nothing
  | goesOn (pos : Nat)
  | stops (answer : Answer α)
  deriving DecidableEq, Repr

def listen (skip : α → Bool) (capacity : Nat) (log : List α) (pos : Nat) : Listening α :=
  match recv capacity log pos with
  | none => .nothing
  | some (.item a, pos) => if skip a then .goesOn pos else .stops (.item a)
  | some (.lagged n, _) => .stops (.lagged n)

/-- A listener has read the messages from `start` on, and has passed over all of them. -/
structure Passed (skip : α → Bool) (log : List α) (start pos : Nat) : Prop where
  from_le : start ≤ pos
  le_length : pos ≤ log.length
  skipped : ∀ k a, start ≤ k → k < pos → log[k]? = some a → skip a = true

theorem passed_self (h : start ≤ log.length) : Passed skip log start start :=
  ⟨Nat.le_refl _, h, fun k a hk hlt => by omega⟩

theorem Passed.append (h : Passed skip log start pos) (more : List α) :
    Passed skip (log ++ more) start pos := by
  obtain ⟨hstart, hpos, hskipped⟩ := h
  refine ⟨hstart, by rw [List.length_append]; omega, ?_⟩
  intro k a hk hlt ha
  rw [List.getElem?_append_left (by omega)] at ha
  exact hskipped k a hk hlt ha

theorem Passed.goesOn (h : Passed skip log start pos)
    (hl : listen skip capacity log pos = .goesOn n) : Passed skip log start n := by
  unfold listen at hl
  split at hl
  · cases hl
  · next a m hr =>
    obtain ⟨hget, rfl⟩ := recv_item hr
    split at hl
    · next hs =>
      cases hl
      obtain ⟨hlt, -⟩ := List.getElem?_eq_some_iff.mp hget
      refine ⟨Nat.le_succ_of_le h.from_le, hlt, ?_⟩
      intro k b hk hle hb
      rcases Nat.lt_or_eq_of_le (Nat.le_of_lt_succ hle) with hlt | rfl
      · exact h.skipped k b hk hlt hb
      · rw [hget] at hb
        cases hb
        exact hs
    · cases hl
  · cases hl

/-- A listener has stopped: at a message that it does not pass over, or too far behind. -/
def Stopped (skip : α → Bool) (capacity : Nat) (log : List α) (start : Nat) : Prop :=
  ∃ k, Passed skip log start k ∧
    ((∃ a, log[k]? = some a ∧ skip a = false) ∨ k + capacity < log.length)

theorem Stopped.append (h : Stopped skip capacity log start) (more : List α) :
    Stopped skip capacity (log ++ more) start := by
  obtain ⟨k, hpassed, ⟨a, ha, hs⟩ | hlag⟩ := h
  · obtain ⟨hlt, -⟩ := List.getElem?_eq_some_iff.mp ha
    exact ⟨k, hpassed.append more, .inl ⟨a, by rw [List.getElem?_append_left hlt, ha], hs⟩⟩
  · exact ⟨k, hpassed.append more, .inr (by rw [List.length_append]; omega)⟩

/-- A listener stops at the first message that it does not pass over, or where it is too far
behind. -/
theorem listen_stops {answer : Answer α} (hl : listen skip capacity log pos = .stops answer) :
    (∃ a, answer = .item a ∧ log[pos]? = some a ∧ skip a = false) ∨
      (∃ n, answer = .lagged n) ∧ pos + capacity < log.length := by
  unfold listen at hl
  split at hl
  · cases hl
  · next a m hr =>
    split at hl
    · cases hl
    · next hs =>
      cases hl
      exact .inl ⟨a, rfl, (recv_item hr).1, by simpa using hs⟩
  · next m k hr =>
    cases hl
    exact .inr ⟨⟨m, rfl⟩, recv_lagged hr⟩

/-- With one message kept, a listener that has not read one that it does not pass over stops at its
next poll. -/
theorem stops_of_unread {k : Nat} (hk : pos ≤ k) (ha : log[k]? = some a) (hs : skip a = false) :
    ∃ answer, listen skip 1 log pos = .stops answer := by
  obtain ⟨hlt, -⟩ := List.getElem?_eq_some_iff.mp ha
  by_cases hlag : 1 < log.length - pos
  · exact ⟨_, by rw [listen, recv, if_pos hlag]⟩
  · obtain rfl : k = pos := by omega
    refine ⟨.item a, ?_⟩
    rw [listen, recv, if_neg hlag, ha]
    simp [hs]

end Pewpew.Broadcast
