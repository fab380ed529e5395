import Pewpew.Library.PollStream
import Mathlib.Data.ZMod.Defs
import Mathlib.Logic.Function.Basic

/-! The crate `select_any`: the items of several streams in turn. -/
namespace Pewpew

open Polling

/-- `SelectAny`: `n` streams, and the index of the one that gave the last item. -/
structure SelectAny (n : Nat) (α : Type) where
  elems : Fin n → PollStream α
  lastYieldIndex : Nat

namespace SelectAny

variable {n : Nat} {α : Type}

/-- The streams after one of them has been polled. -/
def polled (x : SelectAny n α) (i : Fin n) : SelectAny n α :=
  { x with elems := Function.update x.elems i (x.elems i).tail }

/-- The loop over the indices of the streams. -/
def pollEach : List (Fin n) → Nat → SelectAny n α → Poll (Option α) × SelectAny n α
  | [], doneCount, x => (if doneCount = n then .ready none else .pending, x)
  | i :: order, doneCount, x =>
    match (x.elems i).head with
    | .ready (some v) => (.ready (some v), { x.polled i with lastYieldIndex := i })
    | .ready none => pollEach order (doneCount + 1) (x.polled i)
    | .pending => pollEach order doneCount (x.polled i)

/-- The indices from the one after the last, round to it. -/
def order [NeZero n] (x : SelectAny n α) : List (Fin n) :=
  (List.range n).map fun i => Fin.ofNat n (i + (x.lastYieldIndex + 1))

/-- `SelectAny::poll_next`. -/
def pollNext [NeZero n] (x : SelectAny n α) : Poll (Option α) × SelectAny n α :=
  pollEach x.order 0 x

/-- `select_any`. -/
def selectAny (elems : Fin n → PollStream α) : SelectAny n α where
  elems := elems
  lastYieldIndex := n - 1

/-! ### The loop -/

/-- The streams of a list are polled, the others are not. -/
def polledAt (order : List (Fin n)) (elems : Fin n → PollStream α) (i : Fin n) : PollStream α :=
  if i ∈ order then (elems i).tail else elems i

/-- What a loop over distinct indices does: it takes one item, the first that there is, or finds
none. -/
inductive Selects (order : List (Fin n)) (x : SelectAny n α) :
    Poll (Option α) × SelectAny n α → Prop where
  | item (before after : List (Fin n)) (i : Fin n) (v : α) (horder : order = before ++ i :: after)
      (hbefore : ∀ j ∈ before, Lacks (x.elems j)) (hitem : (x.elems i).head = .ready (some v)) :
      Selects order x (.ready (some v), ⟨polledAt (before ++ [i]) x.elems, i⟩)
  | none (p : Poll (Option α)) (hnone : ∀ j ∈ order, Lacks (x.elems j))
      (hp : p = .pending ∨ p = .ready none) :
      Selects order x (p, ⟨polledAt order x.elems, x.lastYieldIndex⟩)

variable {x : SelectAny n α} {is : List (Fin n)} {i j : Fin n} {doneCount : Nat}
  {r : Poll (Option α) × SelectAny n α}

theorem polled_of_ne (h : j ≠ i) : (x.polled i).elems j = x.elems j :=
  Function.update_of_ne h _ _

theorem polled_of_mem (h : i ∉ is) (hj : j ∈ is) : (x.polled i).elems j = x.elems j :=
  polled_of_ne fun hji => h (hji ▸ hj)

theorem polledAt_polled (h : i ∉ is) :
    polledAt is (x.polled i).elems = polledAt (i :: is) x.elems := by
  funext j
  by_cases hji : j = i
  · subst hji
    simp [polledAt, h, polled]
  · simp [polledAt, polled_of_ne hji, hji]

theorem polled_elems : (x.polled i).elems = polledAt [i] x.elems := by
  funext j
  by_cases hji : j = i
  · subst hji
    simp [polledAt, polled]
  · simp [polledAt, polled_of_ne hji, hji]

/-- One stream without an item comes before the others. -/
theorem Selects.cons (hi : i ∉ is) (hlacks : Lacks (x.elems i)) (h : Selects is (x.polled i) r) :
    Selects (i :: is) x r := by
  cases h with
  | item before after k v horder hbefore hitem =>
    subst horder
    have hkeep : i ∉ before ++ [k] := fun hmem => hi (by simp_all)
    rw [polledAt_polled hkeep]
    refine .item (i :: before) after k v rfl ?_ ?_
    · refine List.forall_mem_cons.mpr ⟨hlacks, fun j hj => ?_⟩
      rw [← polled_of_mem hi (List.mem_append_left _ hj)]
      exact hbefore j hj
    · rw [← polled_of_mem hi (List.mem_append_right _ List.mem_cons_self)]
      exact hitem
  | none p hnone hp =>
    rw [polledAt_polled hi]
    refine .none p (List.forall_mem_cons.mpr ⟨hlacks, fun j hj => ?_⟩) hp
    rw [← polled_of_mem hi hj]
    exact hnone j hj

theorem pollEach_selects (hnodup : is.Nodup) (doneCount : Nat) (x : SelectAny n α) :
    Selects is x (pollEach is doneCount x) := by
  induction is generalizing doneCount x with
  | nil =>
    rw [pollEach]
    refine .none _ (List.forall_mem_nil _) ?_
    split
    · exact .inr rfl
    · exact .inl rfl
  | cons i is ih =>
    obtain ⟨hi, hnodup⟩ := List.nodup_cons.mp hnodup
    rw [pollEach]
    split
    · next v hv =>
      dsimp only
      rw [polled_elems]
      exact .item [] is i v rfl (List.forall_mem_nil _) hv
    · next hs => exact (ih hnodup _ _).cons hi fun v hv => by cases hs.symm.trans hv
    · next hs => exact (ih hnodup _ _).cons hi fun v hv => by cases hs.symm.trans hv

/-- The end is reported where each stream of the round reports its own. -/
theorem pollEach_end (hnodup : is.Nodup) (hle : doneCount + is.length ≤ n)
    (hend : (pollEach is doneCount x).1 = .ready none) :
    doneCount + is.length = n ∧ ∀ i ∈ is, (x.elems i).head = .ready none := by
  induction is generalizing doneCount x with
  | nil =>
    rw [pollEach] at hend
    by_cases hdone : doneCount = n
    · exact ⟨hdone, List.forall_mem_nil _⟩
    · rw [if_neg hdone] at hend
      cases hend
  | cons i is ih =>
    obtain ⟨hi, hnodup⟩ := List.nodup_cons.mp hnodup
    rw [List.length_cons] at hle ⊢
    rw [pollEach] at hend
    split at hend
    · cases hend
    · next hs =>
      obtain ⟨hlength, hall⟩ := ih hnodup (by omega) hend
      refine ⟨by omega, List.forall_mem_cons.mpr ⟨hs, fun j hj => ?_⟩⟩
      rw [← polled_of_mem hi hj]
      exact hall j hj
    · -- a stream that is pending leaves one too few
      have := (ih hnodup (by omega) hend).1
      omega

/-! ### The order -/

section Order

variable [NeZero n]

/-- The index at an offset from the stream after the last. -/
def slot (x : SelectAny n α) (d : Nat) : Fin n := Fin.ofNat n (d + (x.lastYieldIndex + 1))

theorem order_nodup (x : SelectAny n α) : x.order.Nodup := by
  refine List.Nodup.map_on ?_ List.nodup_range
  intro a ha b hb hab
  rw [List.mem_range] at ha hb
  have hmod := congrArg Fin.val hab
  simp only [Fin.val_ofNat] at hmod
  have : a % n = b % n := Nat.ModEq.add_right_cancel' _ hmod
  rwa [Nat.mod_eq_of_lt ha, Nat.mod_eq_of_lt hb] at this

theorem order_length (x : SelectAny n α) : x.order.length = n := by
  rw [order, List.length_map, List.length_range]

theorem mem_order (x : SelectAny n α) (i : Fin n) : i ∈ x.order := by
  have hcard : x.order.toFinset.card = Fintype.card (Fin n) := by
    rw [List.toFinset_card_of_nodup x.order_nodup, order_length, Fintype.card_fin]
  rw [← List.mem_toFinset, Finset.eq_univ_of_card _ hcard]
  exact Finset.mem_univ i

theorem slot_of_order {before after : List (Fin n)} (h : x.order = before ++ i :: after) :
    i = x.slot before.length := by
  have hi : x.order[before.length]? = some i := by simp [h]
  have hlt : before.length < n := by
    have := congrArg List.length h
    rw [order_length, List.length_append, List.length_cons] at this
    omega
  rw [order, List.getElem?_map, List.getElem?_range hlt] at hi
  exact (Option.some.inj hi).symm

theorem slot_mem {before after : List (Fin n)} {d : Nat} (h : x.order = before ++ after)
    (hd : d < before.length) : x.slot d ∈ before := by
  have hlt : d < n := by
    have := congrArg List.length h
    rw [order_length, List.length_append] at this
    omega
  have hd' : x.order[d]? = before[d]? := by rw [h, List.getElem?_append_left hd]
  rw [order, List.getElem?_map, List.getElem?_range hlt] at hd'
  exact List.mem_of_getElem? hd'.symm

theorem exists_slot (x : SelectAny n α) (i : Fin n) : ∃ d < n, x.slot d = i := by
  obtain ⟨d, hd, hi⟩ := List.mem_map.mp (x.mem_order i)
  exact ⟨d, List.mem_range.mp hd, hi⟩

/-- After the stream at an offset has been served, the later ones are closer. -/
theorem slot_after {elems : Fin n → PollStream α} {d e : Nat} (h : e < d) :
    slot ⟨elems, (x.slot e : Nat)⟩ (d - e - 1) = x.slot d := by
  apply Fin.ext
  simp only [slot, Fin.val_ofNat]
  rw [← Nat.add_assoc, Nat.add_assoc _ _ 1, Nat.add_comm _ 1, ← Nat.add_assoc, Nat.add_mod_mod]
  congr 1
  omega

end Order

/-! ### Every poll -/

/-- The items of one stream among those yielded. -/
def itemsOf (i : Fin n) (l : List (Nat × α)) : List α :=
  l.filterMap fun p => if p.1 = i.val then some p.2 else none

theorem itemsOf_append (i : Fin n) (l l' : List (Nat × α)) :
    itemsOf i (l ++ l') = itemsOf i l ++ itemsOf i l' := List.filterMap_append

section Polls

variable [NeZero n]

theorem pollNext_selects (x : SelectAny n α) : Selects x.order x (pollNext x) :=
  pollEach_selects x.order_nodup 0 x

/-- A poll takes the item from the stream `i`, and from no other one. -/
structure TakesFrom (i : Fin n) (v : α) (x y : SelectAny n α) : Prop where
  index : y.lastYieldIndex = i
  item : (x.elems i).head = .ready (some v)
  taken : y.elems i = (x.elems i).tail
  others : ∀ j, j ≠ i →
    y.elems j = x.elems j ∨ Lacks (x.elems j) ∧ y.elems j = (x.elems j).tail

/-- A poll finds no item. -/
def TakesNone (x y : SelectAny n α) : Prop :=
  ∀ j, Lacks (x.elems j) ∧ y.elems j = (x.elems j).tail

/-- The item that a poll takes is the one that it yields. -/
def PollsOne (x : SelectAny n α) : Prop :=
  (∃ i v, (pollNext x).1 = .ready (some v) ∧ TakesFrom i v x (pollNext x).2) ∨
    ((pollNext x).1 = .pending ∨ (pollNext x).1 = .ready none) ∧ TakesNone x (pollNext x).2

theorem pollsOne (x : SelectAny n α) : PollsOne x := by
  unfold PollsOne
  generalize hr : pollNext x = r
  have hselects := hr ▸ pollNext_selects x
  cases hselects with
  | item before after i v horder hbefore hitem =>
    refine .inl ⟨i, v, rfl, rfl, hitem, by simp [polledAt], fun j hji => ?_⟩
    by_cases hj : j ∈ before
    · exact .inr ⟨hbefore j hj, by simp [polledAt, hj]⟩
    · exact .inl (by simp [polledAt, hj, hji])
  | none p hnone hp =>
    refine .inr ⟨hp, fun j => ⟨hnone j (x.mem_order j), ?_⟩⟩
    simp [polledAt, x.mem_order j]

theorem pollNext_end (h : (pollNext x).1 = .ready none) (i : Fin n) :
    (x.elems i).head = .ready none := by
  have hlength : 0 + x.order.length ≤ n := by rw [order_length, Nat.zero_add]
  exact (pollEach_end x.order_nodup hlength h).2 i (x.mem_order i)

/-! ### Fairness -/

/-- Every poll of the stream finds an item. -/
def AlwaysReady (s : PollStream α) : Prop := ∀ m, ∃ v, s.get m = .ready (some v)

theorem AlwaysReady.tail {s : PollStream α} (h : AlwaysReady s) : AlwaysReady s.tail :=
  fun m => h (m + 1)

theorem AlwaysReady.not_lacks {s : PollStream α} (h : AlwaysReady s) : ¬ Lacks s := by
  intro hlacks
  obtain ⟨v, hv⟩ := h 0
  exact hlacks v hv

/-- The poll yields an item of the stream `i`. -/
def Serves (x : SelectAny n α) (i : Fin n) : Prop :=
  ∃ v, (pollNext x).1 = .ready (some v) ∧ TakesFrom i v x (pollNext x).2

theorem alwaysReady_pollNext (h : AlwaysReady (x.elems i)) :
    AlwaysReady ((pollNext x).2.elems i) := by
  rcases pollsOne x with ⟨k, v, -, htakes⟩ | ⟨-, hnone⟩
  · by_cases hik : i = k
    · subst hik
      rw [htakes.taken]
      exact h.tail
    · rcases htakes.others i hik with hsame | ⟨hlacks, -⟩
      · rwa [hsame]
      · exact absurd hlacks h.not_lacks
  · exact absurd (hnone i).1 h.not_lacks

theorem alwaysReady_after (h : AlwaysReady (x.elems i)) (m : Nat) :
    AlwaysReady ((stateAfter pollNext x m).elems i) := by
  induction m with
  | zero => exact h
  | succ m ih => exact alwaysReady_pollNext ih

/-- While a stream is always ready, each poll serves it or one that comes before it. -/
theorem serves_or_closer {d : Nat} (h : AlwaysReady (x.elems (x.slot d))) :
    ∃ e ≤ d, Serves x (x.slot e) ∧ (e < d → (pollNext x).2.slot (d - e - 1) = x.slot d) := by
  generalize hr : pollNext x = r
  have hselects := hr ▸ pollNext_selects x
  cases hselects with
  | item before after i v horder hbefore hitem =>
    have hi := slot_of_order horder
    refine ⟨before.length, ?_, ?_, fun hlt => ?_⟩
    · by_contra hlt
      exact h.not_lacks (hbefore _ (slot_mem horder (by omega)))
    · rw [← hi]
      rcases pollsOne x with ⟨k, w, hw, htakes⟩ | ⟨hanswer, -⟩
      · have hki : (i : Nat) = k := by rw [← htakes.index, hr]
        rw [Fin.ext hki]
        exact ⟨w, hw, htakes⟩
      · rw [hr] at hanswer
        rcases hanswer with hanswer | hanswer <;> cases hanswer
    · rw [hi]
      exact slot_after hlt
  | none p hnone hp => exact absurd (hnone _ (x.mem_order _)) h.not_lacks

theorem served_within {d : Nat} (h : AlwaysReady (x.elems (x.slot d))) (hd : d < n) :
    ∃ k ≤ d, Serves (stateAfter pollNext x k) (x.slot d) := by
  induction d using Nat.strong_induction_on generalizing x with
  | _ d ih =>
    obtain ⟨e, he, hserves, hcloser⟩ := serves_or_closer h
    rcases Nat.lt_or_eq_of_le he with hlt | rfl
    · have hready := alwaysReady_pollNext h
      rw [← hcloser hlt] at hready
      obtain ⟨k, hk, hserved⟩ := ih (d - e - 1) (by omega) hready (by omega)
      refine ⟨k + 1, by omega, ?_⟩
      rw [stateAfter_succ, ← hcloser hlt]
      exact hserved
    · exact ⟨0, Nat.zero_le _, hserves⟩

/-! ### Runs -/

/-- The item that a poll yields, with the index of its stream. -/
def yieldOf (x : SelectAny n α) : List (Nat × α) :=
  match (pollNext x).1 with
  | .ready (some v) => [((pollNext x).2.lastYieldIndex, v)]
  | _ => []

def yieldsBefore (x : SelectAny n α) : Nat → List (Nat × α)
  | 0 => []
  | m + 1 => yieldsBefore x m ++ yieldOf (stateAfter pollNext x m)

theorem taken_pollNext {s : PollStream α} {l : List (Nat × α)}
    (h : Taken s (itemsOf i l) (x.elems i)) :
    Taken s (itemsOf i (l ++ yieldOf x)) ((pollNext x).2.elems i) := by
  rw [itemsOf_append]
  rcases pollsOne x with ⟨k, v, hv, htakes⟩ | ⟨hanswer, hnone⟩
  · have hyield : yieldOf x = [((k : Nat), v)] := by rw [yieldOf, hv, htakes.index]
    rw [hyield]
    by_cases hik : i = k
    · subst hik
      have hitem : itemsOf i [((i : Nat), v)] = [v] := by simp [itemsOf]
      rw [hitem, htakes.taken]
      exact h.then_item htakes.item
    · have hitem : itemsOf i [((k : Nat), v)] = [] := by
        simp [itemsOf, Fin.val_inj, Ne.symm hik]
      rw [hitem, List.append_nil]
      rcases htakes.others i hik with hsame | ⟨hlacks, htail⟩
      · rwa [hsame]
      · rw [htail]
        exact h.then_lacks hlacks
  · have hyield : yieldOf x = [] := by
      rcases hanswer with hanswer | hanswer <;> rw [yieldOf, hanswer]
    have hitem : itemsOf i ([] : List (Nat × α)) = [] := rfl
    rw [hyield, hitem, List.append_nil, (hnone i).2]
    exact h.then_lacks (hnone i).1

theorem taken_after (ss : Fin n → PollStream α) (i : Fin n) (m : Nat) :
    Taken (ss i) (itemsOf i (yieldsBefore (selectAny ss) m))
      ((stateAfter pollNext (selectAny ss) m).elems i) := by
  induction m with
  | zero => exact .refl _
  | succ m ih => exact taken_pollNext ih

/-- The selection from streams, as it is meant. -/
structure FairAndLossless (ss : Fin n → PollStream α) : Prop where
  one : ∀ m, PollsOne (stateAfter pollNext (selectAny ss) m)
  lossless : ∀ i m, Taken (ss i) (itemsOf i (yieldsBefore (selectAny ss) m))
    ((stateAfter pollNext (selectAny ss) m).elems i)
  fair : ∀ i, AlwaysReady (ss i) → ∀ m,
    (∃ k < n, Serves (stateAfter pollNext (selectAny ss) (m + k)) i) ∧
      ∃ j, Serves (stateAfter pollNext (selectAny ss) m) j
  ends : ∀ m, (pollNext (stateAfter pollNext (selectAny ss) m)).1 = .ready none →
    ∀ i, ((stateAfter pollNext (selectAny ss) m).elems i).head = .ready none

theorem fairAndLossless (ss : Fin n → PollStream α) : FairAndLossless ss where
  one _ := pollsOne _
  lossless := taken_after ss
  fair i hi m := by
    have hready := alwaysReady_after (x := selectAny ss) hi m
    obtain ⟨d, hd, hslot⟩ := exists_slot (stateAfter pollNext (selectAny ss) m) i
    rw [← hslot] at hready ⊢
    obtain ⟨k, hk, hserves⟩ := served_within hready hd
    rw [stateAfter_add] at hserves
    obtain ⟨e, -, hserves', -⟩ := serves_or_closer hready
    exact ⟨⟨k, by omega, hserves⟩, _, hserves'⟩
  ends _ := pollNext_end

end Polls

/-- Two streams that are always ready. -/
theorem fairAndLossless_two : FairAndLossless fun i : Fin 2 => always (i : Nat) :=
  fairAndLossless _

end SelectAny

end Pewpew
