import Mathlib.Algebra.Order.BigOperators.Group.List
import Mathlib.Algebra.Order.Group.Basic
import Mathlib.Tactic.Abel

/-! Pieces laid end to end on a line: which piece a point falls into, and how far into it. -/
namespace Pewpew.Timeline

variable {β K : Type*} [AddCommGroup K] {len : β → K} {b c : β} {bs cs rest : List β} {x y : K}

/-- The length of all the pieces together. -/
def total (len : β → K) (bs : List β) : K := (bs.map len).sum

@[simp] theorem total_nil : total len [] = 0 := rfl

@[simp] theorem total_cons : total len (b :: bs) = len b + total len bs := by simp [total]

@[simp] theorem total_append : total len (bs ++ cs) = total len bs + total len cs := by
  simp [total]

variable [LinearOrder K]

/-- The piece whose half-open interval contains the point, the offset of the point in it, and
the pieces after it. -/
def locate (len : β → K) : List β → K → Option (β × K × List β)
  | [], _ => none
  | b :: bs, x => if x < len b then some (b, x, bs) else locate len bs (x - len b)

/-- How many pieces end at or before the point. -/
def index (len : β → K) : List β → K → Nat
  | [], _ => 0
  | b :: bs, x => if x < len b then 0 else index len bs (x - len b) + 1

theorem locate_cons_of_lt (h : x < len b) : locate len (b :: bs) x = some (b, x, bs) := by
  simp [locate, h]

theorem locate_cons_of_le (h : len b ≤ x) : locate len (b :: bs) x = locate len bs (x - len b) := by
  simp [locate, h.not_gt]

theorem index_cons_of_lt (h : x < len b) : index len (b :: bs) x = 0 := by simp [index, h]

theorem index_cons_of_le (h : len b ≤ x) :
    index len (b :: bs) x = index len bs (x - len b) + 1 := by
  simp [index, h.not_gt]

variable [IsOrderedAddMonoid K]

theorem total_nonneg (h : ∀ b ∈ bs, 0 ≤ len b) : 0 ≤ total len bs :=
  List.sum_nonneg (by simpa using h)

/-- A point past some pieces is located among the others. -/
theorem locate_append (hbs : ∀ b ∈ bs, 0 ≤ len b) (h : total len bs ≤ x) :
    locate len (bs ++ cs) x = locate len cs (x - total len bs) := by
  induction bs generalizing x with
  | nil => simp
  | cons b bs ih =>
    obtain ⟨hb, hbs⟩ := List.forall_mem_cons.mp hbs
    rw [total_cons] at h
    have hle : len b ≤ x := (le_add_of_nonneg_right (total_nonneg hbs)).trans h
    rw [List.cons_append, locate_cons_of_le hle, ih hbs (le_sub_iff_add_le'.mpr h), total_cons,
      sub_sub]

theorem index_append (hbs : ∀ b ∈ bs, 0 ≤ len b) (h : total len bs ≤ x) :
    index len (bs ++ cs) x = bs.length + index len cs (x - total len bs) := by
  induction bs generalizing x with
  | nil => simp
  | cons b bs ih =>
    obtain ⟨hb, hbs⟩ := List.forall_mem_cons.mp hbs
    rw [total_cons] at h
    have hle : len b ≤ x := (le_add_of_nonneg_right (total_nonneg hbs)).trans h
    rw [List.cons_append, index_cons_of_le hle, ih hbs (le_sub_iff_add_le'.mpr h), total_cons,
      sub_sub, List.length_cons]
    omega

/-- What `locate` finds contains the point. -/
theorem locate_eq_some (hx : 0 ≤ x) (h : locate len bs x = some (c, y, rest)) :
    ∃ pre, bs = pre ++ c :: rest ∧ x = total len pre + y ∧ 0 ≤ y ∧ y < len c := by
  induction bs generalizing x with
  | nil => cases h
  | cons b bs ih =>
    unfold locate at h
    split at h
    · cases h
      exact ⟨[], rfl, by simp, hx, by assumption⟩
    · rename_i hlt
      obtain ⟨pre, rfl, heq, hy⟩ := ih (sub_nonneg.mpr (not_lt.mp hlt)) h
      refine ⟨b :: pre, rfl, ?_, hy⟩
      rw [total_cons, add_assoc, ← heq]
      abel

theorem locate_of_lt (hbs : ∀ b ∈ bs, 0 ≤ len b) (hy : 0 ≤ y) (hlt : y < len c) :
    locate len (bs ++ c :: rest) (total len bs + y) = some (c, y, rest) := by
  rw [locate_append hbs (le_add_of_nonneg_right hy), add_sub_cancel_left, locate_cons_of_lt hlt]

/-- Exactly the points at or past the end lie in no piece. -/
theorem locate_eq_none_iff (hbs : ∀ b ∈ bs, 0 ≤ len b) :
    locate len bs x = none ↔ bs = [] ∨ total len bs ≤ x := by
  induction bs generalizing x with
  | nil => simp [locate]
  | cons b bs ih =>
    obtain ⟨hb, hbs⟩ := List.forall_mem_cons.mp hbs
    unfold locate
    split
    · rename_i hlt
      have := lt_of_lt_of_le hlt (le_add_of_nonneg_right (total_nonneg hbs))
      simpa using this
    · rename_i hlt
      rw [ih hbs, total_cons, le_sub_iff_add_le']
      constructor
      · rintro (rfl | h)
        · simpa using hlt
        · exact .inr h
      · rintro (h | h)
        · cases h
        · exact .inr h

end Pewpew.Timeline
