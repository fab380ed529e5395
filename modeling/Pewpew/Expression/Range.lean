import Pewpew.Expression.FunctionCall
import Pewpew.Expression.IntoStream
import Pewpew.Expression.Iterate

/-! The integers that `range` denotes, in all the ways in which it is evaluated. -/
namespace Pewpew.SelectParser

open Polling

/-- The integers from `first` up to `second`, or down to it, without `second`. -/
def integers (first second : Nat) : List Nat :=
  if first ≤ second then (List.range (second - first)).map (first + ·)
  else (List.range (first - second)).map (first - ·)

/-- A number of 64 bits as a constant argument. -/
def constantArg (n : UInt64) : ValueOrExpression := .value (.json (.ofNat n.toNat))

variable {first second : UInt64}

/-- The additions of `ReversibleRange::new` do not overflow. -/
def NoOverflow (first second : UInt64) : Prop :=
  second < first → first.toNat + 1 < 2 ^ 64 ∧ second.toNat + 1 < 2 ^ 64

/-- A call that evaluates to the given items, by value, as an iterator and as a stream. -/
structure FunctionCall.Denotes (f : FunctionCall) (items : List Json) : Prop where
  evaluate : ∀ x d noErr forEach, f.evaluate x d noErr forEach = .ok (.owned (.array items))
  evaluateAsIter : ∀ x d noErr forEach,
    f.evaluateAsIter x d noErr forEach = .ok (items.map .owned)
  intoStream : ∀ {Ar : Type} (z : Zip) x draws (providers : String →
    Option (PollStream (Item Json Ar))) noErr,
    f.intoStream z x draws providers noErr = some (always (.ok (.array items, [])))

/-- A call of `range` yields the integers between the values of its arguments. -/
structure RangeDenotes (first second : UInt64) (items : List Json) : Prop where
  folded : ∀ marker, ∃ f, Range.new marker [constantArg first, constantArg second] = .ok f ∧
    f.Denotes items
  evaluate : ∀ x (l r : ValueOrExpression) marker d noErr forEach v w,
    l.evaluate x d.borrow noErr forEach = .ok v → v.val = .ofNat first.toNat →
    r.evaluate x d noErr forEach = .ok w → w.val = .ofNat second.toNat →
    (FunctionCall.range l r marker).evaluate x d noErr forEach = .ok (.owned (.array items))
  evaluateAsIter : ∀ x (l r : ValueOrExpression) marker d noErr forEach v w,
    l.evaluate x d.borrow noErr forEach = .ok v → v.val = .ofNat first.toNat →
    r.evaluate x d noErr forEach = .ok w → w.val = .ofNat second.toNat →
    (FunctionCall.range l r marker).evaluateAsIter x d noErr forEach = .ok (items.map .owned)
  intoStream : ∀ {Ar : Type} (z : Zip) x draws (providers : String →
    Option (PollStream (Item Json Ar))) (l r : ValueOrExpression) marker noErr s t,
    l.intoStream z x draws providers noErr = some s →
    r.intoStream z x draws providers noErr = some t →
    ∃ u, (FunctionCall.range l r marker).intoStream z x draws providers noErr = some u ∧
      ∀ returns returns' s' t', Next s (some (.ok (.ofNat first.toNat, returns))) s' →
        Next t (some (.ok (.ofNat second.toNat, returns'))) t' →
        ∃ u', Next u (some (.ok (.array items, returns ++ returns'))) u'

/-- What `ReversibleRange` holds without an overflow. -/
theorem ReversibleRange.items_new {first second : Nat} (h : second < first → first + 1 < 2 ^ 64) :
    (ReversibleRange.new first second).items = (integers first second).map Json.ofNat := by
  rw [ReversibleRange.new, integers]
  split
  · next hlt =>
    have hfirst := h hlt
    rw [Nat.mod_eq_of_lt (by omega), Nat.mod_eq_of_lt hfirst, if_neg (by omega)]
    simp only [items, if_true, ← List.map_reverse, Nat.add_sub_add_right]
    congr 1
    rw [List.reverse_range', Nat.add_right_comm, Nat.add_sub_cancel, Nat.add_sub_cancel' hlt.le]
  · next hle =>
    rw [if_pos (by omega)]
    simp only [items, List.range'_eq_map_range, Bool.false_eq_true, if_false]

theorem asU64_ofNat (n : Nat) : (Json.ofNat n).asU64 = some n := by
  simp [Json.ofNat, Json.asU64, JsonNumber.asU64]

theorem asU64_constantArg (n : UInt64) : asU64 (constantArg n) = some n.toNat := by
  simp [constantArg, Json.ofNat, asU64]

theorem rangeConstant_denotes (r : ReversibleRange) :
    (FunctionCall.rangeConstant r).Denotes r.items where
  evaluate _ _ _ _ := by rw [FunctionCall.evaluate]
  evaluateAsIter _ _ _ _ := rfl
  intoStream _ _ _ _ _ := by rw [FunctionCall.intoStream]

/-- All implementations take their items from the same range. -/
theorem rangeDenotes_new (first second : UInt64) :
    RangeDenotes first second (ReversibleRange.new first.toNat second.toNat).items := by
  have hrange (marker : Marker) {v w : Json} (hv : v = .ofNat first.toNat)
      (hw : w = .ofNat second.toNat) :
      rangeOf marker v w = .ok (.new first.toNat second.toNat) := by
    rw [rangeOf, hv, hw, asU64_ofNat, asU64_ofNat]
  refine ⟨fun marker => ⟨_, ?_, rangeConstant_denotes _⟩, ?_, ?_, ?_⟩
  · simp only [Range.new, asU64_constantArg]
    rfl
  · intro x l r marker d noErr forEach v w hl hv hr hw
    simp [FunctionCall.evaluate, hl, hr, Except.bind, Except.map, hv, asU64_ofNat,
      hrange marker rfl hw]
  · intro x l r marker d noErr forEach v w hl hv hr hw
    simp [FunctionCall.evaluateAsIter, hl, hr, Except.bind, Except.map, hv, asU64_ofNat,
      hrange marker rfl hw]
  · intro Ar z x draws providers l r marker noErr s t hs ht
    refine ⟨mapItems (rangeItem marker) (z.zip s t), ?_, fun returns returns' s' t' hns hnt => ?_⟩
    · simp [FunctionCall.intoStream, hs, ht]
    · have hitem : rangeItem marker
          ((.ok (.ofNat first.toNat, returns), .ok (.ofNat second.toNat, returns')) :
            Item Json Ar × Item Json Ar) =
          .ok (.array (ReversibleRange.new first.toNat second.toNat).items,
            returns ++ returns') := by
        simp [rangeItem, hrange marker rfl rfl, Except.bind, Except.map]
      have hn := (z.pair hns hnt).mapItems (f := rangeItem marker)
      rw [Option.map_some, hitem] at hn
      exact ⟨_, hn⟩

/-- The denoted items are unique. -/
theorem RangeDenotes.unique {items items' : List Json} (h : RangeDenotes first second items)
    (h' : RangeDenotes first second items') : items = items' := by
  obtain ⟨f, hf, hitems⟩ := h.folded ⟨0, 0⟩
  obtain ⟨f', hf', hitems'⟩ := h'.folded ⟨0, 0⟩
  obtain rfl := Except.ok.inj (hf.symm.trans hf')
  have heq := (hitems.evaluate .plain (.owned .null) false none).symm.trans
    (hitems'.evaluate .plain (.owned .null) false none)
  simpa using heq

/-- A descending range from the greatest integer of 64 bits is empty. -/
theorem ReversibleRange.items_greatest {second : Nat} (h : second < 2 ^ 64 - 1) :
    (ReversibleRange.new (2 ^ 64 - 1) second).items = [] := by
  rw [ReversibleRange.new, if_pos h]
  simp [items]

theorem rangeDenotes_iff (first second : UInt64) :
    RangeDenotes first second ((integers first.toNat second.toNat).map Json.ofNat) ↔
      (second < first → first.toNat ≠ 2 ^ 64 - 1) := by
  have hlt : second < first ↔ second.toNat < first.toNat := UInt64.lt_iff_toNat_lt
  have hnew := rangeDenotes_new first second
  constructor
  · intro h hdesc hfirst
    rw [hlt] at hdesc
    rw [hfirst] at hdesc h hnew
    rw [ReversibleRange.items_greatest hdesc] at hnew
    have hlen := congrArg List.length (h.unique hnew)
    rw [integers, if_neg (Nat.not_le_of_lt hdesc)] at hlen
    simp only [List.length_map, List.length_range, List.length_nil] at hlen
    omega
  · intro h
    have hoverflow : second.toNat < first.toNat → first.toNat + 1 < 2 ^ 64 := by
      intro hdesc
      have hfirst : first.toNat < 2 ^ 64 := first.toNat_lt
      have := h (hlt.mpr hdesc)
      omega
    rw [← ReversibleRange.items_new hoverflow]
    exact hnew

/-- `range` yields the integers between its bounds, and without an overflow. -/
def RangeExact (first second : UInt64) : Prop :=
  NoOverflow first second ∧
    RangeDenotes first second ((integers first.toNat second.toNat).map Json.ofNat)

/-- `range` is exact unless it descends from the greatest integer of 64 bits. -/
theorem rangeExact_iff (first second : UInt64) :
    RangeExact first second ↔ (second < first → first.toNat ≠ 2 ^ 64 - 1) := by
  constructor
  · intro h
    exact (rangeDenotes_iff first second).mp h.2
  · intro h
    refine ⟨fun hdesc => ?_, (rangeDenotes_iff first second).mpr h⟩
    have hne := h hdesc
    have hfirst : first.toNat < 2 ^ 64 := first.toNat_lt
    rw [UInt64.lt_iff_toNat_lt] at hdesc
    omega

/-- The greatest integer plus one does not fit. -/
theorem not_rangeExact : ¬ ∀ first second : UInt64, RangeExact first second := by
  intro h
  have hoverflow := (h 18446744073709551615 7).1 (by decide)
  exact absurd hoverflow.1 (by decide)

end Pewpew.SelectParser
