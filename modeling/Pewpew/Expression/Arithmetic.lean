import Pewpew.Expression.Functions
import Pewpew.Library.Rounding

/-! When the arithmetic operators compute the result that they should. -/
namespace Pewpew.SelectParser

open F64

/-- The number that is meant. -/
def JsonNumber.value : JsonNumber → ℚ
  | .int i => i
  | .float neg q => signed neg q

/-- An integer of 64 bits, or a finite float. -/
def JsonNumber.Valid : JsonNumber → Prop
  | .int i => -2 ^ 63 ≤ i ∧ i < 2 ^ 64
  | .float _ q => Representable q ∧ q < 2 ^ (1024 : Int)

/-- A number on whose range the integers are floats. -/
def JsonNumber.InRange (n : JsonNumber) : Prop := n.Valid ∧ |n.value| ≤ 2 ^ 53

/-- The quotient without its fraction. -/
def truncated (q : ℚ) : ℚ := if q < 0 then q.ceil else q.floor

/-- The exact result of an arithmetic operator. -/
def InfixOperator.exact : InfixOperator → ℚ → ℚ → Option ℚ
  | .add, a, b => some (a + b)
  | .subtract, a, b => some (a - b)
  | .multiply, a, b => some (a * b)
  | .divide, a, b => if b = 0 then none else some (a / b)
  | .mod, a, b => if b = 0 then none else some (a - truncated (a / b) * b)
  | _, _, _ => none

/-- The operation on floats. -/
def InfixOperator.f64 : InfixOperator → F64 → F64 → Option F64
  | .add, a, b => some (a.add b)
  | .subtract, a, b => some (a.sub b)
  | .multiply, a, b => some (a.mul b)
  | .divide, a, b => some (a.div b)
  | .mod, a, b => some (a.rem b)
  | _, _, _ => none

variable {op : InfixOperator} {m n : JsonNumber} {neg s t : Bool} {q r a b : ℚ} {f g : F64}
  {i : Int}

theorem evaluate_f64 {v w : Json} (h : op.f64 v.f64Value w.f64Value = some f) :
    op.evaluate v (.ok w) = .ok (toJsonNumber f) := by
  cases op <;> first | cases h; rfl | cases h

/-! ### From a float to a number -/

theorem lt_epsilon (neg : Bool) (q : ℚ) :
    F64.lt (.fin neg q) epsilon = true ↔ signed neg q < 2 ^ (-52 : Int) := by
  rw [F64.lt, epsilon, partialCmp, pow2_eq, beq_iff_eq, Option.some_inj, compare_lt_iff_lt]
  rfl

/-- The fraction of a float, with its sign, is less than `EPSILON`. -/
theorem sub_trunc_lt (hr : Representable r) (hle : r ≤ 2 ^ 53) :
    F64.lt ((F64.fin neg r).sub (F64.fin neg r).trunc) epsilon = true ↔
      signed neg (r - r.floor) < 2 ^ (-52 : Int) := by
  have hsum : signed neg r + signed (!neg) r.floor = signed neg (r - r.floor) := by
    cases neg <;> simp [signed] <;> ring
  have hrep := representable_fract hr
  have hfract : 0 ≤ r - r.floor := hrep.nonneg
  have hfloor : (0 : ℚ) ≤ r.floor := by
    exact_mod_cast Rat.le_floor_iff.mpr (by simpa using hr.nonneg)
  rw [F64.sub, F64.trunc, F64.neg, F64.add]
  rw [hsum]
  split
  · next hzero =>
    have hpos : (0 : ℚ) < 2 ^ (-52 : Int) := by positivity
    rw [lt_epsilon, signed_zero, hzero]
  · next hne =>
    have hpos : 0 < r - r.floor := by
      refine lt_of_le_of_ne hfract fun heq => hne ?_
      rw [← heq, signed_zero]
    have hle' : r - r.floor ≤ 2 ^ 53 := by linarith
    rw [ofRat_signed hpos, hrep.round_eq (lt_overflow hle'), lt_epsilon]

/-- A negative number becomes zero, and so does a fraction that is less than `EPSILON`. -/
theorem toJsonNumber_fin (hr : Representable r) (hle : r ≤ 2 ^ 53) :
    toJsonNumber (.fin neg r) =
      if neg then .ofNat 0
      else if r - r.floor < 2 ^ (-52 : Int) then .ofNat r.floor.toNat
      else .number (.float false r) := by
  have hpos : (0 : ℚ) < 2 ^ (-52 : Int) := by positivity
  have hfract : 0 ≤ r - r.floor := (representable_fract hr).nonneg
  rw [toJsonNumber]
  simp only [sub_trunc_lt hr hle]
  cases neg with
  | true =>
    have hlt : signed true (r - r.floor) < 2 ^ (-52 : Int) := by
      rw [signed, if_pos rfl]
      linarith
    rw [if_pos hlt]
    rfl
  | false =>
    have hfloor : r.floor.toNat ≤ 2 ^ 64 - 1 := by
      have h1 : r.floor ≤ 2 ^ 53 := by
        have := (Rat.floor_le r).trans hle
        exact_mod_cast this
      omega
    rw [signed, if_neg Bool.false_ne_true, if_neg Bool.false_ne_true]
    simp only [toU64, Json.ofF64, Bool.false_eq_true, if_false, min_eq_left hfloor]

/-! ### From numbers to a float -/

theorem asF64_fin (h : n.InRange) : ∃ neg r, n.asF64 = .fin neg r ∧ Representable r ∧
    signed neg r = n.value := by
  obtain ⟨hvalid, hrange⟩ := h
  cases n with
  | int i =>
    have hi : |i| ≤ 2 ^ 53 := by
      rw [JsonNumber.value] at hrange
      exact_mod_cast hrange
    obtain ⟨hrounds, hnearest⟩ := rounds_ofInt hi
    exact ⟨_, _, hrounds.eq, hrounds.representable, hrounds.value.trans hnearest⟩
  | float neg q => exact ⟨neg, q, rfl, hvalid.1, rfl⟩

/-- A product or quotient of signed numbers. -/
theorem signed_mul (s t : Bool) (a b : ℚ) : signed s a * signed t b = signed (s != t) (a * b) := by
  cases s <;> cases t <;> simp [signed]

theorem signed_div (s t : Bool) (a b : ℚ) : signed s a / signed t b = signed (s != t) (a / b) := by
  cases s <;> cases t <;> simp [signed, neg_div, div_neg]

theorem signed_eq_zero (s : Bool) (a : ℚ) : signed s a = 0 ↔ a = 0 := by
  cases s <;> simp [signed]

theorem truncated_signed (s : Bool) (h : 0 ≤ a) : truncated (signed s a) = signed s a.floor := by
  rw [truncated]
  cases s with
  | false => rw [signed, if_neg Bool.false_ne_true, if_neg (not_lt.mpr h), signed, if_neg
      Bool.false_ne_true]
  | true =>
    simp only [signed, if_true, neg_lt_zero]
    split
    · rw [Rat.ceil_eq_neg_floor_neg, neg_neg, Int.cast_neg]
    · next hzero =>
      obtain rfl := le_antisymm (not_lt.mp hzero) h
      have hfloor : (0 : ℚ).floor = 0 := Rat.floor_intCast 0
      simp [hfloor]

/-- The remainder of signed numbers. -/
theorem signed_rem (s t : Bool) (ha : 0 ≤ a) (hb : 0 ≤ b) :
    signed s a - truncated (signed s a / signed t b) * signed t b =
      signed s (a - (a / b).floor * b) := by
  rw [signed_div, truncated_signed _ (div_nonneg ha hb), signed_mul]
  cases s <;> cases t <;> simp [signed] <;> ring

theorem rounds_zero (neg : Bool) : Rounds (.fin neg 0) 0 neg 0 := by
  have hzero : Representable 0 := by simpa using representable_natCast (n := 0) (by decide)
  simpa using hzero.rounds (by positivity) neg

theorem rounds_add (s t : Bool) (a b : ℚ) (hle : |signed s a + signed t b| ≤ 2 ^ 53) :
    ∃ neg r, Rounds ((F64.fin s a).add (.fin t b)) (signed s a + signed t b) neg r := by
  rw [F64.add]
  split
  · next hzero =>
    rw [hzero]
    exact ⟨_, _, rounds_zero _⟩
  · obtain ⟨r, hr⟩ := rounds_ofRat hle
    exact ⟨_, r, hr⟩

/-- The float that an operator yields is the nearest to its exact result. -/
theorem rounds_f64 (ha : Representable a) (hb : Representable b)
    (hq : op.exact (signed s a) (signed t b) = some q) (hle : |q| ≤ 2 ^ 53) :
    ∃ f neg r, op.f64 (.fin s a) (.fin t b) = some f ∧ Rounds f q neg r := by
  cases op with
  | add =>
    cases hq
    obtain ⟨neg, r, hr⟩ := rounds_add s t a b hle
    exact ⟨_, neg, r, rfl, hr⟩
  | subtract =>
    cases hq
    have hneg : signed s a - signed t b = signed s a + signed (!t) b := by
      cases t <;> simp [signed, sub_eq_add_neg]
    rw [hneg] at hle ⊢
    obtain ⟨neg, r, hr⟩ := rounds_add s (!t) a b hle
    exact ⟨_, neg, r, rfl, hr⟩
  | multiply =>
    cases hq
    have hab : 0 ≤ a * b := mul_nonneg ha.nonneg hb.nonneg
    rw [signed_mul] at hle ⊢
    rw [abs_signed _ hab] at hle
    obtain ⟨r, hr⟩ := rounds_round hab hle (s != t)
    exact ⟨_, _, r, rfl, hr⟩
  | divide =>
    simp only [InfixOperator.exact, signed_eq_zero, Option.ite_none_left_eq_some,
      Option.some_inj] at hq
    obtain ⟨hne, rfl⟩ := hq
    have hab : 0 ≤ a / b := div_nonneg ha.nonneg hb.nonneg
    rw [signed_div] at hle ⊢
    rw [abs_signed _ hab] at hle
    obtain ⟨r, hr⟩ := rounds_round hab hle (s != t)
    refine ⟨_, _, r, ?_, hr⟩
    simp [InfixOperator.f64, F64.div, hne]
  | mod =>
    simp only [InfixOperator.exact, signed_eq_zero, Option.ite_none_left_eq_some,
      Option.some_inj] at hq
    obtain ⟨hne, rfl⟩ := hq
    have hrep := representable_rem ha hb hne
    rw [signed_rem s t ha.nonneg hb.nonneg] at hle ⊢
    rw [abs_signed _ hrep.nonneg] at hle
    refine ⟨_, _, _, ?_, hrep.rounds hle s⟩
    simp [InfixOperator.f64, F64.rem, hne]
  | _ => cases hq

/-! ### The results of the operators -/

/-- The number that an operator yields is the one nearest to its exact result, and an integer where
that is one. -/
def InfixOperator.Computes (op : InfixOperator) (m n : JsonNumber) (q : ℚ) : Prop :=
  ∃ r, op.evaluate (.number m) (.ok (.number n)) = .ok (.number r) ∧ r.value = nearest q ∧
    (nearest q = (nearest q).floor → r = .int (nearest q).floor)

/-- A number that is not negative, and whose fraction is zero or no less than `EPSILON`. -/
def Kept (q : ℚ) : Prop := 0 ≤ q ∧ (q = q.floor ∨ 2 ^ (-52 : Int) ≤ q - q.floor)

/-- The difference of two integers, to which the second one is added again. -/
def difference (a b : Int) : Except ExecutingError Json :=
  (InfixOperator.subtract.evaluate (.number (.int a)) (.ok (.number (.int b)))).bind fun d =>
    InfixOperator.add.evaluate d (.ok (.number (.int b)))

theorem evaluate_eq_toJsonNumber (hm : m.InRange) (hn : n.InRange)
    (hq : op.exact m.value n.value = some q) (hle : |q| ≤ 2 ^ 53) :
    ∃ neg r, op.evaluate (.number m) (.ok (.number n)) = .ok (toJsonNumber (.fin neg r)) ∧
      Representable r ∧ r ≤ 2 ^ 53 ∧ signed neg r = nearest q := by
  obtain ⟨s, a, hs, ha, hav⟩ := asF64_fin hm
  obtain ⟨t, b, ht, hb, hbv⟩ := asF64_fin hn
  rw [← hav, ← hbv] at hq
  obtain ⟨f, neg, r, hf, hr⟩ := rounds_f64 ha hb hq hle
  refine ⟨neg, r, ?_, hr.representable, hr.le, hr.value⟩
  rw [← hr.eq]
  refine evaluate_f64 ?_
  rw [Json.f64Value, Json.f64Value, hs, ht, hf]

theorem computes_of_evaluate {k : JsonNumber}
    (h : op.evaluate (.number m) (.ok (.number n)) = .ok (.number k)) :
    op.Computes m n q ↔ k.value = nearest q ∧
      (nearest q = (nearest q).floor → k = .int (nearest q).floor) := by
  rw [InfixOperator.Computes, h]
  constructor
  · rintro ⟨r, hr, hk⟩
    cases hr
    exact hk
  · intro hk
    exact ⟨k, rfl, hk⟩

theorem kept_zero : Kept 0 := by
  have hfloor : (0 : ℚ).floor = 0 := Rat.floor_intCast 0
  exact ⟨le_rfl, .inl (by rw [hfloor, Int.cast_zero])⟩

theorem computes_iff (hm : m.InRange) (hn : n.InRange)
    (hq : op.exact m.value n.value = some q) (hle : |q| ≤ 2 ^ 53) :
    op.Computes m n q ↔ Kept (nearest q) := by
  obtain ⟨neg, r, heval, hrep, hr, hvalue⟩ := evaluate_eq_toJsonNumber hm hn hq hle
  have hpos := hrep.nonneg
  have hfloor : 0 ≤ r.floor := Rat.le_floor_iff.mpr (by simpa using hpos)
  rw [toJsonNumber_fin hrep hr] at heval
  split_ifs at heval with hneg hfract
  · subst hneg
    rw [computes_of_evaluate heval, ← hvalue, JsonNumber.value, signed, if_pos rfl]
    constructor
    · rintro ⟨hzero, -⟩
      obtain rfl : r = 0 := by
        rw [Nat.cast_zero, Int.cast_zero] at hzero
        linarith
      rw [neg_zero]
      exact kept_zero
    · rintro ⟨hnonneg, -⟩
      obtain rfl : r = 0 := by linarith
      have hzero : (-0 : ℚ).floor = 0 := by
        rw [neg_zero]
        exact Rat.floor_intCast 0
      exact ⟨by simp, fun _ => by rw [hzero]; rfl⟩
  · have hcast : ((r.floor.toNat : Nat) : Int) = r.floor := Int.toNat_of_nonneg hfloor
    rw [computes_of_evaluate heval, ← hvalue, JsonNumber.value, signed, if_neg hneg, hcast]
    constructor
    · rintro ⟨hint, -⟩
      exact ⟨hpos, .inl hint.symm⟩
    · rintro ⟨-, hint | hge⟩
      · exact ⟨hint.symm, fun _ => rfl⟩
      · exact absurd hfract (not_lt.mpr hge)
  · rw [computes_of_evaluate heval, ← hvalue, JsonNumber.value, signed, if_neg
      Bool.false_ne_true, signed, if_neg hneg]
    have hge := not_lt.mp hfract
    have heps : (0 : ℚ) < 2 ^ (-52 : Int) := by positivity
    constructor
    · intro h
      exact ⟨hpos, .inr hge⟩
    · intro h
      refine ⟨rfl, fun hint => ?_⟩
      rw [← hint, sub_self] at hge
      exact absurd heps (not_lt.mpr hge)

/-! ### Integers -/

theorem inRange_int (h : |i| ≤ 2 ^ 53) : (JsonNumber.int i).InRange := by
  obtain ⟨hlow, hhigh⟩ := abs_le.mp h
  refine ⟨⟨by omega, by omega⟩, ?_⟩
  rw [JsonNumber.value]
  exact_mod_cast h

theorem exact_sub (a b : Int) :
    InfixOperator.subtract.exact a b = some ((a - b : Int) : ℚ) := by
  rw [InfixOperator.exact, Int.cast_sub]

theorem exact_add (a b : Int) : InfixOperator.add.exact a b = some ((a + b : Int) : ℚ) := by
  rw [InfixOperator.exact, Int.cast_add]

section

variable {a b c : Int}

/-- A negative result becomes zero. -/
theorem evaluate_int (ha : |a| ≤ 2 ^ 53) (hb : |b| ≤ 2 ^ 53) (hc : |c| ≤ 2 ^ 53)
    (hq : op.exact a b = some (c : ℚ)) :
    op.evaluate (.number (.int a)) (.ok (.number (.int b))) = .ok (.ofNat c.toNat) := by
  have hle : |(c : ℚ)| ≤ 2 ^ 53 := by exact_mod_cast hc
  obtain ⟨neg, r, heval, hrep, hr, hvalue⟩ :=
    evaluate_eq_toJsonNumber (inRange_int ha) (inRange_int hb) hq hle
  have hpos := hrep.nonneg
  rw [(rounds_ofInt hc).2] at hvalue
  rw [heval, toJsonNumber_fin hrep hr]
  cases neg with
  | true =>
    have hneg : c ≤ 0 := by
      have : (c : ℚ) ≤ 0 := by
        rw [← hvalue, signed, if_pos rfl]
        linarith
      exact_mod_cast this
    rw [if_pos rfl, Int.toNat_of_nonpos hneg]
  | false =>
    obtain rfl : r = c := hvalue
    have heps : (0 : ℚ) < 2 ^ (-52 : Int) := by positivity
    rw [if_neg Bool.false_ne_true, Rat.floor_intCast, sub_self, if_pos heps]

theorem evaluate_int_iff (ha : |a| ≤ 2 ^ 53) (hb : |b| ≤ 2 ^ 53) (hc : |c| ≤ 2 ^ 53)
    (hq : op.exact a b = some (c : ℚ)) :
    op.evaluate (.number (.int a)) (.ok (.number (.int b))) = .ok (.number (.int c)) ↔
      0 ≤ c := by
  rw [evaluate_int ha hb hc hq, Except.ok.injEq, Json.ofNat, Json.number.injEq,
    JsonNumber.int.injEq]
  omega

/-- The difference is zero where it should be negative, and so is the sum. -/
theorem difference_iff (ha : |a| ≤ 2 ^ 53) (hb : |b| ≤ 2 ^ 53) (hd : |a - b| ≤ 2 ^ 53) :
    difference a b = .ok (.number (.int a)) ↔ b ≤ a ∧ 0 ≤ a := by
  obtain ⟨ha1, ha2⟩ := abs_le.mp ha
  obtain ⟨hb1, hb2⟩ := abs_le.mp hb
  obtain ⟨hd1, hd2⟩ := abs_le.mp hd
  have hd' : |((a - b).toNat : Int)| ≤ 2 ^ 53 := abs_le.mpr ⟨by omega, by omega⟩
  have hsum : |((a - b).toNat : Int) + b| ≤ 2 ^ 53 := abs_le.mpr ⟨by omega, by omega⟩
  rw [difference, evaluate_int ha hb hd (exact_sub a b)]
  change InfixOperator.add.evaluate (.number (.int _)) _ = _ ↔ _
  rw [evaluate_int hd' hb hsum (exact_add _ _), Except.ok.injEq, Json.ofNat, Json.number.injEq,
    JsonNumber.int.injEq]
  omega

end

/-- The operators keep a result that is not negative and whose fraction is not too small: of the
others, they make an integer. -/
theorem arithmetic_iff (op : InfixOperator) (m n : JsonNumber) (q : ℚ) (a b c : Int) :
    (m.InRange → n.InRange → op.exact m.value n.value = some q → |q| ≤ 2 ^ 53 →
      (op.Computes m n q ↔ Kept (nearest q)) ∧ (Representable |q| → nearest q = q)) ∧
    (|a| ≤ 2 ^ 53 → |b| ≤ 2 ^ 53 → |c| ≤ 2 ^ 53 → op.exact a b = some (c : ℚ) →
      (op.evaluate (.number (.int a)) (.ok (.number (.int b))) = .ok (.number (.int c)) ↔ 0 ≤ c)) ∧
    (|a| ≤ 2 ^ 53 → |b| ≤ 2 ^ 53 → |a - b| ≤ 2 ^ 53 →
      (difference a b = .ok (.number (.int a)) ↔ b ≤ a ∧ 0 ≤ a)) := by
  refine ⟨fun hm hn hq hle => ⟨computes_iff hm hn hq hle, fun hrep => ?_⟩, evaluate_int_iff,
    difference_iff⟩
  have hrounds := hrep.rounds hle (q < 0)
  rw [signed_abs] at hrounds
  have hvalue := hrounds.value
  rw [signed_abs] at hvalue
  exact hvalue.symm

theorem arithmetic_iff_five_three :
    InfixOperator.subtract.evaluate (.number (.int 5)) (.ok (.number (.int 3))) =
      .ok (.number (.int 2)) ∧ difference 5 3 = .ok (.number (.int 5)) := by
  have hexact : InfixOperator.exact .subtract (5 : Int) (3 : Int) = some ((2 : Int) : ℚ) := by
    norm_num [InfixOperator.exact]
  obtain ⟨-, hevaluate, hdifference⟩ := arithmetic_iff .subtract (.int 5) (.int 3) 2 5 3 2
  exact ⟨(hevaluate (by decide) (by decide) (by decide) hexact).mpr (by decide),
    (hdifference (by decide) (by decide) (by decide)).mpr (by decide)⟩

/-- A negative difference becomes zero. -/
theorem not_arithmetic : ¬ ∀ op (a b c : Int), |a| ≤ 2 ^ 53 → |b| ≤ 2 ^ 53 → |c| ≤ 2 ^ 53 →
    InfixOperator.exact op a b = some (c : ℚ) →
    op.evaluate (.number (.int a)) (.ok (.number (.int b))) = .ok (.number (.int c)) := by
  intro h
  have heval := h .subtract 3 5 (-2) (by decide) (by decide) (by decide)
    (by norm_num [InfixOperator.exact])
  rw [evaluate_int (c := -2) (by decide) (by decide) (by decide)
    (by norm_num [InfixOperator.exact])] at heval
  cases heval

end Pewpew.SelectParser
