import Pewpew.Library.F64
import Mathlib.Data.Int.Log
import Mathlib.Tactic.Linarith
import Mathlib.Tactic.Positivity
import Mathlib.Tactic.NormNum.Pow
import Mathlib.Algebra.Order.Field.Power
import Mathlib.Algebra.Order.Floor.Ring

/-! Which rationals are floats, and what rounding makes of the others. -/
namespace Pewpew.F64

variable {q r a b : ℚ} {k e : Int} {n m : Nat}

theorem pow2_eq (e : Int) : pow2 e = (2 : ℚ) ^ e := by
  rw [pow2]
  split
  · next h =>
    obtain ⟨n, rfl⟩ := Int.eq_ofNat_of_zero_le h
    simp
  · next h =>
    obtain ⟨n, hn⟩ := Int.eq_ofNat_of_zero_le (a := -e) (by omega)
    obtain rfl : e = -n := by omega
    simp [Rat.mkRat_eq_div]

/-- A quotient is bounded by the exponents of its numerator and denominator. -/
theorem log2_bounds (h : 0 < q) :
    (2 : ℚ) ^ ((Nat.log2 q.num.natAbs : Int) - Nat.log2 q.den - 1) ≤ q ∧
      q < (2 : ℚ) ^ ((Nat.log2 q.num.natAbs : Int) - Nat.log2 q.den + 1) := by
  have hnum : q.num.natAbs ≠ 0 := Int.natAbs_ne_zero.mpr (Rat.num_pos.mpr h).ne'
  have hq : (q.num.natAbs : ℚ) = q * q.den := by
    rw [Nat.cast_natAbs, abs_of_pos (Rat.num_pos.mpr h), Rat.mul_den_eq_num]
  have hden : (0 : ℚ) < q.den := by exact_mod_cast q.den_pos
  have hn1 : (2 : ℚ) ^ (Nat.log2 q.num.natAbs) ≤ q.num.natAbs := by
    exact_mod_cast Nat.log2_self_le hnum
  have hn2 : (q.num.natAbs : ℚ) < 2 ^ (Nat.log2 q.num.natAbs + 1) := by
    exact_mod_cast Nat.lt_log2_self
  have hd1 : (2 : ℚ) ^ (Nat.log2 q.den) ≤ q.den := by
    exact_mod_cast Nat.log2_self_le q.den_nz
  have hd2 : (q.den : ℚ) < 2 ^ (Nat.log2 q.den + 1) := by
    exact_mod_cast Nat.lt_log2_self
  rw [hq] at hn1 hn2
  generalize Nat.log2 q.num.natAbs = i at hn1 hn2 ⊢
  generalize Nat.log2 q.den = j at hd1 hd2 ⊢
  have hi : (0 : ℚ) < 2 ^ i := by positivity
  have hj : (0 : ℚ) < 2 ^ j := by positivity
  constructor
  · have hpow : (2 : ℚ) ^ ((i : Int) - j - 1) = 2 ^ i / 2 ^ (j + 1) := by
      rw [sub_sub, zpow_sub₀ two_ne_zero, zpow_natCast, ← zpow_natCast (2 : ℚ) (j + 1)]
      norm_cast
    rw [hpow, div_le_iff₀ (by positivity)]
    exact hn1.trans (mul_le_mul_of_nonneg_left hd2.le h.le)
  · have hpow : (2 : ℚ) ^ ((i : Int) - j + 1) = 2 ^ (i + 1) / 2 ^ j := by
      rw [sub_add_eq_add_sub, zpow_sub₀ two_ne_zero, zpow_natCast, ← zpow_natCast (2 : ℚ) (i + 1)]
      norm_cast
    rw [hpow, lt_div_iff₀ hj]
    exact (mul_le_mul_of_nonneg_left hd1 h.le).trans_lt hn2

theorem exponent_eq (h : 0 < q) : exponent q = Int.log 2 q := by
  have hle (e : Int) : (2 : ℚ) ^ e ≤ q ↔ e ≤ Int.log 2 q := by
    rw [← Int.zpow_le_iff_le_log (b := 2) (by decide) h, Nat.cast_ofNat]
  have hlt (e : Int) : q < (2 : ℚ) ^ e ↔ Int.log 2 q < e := by
    rw [← Int.lt_zpow_iff_log_lt (b := 2) (by decide) h, Nat.cast_ofNat]
  obtain ⟨hlow, hhigh⟩ := log2_bounds h
  rw [hle] at hlow
  rw [hlt] at hhigh
  rw [exponent, pow2_eq]
  split
  · next hq =>
    rw [hle] at hq
    omega
  · next hq =>
    rw [not_le, hlt] at hq
    omega

theorem exponent_le (h : 0 < q) : (2 : ℚ) ^ exponent q ≤ q := by
  rw [exponent_eq h]
  exact_mod_cast Int.zpow_log_le_self (b := 2) (by decide) h

theorem lt_exponent (h : 0 < q) : q < (2 : ℚ) ^ (exponent q + 1) := by
  rw [exponent_eq h]
  exact_mod_cast Int.lt_zpow_succ_log_self (b := 2) (by decide) q

/-- The exponent of a positive number below a power of two. -/
theorem exponent_le_of_le (h : 0 < q) (hk : q ≤ 2 ^ k) : exponent q ≤ k :=
  (zpow_le_zpow_iff_right₀ one_lt_two).mp ((exponent_le h).trans hk)

/-! ### Rounding to an integer -/

theorem floor_toNat (h : 0 ≤ q) : (q.floor.toNat : ℚ) ≤ q ∧ q < q.floor.toNat + 1 := by
  have hfloor : 0 ≤ q.floor := Rat.le_floor_iff.mpr (by simpa using h)
  have hcast : (q.floor.toNat : ℚ) = q.floor := by
    exact_mod_cast Int.toNat_of_nonneg hfloor
  rw [hcast]
  exact ⟨Rat.floor_le q, by exact_mod_cast Rat.lt_floor_add_one q⟩

theorem roundHalfEven_natCast (n : Nat) : roundHalfEven n = n := by
  have hfloor : (n : ℚ).floor = n := by exact_mod_cast Rat.floor_intCast n
  simp [roundHalfEven, hfloor]

theorem roundHalfEven_le (hq : 0 ≤ q) (h : q ≤ n) : roundHalfEven q ≤ n := by
  obtain ⟨hlow, hhigh⟩ := floor_toNat hq
  rw [roundHalfEven]
  generalize q.floor.toNat = m at hlow hhigh
  have hle : m ≤ n := by exact_mod_cast hlow.trans h
  have hlt (hr : (1 : ℚ) / 2 ≤ q - m) : m + 1 ≤ n := by
    have : (m : ℚ) < n := by linarith
    exact_mod_cast this
  split_ifs with h1 h2 h3
  · exact hle
  · exact hlt h2.le
  · exact hle
  · exact hlt (not_lt.mp h1)

/-! ### Floats -/

/-- A magnitude of at most 53 bits, none of them below the last one of the least float. -/
def Representable (q : ℚ) : Prop :=
  ∃ (m : Nat) (k : Int), m ≤ 2 ^ 53 ∧ -1074 ≤ k ∧ q = m * 2 ^ k

theorem Representable.nonneg (h : Representable q) : 0 ≤ q := by
  obtain ⟨m, k, -, -, rfl⟩ := h
  positivity

theorem representable_natCast (h : n ≤ 2 ^ 53) : Representable n :=
  ⟨n, 0, h, by decide, by simp⟩

@[simp] theorem round_zero (neg : Bool) : round neg 0 = .fin neg 0 := by
  simp [round, Format.round]

/-- The place of the last bit of a float of this size. -/
def ulpExponent (q : ℚ) : Int := max (exponent q - 52) (-1074)

/-- A positive number is rounded to a multiple of the last bit's weight. -/
theorem round_pos (h : 0 < q) (neg : Bool) :
    round neg q =
      if (2 : ℚ) ^ (1024 : Int) ≤ roundHalfEven (q / 2 ^ ulpExponent q) * 2 ^ ulpExponent q
      then .inf neg
      else .fin neg (roundHalfEven (q / 2 ^ ulpExponent q) * 2 ^ ulpExponent q) := by
  rw [round, Format.round, if_neg (not_le.mpr h)]
  simp only [pow2_eq, ulpExponent, Format.double]
  congr

/-- A power of two is divided by the last bit's weight. -/
theorem zpow_div_ulp (hk : ulpExponent q ≤ k) :
    (2 : ℚ) ^ k / 2 ^ ulpExponent q = ((2 ^ (k - ulpExponent q).toNat : Nat) : ℚ) := by
  rw [← zpow_sub₀ two_ne_zero]
  push_cast
  rw [← zpow_natCast, Int.toNat_of_nonneg (by omega)]

theorem mul_zpow_div_ulp (m : Nat) (hk : ulpExponent q ≤ k) :
    (m : ℚ) * 2 ^ k / 2 ^ ulpExponent q = ((m * 2 ^ (k - ulpExponent q).toNat : Nat) : ℚ) := by
  rw [mul_div_assoc, zpow_div_ulp hk, Nat.cast_mul]

/-- A float is a multiple of its last bit's weight. -/
theorem Representable.div_ulp (h : Representable q) (hq : 0 < q) :
    ∃ n : Nat, q / 2 ^ ulpExponent q = n := by
  obtain ⟨m, k, hm, hk, heq⟩ := h
  have hpow : (0 : ℚ) < 2 ^ k := by positivity
  have htop : (2 : ℚ) ^ (k + 53) = ((2 ^ 53 : Nat) : ℚ) * 2 ^ k := by
    rw [zpow_add₀ two_ne_zero, mul_comm]
    norm_num
  have hexp : exponent q ≤ k + 53 := by
    refine exponent_le_of_le hq ?_
    rw [heq, htop]
    exact mul_le_mul_of_nonneg_right (by exact_mod_cast hm) hpow.le
  rcases Int.lt_or_le k (ulpExponent q) with hlt | hle
  · -- only a power of two has its exponent so far above its last bit
    have hexp' : exponent q = k + 53 := by
      rw [ulpExponent] at hlt
      omega
    have hlow := exponent_le hq
    rw [hexp', htop, heq] at hlow
    have hm' : 2 ^ 53 ≤ m := by exact_mod_cast le_of_mul_le_mul_right hlow hpow
    obtain rfl := le_antisymm hm hm'
    have hulp : ulpExponent q ≤ k + 53 := by
      rw [ulpExponent, hexp']
      omega
    refine ⟨2 ^ (k + 53 - ulpExponent q).toNat, ?_⟩
    exact (congrArg (· / (2 : ℚ) ^ ulpExponent q) (heq.trans htop.symm)).trans (zpow_div_ulp hulp)
  · refine ⟨m * 2 ^ (k - ulpExponent q).toNat, ?_⟩
    exact (congrArg (· / (2 : ℚ) ^ ulpExponent q) heq).trans (mul_zpow_div_ulp m hle)

/-- A float below the overflow is not rounded. -/
theorem Representable.round_eq (h : Representable q) (hq : q < 2 ^ (1024 : Int)) (neg : Bool) :
    round neg q = .fin neg q := by
  rcases h.nonneg.eq_or_lt with rfl | hpos
  · exact round_zero neg
  · obtain ⟨n, hn⟩ := h.div_ulp hpos
    have hulp : (2 : ℚ) ^ ulpExponent q ≠ 0 := by positivity
    have heq : (n : ℚ) * 2 ^ ulpExponent q = q := by
      rw [← hn, div_mul_cancel₀ _ hulp]
    rw [round_pos hpos, hn, roundHalfEven_natCast, heq, if_neg (not_le.mpr hq)]

/-- What a number is rounded to: a float, on the same side of every power of two. -/
theorem exists_round (hq : 0 ≤ q) (hle : q ≤ 2 ^ k) (hlow : -1074 ≤ k) (hhigh : k < 1024)
    (neg : Bool) : ∃ r, round neg q = .fin neg r ∧ Representable r ∧ r ≤ 2 ^ k := by
  rcases hq.eq_or_lt with rfl | hpos
  · exact ⟨0, round_zero neg, ⟨0, 0, by decide, by decide, by simp⟩, by positivity⟩
  · have hulp : (0 : ℚ) < 2 ^ ulpExponent q := by positivity
    have hexp : ulpExponent q ≤ k := by
      have := exponent_le_of_le hpos hle
      rw [ulpExponent]
      omega
    have hround : roundHalfEven (q / 2 ^ ulpExponent q) ≤ 2 ^ (k - ulpExponent q).toNat := by
      refine roundHalfEven_le (by positivity) ?_
      rw [← zpow_div_ulp hexp]
      exact div_le_div_of_nonneg_right hle hulp.le
    have hbits : roundHalfEven (q / 2 ^ ulpExponent q) ≤ 2 ^ 53 := by
      refine roundHalfEven_le (by positivity) ?_
      rw [div_le_iff₀ hulp]
      have hlt := lt_exponent hpos
      have hup : exponent q + 1 ≤ 53 + ulpExponent q := by
        rw [ulpExponent]
        omega
      have hpow : (2 : ℚ) ^ (53 + ulpExponent q) = ((2 ^ 53 : Nat) : ℚ) * 2 ^ ulpExponent q := by
        rw [zpow_add₀ two_ne_zero]
        norm_num
      rw [← hpow]
      exact hlt.le.trans (zpow_le_zpow_right₀ one_le_two hup)
    have hbound : (roundHalfEven (q / 2 ^ ulpExponent q) : ℚ) * 2 ^ ulpExponent q ≤ 2 ^ k := by
      rw [← le_div_iff₀ hulp, zpow_div_ulp hexp]
      exact_mod_cast hround
    refine ⟨_, ?_, ⟨_, ulpExponent q, hbits, le_max_right _ _, rfl⟩, hbound⟩
    have hlt := hbound.trans_lt (zpow_lt_zpow_right₀ one_lt_two hhigh)
    rw [round_pos hpos, if_neg (not_le.mpr hlt)]

/-! ### Integers and remainders -/

/-- Over a smaller power of two. -/
theorem mul_zpow_lower (m : Nat) (h : e ≤ k) :
    (m : ℚ) * 2 ^ k = ((m * 2 ^ (k - e).toNat : Nat) : ℚ) * 2 ^ e := by
  have hpow : (2 : ℚ) ^ k = 2 ^ (k - e).toNat * 2 ^ e := by
    rw [← zpow_natCast, Int.toNat_of_nonneg (by omega), ← zpow_add₀ two_ne_zero, sub_add_cancel]
  rw [hpow]
  push_cast
  ring

theorem floor_natCast_div (m n : Nat) : ((m : ℚ) / n).floor = (m / n : Nat) := by
  exact Rat.floor_natCast_div_natCast m n

/-- The remainder of a division over a common power of two. -/
theorem rem_eq (m n : Nat) (k : Int) :
    (m : ℚ) * 2 ^ k - ((m * 2 ^ k : ℚ) / (n * 2 ^ k)).floor * (n * 2 ^ k) =
      ((m % n : Nat) : ℚ) * 2 ^ k := by
  have hpow : (2 : ℚ) ^ k ≠ 0 := by positivity
  have hmod : (m : ℚ) = n * ((m / n : Nat) : ℚ) + ((m % n : Nat) : ℚ) := by
    exact_mod_cast (Nat.div_add_mod m n).symm
  rw [mul_div_mul_right _ _ hpow, floor_natCast_div, Int.cast_natCast]
  generalize ((m / n : Nat) : ℚ) = d at hmod ⊢
  rw [hmod]
  ring

/-- The remainder of a division of floats is a float. -/
theorem representable_rem (ha : Representable a) (hb : Representable b) (hne : b ≠ 0) :
    Representable (a - (a / b).floor * b) := by
  obtain ⟨m, k, hm, hk, rfl⟩ := ha
  obtain ⟨n, e, hn, he, rfl⟩ := hb
  have hn0 : n ≠ 0 := by
    rintro rfl
    simp at hne
  rcases le_total k e with h | h
  · rw [mul_zpow_lower n h, rem_eq]
    exact ⟨_, k, (Nat.mod_le _ _).trans hm, hk, rfl⟩
  · rw [mul_zpow_lower m h, rem_eq]
    exact ⟨_, e, (Nat.mod_lt _ (Nat.pos_of_ne_zero hn0)).le.trans hn, he, rfl⟩

theorem representable_fract (h : Representable q) : Representable (q - q.floor) := by
  have hone : Representable 1 := by
    simpa using representable_natCast (n := 1) (by decide)
  simpa using representable_rem h hone one_ne_zero

/-! ### Signs -/

@[simp] theorem signed_zero (neg : Bool) : signed neg 0 = 0 := by
  cases neg <;> simp [signed]

theorem abs_signed (neg : Bool) (h : 0 ≤ q) : |signed neg q| = q := by
  cases neg <;> simp [signed, h]

theorem signed_lt_zero (h : 0 < q) (neg : Bool) : decide (signed neg q < 0) = neg := by
  cases neg <;> simp [signed, h, h.le]

theorem signed_abs (q : ℚ) : signed (q < 0) |q| = q := by
  by_cases h : q < 0
  · simp [signed, h, abs_of_neg h]
  · simp [signed, h, abs_of_nonneg (not_lt.mp h)]

/-- Rounding leaves the sign alone. -/
theorem ofRat_signed (h : 0 < q) (neg : Bool) : ofRat (signed neg q) = round neg q := by
  rw [ofRat, abs_signed neg h.le, signed_lt_zero h]

/-- The float nearest to a number, which is the number itself where that is a float. -/
def nearest (q : ℚ) : ℚ :=
  match ofRat q with
  | .fin neg r => signed neg r
  | _ => 0

/-- A finite float that is the nearest to a number. -/
structure Rounds (f : F64) (q : ℚ) (neg : Bool) (r : ℚ) : Prop where
  eq : f = .fin neg r
  representable : Representable r
  le : r ≤ 2 ^ 53
  value : signed neg r = nearest q

theorem zpow_53 : (2 : ℚ) ^ (53 : Int) = 2 ^ 53 := by norm_num

theorem lt_overflow (h : q ≤ 2 ^ 53) : q < 2 ^ (1024 : Int) := by
  refine h.trans_lt ?_
  rw [← zpow_53]
  exact zpow_lt_zpow_right₀ one_lt_two (by decide)

theorem rounds_round (h : 0 ≤ q) (hq : q ≤ 2 ^ 53) (neg : Bool) :
    ∃ r, Rounds (round neg q) (signed neg q) neg r := by
  rw [← zpow_53] at hq
  obtain ⟨r, hr, hrep, hle⟩ := exists_round h hq (by decide) (by decide) neg
  rw [zpow_53] at hle
  refine ⟨r, hr, hrep, hle, ?_⟩
  rcases h.eq_or_lt with rfl | hpos
  · rw [round_zero] at hr
    obtain ⟨-, rfl⟩ := F64.fin.inj hr
    simp [nearest, ofRat]
  · rw [nearest, ofRat_signed hpos, hr]

theorem rounds_ofRat (hq : |q| ≤ 2 ^ 53) : ∃ r, Rounds (ofRat q) q (q < 0) r := by
  have h := rounds_round (abs_nonneg q) hq (q < 0)
  rwa [signed_abs] at h

/-- A float is not rounded. -/
theorem Representable.rounds (h : Representable q) (hq : q ≤ 2 ^ 53) (neg : Bool) :
    Rounds (.fin neg q) (signed neg q) neg q := by
  obtain ⟨r, hr⟩ := rounds_round h.nonneg hq neg
  have heq := h.round_eq (lt_overflow hq) neg
  obtain ⟨-, rfl⟩ := F64.fin.inj (hr.eq.symm.trans heq)
  exact ⟨rfl, h, hq, hr.value⟩

/-- Integers are floats up to 2^53. -/
theorem rounds_ofInt {i : Int} (h : |i| ≤ 2 ^ 53) :
    Rounds (ofInt i) i (i < 0) (i.natAbs : ℚ) ∧ nearest i = i := by
  have hnat : i.natAbs ≤ 2 ^ 53 := by
    rw [Int.abs_eq_natAbs] at h
    exact_mod_cast h
  have hrep := representable_natCast hnat
  have hle : (i.natAbs : ℚ) ≤ 2 ^ 53 := by exact_mod_cast hnat
  have habs : |(i : ℚ)| = (i.natAbs : ℚ) := by
    rw [Nat.cast_natAbs, Int.cast_abs]
  have hneg : decide ((i : ℚ) < 0) = decide (i < 0) := by simp
  have hr := hrep.rounds hle (i < 0)
  have hsigned : signed (i < 0) (i.natAbs : ℚ) = i := by
    rw [← habs, ← hneg, signed_abs]
  rw [hsigned] at hr
  refine ⟨⟨?_, hrep, hle, hr.value⟩, hr.value.symm.trans hsigned⟩
  rw [ofInt, ofRat, habs, hneg, hrep.round_eq (lt_overflow hle)]

end Pewpew.F64
