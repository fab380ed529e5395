import Mathlib.Data.Rat.Defs
import Mathlib.Algebra.Order.Ring.Unbundled.Rat
import Mathlib.Algebra.Order.Field.Rat
import Mathlib.Data.Rat.Floor

/-! Floating-point numbers of single and double precision by their values. -/
namespace Pewpew

/-- A float: its sign and, where it is finite, its magnitude. Those of single precision are among
those of double precision. -/
inductive F64 where
  | nan
  | inf (neg : Bool)
  | fin (neg : Bool) (magnitude : ℚ)
  deriving DecidableEq, Repr

namespace F64

def pow2 (e : Int) : ℚ := if 0 ≤ e then (2 ^ e.toNat : Nat) else mkRat 1 (2 ^ (-e).toNat)

/-- The integer nearest to a nonnegative rational, ties to even. -/
def roundHalfEven (q : ℚ) : Nat :=
  let n := q.floor.toNat
  let r := q - n
  if r < 1 / 2 then n else if 1 / 2 < r then n + 1 else if n % 2 = 0 then n else n + 1

/-- The exponent `e` with `2 ^ e ≤ q < 2 ^ (e + 1)`. -/
def exponent (q : ℚ) : Int :=
  let e : Int := (Nat.log2 q.num.natAbs : Int) - Nat.log2 q.den
  if pow2 e ≤ q then e else e - 1

/-- A binary format: how many bits follow the first one, the exponent of the last bit of the least
number, and the exponent of the overflow. -/
structure Format where
  fraction : Int
  least : Int
  overflow : Int

def Format.single : Format := ⟨23, -149, 128⟩

def Format.double : Format := ⟨52, -1074, 1024⟩

/-- Rounding to the nearest number of a format, ties to even, overflow to infinity. -/
def Format.round (f : Format) (neg : Bool) (q : ℚ) : F64 :=
  if q ≤ 0 then .fin neg 0
  else
    let ulp := pow2 (max (exponent q - f.fraction) f.least)
    let m := roundHalfEven (q / ulp) * ulp
    if pow2 f.overflow ≤ m then .inf neg else .fin neg m

def round : Bool → ℚ → F64 := Format.double.round

def ofRat (q : ℚ) : F64 := round (q < 0) |q|

def ofInt (i : Int) : F64 := ofRat i

def signed (neg : Bool) (q : ℚ) : ℚ := if neg then -q else q

/-- The number that a finite float is. -/
def value : F64 → Option ℚ
  | .fin neg q => some (signed neg q)
  | _ => none

def isFinite : F64 → Bool
  | .fin _ _ => true
  | _ => false

def neg : F64 → F64
  | .nan => .nan
  | .inf s => .inf !s
  | .fin s q => .fin (!s) q

def add : F64 → F64 → F64
  | .nan, _ | _, .nan => .nan
  | .inf s, .inf t => if s = t then .inf s else .nan
  | .inf s, _ | _, .inf s => .inf s
  | .fin s a, .fin t b =>
    let sum := signed s a + signed t b
    if sum = 0 then .fin (s && t) 0 else ofRat sum

def sub (a b : F64) : F64 := add a (neg b)

def mul : F64 → F64 → F64
  | .nan, _ | _, .nan => .nan
  | .inf s, .inf t => .inf (s != t)
  | .inf s, .fin t b | .fin t b, .inf s => if b = 0 then .nan else .inf (s != t)
  | .fin s a, .fin t b => round (s != t) (a * b)

def div : F64 → F64 → F64
  | .nan, _ | _, .nan => .nan
  | .inf _, .inf _ => .nan
  | .inf s, .fin t _ => .inf (s != t)
  | .fin s _, .inf t => .fin (s != t) 0
  | .fin s a, .fin t b =>
    if b = 0 then if a = 0 then .nan else .inf (s != t) else round (s != t) (a / b)

/-- The remainder of truncated division; it takes the sign of the dividend. -/
def rem : F64 → F64 → F64
  | .nan, _ | _, .nan => .nan
  | .inf _, _ => .nan
  | .fin s a, .inf _ => .fin s a
  | .fin s a, .fin _ b => if b = 0 then .nan else .fin s (a - (a / b).floor * b)

def trunc : F64 → F64
  | .fin s a => .fin s a.floor
  | x => x

/-- The comparison, which a `NaN` has no part in; the two zeros are equal. -/
def partialCmp : F64 → F64 → Option Ordering
  | .nan, _ | _, .nan => none
  | .inf s, .inf t => some (compare t s)
  | .inf s, .fin _ _ => some (if s then .lt else .gt)
  | .fin _ _, .inf t => some (if t then .gt else .lt)
  | .fin s a, .fin t b => some (compare (signed s a) (signed t b))

def eq (a b : F64) : Bool := partialCmp a b == some .eq
def lt (a b : F64) : Bool := partialCmp a b == some .lt
def le (a b : F64) : Bool := partialCmp a b == some .lt || partialCmp a b == some .eq

/-- The saturating cast to an unsigned integer of 64 bits. -/
def toU64 : F64 → Nat
  | .nan => 0
  | .inf s => if s then 0 else 2 ^ 64 - 1
  | .fin s a => if s then 0 else min a.floor.toNat (2 ^ 64 - 1)

def epsilon : F64 := .fin false (pow2 (-52))

end F64

end Pewpew
