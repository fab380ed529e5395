import Mathlib.Data.List.Basic
import Mathlib.Tactic.Common

/-! Percent-encoding of bytes, and which texts come back when they are decoded. -/
namespace Pewpew.PercentEncoding

/-- The sign that an encoded byte starts with. -/
def percent : UInt8 := 37

/-- The digits are `0` to `9` and `A` to `F`. -/
def hexDigit (n : Nat) : UInt8 := if n < 10 then .ofNat (48 + n) else .ofNat (55 + n)

/-- Digits may be in lower case. -/
def hexValue (b : UInt8) : Option Nat :=
  if 48 ≤ b.toNat ∧ b.toNat ≤ 57 then some (b.toNat - 48)
  else if 65 ≤ b.toNat ∧ b.toNat ≤ 70 then some (b.toNat - 55)
  else if 97 ≤ b.toNat ∧ b.toNat ≤ 102 then some (b.toNat - 87)
  else none

def isHex (b : UInt8) : Bool := (hexValue b).isSome

def encodeByte (b : UInt8) : List UInt8 :=
  [percent, hexDigit (b.toNat / 16), hexDigit (b.toNat % 16)]

/-- The reserved bytes are encoded, the others stand for themselves. -/
def encode (reserved : UInt8 → Bool) (bs : List UInt8) : List UInt8 :=
  bs.flatMap fun b => if reserved b then encodeByte b else [b]

/-- The byte that a percent sign stands for with the two bytes behind it. -/
def escaped (b h l : UInt8) : Option UInt8 :=
  if b = percent then
    (hexValue h).bind fun m => (hexValue l).map fun n => .ofNat (16 * m + n)
  else none

/-- A percent sign without two digits behind it stands for itself. -/
def decode : List UInt8 → List UInt8
  | b :: h :: l :: bs =>
    match escaped b h l with
    | some c => c :: decode bs
    | none => b :: decode (h :: l :: bs)
  | b :: bs => b :: decode bs
  | [] => []

/-- Somewhere there is a percent sign with two digits behind it. -/
inductive HasEscape : List UInt8 → Prop where
  | here {h l : UInt8} {bs : List UInt8} (hh : isHex h = true) (hl : isHex l = true) :
      HasEscape (percent :: h :: l :: bs)
  | later {b : UInt8} {bs : List UInt8} (h : HasEscape bs) : HasEscape (b :: bs)

variable {reserved : UInt8 → Bool} {b c h l : UInt8} {bs cs : List UInt8} {n : Nat}

theorem hexValue_hexDigit (hn : n < 16) : hexValue (hexDigit n) = some n := by
  rcases n with _ | _ | _ | _ | _ | _ | _ | _ | _ | _ | _ | _ | _ | _ | _ | _ | n
  all_goals first | rfl | omega

theorem not_isHex_percent : isHex percent = false := rfl

theorem escaped_hexDigits (b : UInt8) :
    escaped percent (hexDigit (b.toNat / 16)) (hexDigit (b.toNat % 16)) = some b := by
  have hlt : b.toNat < 256 := b.toNat_lt
  rw [escaped, if_pos rfl, hexValue_hexDigit (by omega), hexValue_hexDigit (by omega)]
  simp only [Option.bind_some, Option.map_some]
  rw [show 16 * (b.toNat / 16) + b.toNat % 16 = b.toNat by omega, UInt8.ofNat_toNat]

theorem escaped_isSome : (escaped b h l).isSome = true ↔
    b = percent ∧ isHex h = true ∧ isHex l = true := by
  unfold escaped isHex
  split
  · next hb =>
    simp only [hb, true_and]
    cases hexValue h <;> cases hexValue l <;> simp
  · next hb => simp [hb]

/-- A byte that starts no escape stands for itself. -/
theorem decode_cons (hb : ∀ h l cs, bs = h :: l :: cs → escaped b h l = none) :
    decode (b :: bs) = b :: decode bs := by
  match bs with
  | [] | [_] => rfl
  | h :: l :: cs => rw [decode, hb h l cs rfl]

theorem decode_cons_of_ne (hb : b ≠ percent) : decode (b :: bs) = b :: decode bs := by
  refine decode_cons fun h l cs _ => ?_
  rw [escaped, if_neg hb]

theorem decode_encodeByte (b : UInt8) (bs : List UInt8) :
    decode (encodeByte b ++ bs) = b :: decode bs := by
  simp only [encodeByte, List.cons_append, List.nil_append, decode, escaped_hexDigits]

@[simp] theorem encode_nil : encode reserved [] = [] := rfl

theorem encode_cons_reserved (hb : reserved b = true) :
    encode reserved (b :: bs) = encodeByte b ++ encode reserved bs := by
  rw [encode, List.flatMap_cons, if_pos hb]
  rfl

theorem encode_cons_unreserved (hb : reserved b = false) :
    encode reserved (b :: bs) = b :: encode reserved bs := by
  rw [encode, List.flatMap_cons, hb]
  rfl

/-- What begins with a digit was not encoded. -/
theorem encode_eq_hex (hh : isHex h = true) (heq : encode reserved bs = h :: cs) :
    ∃ ds, bs = h :: ds ∧ encode reserved ds = cs := by
  cases bs with
  | nil => cases heq
  | cons b bs =>
    cases hb : reserved b with
    | true =>
      rw [encode_cons_reserved hb] at heq
      obtain ⟨rfl, -⟩ := List.cons.inj heq
      cases not_isHex_percent.symm.trans hh
    | false =>
      rw [encode_cons_unreserved hb] at heq
      obtain ⟨rfl, hrest⟩ := List.cons.inj heq
      exact ⟨bs, rfl, hrest⟩

/-- A byte starts an escape only where it starts one in the text. -/
theorem decode_encode_cons (hb : ∀ h l cs, bs = h :: l :: cs → escaped b h l = none) :
    decode (encode reserved (b :: bs)) = b :: decode (encode reserved bs) := by
  cases hres : reserved b with
  | true => rw [encode_cons_reserved hres, decode_encodeByte]
  | false =>
    rw [encode_cons_unreserved hres]
    refine decode_cons fun h l cs heq => ?_
    by_contra hsome
    obtain ⟨rfl, hh, hl⟩ := escaped_isSome.mp (Option.isSome_iff_ne_none.mpr hsome)
    obtain ⟨ds, rfl, hds⟩ := encode_eq_hex hh heq
    obtain ⟨es, rfl, -⟩ := encode_eq_hex hl hds
    exact hsome (hb h l es rfl)

/-- Where the percent sign is reserved everything comes back. -/
theorem decode_encode (hpercent : reserved percent = true) (bs : List UInt8) :
    decode (encode reserved bs) = bs := by
  induction bs with
  | nil => rfl
  | cons b bs ih =>
    cases hb : reserved b with
    | true => rw [encode_cons_reserved hb, decode_encodeByte, ih]
    | false =>
      have hne : b ≠ percent := by
        rintro rfl
        cases hpercent.symm.trans hb
      rw [encode_cons_unreserved hb, decode_cons_of_ne hne, ih]

/-- A text without escapes comes back. -/
theorem decode_encode_of_no_escape (hno : ¬ HasEscape bs) : decode (encode reserved bs) = bs := by
  induction bs with
  | nil => rfl
  | cons b bs ih =>
    rw [decode_encode_cons, ih fun h => hno (.later h)]
    rintro h l cs rfl
    by_contra hsome
    obtain ⟨rfl, hh, hl⟩ := escaped_isSome.mp (Option.isSome_iff_ne_none.mpr hsome)
    exact hno (.here hh hl)

/-- Where the percent sign is not reserved the escapes of the text are decoded, too: each of them
makes it shorter. -/
theorem length_decode_encode (hhex : ∀ b, isHex b = true → reserved b = false)
    (hpercent : reserved percent = false) (bs : List UInt8) :
    (decode (encode reserved bs)).length ≤ bs.length ∧
      (HasEscape bs → (decode (encode reserved bs)).length < bs.length) := by
  induction bs using decode.induct with
  | case1 b h l bs c hc ih =>
    obtain ⟨rfl, hh, hl⟩ := escaped_isSome.mp (Option.isSome_of_eq_some hc)
    rw [encode_cons_unreserved hpercent, encode_cons_unreserved (hhex h hh),
      encode_cons_unreserved (hhex l hl), decode, hc]
    simp only [List.length_cons]
    omega
  | case2 b h l bs hc ih =>
    rw [decode_encode_cons fun h' l' cs heq => by cases heq; exact hc]
    obtain ⟨hle, hlt⟩ := ih
    simp only [List.length_cons] at hle hlt ⊢
    refine ⟨by omega, fun hesc => ?_⟩
    cases hesc with
    | here hh hl =>
      exact absurd hc (Option.isSome_iff_ne_none.mp (escaped_isSome.mpr ⟨rfl, hh, hl⟩))
    | later hesc =>
      have hshort := hlt hesc
      omega
  | case3 b bs hbs ih =>
    rw [decode_encode_cons fun h l cs heq => absurd heq (hbs h l cs)]
    obtain ⟨hle, hlt⟩ := ih
    simp only [List.length_cons] at hle hlt ⊢
    refine ⟨by omega, fun hesc => ?_⟩
    cases hesc with
    | here hh hl => exact absurd rfl (hbs _ _ _)
    | later hesc =>
      have hshort := hlt hesc
      omega
  | case4 =>
    refine ⟨Nat.le_refl _, fun hesc => ?_⟩
    cases hesc

/-- A text comes back unless it has an escape that encoding leaves as it is. -/
theorem decode_encode_iff (hhex : ∀ b, isHex b = true → reserved b = false) :
    decode (encode reserved bs) = bs ↔ reserved percent = true ∨ ¬ HasEscape bs := by
  constructor
  · intro heq
    by_contra hno
    obtain ⟨hpercent, hesc⟩ := not_or.mp hno
    have hlt := (length_decode_encode hhex (by simpa using hpercent) bs).2 (not_not.mp hesc)
    rw [heq] at hlt
    exact absurd hlt (Nat.lt_irrefl _)
  · rintro (hpercent | hno)
    · exact decode_encode hpercent bs
    · exact decode_encode_of_no_escape hno

theorem isHex_hexDigit (hn : n < 16) : isHex (hexDigit n) = true := by
  rw [isHex, hexValue_hexDigit hn]
  rfl

/-- The only reserved byte in an encoded text is the percent sign. -/
theorem reserved_of_mem_encode (hhex : ∀ b, isHex b = true → reserved b = false)
    (hb : b ∈ encode reserved bs) (hres : reserved b = true) : b = percent := by
  obtain ⟨c, -, hmem⟩ := List.mem_flatMap.mp hb
  have hdigit (n : Nat) (hn : n < 16) : b ≠ hexDigit n := by
    rintro rfl
    cases hres.symm.trans (hhex _ (isHex_hexDigit hn))
  have hlt : c.toNat < 256 := c.toNat_lt
  split at hmem
  · rcases List.mem_cons.mp hmem with rfl | hmem
    · rfl
    · rcases List.mem_cons.mp hmem with rfl | hmem
      · exact absurd rfl (hdigit _ (by omega))
      · exact absurd (List.mem_singleton.mp hmem) (hdigit _ (by omega))
  · next hno =>
    obtain rfl := List.mem_singleton.mp hmem
    exact absurd hres hno

end Pewpew.PercentEncoding
