import Pewpew.Config.Duration
import Pewpew.Config.FromConfig
import Pewpew.Library.F64
import Mathlib.Data.NNRat.Defs
import Mathlib.Algebra.Order.Field.Rat

/-! Percentages and numbers of hits: what the regular expressions capture, and the floats that are
made of it. -/
namespace Pewpew.Config

open SelectParser

inductive RateError where
  | config (e : FromConfigError)
  | invalidPercent (percent : String) (m : Marker)
  | invalidPeakLoad (load : String) (m : Marker)
  | invalidLoadPattern (m : Marker)

def RateError.panic (message : String) : RateError := .config (.value (.panic message))

/-- The numbers are floats of single precision. -/
inductive HitsPer where
  | second (n : F64)
  | minute (n : F64)

section Expressions

variable (D : DecimalDigits)

/-- `\d+(?:\.\d+)?`. -/
def numberRe : Regex Char :=
  .seq (.plus (.char D.digit)) (.opt (.seq (.char (· = '.')) (.plus (.char D.digit))))

/-- `^(\d+(?:\.\d+)?)%$`, without its anchors. -/
def percentRe : Regex Char := .seq (.capture 1 (numberRe D)) (.char (· = '%'))

/-- `^(?i)(\d+(?:\.\d+)?)\s*hp([ms])$`, without its anchors. -/
def hitsPerRe : Regex Char :=
  .seq (.capture 1 (numberRe D)) (.seq (.star (.char isWhitespace))
    (.seq (.char (folds 'h')) (.seq (.char (folds 'p'))
      (.capture 2 (.char fun c => folds 'm' c || folds 's' c)))))

/-- The number of a text that has neither a sign nor an exponent. -/
def parseDecimal (number : List Char) : Option ℚ≥0 :=
  match number.splitOn '.' with
  | [int] => (digits int).map fun n : Nat => (n : ℚ≥0)
  | [int, frac] =>
    (digits int).bind fun n : Nat => (digits frac).map fun m : Nat =>
      (n : ℚ≥0) + (m : ℚ≥0) / (10 ^ frac.length : Nat)
  | _ => none

/-- `parse` of such a text to a float. -/
def parseFloat (f : F64.Format) (number : List Char) : Option F64 :=
  (parseDecimal number).map fun n : ℚ≥0 => f.round false n

/-- What a percentage is made of, once its template is evaluated. -/
def percentFromString (string : String) (marker : Marker) : Except RateError F64 :=
  match (percentRe D).capturesWhole string.toList with
  | none => .error (.invalidPercent string marker)
  | some captures =>
    match parseFloat .double ((captures.lookup 1).getD []) with
    | none => .error (.panic "should be valid digits for percent")
    | some percent => .ok percent

/-- What a number of hits is made of, once its template is evaluated. -/
def hitsPerFromString (string : String) (marker : Marker) : Except RateError HitsPer :=
  match (hitsPerRe D).capturesWhole string.toList with
  | none => .error (.invalidPeakLoad string marker)
  | some captures =>
    match parseFloat .single ((captures.lookup 1).getD []) with
    | none => .error (.panic "should be valid digits for HitsPer")
    | some n =>
      match (captures.lookup 2).getD [] with
      | c :: _ =>
        if c.utf8Size ≠ 1 then .error (.panic "byte index 1 is not a char boundary")
        else if c.toLower = 'm' then .ok (.minute n)
        else .ok (.second n)
      | [] => .error (.panic "byte index 1 is out of bounds")

variable (x : Externals) (g : Grammar) (depth : Nat) (vars : Object)

def PrePercent.evaluate (p : PrePercent) : Except RateError F64 := do
  let string ← (PreTemplate.evaluate x g depth vars p).mapError fun e => .config (.expression e)
  percentFromString D string p.text.marker

def PreHitsPer.evaluate (h : PreHitsPer) : Except RateError HitsPer := do
  let string ← (PreTemplate.evaluate x g depth vars h).mapError fun e => .config (.expression e)
  hitsPerFromString D string h.text.marker

end Expressions

/-! ### What percentages and numbers of hits should be -/

/-- Decimal digits, and those of a fraction. -/
structure Decimal where
  int : List Char
  frac : Option (List Char)

def DecimalDigits.number (D : DecimalDigits) (ds : List Char) : Nat :=
  ds.foldl (fun n c => n * 10 + D.value c) 0

namespace Decimal

def text (d : Decimal) : List Char := d.int ++ d.frac.elim [] ('.' :: ·)

def value (D : DecimalDigits) (d : Decimal) : ℚ≥0 :=
  D.number d.int + d.frac.elim 0 fun f => (D.number f : ℚ≥0) / (10 ^ f.length : Nat)

structure Valid (D : DecimalDigits) (d : Decimal) : Prop where
  int_ne_nil : d.int ≠ []
  int : ∀ c ∈ d.int, D.digit c = true
  frac_ne_nil : d.frac ≠ some []
  frac : ∀ f ∈ d.frac, ∀ c ∈ f, D.digit c = true

/-- The digits are those of ASCII. -/
def Plain (d : Decimal) : Prop := ∀ c ∈ d.text, c.toNat < 128

end Decimal

/-- The text is a number with a percent sign. -/
structure IsPercent (D : DecimalDigits) (s : String) (d : Decimal) : Prop where
  valid : d.Valid D
  text : s.toList = d.text ++ ['%']

/-- The text is a number of hits per minute or second. -/
structure IsHitsPer (D : DecimalDigits) (s : String) (d : Decimal) (unit : Char) : Prop where
  valid : d.Valid D
  letter : folds 'm' unit = true ∨ folds 's' unit = true
  text : ∃ space h p, (∀ c ∈ space, isWhitespace c = true) ∧ folds 'h' h = true ∧
    folds 'p' p = true ∧ s.toList = d.text ++ space ++ [h, p, unit]

variable {D : DecimalDigits} {s : String} {d d' : Decimal} {unit c : Char} {ds w : List Char}
  {cs : List (Nat × List Char)} {marker : Marker}

/-! ### Parsing -/

theorem digit_ne_dot (h : D.digit c = true) : c ≠ '.' := by
  rintro rfl
  rw [D.ascii '.' (by decide)] at h
  cases h

theorem digits_plain (hne : ds ≠ []) (hds : ∀ c ∈ ds, D.digit c = true)
    (hplain : ∀ c ∈ ds, c.toNat < 128) : digits ds = some (D.number ds) := by
  have hunit : ∃ name, (name, 3600) ∈ units ∧
      List.Forall₂ (fun letter c => folds letter c = true) name.toList ['h'] :=
    ⟨"h", by simp [units], .cons (by decide) .nil⟩
  exact number_ascii (p := ⟨ds, [], ['h'], 3600, []⟩)
    ⟨hne, hds, List.forall_mem_nil _, hunit, List.forall_mem_nil _⟩ hplain

theorem plain_of_digits {n : Nat} (h : digits ds = some n) : ∀ c ∈ ds, c.toNat < 128 := by
  intro c hc
  rw [digits] at h
  split at h
  · next hall =>
    have := (toNat_of_isDigit (List.all_eq_true.mp hall.2 c hc)).2
    omega
  · cases h

namespace Decimal

theorem Valid.splitOn (h : d.Valid D) : d.text.splitOn '.' = d.int :: d.frac.toList := by
  have hint : '.' ∉ d.int := fun hc => digit_ne_dot (h.int _ hc) rfl
  cases hfrac : d.frac with
  | none =>
    rw [text, hfrac, Option.elim_none, List.append_nil, List.splitOn_eq_singleton hint]
    rfl
  | some f =>
    have hf : '.' ∉ f := fun hc => digit_ne_dot (h.frac f hfrac _ hc) rfl
    rw [text, hfrac, Option.elim_some, List.splitOn_append_cons_self_of_not_mem hint,
      List.splitOn_eq_singleton hf]
    rfl

theorem plain_iff : d.Plain ↔
    (∀ c ∈ d.int, c.toNat < 128) ∧ ∀ f ∈ d.frac, ∀ c ∈ f, c.toNat < 128 := by
  rw [Plain, text, List.forall_mem_append]
  cases hfrac : d.frac with
  | none => simp
  | some f =>
    rw [Option.elim_some, List.forall_mem_cons]
    simp

/-- A number parses where its digits are those of ASCII, and is rounded. -/
theorem Valid.parse (f : F64.Format) (h : d.Valid D) (hplain : d.Plain) :
    parseFloat f d.text = some (f.round false (d.value D)) := by
  obtain ⟨hint, hfrac⟩ := plain_iff.mp hplain
  refine Option.map_eq_some_iff.mpr ⟨d.value D, ?_, rfl⟩
  rw [parseDecimal, h.splitOn, value]
  cases hf : d.frac with
  | none => simp [digits_plain h.int_ne_nil h.int hint]
  | some f =>
    have hne : f ≠ [] := fun hnil => h.frac_ne_nil (hf.trans (by rw [hnil]))
    simp [digits_plain h.int_ne_nil h.int hint, digits_plain hne (h.frac f hf) (hfrac f hf)]

theorem Valid.parse_foreign (f : F64.Format) (h : d.Valid D) (hplain : ¬ d.Plain) :
    parseFloat f d.text = none := by
  rw [parseFloat, Option.map_eq_none_iff, Option.eq_none_iff_forall_ne_some]
  intro n hn
  refine hplain (plain_iff.mpr ?_)
  rw [parseDecimal, h.splitOn] at hn
  cases hf : d.frac with
  | none =>
    rw [hf] at hn
    obtain ⟨n, hint, -⟩ := Option.map_eq_some_iff.mp hn
    exact ⟨plain_of_digits hint, by simp⟩
  | some f =>
    rw [hf] at hn
    obtain ⟨n, hint, hn⟩ := Option.bind_eq_some_iff.mp hn
    obtain ⟨m, hm, -⟩ := Option.map_eq_some_iff.mp hn
    exact ⟨plain_of_digits hint, by simpa using plain_of_digits hm⟩

end Decimal

/-! ### What the expressions capture -/

section Captures

open Regex

theorem mem_lang_number : w ∈ lang (numberRe D) ↔ ∃ d : Decimal, d.Valid D ∧ w = d.text := by
  constructor
  · intro hw
    obtain ⟨int, hint, rest, hrest, rfl⟩ := Language.mem_mul.mp hw
    obtain ⟨hne, hint⟩ := mem_lang_plus_char.mp hint
    rcases hrest with hrest | rfl
    · obtain ⟨-, ⟨dot, hdot, rfl⟩, f, hf, rfl⟩ := Language.mem_mul.mp hrest
      obtain ⟨hfne, hf⟩ := mem_lang_plus_char.mp hf
      obtain rfl : dot = '.' := by simpa using hdot
      exact ⟨⟨int, some f⟩, ⟨hne, hint, by simpa using hfne, by simpa using hf⟩, rfl⟩
    · exact ⟨⟨int, none⟩, ⟨hne, hint, by simp, by simp⟩, rfl⟩
  · rintro ⟨⟨int, frac⟩, ⟨hne, hint, hfne, hf⟩, rfl⟩
    refine Language.append_mem_mul (mem_lang_plus_char.mpr ⟨hne, hint⟩) ?_
    cases frac with
    | none => exact .inr rfl
    | some f =>
      exact .inl (Language.append_mem_mul (a := ['.']) ⟨'.', by decide, rfl⟩
        (mem_lang_plus_char.mpr ⟨by simpa using hfne, hf f rfl⟩))

theorem numberRe_captureless : (numberRe D).Captureless :=
  ⟨⟨trivial, trivial⟩, ⟨trivial, trivial, trivial⟩, trivial⟩

theorem mem_lang_percent : s.toList ∈ lang (percentRe D) ↔ ∃ d, IsPercent D s d := by
  constructor
  · intro hs
    obtain ⟨w, hw, -, ⟨c, hc, rfl⟩, htext⟩ := Language.mem_mul.mp hs
    obtain ⟨d, hd, rfl⟩ := mem_lang_number.mp hw
    obtain rfl : c = '%' := by simpa using hc
    exact ⟨d, hd, htext.symm⟩
  · rintro ⟨d, hd, htext⟩
    rw [htext]
    exact Language.append_mem_mul (mem_lang_number.mpr ⟨d, hd, rfl⟩) ⟨'%', by decide, rfl⟩

/-- A percentage captures its number. -/
theorem percent_captures (h : IsPercent D s d) :
    ∃ cs, (percentRe D).capturesWhole s.toList = some cs ∧ cs.lookup 1 = some d.text := by
  have hsome : ((percentRe D).capturesWhole s.toList).isSome = true := by
    rw [capturesWhole_isSome, matchesWhole_iff]
    exact mem_lang_percent.mpr ⟨d, h⟩
  obtain ⟨cs, hcs⟩ := Option.isSome_iff_exists.mp hsome
  refine ⟨cs, hcs, ?_⟩
  obtain ⟨cs₁, mid, cs₂, h₁, h₂, rfl⟩ := mem_tries_seq (capturesWhole_some hcs)
  obtain ⟨w, -, htext, rfl⟩ := mem_tries_capture numberRe_captureless h₁
  obtain ⟨-, ⟨c, -, rfl⟩, rfl, -⟩ := mem_tries_captureless (r := .char (· = '%')) trivial h₂
  rw [h.text, List.append_nil] at htext
  obtain ⟨rfl, -⟩ := List.append_inj' htext rfl
  rfl

theorem mem_lang_hitsPer : s.toList ∈ lang (hitsPerRe D) ↔ ∃ d unit, IsHitsPer D s d unit := by
  constructor
  · intro hs
    obtain ⟨w, hw, rest, hrest, htext⟩ := Language.mem_mul.mp hs
    obtain ⟨space, hspace, letters, hletters, rfl⟩ := Language.mem_mul.mp hrest
    obtain ⟨-, ⟨h, hh, rfl⟩, end', hend, rfl⟩ := Language.mem_mul.mp hletters
    obtain ⟨-, ⟨p, hp, rfl⟩, -, ⟨unit, hunit, rfl⟩, rfl⟩ := Language.mem_mul.mp hend
    obtain ⟨d, hd, rfl⟩ := mem_lang_number.mp hw
    exact ⟨d, unit, hd, Bool.or_eq_true_iff.mp hunit, space, h, p, mem_lang_star_char.mp hspace,
      hh, hp, by rw [← htext]; simp⟩
  · rintro ⟨d, unit, hd, hunit, space, h, p, hspace, hh, hp, htext⟩
    rw [htext, List.append_assoc]
    refine Language.append_mem_mul (mem_lang_number.mpr ⟨d, hd, rfl⟩) ?_
    refine Language.append_mem_mul (mem_lang_star_char.mpr hspace) ?_
    refine Language.append_mem_mul (a := [h]) ⟨h, hh, rfl⟩ ?_
    refine Language.append_mem_mul (a := [p]) ⟨p, hp, rfl⟩ ?_
    exact ⟨unit, Bool.or_eq_true_iff.mpr hunit, rfl⟩

theorem Decimal.Valid.not_whitespace (h : d.Valid D) : ∀ c ∈ d.text, isWhitespace c = false := by
  have hdigit : ∀ c, D.digit c = true → isWhitespace c = false := D.whitespace
  intro c hc
  rcases List.mem_append.mp hc with hc | hc
  · exact hdigit c (h.int c hc)
  · cases hfrac : d.frac with
    | none => simp [hfrac] at hc
    | some f =>
      rw [hfrac, Option.elim_some] at hc
      rcases List.mem_cons.mp hc with rfl | hc
      · decide
      · exact hdigit c (h.frac f hfrac c hc)

/-- A number of hits has one number and one unit. -/
theorem IsHitsPer.unique (h : IsHitsPer D s d unit) {unit' : Char}
    (h' : IsHitsPer D s d' unit') : d.text = d'.text ∧ unit = unit' := by
  obtain ⟨space, c₁, c₂, hspace, -, -, htext⟩ := h.text
  obtain ⟨space', c₁', c₂', hspace', -, -, htext'⟩ := h'.text
  obtain ⟨hnumber, hletters⟩ := List.append_inj' (htext.symm.trans htext') rfl
  have hfilter {d : Decimal} {space : List Char} (hd : d.Valid D)
      (hspace : ∀ c ∈ space, isWhitespace c = true) :
      (d.text ++ space).filter (!isWhitespace ·) = d.text := by
    rw [List.filter_append, List.filter_eq_self.mpr (by simpa using hd.not_whitespace),
      List.filter_eq_nil_iff.mpr (by simpa using hspace), List.append_nil]
  have hfiltered := congrArg (List.filter (!isWhitespace ·)) hnumber
  rw [hfilter h.valid hspace, hfilter h'.valid hspace'] at hfiltered
  exact ⟨hfiltered, by simp_all⟩

/-- A number of hits captures its number and its unit. -/
theorem hitsPer_captures (h : IsHitsPer D s d unit) :
    (hitsPerRe D).capturesWhole s.toList = some [(1, d.text), (2, [unit])] := by
  have hsome : ((hitsPerRe D).capturesWhole s.toList).isSome = true := by
    rw [capturesWhole_isSome, matchesWhole_iff]
    exact mem_lang_hitsPer.mpr ⟨d, unit, h⟩
  obtain ⟨cs, hcs⟩ := Option.isSome_iff_exists.mp hsome
  rw [hcs]
  obtain ⟨cs₁, mid₁, rest₁, h₁, hrest₁, rfl⟩ := mem_tries_seq (capturesWhole_some hcs)
  obtain ⟨cs₂, mid₂, rest₂, h₂, hrest₂, rfl⟩ := mem_tries_seq hrest₁
  obtain ⟨cs₃, mid₃, rest₃, h₃, hrest₃, rfl⟩ := mem_tries_seq hrest₂
  obtain ⟨cs₄, mid₄, cs₅, h₄, h₅, rfl⟩ := mem_tries_seq hrest₃
  obtain ⟨w, hw, htext, rfl⟩ := mem_tries_capture numberRe_captureless h₁
  obtain ⟨space, hspace, rfl, rfl⟩ :=
    mem_tries_captureless (r := .star (.char isWhitespace)) trivial h₂
  obtain ⟨-, ⟨c₁, hc₁, rfl⟩, rfl, rfl⟩ := mem_tries_captureless (r := .char (folds 'h')) trivial h₃
  obtain ⟨-, ⟨c₂, hc₂, rfl⟩, rfl, rfl⟩ := mem_tries_captureless (r := .char (folds 'p')) trivial h₄
  obtain ⟨-, ⟨unit', hunit', rfl⟩, rfl, rfl⟩ :=
    mem_tries_capture (r := .char fun c => folds 'm' c || folds 's' c) trivial h₅
  obtain ⟨d', hd', rfl⟩ := mem_lang_number.mp hw
  have h' : IsHitsPer D s d' unit' :=
    ⟨hd', Bool.or_eq_true_iff.mp hunit', space, c₁, c₂, mem_lang_star_char.mp hspace, hc₁, hc₂,
      by rw [htext]; simp⟩
  obtain ⟨hsame, rfl⟩ := h.unique h'
  rw [hsame]
  rfl

end Captures

/-! ### The numbers -/

theorem percentFromString_ok (h : IsPercent D s d) (hplain : d.Plain) :
    percentFromString D s marker = .ok (F64.Format.double.round false (d.value D)) := by
  obtain ⟨cs, hcs, hlookup⟩ := percent_captures h
  simp only [percentFromString, hcs, hlookup, Option.getD_some, h.valid.parse .double hplain]

/-- A text is a percentage with the double-precision float that is nearest to its value, or an error
that names it; with digits other than those of ASCII it is a panic. -/
theorem percentFromString_exact (D : DecimalDigits) (s : String) (marker : Marker) :
    (∀ d, IsPercent D s d → d.Plain →
      percentFromString D s marker = .ok (F64.Format.double.round false (d.value D))) ∧
      (∀ d, IsPercent D s d → ¬ d.Plain → percentFromString D s marker =
        .error (.panic "should be valid digits for percent")) ∧
      ((¬ ∃ d, IsPercent D s d) →
        percentFromString D s marker = .error (.invalidPercent s marker)) := by
  refine ⟨fun d => percentFromString_ok, fun d h hplain => ?_, fun h => ?_⟩
  · obtain ⟨cs, hcs, hlookup⟩ := percent_captures h
    simp only [percentFromString, hcs, hlookup, Option.getD_some,
      h.valid.parse_foreign .double hplain]
  · have hnone : (percentRe D).capturesWhole s.toList = none := by
      rw [← Option.not_isSome_iff_eq_none, Regex.capturesWhole_isSome, Regex.matchesWhole_iff]
      exact fun hs => h (mem_lang_percent.mp hs)
    rw [percentFromString, hnone]

/-- The unit of a number of hits, where it is a letter of ASCII. -/
def HitsPer.of (unit : Char) (n : F64) : HitsPer :=
  if folds 'm' unit then .minute n else .second n

theorem unit_cases (h : folds 'm' unit = true ∨ folds 's' unit = true) :
    unit ∈ ['m', 'M', 's', 'S', 'ſ'] := by
  have hm : 'm'.toUpper = 'M' := by decide
  have hs : 's'.toUpper = 'S' := by decide
  rcases h with h | h
  · simp only [folds, hm, Bool.or_eq_true, Bool.and_eq_true, decide_eq_true_eq] at h
    rcases h with (rfl | rfl) | ⟨h, -⟩
    · simp
    · simp
    · exact absurd h (by decide)
  · simp only [folds, hs, Bool.or_eq_true, Bool.and_eq_true, decide_eq_true_eq] at h
    rcases h with (rfl | rfl) | ⟨-, rfl⟩ <;> simp

/-- A text is a number of hits with its unit and the single-precision float that is nearest to its
value, or an error that names it; with digits or a unit other than those of ASCII it is a panic. -/
theorem hitsPerFromString_exact (D : DecimalDigits) (s : String) (marker : Marker) :
    (∀ d unit, IsHitsPer D s d unit → d.Plain → unit.toNat < 128 →
      hitsPerFromString D s marker = .ok (.of unit (F64.Format.single.round false (d.value D)))) ∧
      (∀ d unit, IsHitsPer D s d unit → ¬ (d.Plain ∧ unit.toNat < 128) →
        ∃ message, hitsPerFromString D s marker = .error (.panic message)) ∧
      ((¬ ∃ d unit, IsHitsPer D s d unit) →
        hitsPerFromString D s marker = .error (.invalidPeakLoad s marker)) := by
  refine ⟨fun d unit h hplain hascii => ?_, fun d unit h hforeign => ?_, fun h => ?_⟩
  · have hparse := h.valid.parse .single hplain
    rw [hitsPerFromString, hitsPer_captures h]
    have hunit := unit_cases h.letter
    simp only [List.mem_cons, List.not_mem_nil, or_false] at hunit
    rcases hunit with rfl | rfl | rfl | rfl | rfl
    all_goals first
      | exact absurd hascii (by decide)
      | simp [List.lookup_cons, hparse]; rfl
  · rw [hitsPerFromString, hitsPer_captures h]
    by_cases hplain : d.Plain
    · have hparse := h.valid.parse .single hplain
      have hascii : ¬ unit.toNat < 128 := fun hascii => hforeign ⟨hplain, hascii⟩
      have hunit := unit_cases h.letter
      simp only [List.mem_cons, List.not_mem_nil, or_false] at hunit
      rcases hunit with rfl | rfl | rfl | rfl | rfl
      all_goals first
        | exact absurd (by decide) hascii
        | exact ⟨_, by simp [List.lookup_cons, hparse]; rfl⟩
    · exact ⟨_, by simp [h.valid.parse_foreign .single hplain]; rfl⟩
  · have hnone : (hitsPerRe D).capturesWhole s.toList = none := by
      rw [← Option.not_isSome_iff_eq_none, Regex.capturesWhole_isSome, Regex.matchesWhole_iff]
      exact fun hs => h (mem_lang_hitsPer.mp hs)
    rw [hitsPerFromString, hnone]

end Pewpew.Config
