import Pewpew.Config.OneNode
import Pewpew.Library.Regex

/-! Durations: what the regular expressions find, and the seconds that are made of it. -/
namespace Pewpew.Config

/-- A letter of a unit without regard to case; the long s is a third form. -/
def folds (letter c : Char) : Bool :=
  c = letter || c = letter.toUpper || (letter = 's' && c = 'ſ')

/-- `\d`: the decimal digits, with their values. -/
structure DecimalDigits where
  digit : Char → Bool
  value : Char → Nat
  ascii : ∀ c, c.toNat < 128 → digit c = c.isDigit
  value_ascii : ∀ c, c.isDigit → value c = c.toNat - '0'.toNat
  whitespace : ∀ c, digit c = true → isWhitespace c = false
  long_s : digit 'ſ' = false

/-- The names of units, and whether they may have an `s` at the end. -/
def unitWords : List (String × Bool) :=
  [("d", false), ("h", false), ("m", false), ("s", false), ("day", true), ("hr", true),
    ("min", true), ("sec", true), ("hour", true), ("minute", true), ("second", true)]

section Expressions

variable (D : DecimalDigits)

def word (s : String) : Regex Char :=
  s.toList.foldr (fun letter r => .seq (.char (folds letter)) r) .empty

def unitWord (w : String × Bool) : Regex Char :=
  if w.2 then .seq (word w.1) (.opt (.char (folds 's'))) else word w.1

/-- The alternatives of a group, in their order. -/
def alternatives : List (Regex Char) → Regex Char
  | [] => .char fun _ => false
  | r :: rs => .alt r (alternatives rs)

/-- `(\d+)\s*(d|h|m|s|days?|hrs?|mins?|secs?|hours?|minutes?|seconds?)`. -/
def baseRe : Regex Char :=
  .seq (.capture 1 (.plus (.char D.digit)))
    (.seq (.star (.char isWhitespace)) (.capture 2 (alternatives (unitWords.map unitWord))))

/-- `^(?:base\s*)+$`, without its anchors. -/
def sanityRe : Regex Char := .plus (.seq (baseRe D) (.star (.char isWhitespace)))

def group (i : Nat) (captures : List (Nat × List Char)) : String :=
  .ofList ((captures.lookup i).getD [])

/-- The captures of a text that is a duration. -/
def durationCaptures (dur : String) : Option (List (String × String)) :=
  if (sanityRe D).matchesWhole dur.toList then
    some (((baseRe D).capturesIter 0 dur.toList).map fun cs => (group 1 cs, group 2 cs))
  else none

end Expressions

/-- The names of the units and their seconds. -/
def units : List (String × Nat) :=
  [("d", 86400), ("day", 86400), ("days", 86400), ("h", 3600), ("hr", 3600), ("hrs", 3600),
    ("hour", 3600), ("hours", 3600), ("m", 60), ("min", 60), ("mins", 60), ("minute", 60),
    ("minutes", 60), ("s", 1), ("sec", 1), ("secs", 1), ("second", 1), ("seconds", 1)]

/-- A number, a unit and the whitespace after each of them. -/
structure DurationPiece where
  digits : List Char
  space : List Char
  unit : List Char
  seconds : Nat
  after : List Char

namespace DurationPiece

def text (p : DurationPiece) : List Char := p.digits ++ p.space ++ p.unit ++ p.after

def number (D : DecimalDigits) (p : DurationPiece) : Nat :=
  p.digits.foldl (fun n c => n * 10 + D.value c) 0

structure Valid (D : DecimalDigits) (p : DurationPiece) : Prop where
  digits_ne_nil : p.digits ≠ []
  digits : ∀ c ∈ p.digits, D.digit c = true
  space : ∀ c ∈ p.space, isWhitespace c = true
  unit : ∃ name, (name, p.seconds) ∈ units ∧
    List.Forall₂ (fun letter c => folds letter c = true) name.toList p.unit
  after : ∀ c ∈ p.after, isWhitespace c = true

/-- The piece has digits of ASCII, and its unit starts with a letter of ASCII. -/
structure Plain (p : DurationPiece) : Prop where
  digits : ∀ c ∈ p.digits, c.toNat < 128
  unit : ∀ c ∈ p.unit.head?, c.toNat < 128

end DurationPiece

/-- The text is a duration of the given pieces. -/
structure IsDuration (D : DecimalDigits) (dur : String) (pieces : List DurationPiece) : Prop where
  ne_nil : pieces ≠ []
  valid : ∀ p ∈ pieces, p.Valid D
  text : dur.toList = pieces.flatMap DurationPiece.text

def totalSeconds (D : DecimalDigits) (pieces : List DurationPiece) : Nat :=
  (pieces.map fun p => p.number D * p.seconds).sum

/-- A duration has exactly its seconds where these fit in 64 bits, and anything else is an error. -/
structure ExactDuration (D : DecimalDigits) (dur : String) (r : Except Failure Nat) : Prop where
  exact : ∀ pieces, IsDuration D dur pieces → totalSeconds D pieces < 2 ^ 64 →
    r = .ok (totalSeconds D pieces)
  tooLarge : ∀ pieces, IsDuration D dur pieces → 2 ^ 64 ≤ totalSeconds D pieces →
    ∃ e, r = .error (.err e)
  noDuration : (¬ ∃ pieces, IsDuration D dur pieces) → ∃ e, r = .error (.err e)

variable {D : DecimalDigits} {dur : String} {pieces : List DurationPiece} {p : DurationPiece}
  {w : List Char} {c letter : Char}

section Language

open Regex

theorem mem_lang_word {s : String} :
    w ∈ lang (word s) ↔ List.Forall₂ (fun letter c => folds letter c = true) s.toList w := by
  rw [word]
  induction s.toList generalizing w with
  | nil => exact List.forall₂_nil_left_iff.symm
  | cons letter letters ih =>
    rw [List.foldr_cons, List.forall₂_cons_left_iff]
    constructor
    · intro hw
      obtain ⟨-, ⟨c, hc, rfl⟩, w', hw', rfl⟩ := Language.mem_mul.mp hw
      exact ⟨c, w', hc, ih.mp hw', rfl⟩
    · rintro ⟨c, w', hc, hw', rfl⟩
      exact Language.append_mem_mul (a := [c]) ⟨c, hc, rfl⟩ (ih.mpr hw')

theorem mem_lang_alternatives {rs : List (Regex Char)} :
    w ∈ lang (alternatives rs) ↔ ∃ r ∈ rs, w ∈ lang r := by
  induction rs with
  | nil =>
    constructor
    · rintro ⟨c, hc, -⟩
      cases hc
    · simp
  | cons r rs ih =>
    rw [List.exists_mem_cons_iff, ← ih]
    rfl

theorem forall₂_concat {α β : Type} {R : α → β → Prop} {l : List α} {a : α} {v : List β} :
    List.Forall₂ R (l ++ [a]) v ↔ ∃ v' b, List.Forall₂ R l v' ∧ R a b ∧ v = v' ++ [b] := by
  induction l generalizing v with
  | nil =>
    rw [List.nil_append, List.forall₂_cons_left_iff]
    constructor
    · rintro ⟨b, rest, hab, hrest, rfl⟩
      rw [List.forall₂_nil_left_iff.mp hrest]
      exact ⟨[], b, .nil, hab, rfl⟩
    · rintro ⟨v', b, hv', hab, rfl⟩
      rw [List.forall₂_nil_left_iff.mp hv']
      exact ⟨b, [], hab, .nil, rfl⟩
  | cons a' l ih =>
    rw [List.cons_append, List.forall₂_cons_left_iff]
    constructor
    · rintro ⟨b', rest, hab', hrest, rfl⟩
      obtain ⟨v', b, hv', hab, rfl⟩ := ih.mp hrest
      exact ⟨b' :: v', b, .cons hab' hv', hab, rfl⟩
    · rintro ⟨v', b, hv', hab, rfl⟩
      obtain ⟨b', rest, hab', hrest, rfl⟩ := List.forall₂_cons_left_iff.mp hv'
      exact ⟨b', rest ++ [b], hab', ih.mpr ⟨rest, b, hrest, hab, rfl⟩, rfl⟩

theorem forall₂_exists_left {α β : Type} {R : α → β → Prop} {l : List α} {l' : List β} {b : β}
    (h : List.Forall₂ R l l') (hb : b ∈ l') : ∃ a ∈ l, R a b := by
  induction h with
  | nil => cases hb
  | cons hab _ ih =>
    rcases List.mem_cons.mp hb with rfl | hb
    · exact ⟨_, List.mem_cons_self, hab⟩
    · obtain ⟨a, ha, hr⟩ := ih hb
      exact ⟨a, List.mem_cons_of_mem _ ha, hr⟩

/-- The names that the words stand for. -/
def unitNames : List String :=
  unitWords.flatMap fun u => u.1 :: if u.2 then [u.1 ++ "s"] else []

theorem unitNames_perm : unitNames.Perm (units.map Prod.fst) := by decide

theorem mem_lang_unitWord {u : String × Bool} :
    w ∈ lang (unitWord u) ↔ w ∈ lang (word u.1) ∨ u.2 = true ∧ w ∈ lang (word (u.1 ++ "s")) := by
  rw [unitWord]
  split
  · next h =>
    have hplural : w ∈ lang (word (u.1 ++ "s")) ↔
        ∃ v c, v ∈ lang (word u.1) ∧ folds 's' c = true ∧ w = v ++ [c] := by
      rw [mem_lang_word, String.toList_append]
      simp only [mem_lang_word]
      exact forall₂_concat
    rw [h, hplural]
    constructor
    · intro hw
      obtain ⟨v, hv, end', hend, rfl⟩ := Language.mem_mul.mp hw
      rcases hend with ⟨c, hc, rfl⟩ | rfl
      · exact .inr ⟨rfl, v, c, hv, hc, rfl⟩
      · rw [List.append_nil]
        exact .inl hv
    · rintro (hw | ⟨-, v, c, hv, hc, rfl⟩)
      · have hopt := Language.append_mem_mul hw (b := []) (m := lang (opt (.char (folds 's'))))
          (.inr rfl)
        rwa [List.append_nil] at hopt
      · exact Language.append_mem_mul hv (b := [c]) (.inl ⟨c, hc, rfl⟩)
  · next h => simp [h]

/-- The names in the expression are those of the units. -/
theorem mem_lang_units : w ∈ lang (alternatives (unitWords.map unitWord)) ↔
    ∃ name seconds, (name, seconds) ∈ units ∧
      List.Forall₂ (fun letter c => folds letter c = true) name.toList w := by
  have hnames : (∃ name seconds, (name, seconds) ∈ units ∧
      List.Forall₂ (fun letter c => folds letter c = true) name.toList w) ↔
      ∃ name ∈ unitNames, List.Forall₂ (fun letter c => folds letter c = true) name.toList w := by
    simp only [unitNames_perm.mem_iff, List.mem_map, Prod.exists]
    constructor
    · rintro ⟨name, seconds, hmem, hw⟩
      exact ⟨name, ⟨name, seconds, hmem, rfl⟩, hw⟩
    · rintro ⟨name, ⟨name', seconds, hmem, heq⟩, hw⟩
      obtain rfl : name' = name := heq
      exact ⟨name', seconds, hmem, hw⟩
  rw [hnames, mem_lang_alternatives, unitNames]
  simp only [List.mem_flatMap, List.mem_map]
  constructor
  · rintro ⟨r, ⟨u, hu, rfl⟩, hw⟩
    rcases mem_lang_unitWord.mp hw with hw | ⟨hplural, hw⟩
    · exact ⟨u.1, ⟨u, hu, List.mem_cons_self⟩, mem_lang_word.mp hw⟩
    · exact ⟨u.1 ++ "s", ⟨u, hu, by simp [hplural]⟩, mem_lang_word.mp hw⟩
  · rintro ⟨name, ⟨u, hu, hname⟩, hw⟩
    refine ⟨_, ⟨u, hu, rfl⟩, mem_lang_unitWord.mpr ?_⟩
    rcases List.mem_cons.mp hname with rfl | hname
    · exact .inl (mem_lang_word.mpr hw)
    · split at hname
      · next hplural =>
        obtain rfl := List.mem_singleton.mp hname
        exact .inr ⟨hplural, mem_lang_word.mpr hw⟩
      · cases hname

/-- A piece of a duration, with the whitespace after it. -/
theorem mem_lang_piece : w ∈ lang (.seq (baseRe D) (.star (.char isWhitespace))) ↔
    ∃ p : DurationPiece, p.Valid D ∧ w = p.text := by
  constructor
  · intro hw
    obtain ⟨base, hbase, after, hafter, rfl⟩ := Language.mem_mul.mp hw
    obtain ⟨ds, hds, rest, hrest, rfl⟩ := Language.mem_mul.mp hbase
    obtain ⟨space, hspace, unit, hunit, rfl⟩ := Language.mem_mul.mp hrest
    obtain ⟨hne, hds⟩ := mem_lang_plus_char.mp hds
    obtain ⟨name, seconds, hname, hunit⟩ := mem_lang_units.mp hunit
    refine ⟨⟨ds, space, unit, seconds, after⟩, ⟨hne, hds, mem_lang_star_char.mp hspace,
      ⟨name, hname, hunit⟩, mem_lang_star_char.mp hafter⟩, ?_⟩
    simp [DurationPiece.text]
  · rintro ⟨p, ⟨hne, hds, hspace, ⟨name, hname, hunit⟩, hafter⟩, rfl⟩
    rw [DurationPiece.text, List.append_assoc p.digits]
    refine Language.append_mem_mul (Language.append_mem_mul ?_ (Language.append_mem_mul ?_ ?_)) ?_
    · exact mem_lang_plus_char.mpr ⟨hne, hds⟩
    · exact mem_lang_star_char.mpr hspace
    · exact mem_lang_units.mpr ⟨name, p.seconds, hname, hunit⟩
    · exact mem_lang_star_char.mpr hafter

theorem exists_pieces {parts : List (List Char)}
    (h : ∀ v ∈ parts, v ∈ lang (.seq (baseRe D) (.star (.char isWhitespace)))) :
    ∃ pieces : List DurationPiece, (∀ p ∈ pieces, p.Valid D) ∧
      parts = pieces.map DurationPiece.text := by
  induction parts with
  | nil => exact ⟨[], by simp, rfl⟩
  | cons v parts ih =>
    obtain ⟨hv, hparts⟩ := List.forall_mem_cons.mp h
    obtain ⟨p, hp, rfl⟩ := mem_lang_piece.mp hv
    obtain ⟨pieces, hvalid, rfl⟩ := ih hparts
    exact ⟨p :: pieces, List.forall_mem_cons.mpr ⟨hp, hvalid⟩, rfl⟩

/-- The expression for whole texts matches durations. -/
theorem matchesWhole_iff_isDuration :
    (sanityRe D).matchesWhole dur.toList = true ↔ ∃ pieces, IsDuration D dur pieces := by
  rw [matchesWhole_iff, sanityRe, mem_lang_plus]
  constructor
  · rintro ⟨parts, hne, hparts, htext⟩
    obtain ⟨pieces, hvalid, rfl⟩ := exists_pieces hparts
    refine ⟨pieces, by simpa using hne, hvalid, ?_⟩
    rw [htext, List.flatMap_def]
  · rintro ⟨pieces, hne, hvalid, htext⟩
    refine ⟨pieces.map DurationPiece.text, by simpa using hne, fun v hv => ?_, ?_⟩
    · obtain ⟨p, hp, rfl⟩ := List.mem_map.mp hv
      exact mem_lang_piece.mpr ⟨p, hvalid p hp, rfl⟩
    · rw [htext, List.flatMap_def]

/-! ### What the search finds -/

/-- The first letters of the units, with their seconds. -/
def unitLetters : List (Char × Nat) := [('d', 86400), ('h', 3600), ('m', 60), ('s', 1)]

theorem units_head : ∀ e ∈ units, ∃ l ∈ unitLetters, e.1.toList.head? = some l.1 ∧ e.2 = l.2 := by
  decide

theorem units_forms : ∀ e ∈ units, ∀ letter ∈ e.1.toList, ∀ c ∈ [letter, letter.toUpper, 'ſ'],
    isWhitespace c = false ∧ (c ≠ 'ſ' → c.toNat < 128 ∧ c.isDigit = false) := by
  have hall : units.all fun e => e.1.toList.all fun letter => [letter, letter.toUpper, 'ſ'].all
      fun c => !isWhitespace c && (c == 'ſ' || (c.toNat < 128 && !c.isDigit)) := by decide
  intro e he letter hletter c hc
  have h := List.all_eq_true.mp (List.all_eq_true.mp (List.all_eq_true.mp hall e he)
    letter hletter) c hc
  simp only [Bool.and_eq_true, Bool.or_eq_true, Bool.not_eq_eq_eq_not, Bool.not_true, beq_iff_eq,
    decide_eq_true_eq] at h
  exact ⟨h.1, h.2.resolve_left⟩

theorem form_of_folds (h : folds letter c = true) : c ∈ [letter, letter.toUpper, 'ſ'] := by
  simp only [folds, Bool.or_eq_true, Bool.and_eq_true, decide_eq_true_eq] at h
  rcases h with (rfl | rfl) | ⟨-, rfl⟩ <;> simp

/-- The letters of a unit are neither digits nor whitespace. -/
theorem DurationPiece.Valid.letters (h : p.Valid D) :
    ∀ c ∈ p.unit, D.digit c = false ∧ isWhitespace c = false := by
  intro c hc
  obtain ⟨name, hname, hunit⟩ := h.unit
  obtain ⟨letter, hletter, hfolds⟩ := forall₂_exists_left hunit hc
  obtain ⟨hspace, hascii⟩ := units_forms _ hname letter hletter c (form_of_folds hfolds)
  refine ⟨?_, hspace⟩
  by_cases hs : c = 'ſ'
  · rw [hs, D.long_s]
  · obtain ⟨hlt, hdigit⟩ := hascii hs
    rw [D.ascii c hlt, hdigit]

theorem DurationPiece.Valid.head (h : p.Valid D) :
    ∃ letter u us, (letter, p.seconds) ∈ unitLetters ∧ p.unit = u :: us ∧
      folds letter u = true := by
  obtain ⟨name, hname, hunit⟩ := h.unit
  obtain ⟨⟨letter, seconds⟩, hl, hhead, hseconds⟩ := units_head _ hname
  obtain ⟨letters, hletters⟩ := List.head?_eq_some_iff.mp hhead
  rw [hletters] at hunit
  obtain ⟨u, us, hu, -, heq⟩ := List.forall₂_cons_left_iff.mp hunit
  obtain rfl : p.seconds = seconds := hseconds
  exact ⟨letter, u, us, hl, heq, hu⟩

/-- Of a unit, the search takes the first letter alone, since these come first. -/
theorem first_unit {l : Char × Nat} (hl : l ∈ unitLetters) (h : folds l.1 c = true)
    (t : List Char) :
    first (alternatives (unitWords.map unitWord)) (c :: t) = some ([], t) := by
  have hform := form_of_folds h
  simp only [unitLetters, List.mem_cons, List.not_mem_nil, or_false] at hl hform
  rcases hl with rfl | rfl | rfl | rfl <;> rcases hform with rfl | rfl | rfl <;> rfl

theorem not_digit_of_whitespace (h : isWhitespace c = true) : D.digit c = false := by
  rw [Bool.eq_false_iff]
  intro hd
  rw [D.whitespace c hd] at h
  cases h

/-- Before a piece has been taken there is its first digit. -/
theorem tries_base_of_not_digit (h : D.digit c = false) (t : List Char) :
    tries (baseRe D) (c :: t) = [] := by
  refine tries_seq_of_nil ?_
  rw [tries, plus, tries_seq_of_nil (tries_char_of_not h)]
  rfl

/-- The search takes the number of a piece and the first letter of its unit. -/
theorem first_base (h : p.Valid D) {u : Char} {us : List Char} (hunit : p.unit = u :: us)
    (t : List Char) :
    first (baseRe D) ((p.digits ++ p.space ++ [u]) ++ t) =
      some ([(1, p.digits), (2, [u])], t) := by
  obtain ⟨letter, u', us', hl, hhead, hfolds⟩ := h.head
  obtain ⟨rfl, rfl⟩ := List.cons_eq_cons.mp (hunit.symm.trans hhead)
  obtain ⟨hdigit, hspace⟩ := h.letters u (by simp [hunit])
  have hdigits : ∀ c ∈ (p.space ++ u :: t).head?, D.digit c = false := by
    intro c hc
    cases hspaces : p.space with
    | nil =>
      rw [hspaces] at hc
      cases hc
      exact hdigit
    | cons c' space =>
      rw [hspaces] at hc
      cases hc
      exact not_digit_of_whitespace (h.space c (by simp [hspaces]))
  have hnumber : first (.capture 1 (.plus (.char D.digit))) (p.digits ++ (p.space ++ u :: t)) =
      some ([(1, p.digits)], p.space ++ u :: t) :=
    first_capture (first_plus_char h.digits_ne_nil h.digits hdigits)
  have hspaces : first (.star (.char isWhitespace)) (p.space ++ u :: t) = some ([], u :: t) :=
    first_star_char h.space fun c hc => by
      cases hc
      exact hspace
  have hletter : first (.capture 2 (alternatives (unitWords.map unitWord))) ([u] ++ t) =
      some ([(2, [u])], t) :=
    first_capture (first_unit hl hfolds t)
  have htext : (p.digits ++ p.space ++ [u]) ++ t = p.digits ++ (p.space ++ u :: t) := by simp
  rw [htext]
  exact first_seq hnumber (first_seq hspaces hletter)

/-- The pieces of a duration are found one after another. -/
theorem capturesIter_pieces (h : ∀ p ∈ pieces, p.Valid D) :
    (baseRe D).capturesIter 0 (pieces.flatMap DurationPiece.text) =
      pieces.map fun p => [(1, p.digits), (2, p.unit.take 1)] := by
  induction pieces with
  | nil => rfl
  | cons p pieces ih =>
    obtain ⟨hp, hpieces⟩ := List.forall_mem_cons.mp h
    obtain ⟨letter, u, us, -, hunit, -⟩ := hp.head
    have htext : (p :: pieces).flatMap DurationPiece.text =
        (p.digits ++ p.space ++ [u]) ++ ((us ++ p.after) ++ pieces.flatMap DurationPiece.text) := by
      simp [DurationPiece.text, hunit]
    have hskip : ∀ c ∈ us ++ p.after, ∀ t, tries (baseRe D) (c :: t) = [] := by
      intro c hc
      refine tries_base_of_not_digit ?_
      rcases List.mem_append.mp hc with hc | hc
      · exact (hp.letters c (by simp [hunit, hc])).1
      · exact not_digit_of_whitespace (hp.after c hc)
    rw [htext, capturesIter_of_first (by simp) (first_base hp hunit _), capturesIter_of_none hskip,
      ih hpieces, List.map_cons, hunit]
    rfl

theorem durationCaptures_some (h : IsDuration D dur pieces) :
    durationCaptures D dur =
      some (pieces.map fun p => (String.ofList p.digits, String.ofList (p.unit.take 1))) := by
  rw [durationCaptures, if_pos (matchesWhole_iff_isDuration.mpr ⟨pieces, h⟩), h.text,
    capturesIter_pieces h.valid, List.map_map]
  rfl

theorem durationCaptures_none (h : ¬ ∃ pieces, IsDuration D dur pieces) :
    durationCaptures D dur = none := by
  rw [durationCaptures, if_neg fun hm => h (matchesWhole_iff_isDuration.mp hm)]

end Language

/-! ### The seconds that are made of it -/

section Seconds

variable {b : Build} {t r : Nat} {e : Error}

/-- The captures of a piece. -/
def DurationPiece.captures (p : DurationPiece) : String × String :=
  (.ofList p.digits, .ofList (p.unit.take 1))

theorem u64_ne_err {operation : String} {n : Nat} : u64 b operation n ≠ .error (.err e) := by
  rw [u64]
  split
  · simp
  · split <;> simp

theorem unitSeconds_ne_err {unit : String} : unitSeconds unit ≠ .error (.err e) := by
  rw [unitSeconds]
  repeat' split
  all_goals simp

/-- No part of a duration gives an error. -/
theorem addCapture_ne_err {capture : String × String} :
    addCapture b t capture ≠ .error (.err e) := by
  rw [addCapture]
  cases unsigned 64 capture.1 with
  | none => exact fun h => by cases h
  | some n =>
    cases hs : unitSeconds capture.2 with
    | error f =>
      intro h
      cases h
      exact unitSeconds_ne_err hs
    | ok seconds =>
      cases hm : u64 b "multiply" (n * seconds) with
      | error f =>
        intro h
        simp only [hm, bind, Except.bind] at h
        cases h
        exact u64_ne_err hm
      | ok secs =>
        intro h
        simp only [hm, bind, Except.bind] at h
        exact u64_ne_err h

theorem digit_ne_plus (h : D.digit c = true) : c ≠ '+' := by
  rintro rfl
  rw [D.ascii '+' (by decide)] at h
  cases h

theorem unsigned_digits (hp : p.Valid D) :
    unsigned 64 (String.ofList p.digits) = (digits p.digits).filter (· < 2 ^ 64) := by
  rw [unsigned, String.toList_ofList]
  split
  · next cs heq =>
    exact absurd rfl (digit_ne_plus (hp.digits '+' (by simp [heq])))
  · rfl

theorem number_ascii (hp : p.Valid D) (h : ∀ c ∈ p.digits, c.toNat < 128) :
    digits p.digits = some (p.number D) := by
  have hdigit : ∀ c ∈ p.digits, c.isDigit = true := fun c hc => by
    rw [← D.ascii c (h c hc)]
    exact hp.digits c hc
  rw [digits, if_pos ⟨hp.digits_ne_nil, List.all_eq_true.mpr hdigit⟩, DurationPiece.number]
  congr 1
  refine List.foldl_ext _ _ _ fun n c hc => ?_
  rw [D.value_ascii c (hdigit c hc)]

theorem toNat_of_isDigit (h : c.isDigit = true) : 48 ≤ c.toNat ∧ c.toNat ≤ 57 := by
  simp only [Char.isDigit, Bool.and_eq_true, decide_eq_true_eq] at h
  exact ⟨UInt32.le_iff_toNat_le.mp h.1, UInt32.le_iff_toNat_le.mp h.2⟩

theorem ascii_of_unsigned {n : Nat} (hp : p.Valid D)
    (h : unsigned 64 (String.ofList p.digits) = some n) : ∀ c ∈ p.digits, c.toNat < 128 := by
  intro c hc
  rw [unsigned_digits hp, digits] at h
  split at h
  · next hall =>
    have hnine := (toNat_of_isDigit (List.all_eq_true.mp hall.2 c hc)).2
    omega
  · cases h

/-- The first byte of a letter settles its unit, where it is the letter. -/
theorem unitSeconds_letter {l : Char × Nat} (hl : l ∈ unitLetters) (h : folds l.1 c = true) :
    unitSeconds (String.ofList [c]) = .ok l.2 ∧ c.toNat < 128 ∨
      unitSeconds (String.ofList [c]) = .error (.panic "byte index 1 is not a char boundary") ∧
        ¬ c.toNat < 128 := by
  have hform := form_of_folds h
  simp only [unitLetters, List.mem_cons, List.not_mem_nil, or_false] at hl hform
  rcases hl with rfl | rfl | rfl | rfl <;> rcases hform with rfl | rfl | rfl <;>
    first
    | exact .inl ⟨rfl, by decide⟩
    | exact .inr ⟨rfl, by decide⟩

theorem unitSeconds_ascii (hp : p.Valid D) :
    (∀ c ∈ p.unit.head?, c.toNat < 128) ∧
        unitSeconds (String.ofList (p.unit.take 1)) = .ok p.seconds ∨
      (¬ ∀ c ∈ p.unit.head?, c.toNat < 128) ∧
        unitSeconds (String.ofList (p.unit.take 1)) =
          .error (.panic "byte index 1 is not a char boundary") := by
  obtain ⟨letter, u, us, hl, hunit, hfolds⟩ := hp.head
  have htake : p.unit.take 1 = [u] := by rw [hunit]; rfl
  have hhead : (∀ c ∈ p.unit.head?, c.toNat < 128) ↔ u.toNat < 128 := by simp [hunit]
  rw [htake, hhead]
  exact (unitSeconds_letter hl hfolds).imp And.symm And.symm

/-- A plain piece adds its seconds, unless they are too large. -/
theorem addCapture_plain (hp : p.Valid D) (hplain : p.Plain) (hn : p.number D < 2 ^ 64)
    (hm : p.number D * p.seconds < 2 ^ 64) (ht : t + p.number D * p.seconds < 2 ^ 64) :
    addCapture b t p.captures = .ok (t + p.number D * p.seconds) := by
  have hnumber : unsigned 64 p.captures.1 = some (p.number D) := by
    rw [DurationPiece.captures, unsigned_digits hp, number_ascii hp hplain.digits]
    simpa using hn
  have hunit : unitSeconds p.captures.2 = .ok p.seconds :=
    (unitSeconds_ascii hp).elim And.right fun h => absurd hplain.unit h.1
  simp only [addCapture, hnumber, hunit, u64, if_pos hm, if_pos ht, bind, Except.bind]

/-- What a piece that is added adds: its seconds, up to the overflow of a build that allows it. -/
theorem addCapture_cases (hp : p.Valid D) (h : addCapture b t p.captures = .ok r) :
    p.Plain ∧ ∃ secs, u64 b "multiply" (p.number D * p.seconds) = .ok secs ∧
      u64 b "add" (t + secs) = .ok r := by
  rw [addCapture] at h
  cases hnumber : unsigned 64 p.captures.1 with
  | none =>
    rw [hnumber] at h
    cases h
  | some n =>
    have hdigits := ascii_of_unsigned hp hnumber
    have hn : n = p.number D := by
      rw [DurationPiece.captures, unsigned_digits hp, number_ascii hp hdigits] at hnumber
      exact (Option.some.inj (Option.filter_eq_some_iff.mp hnumber).1).symm
    simp only [hnumber] at h
    obtain ⟨seconds, hunit, h⟩ := Fallible.bind_ok.mp h
    rcases unitSeconds_ascii hp with ⟨hascii, hseconds⟩ | ⟨-, hpanic⟩
    · rw [DurationPiece.captures, hseconds] at hunit
      cases hunit
      rw [hn] at h
      exact ⟨⟨hdigits, hascii⟩, Fallible.bind_ok.mp h⟩
    · rw [DurationPiece.captures, hpanic] at hunit
      cases hunit

theorem seconds_pos (hp : p.Valid D) : 0 < p.seconds := by
  obtain ⟨letter, -, -, hl, -, -⟩ := hp.head
  have hpos : ∀ l ∈ unitLetters, 0 < l.2 := by decide
  exact hpos _ hl

/-- Plain pieces add up, as long as they fit. -/
theorem addCaptures_ok (hvalid : ∀ p ∈ pieces, p.Valid D) (hplain : ∀ p ∈ pieces, p.Plain)
    (h : t + totalSeconds D pieces < 2 ^ 64) :
    (pieces.map DurationPiece.captures).foldlM (addCapture b) t =
      .ok (t + totalSeconds D pieces) := by
  induction pieces generalizing t with
  | nil => rfl
  | cons p pieces ih =>
    obtain ⟨hp, hvalid⟩ := List.forall_mem_cons.mp hvalid
    obtain ⟨hpplain, hplain⟩ := List.forall_mem_cons.mp hplain
    have htotal : totalSeconds D (p :: pieces) =
        p.number D * p.seconds + totalSeconds D pieces := by
      simp [totalSeconds]
    have hle : p.number D ≤ p.number D * p.seconds := Nat.le_mul_of_pos_right _ (seconds_pos hp)
    rw [htotal, ← Nat.add_assoc] at h ⊢
    rw [List.map_cons, List.foldlM_cons, addCapture_plain hp hpplain (by omega) (by omega)
      (by omega)]
    exact ih hvalid hplain h

theorem plain_of_addCaptures (hvalid : ∀ p ∈ pieces, p.Valid D)
    (h : (pieces.map DurationPiece.captures).foldlM (addCapture b) t = .ok r) :
    ∀ p ∈ pieces, p.Plain := by
  induction pieces generalizing t with
  | nil => simp
  | cons p pieces ih =>
    obtain ⟨hp, hvalid⟩ := List.forall_mem_cons.mp hvalid
    rw [List.map_cons, List.foldlM_cons] at h
    obtain ⟨t', ht', h⟩ := Fallible.bind_ok.mp h
    exact List.forall_mem_cons.mpr ⟨(addCapture_cases hp ht').1, ih hvalid h⟩

theorem u64_ok {operation : String} {n : Nat} (h : u64 b operation n = .ok r) :
    r = n % 2 ^ 64 := by
  rw [u64] at h
  split at h
  · next hlt =>
    cases h
    exact (Nat.mod_eq_of_lt hlt).symm
  · split at h
    · cases h
    · cases h
      rfl

theorem addCapture_ok (hp : p.Valid D) (h : addCapture b t p.captures = .ok r) :
    r = (t + p.number D * p.seconds) % 2 ^ 64 := by
  obtain ⟨-, secs, hsecs, hsum⟩ := addCapture_cases hp h
  rw [u64_ok hsum, u64_ok hsecs, Nat.add_mod_mod]

theorem addCaptures_mod (hvalid : ∀ p ∈ pieces, p.Valid D) (ht : t < 2 ^ 64)
    (h : (pieces.map DurationPiece.captures).foldlM (addCapture b) t = .ok r) :
    r = (t + totalSeconds D pieces) % 2 ^ 64 := by
  induction pieces generalizing t with
  | nil =>
    cases h
    exact (Nat.mod_eq_of_lt ht).symm
  | cons p pieces ih =>
    obtain ⟨hp, hvalid⟩ := List.forall_mem_cons.mp hvalid
    rw [List.map_cons, List.foldlM_cons] at h
    obtain ⟨t', ht', h⟩ := Fallible.bind_ok.mp h
    have htotal : totalSeconds D (p :: pieces) =
        p.number D * p.seconds + totalSeconds D pieces := by
      simp [totalSeconds]
    have hsum := addCapture_ok hp ht'
    rw [ih hvalid (hsum ▸ Nat.mod_lt _ (by decide)) h, hsum, htotal, Nat.mod_add_mod, Nat.add_assoc]

theorem addCaptures_ne_err {captures : List (String × String)} :
    captures.foldlM (addCapture b) t ≠ .error (.err e) := by
  induction captures generalizing t with
  | nil => exact fun h => by cases h
  | cons capture captures ih =>
    rw [List.foldlM_cons]
    cases hc : addCapture b t capture with
    | error f =>
      intro h
      cases h
      exact addCapture_ne_err hc
    | ok t' => exact ih

end Seconds

/-- Durations are exact exactly where they fit, and where digits and the first letters of the units
are those of ASCII. -/
theorem durationFromString_exact_iff {D : DecimalDigits} {b : Build}
    (hb : b.durations = durationCaptures D) (dur : String)
    (marker : SelectParser.Marker) :
    ExactDuration D dur (durationFromString b dur marker) ↔
      ∀ pieces, IsDuration D dur pieces →
        (∀ p ∈ pieces, p.Plain) ∧ totalSeconds D pieces < 2 ^ 64 := by
  have hfound {pieces : List DurationPiece} (h : IsDuration D dur pieces) :
      durationFromString b dur marker =
        (pieces.map DurationPiece.captures).foldlM (addCapture b) 0 := by
    rw [durationFromString, hb, durationCaptures_some h]
    rfl
  constructor
  · intro hexact pieces h
    by_cases hlt : totalSeconds D pieces < 2 ^ 64
    · have hok := (hfound h).symm.trans (hexact.exact pieces h hlt)
      exact ⟨plain_of_addCaptures h.valid hok, hlt⟩
    · obtain ⟨e, he⟩ := hexact.tooLarge pieces h (not_lt.mp hlt)
      exact absurd ((hfound h).symm.trans he) addCaptures_ne_err
  · intro hall
    refine ⟨fun pieces h _ => ?_, fun pieces h hle => ?_, fun h => ?_⟩
    · obtain ⟨hplain, hlt⟩ := hall pieces h
      rw [hfound h, addCaptures_ok h.valid hplain (by rwa [Nat.zero_add]), Nat.zero_add]
    · exact absurd (hall pieces h).2 (not_lt.mpr hle)
    · rw [durationFromString, hb, durationCaptures_none h]
      exact ⟨_, rfl⟩

/-- What is taken for a duration is one, and gives its seconds, up to the overflow of a build that
allows it. -/
theorem durationFromString_ok {D : DecimalDigits} {b : Build}
    (hb : b.durations = durationCaptures D) {dur : String} {marker : SelectParser.Marker} {r : Nat}
    (h : durationFromString b dur marker = .ok r) : (∃ pieces, IsDuration D dur pieces) ∧
      ∀ pieces, IsDuration D dur pieces → r = totalSeconds D pieces % 2 ^ 64 := by
  rw [durationFromString, hb] at h
  constructor
  · by_contra hnone
    rw [durationCaptures_none hnone] at h
    cases h
  · intro pieces hp
    rw [durationCaptures_some hp] at h
    rw [addCaptures_mod (t := 0) hp.valid (by decide) h, Nat.zero_add]

/-- Arabic digits besides those of ASCII. -/
def arabicDigits : DecimalDigits where
  digit c := c.isDigit || (0x660 ≤ c.toNat && c.toNat ≤ 0x669)
  value c := if c.isDigit then c.toNat - '0'.toNat else c.toNat - 0x660
  ascii c h := by
    have hno : ¬ 0x660 ≤ c.toNat := by omega
    simp [hno]
  value_ascii c h := if_pos h
  whitespace c h := by
    have hrange : (48 ≤ c.toNat ∧ c.toNat ≤ 57) ∨ (0x660 ≤ c.toNat ∧ c.toNat ≤ 0x669) := by
      rcases Bool.or_eq_true_iff.mp h with h | h
      · exact .inl (toNat_of_isDigit h)
      · exact .inr (by simpa using h)
    simp only [isWhitespace, Bool.or_eq_false_iff, Bool.and_eq_false_iff, decide_eq_false_iff_not,
      List.contains_eq_mem, List.mem_cons, List.not_mem_nil, or_false]
    omega
  long_s := by decide

def arabicBuild : Build := { plain with durations := durationCaptures arabicDigits }

theorem seconds_le (hp : p.Valid D) : p.seconds ≤ 86400 := by
  obtain ⟨letter, -, -, hl, -, -⟩ := hp.head
  have hle : ∀ l ∈ unitLetters, l.2 ≤ 86400 := by decide
  exact hle _ hl

theorem arabicBuild_durations : arabicBuild.durations = durationCaptures arabicDigits := by
  rw [arabicBuild]

/-- Digits of ASCII with a unit of one letter. -/
def shortPiece (number : String) (unit : Char) (seconds : Nat) : DurationPiece :=
  ⟨number.toList, [], [unit], seconds, []⟩

theorem isDuration_short {dur number name : String} {unit : Char} {seconds : Nat}
    (htext : dur.toList = number.toList ++ [unit]) (hne : number.toList ≠ [])
    (hdigits : number.toList.all arabicDigits.digit = true) (hname : (name, seconds) ∈ units)
    (hunit : List.Forall₂ (fun letter c => folds letter c = true) name.toList [unit]) :
    IsDuration arabicDigits dur [shortPiece number unit seconds] := by
  refine ⟨by simp, fun p hp => ?_, by simp [htext, DurationPiece.text, shortPiece]⟩
  obtain rfl := List.mem_singleton.mp hp
  exact ⟨hne, List.all_eq_true.mp hdigits, by simp [shortPiece], ⟨name, hname, hunit⟩,
    by simp [shortPiece]⟩

theorem isDuration_hour : IsDuration arabicDigits "1h" [shortPiece "1" 'h' 3600] :=
  isDuration_short rfl (by decide) (by decide) (by simp [units] : ("h", 3600) ∈ units)
    (.cons (by decide) .nil)

theorem durationFromString_exact_iff_hour :
    ExactDuration arabicDigits "1h" (durationFromString arabicBuild "1h" ⟨1, 0⟩) := by
  refine (durationFromString_exact_iff arabicBuild_durations "1h" ⟨1, 0⟩).mpr ?_
  intro pieces h
  have hpieces := Option.some.inj
    ((durationCaptures_some isDuration_hour).symm.trans (durationCaptures_some h))
  obtain ⟨p, rest, rfl, hp, hrest⟩ := List.map_eq_cons_iff.mp hpieces.symm
  obtain rfl := List.map_eq_nil_iff.mp hrest
  have hdigits : p.digits = ['1'] := String.ofList_injective (Prod.mk.inj hp).1
  have hunit : p.unit.take 1 = ['h'] := String.ofList_injective (Prod.mk.inj hp).2
  have hle := seconds_le (h.valid p (List.mem_singleton_self p))
  have hnumber : p.number arabicDigits = 1 := by rw [DurationPiece.number, hdigits]; rfl
  have htotal : totalSeconds arabicDigits [p] = p.seconds := by simp [totalSeconds, hnumber]
  refine ⟨fun p' hp' => ?_, by omega⟩
  obtain rfl := List.mem_singleton.mp hp'
  have hhead : p'.unit.head? = some 'h' := by
    cases hu : p'.unit with
    | nil => simp [hu] at hunit
    | cons u us => simpa [hu] using hunit
  refine ⟨fun c hc => ?_, fun c hc => ?_⟩
  · rw [hdigits, List.mem_singleton] at hc
    rw [hc]
    decide
  · cases hhead.symm.trans hc
    decide

/-- A duration of 2 ^ 64 seconds panics. -/
theorem not_durationFromString_exact :
    ¬ ∀ (D : DecimalDigits) (b : Build), b.durations = durationCaptures D →
      ∀ (dur : String) (marker : SelectParser.Marker),
        ExactDuration D dur (durationFromString b dur marker) := by
  intro h
  have hexact := h arabicDigits arabicBuild arabicBuild_durations "18446744073709551616s" ⟨1, 0⟩
  have hdur : IsDuration arabicDigits "18446744073709551616s"
      [shortPiece "18446744073709551616" 's' 1] :=
    isDuration_short rfl (by decide) (by decide) (by simp [units] : ("s", 1) ∈ units)
      (.cons (by decide) .nil)
  obtain ⟨e, he⟩ := hexact.tooLarge _ hdur (by decide)
  rw [durationFromString, arabicBuild_durations, durationCaptures_some hdur] at he
  exact addCaptures_ne_err he

end Pewpew.Config
