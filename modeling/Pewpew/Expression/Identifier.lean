import Pewpew.Expression.SelectPest

/-! What the rules of `select.pest` make of an identifier, and of one that begins with a literal. -/
namespace Pewpew.SelectParser

open Peg PestRule

variable {C : UnicodeClasses} {a : Atomicity} {k : Nat} {σ : List (List Char)} {w b t : List Char}
  {c : Char}

namespace UnicodeClasses

variable (C)

/-- `json_ident_start` -/
def isIdentStart (c : Char) : Bool :=
  '$' == c || ('_' == c || (C.LETTER c || C.LETTER_NUMBER c))

/-- `json_ident_rest` -/
def isIdentRest (c : Char) : Bool :=
  C.isIdentStart c || ('\u200C' == c || ('\u200D' == c || (C.NONSPACING_MARK c ||
    (C.SPACING_MARK c || (C.DECIMAL_NUMBER c || C.CONNECTOR_PUNCTUATION c)))))

variable {C}

theorem isIdentRest_ascii (h : c.toNat < 128) :
    C.isIdentRest c = (c.isAlphanum || c == '_' || c == '$') := by
  have hjoiner : ∀ d : Char, 128 ≤ d.toNat → (d == c) = false := by
    intro d hd
    rw [beq_eq_false_iff_ne]
    rintro rfl
    omega
  rw [isIdentRest, isIdentStart, C.letter_ascii c h, C.letterNumber_ascii c h,
    C.nonspacingMark_ascii c h, C.spacingMark_ascii c h, C.decimalNumber_ascii c h,
    C.connectorPunctuation_ascii c h, hjoiner '\u200C' (by decide),
    hjoiner '\u200D' (by decide), Char.isAlphanum, Bool.beq_comm (a := '$'),
    Bool.beq_comm (a := '_')]
  cases c == '$' <;> cases c == '_' <;> simp

theorem isIdentRest_of_isIdentStart (h : C.isIdentStart c) : C.isIdentRest c := by
  simp [isIdentRest, h]

/-- The characters of the other rules that can stand after an identifier, and `!`. -/
def separators : List Char := " \n\t\r(),\x7d.[!|&=><+-*/%".toList

theorem isIdentRest_separator (h : c ∈ separators) : C.isIdentRest c = false := by
  have hall : separators.all fun c =>
      c.toNat < 128 && !(c.isAlphanum || c == '_' || c == '$') := by decide
  obtain ⟨hascii, hother⟩ := Bool.and_eq_true_iff.mp (List.all_eq_true.mp hall c h)
  rw [isIdentRest_ascii (of_decide_eq_true hascii)]
  simpa using hother

theorem not_separator (h : C.isIdentRest c) : c ∉ separators := by
  intro hs
  rw [isIdentRest_separator hs] at h
  cases h

end UnicodeClasses

/-- The texts that `json_ident` takes. -/
structure IsIdent (C : UnicodeClasses) (w : List Char) : Prop where
  ne_nil : w ≠ []
  start : ∀ c ∈ w.head?, C.isIdentStart c
  rest : ∀ c ∈ w, C.isIdentRest c

/-- `WHITESPACE*` -/
inductive Blanks : List Char → Prop
  | nil : Blanks []
  | cons {u : String} {b : List Char} (hu : u ∈ blanks) (hb : Blanks b) : Blanks (u.toList ++ b)

/-- No rule goes on after the blanks that are skipped. -/
def NoBlank (t : List Char) : Prop := ∀ c ∈ t.head?, c ∉ " \n\t\r".toList

theorem takesOne_identStart : TakesOne (selectPest C) a (.rule .jsonIdentStart) C.isIdentStart :=
  takesOne_rule rfl (takesOne_choice (takesOne_text '$') (takesOne_choice (takesOne_text '_')
    (takesOne_choice takesOne_char takesOne_char)))

theorem takesOne_identRest : TakesOne (selectPest C) a (.rule .jsonIdentRest) C.isIdentRest :=
  takesOne_rule rfl (takesOne_choice takesOne_identStart (takesOne_choice (takesOne_text '\u200C')
    (takesOne_choice (takesOne_text '\u200D') (takesOne_choice takesOne_char
      (takesOne_choice takesOne_char (takesOne_choice takesOne_char takesOne_char))))))

/-- No text matches when the first character of each differs from the one that is left. -/
theorem gives_lits_none {us : List String} (ds : List Char)
    (hus : ∀ u ∈ us, ∃ d ∈ u.toList.head?, d ∈ ds) (ht : ∀ c ∈ t.head?, c ∉ ds) :
    (selectPest C).Gives a (lits us) ⟨k, t, σ⟩ none := by
  refine gives_texts_none ?_
  intro v hv hp
  obtain ⟨u, hu, rfl⟩ := List.mem_map.mp hv
  obtain ⟨d, hd, hds⟩ := hus u hu
  obtain ⟨t', rfl⟩ := hp
  exact ht d (by simp [Option.mem_def.mp hd]) hds

theorem gives_lit_none {d : Char} (h : ∀ c ∈ t.head?, c ≠ d) :
    (selectPest C).Gives a (.text [d]) ⟨k, t, σ⟩ none :=
  (takesOne_text d).none fun c hc => beq_eq_false_iff_ne.mpr (h c hc).symm

theorem gives_blank {u : String} (hu : u ∈ blanks) :
    (selectPest C).Gives .atomic (.rule .WHITESPACE) ⟨k, u.toList ++ t, σ⟩
      (some (⟨k + u.toList.length, t, σ⟩, [])) := by
  simp only [blanks, List.mem_cons, List.not_mem_nil, or_false] at hu
  refine gives_silent rfl ?_
  rcases hu with rfl | rfl | rfl | rfl
  · exact gives_texts [] [['\n'], ['\t'], ['\r', '\n']] (by simp)
  · exact gives_texts [[' ']] [['\t'], ['\r', '\n']] (by simp)
  · exact gives_texts [[' '], ['\n']] [['\r', '\n']] (by simp)
  · exact gives_texts [[' '], ['\n'], ['\t']] [] (by simp)

theorem gives_no_blank (h : NoBlank t) :
    (selectPest C).Gives a (.rule .WHITESPACE) ⟨k, t, σ⟩ none := by
  exact gives_silent rfl (gives_lits_none _ (by simp [blanks]) h)

/-- All the blanks are skipped. -/
theorem gives_blanks (hb : Blanks b) (ht : NoBlank t) :
    (selectPest C).Gives .nonAtomic .skip ⟨k, b ++ t, σ⟩ (some (⟨k + b.length, t, σ⟩, [])) := by
  refine gives_skip ?_
  induction hb generalizing k with
  | nil => exact gives_rep_none (gives_no_blank ht)
  | @cons u b hu hb ih =>
    have hrun := gives_rep_some (gives_blank (C := C) hu) (ih (k := k + u.toList.length))
    rw [List.append_assoc, List.length_append, ← Nat.add_assoc]
    exact hrun

/-- The characters that can stand after an operand and the blanks after it. -/
def ends : List Char := "),\x7d|&=!><+-*/%".toList

/-- The values that are not numbers, texts or paths. -/
def literals : List String := ["true", "false", "null"]

/-- A prefix of an identifier and what is after it is one of the identifier. -/
theorem not_prefix_append {v : List Char} (hv : ∀ c ∈ v, C.isIdentRest c) (h : ¬ v <+: w)
    (ht : ∀ c ∈ t.head?, C.isIdentRest c = false) : ¬ v <+: w ++ t := by
  intro hp
  obtain hvw | ⟨v', rfl⟩ := List.prefix_or_prefix_of_prefix hp (List.prefix_append w t)
  · exact h hvw
  · cases v' with
    | nil => simp at h
    | cons c v' =>
      obtain ⟨t', rfl⟩ := (List.prefix_append_right_inj w).mp hp
      have hc := hv c (by simp)
      simp [ht c rfl] at hc

section Identifier

variable (hw : IsIdent C w)
include hw

theorem IsIdent.not_mem (ds : List Char) (hds : ds ⊆ UnicodeClasses.separators) :
    ∀ c ∈ (w ++ t).head?, c ∉ ds := by
  intro c hc hd
  obtain ⟨d, v, rfl⟩ := List.exists_cons_of_ne_nil hw.ne_nil
  obtain rfl : d = c := by simpa using hc
  exact UnicodeClasses.not_separator (hw.rest d (by simp)) (hds hd)

theorem gives_jsonIdent (ha : a ≠ .atomic) (ht : ∀ c ∈ t.head?, C.isIdentRest c = false) :
    (selectPest C).Gives a (.rule .jsonIdent) ⟨k, w ++ t, σ⟩
      (some (⟨k + w.length, t, σ⟩, [.mk .jsonIdent (String.ofList w) []])) := by
  refine gives_pair (by simp [selectPest, kind, Kind.label, ha]) ?_ rfl
  obtain ⟨c, v, rfl⟩ := List.exists_cons_of_ne_nil hw.ne_nil
  have hstart := takesOne_identStart.some (a := .atomic) (k := k) (t := v ++ t) (σ := σ)
    (hw.start c rfl)
  have hrest := gives_star (k := k + 1) (σ := σ) (takesOne_identRest (a := .atomic)) (by simp)
    (fun d hd => hw.rest d (List.mem_cons_of_mem c hd)) ht
  rw [List.length_cons, Nat.add_comm v.length, ← Nat.add_assoc]
  exact gives_seq hstart (gives_skip_inside (by simp)) hrest

end Identifier

/-- What is after an operand: blanks, and then the end or a character of another rule. -/
structure EndsOperand (b t : List Char) : Prop where
  blanks : Blanks b
  ends : ∀ c ∈ t.head?, c ∈ ends

namespace EndsOperand

variable (h : EndsOperand b t)
include h

theorem not_mem (ds : List Char) (hds : ds ∩ SelectParser.ends = []) : ∀ c ∈ t.head?, c ∉ ds := by
  intro c hc hd
  have hmem := List.mem_inter_iff.mpr ⟨hd, h.ends c hc⟩
  rw [hds] at hmem
  exact List.not_mem_nil hmem

theorem noBlank : NoBlank t := h.not_mem _ (by decide)

/-- The character after an operand is a blank or one of `ends`. -/
theorem head : ∀ c ∈ (b ++ t).head?, c ∈ " \n\t\r".toList ++ SelectParser.ends := by
  obtain ⟨hb, ht⟩ := h
  cases hb with
  | nil =>
    intro c hc
    exact List.mem_append_right _ (ht c hc)
  | @cons u b hu hb =>
    simp only [PestRule.blanks, List.mem_cons, List.not_mem_nil, or_false] at hu
    rcases hu with rfl | rfl | rfl | rfl <;> simp

theorem head_ne {d : Char} (hd : d ∉ " \n\t\r".toList ++ SelectParser.ends) :
    ∀ c ∈ (b ++ t).head?, c ≠ d := by
  rintro c hc rfl
  exact hd (h.head c hc)

theorem not_rest : ∀ c ∈ (b ++ t).head?, C.isIdentRest c = false := by
  have hall : " \n\t\r".toList ++ SelectParser.ends ⊆ UnicodeClasses.separators := by decide
  exact fun c hc => UnicodeClasses.isIdentRest_separator (hall (h.head c hc))

end EndsOperand

/-- `(ASCII_ALPHANUMERIC | "_")` -/
def isFunctionIdent (c : Char) : Bool := c.isAlphanum || '_' == c

theorem takesOne_functionIdent :
    TakesOne (selectPest C) a (.choice ASCII_ALPHANUMERIC (lit "_")) isFunctionIdent :=
  takesOne_choice takesOne_char (takesOne_text '_')

theorem gives_functionIdent (hc : isFunctionIdent c) (hw : ∀ c ∈ w, isFunctionIdent c)
    (ht : ∀ c ∈ t.head?, isFunctionIdent c = false) :
    (selectPest C).Gives .nonAtomic (.rule .functionIdent) ⟨k, c :: w ++ t, σ⟩
      (some (⟨k + (c :: w).length, t, σ⟩, [.mk .functionIdent (String.ofList (c :: w)) []])) :=
  gives_pair rfl (gives_plus takesOne_functionIdent Atomicity.noConfusion hc hw ht) rfl

theorem gives_functionIdent_none (ht : ∀ c ∈ t.head?, isFunctionIdent c = false) :
    (selectPest C).Gives .nonAtomic (.rule .functionIdent) ⟨k, t, σ⟩ none :=
  gives_rule_none (gives_andThen_none (takesOne_functionIdent.none ht))

/-- What is left of an identifier is followed by no parenthesis. -/
theorem EndsOperand.after (ht : EndsOperand b t) (hw : ∀ c ∈ w, C.isIdentRest c) :
    ∃ b' t', w ++ (b ++ t) = b' ++ t' ∧ Blanks b' ∧ NoBlank t' ∧ ∀ c ∈ t'.head?, c ≠ '(' := by
  cases w with
  | nil =>
    refine ⟨b, t, rfl, ht.blanks, ht.noBlank, ?_⟩
    rintro c hc rfl
    exact ht.not_mem ['('] (by decide) _ hc (by simp)
  | cons d w =>
    have hd := UnicodeClasses.not_separator (hw d (by simp))
    refine ⟨[], d :: w ++ (b ++ t), rfl, .nil, ?_, ?_⟩
    · rintro c ⟨⟩ hc
      have hblank : " \n\t\r".toList ⊆ UnicodeClasses.separators := by decide
      exact hd (hblank hc)
    · rintro c ⟨⟩ rfl
      exact hd (by decide)

/-- The pair of a value that is an identifier. -/
def valuePair (s : String) : Pair := .mk .value s [.mk .jsonPath s [.mk .jsonIdent s []]]

section Operand

variable (hw : IsIdent C w) (ht : EndsOperand b t)
include hw ht

/-- No call starts with an identifier that has no parenthesis after it. -/
theorem gives_functionCall_none :
    (selectPest C).Gives .compound (.rule .functionCall) ⟨k, w ++ (b ++ t), σ⟩ none := by
  refine gives_rule_none ?_
  obtain ⟨c, v, rfl⟩ := List.exists_cons_of_ne_nil hw.ne_nil
  have hends : (" \n\t\r".toList ++ ends).all fun c => !isFunctionIdent c := by decide
  cases hc : isFunctionIdent c with
  | false => exact gives_andThen_none (gives_functionIdent_none (by simp [hc]))
  | true =>
    obtain ⟨f, g, rfl, hf, hg⟩ := exists_run isFunctionIdent v
    have hleft : ∀ c ∈ (g ++ (b ++ t)).head?, isFunctionIdent c = false := by
      cases g with
      | nil => exact fun c hc => by simpa using List.all_eq_true.mp hends c (ht.head c hc)
      | cons d g => exact hg
    have hident := gives_functionIdent (C := C) (k := k) (σ := σ) hc hf hleft
    obtain ⟨b', t', heq, hb, hnb, hne⟩ := ht.after (C := C) (w := g)
      fun d hd => hw.rest d (by simp [hd])
    have hsplit : c :: (f ++ g) ++ (b ++ t) = c :: f ++ (b' ++ t') := by
      simp [← heq]
    rw [heq] at hident
    rw [hsplit]
    exact gives_seq hident (gives_blanks hb hnb) (gives_andThen_none (gives_lit_none hne))

theorem gives_jsonPath :
    (selectPest C).Gives .compound (.rule .jsonPath) ⟨k, w ++ (b ++ t), σ⟩
      (some (⟨k + w.length, b ++ t, σ⟩,
        [.mk .jsonPath (String.ofList w) [.mk .jsonIdent (String.ofList w) []]])) := by
  refine gives_pair rfl ?_ rfl
  have hstart := gives_right (gives_functionCall_none (k := k) (σ := σ) hw ht)
    (gives_jsonIdent (k := k) (σ := σ) hw (by simp) ht.not_rest)
  have hindexed : (selectPest C).Gives .compound (.rule .indexedProperty)
      ⟨k + w.length, b ++ t, σ⟩ none :=
    gives_rule_none (gives_andThen_none (gives_lit_none (ht.head_ne (by decide))))
  have hfield : (selectPest C).Gives .compound (.seq (lit ".") (.rule .jsonIdent))
      ⟨k + w.length, b ++ t, σ⟩ none :=
    gives_andThen_none (gives_lit_none (ht.head_ne (by decide)))
  have hrest := gives_star_none (gives_right hindexed hfield)
  exact gives_seq hstart (gives_skip_inside (by simp)) hrest

/-- An identifier that begins with no literal is a value. -/
theorem gives_value (hl : ∀ u ∈ literals, ¬ u.toList <+: w) :
    (selectPest C).Gives .nonAtomic (.rule .value) ⟨k, w ++ (b ++ t), σ⟩
      (some (⟨k + w.length, b ++ t, σ⟩, [valuePair (String.ofList w)])) := by
  have hletters : ∀ u ∈ literals, ∀ c ∈ u.toList, c.toNat < 128 ∧
      (c.isAlphanum || c == '_' || c == '$') = true := by simp [literals]
  have hnone : ∀ u ∈ literals, ¬ u.toList <+: w ++ (b ++ t) := by
    intro u hu
    refine not_prefix_append (C := C) ?_ (hl u hu) ht.not_rest
    intro c hc
    obtain ⟨hascii, hc⟩ := hletters u hu c hc
    rwa [UnicodeClasses.isIdentRest_ascii hascii]
  have hboolean : (selectPest C).Gives .compound (.rule .boolean) ⟨k, w ++ (b ++ t), σ⟩ none := by
    refine gives_rule_none (gives_texts_none ?_)
    intro v hv
    obtain ⟨u, hu, rfl⟩ := List.mem_map.mp hv
    have hboolean : ["true", "false"] ⊆ literals := by decide
    exact hnone u (hboolean hu)
  have hnull : (selectPest C).Gives .compound (.rule .null) ⟨k, w ++ (b ++ t), σ⟩ none :=
    gives_rule_none (gives_text_none (hnone "null" (by decide)))
  have hpath := gives_jsonPath (k := k) (σ := σ) hw ht
  exact gives_pair rfl (gives_right hboolean (gives_right hnull (gives_left hpath))) rfl

end Operand

/-- A literal is a value, whatever is after it. -/
theorem gives_literal {u : String} (hu : u ∈ literals) :
    ∃ pair, (selectPest C).Gives .nonAtomic (.rule .value) ⟨k, u.toList ++ t, σ⟩
      (some (⟨k + u.toList.length, t, σ⟩, [pair])) := by
  simp only [literals, List.mem_cons, List.not_mem_nil, or_false] at hu
  rcases hu with rfl | rfl | rfl
  · have htrue := gives_texts (G := selectPest C) (a := .compound) (k := k) (σ := σ)
      [] ["false".toList] (w := "true".toList) (t := t) (by simp)
    exact ⟨_, gives_pair rfl (gives_left (gives_pair (q := PestRule.boolean) rfl htrue rfl)) rfl⟩
  · have hfalse := gives_texts (G := selectPest C) (a := .compound) (k := k) (σ := σ)
      ["true".toList] [] (w := "false".toList) (t := t) (by simp)
    exact ⟨_, gives_pair rfl (gives_left (gives_pair (q := PestRule.boolean) rfl hfalse rfl)) rfl⟩
  · have hboolean : (selectPest C).Gives .compound (.rule .boolean) ⟨k, "null".toList ++ t, σ⟩
        none := gives_rule_none (gives_lits_none ['t', 'f'] (by simp) (by simp))
    have hnull := gives_text (G := selectPest C) (a := .compound) (k := k) (σ := σ)
      "null".toList t
    exact ⟨_, gives_pair rfl (gives_right hboolean (gives_left
      (gives_pair (q := PestRule.null) rfl hnull rfl))) rfl⟩

section Expression

variable {v u : List Char} {s' : State Char} {pair : Pair} {pairs : List Pair}

/-- A value is the first operand of an expression, with the operators and operands after it. -/
theorem gives_expression
    (hv : (selectPest C).Gives .nonAtomic (.rule .value) ⟨k, v ++ (b ++ (u ++ t)), σ⟩
      (some (⟨k + v.length, b ++ (u ++ t), σ⟩, [pair])))
    (hhead : ∀ c ∈ (v ++ (b ++ (u ++ t))).head?, c ∉ " \n\t\r!".toList) (hb : Blanks b)
    (hblank : NoBlank (u ++ t))
    (htail : (selectPest C).Gives .nonAtomic (.star (.seq (.rule .infixOperator)
      (.rule .expression))) ⟨k + v.length + b.length, u ++ t, σ⟩ (some (s', pairs)))
    (hs : s'.rest = t) :
    (selectPest C).Gives .nonAtomic (.rule .expression) ⟨k, v ++ (b ++ (u ++ t)), σ⟩
      (some (s', [.mk .expression (String.ofList (v ++ (b ++ u))) (pair :: pairs)])) := by
  have hsplit : v ++ (b ++ (u ++ t)) = v ++ (b ++ u) ++ t := by simp
  have hunary : (selectPest C).Gives .nonAtomic (.rule .unaryOperator) ⟨k, v ++ (b ++ (u ++ t)), σ⟩
      none := by
    refine gives_silent rfl (gives_lit_none ?_)
    rintro c hc rfl
    exact hhead _ hc (by decide)
  have hfirst : NoBlank (v ++ (b ++ (u ++ t))) := by
    have hsubset : " \n\t\r".toList ⊆ " \n\t\r!".toList := by decide
    exact fun c hc h => hhead c hc (hsubset h)
  have hoperand : (selectPest C).Gives .nonAtomic (.choice (.rule .value) (.rule .groupExpression))
      ⟨k, v ++ (b ++ (u ++ t)), σ⟩ (some (⟨k + v.length, b ++ (u ++ t), σ⟩, [pair])) :=
    gives_left hv
  have hvalue := gives_seq hoperand (gives_blanks hb hblank) htail
  have hbody := gives_seq (gives_star_none hunary) (gives_blanks (b := []) .nil hfirst) hvalue
  rw [hsplit] at hbody ⊢
  exact gives_pair rfl hbody hs

/-- No operator follows. -/
theorem gives_no_operator (h : ∀ c ∈ t.head?, c ∉ "|&=!><+-*/%".toList) :
    (selectPest C).Gives .nonAtomic (.star (.seq (.rule .infixOperator) (.rule .expression)))
      ⟨k, t, σ⟩ (some (⟨k, t, σ⟩, [])) :=
  gives_star_none (gives_andThen_none (gives_rule_none
    (gives_lits_none _ (by simp [operators]) h)))

variable (hblank : NoBlank w)
  (h : (selectPest C).Gives .nonAtomic (.rule .expression) ⟨0, w, []⟩
    (some (⟨k, t, σ⟩, [pair])))
include hblank h

/-- A text is an expression if nothing is left after one. -/
theorem gives_entryPoint (ht : t = []) :
    (selectPest C).Gives .nonAtomic (.rule .entryPoint) ⟨0, w, []⟩
      (some (⟨k, [], σ⟩, [pair, .mk .eoi "" []])) := by
  subst ht
  have hend : (selectPest C).Gives .nonAtomic (.rule .EOI) ⟨k, [] ++ [], σ⟩
      (some (⟨k, [], σ⟩, [.mk .eoi (String.ofList []) []])) :=
    gives_pair rfl (gives_finish rfl) rfl
  have hbody := gives_seq h (gives_blanks (b := []) (t := []) .nil (by simp [NoBlank])) hend
  exact gives_silent rfl (gives_seq (gives_start rfl) (gives_blanks (b := []) .nil hblank) hbody)

theorem gives_entryPoint_none (ht : t ≠ []) (hleft : NoBlank t) :
    (selectPest C).Gives .nonAtomic (.rule .entryPoint) ⟨0, w, []⟩ none := by
  have hend : (selectPest C).Gives .nonAtomic (.rule .EOI) ⟨k, t, σ⟩ none :=
    gives_rule_none (gives_finish_none ht)
  have hbody := gives_seq h (gives_blanks (b := []) .nil hleft) hend
  exact gives_silent rfl (gives_seq (gives_start rfl) (gives_blanks (b := []) .nil hblank) hbody)

end Expression

/-- The texts that `json_ident` takes are the identifiers. -/
theorem isIdent_of_matches {s : String} (h : PestRule.jsonIdent.MatchesWhole C s) :
    IsIdent C s.toList := by
  obtain ⟨s', pairs, h, hrest⟩ := h
  generalize s.toList = w at h
  by_cases hstart : ∃ c ∈ w.head?, C.isIdentStart c
  · obtain ⟨c, hc, hstart⟩ := hstart
    obtain ⟨v, rfl⟩ := List.head?_eq_some_iff.mp hc
    obtain ⟨f, g, rfl, hf, hg⟩ := exists_run C.isIdentRest v
    have hident : IsIdent C (c :: f) := by
      refine ⟨by simp, by simpa using hstart, ?_⟩
      simpa using ⟨UnicodeClasses.isIdentRest_of_isIdentStart hstart, hf⟩
    cases h.unique (gives_jsonIdent hident (by simp) hg)
    subst hrest
    rwa [List.append_nil]
  · have hnone : (selectPest C).Gives .nonAtomic (.rule .jsonIdent) ⟨0, w, []⟩ none := by
      refine gives_rule_none (gives_andThen_none (takesOne_identStart.none ?_))
      exact fun c hc => Bool.eq_false_iff.mpr fun h => hstart ⟨c, hc, h⟩
    cases h.unique hnone

/-! ### The path of an identifier -/

/-- The pair of an argument that is an identifier, with the blanks after it. -/
def argPair (s : String) (b : List Char) : Pair :=
  .mk .functionArg (String.ofList (s.toList ++ b))
    [.mk .expression (String.ofList (s.toList ++ b)) [valuePair s]]

section Reads

variable (C : UnicodeClasses) (x : Externals) (g : Grammar) (vars : Object) (noErr : Bool)
  (marker : Marker) (depth : Nat) (s : String)

/-- The path that reads the provider of a name. -/
def readProvider (not : Option Bool) : Expression :=
  .mk not (.value (.path (.mk (.ident s) [] marker))) none

/-- The name is required too. -/
def requiring (p : RequiredProviders) : RequiredProviders :=
  p.extend (RequiredProviders.new.insert s marker)

/-- A name is read as a provider: alone, as any operand, and as any argument. -/
structure ReadsProvider : Prop where
  alone : ∀ p, parseText x g vars noErr marker depth s p =
    .ok (readProvider marker s none, requiring marker s p)
  value : ∀ {k σ b t}, EndsOperand b t →
    (selectPest C).Gives .nonAtomic (.rule .value) ⟨k, s.toList ++ (b ++ t), σ⟩
      (some (⟨k + s.toList.length, b ++ t, σ⟩, [valuePair s]))
  operand : ∀ {k σ b u t s' pairs}, EndsOperand b (u ++ t) →
    (selectPest C).Gives .nonAtomic (.star (.seq (.rule .infixOperator) (.rule .expression)))
      ⟨k + s.toList.length + b.length, u ++ t, σ⟩ (some (s', pairs)) → s'.rest = t →
        (selectPest C).Gives .nonAtomic (.rule .expression) ⟨k, s.toList ++ (b ++ (u ++ t)), σ⟩
          (some (s', [.mk .expression (String.ofList (s.toList ++ (b ++ u)))
            (valuePair s :: pairs)]))
  piece : ∀ startLen ps, parseExpressionPiece x g vars noErr marker
      (Template.new x g vars noErr marker depth) (valuePair s) startLen ps =
    .ok ⟨ps.pieces ++ [.expression (readProvider marker s (notOf ps.notCount))], 0,
      requiring marker s ps.providers⟩
  argument : ∀ {k σ b t}, EndsOperand b t → (∀ c ∈ t.head?, c = ',' ∨ c = ')') →
    (selectPest C).Gives .nonAtomic (.rule .functionArg) ⟨k, s.toList ++ (b ++ t), σ⟩
      (some (⟨k + s.toList.length + b.length, t, σ⟩, [argPair s b]))
  arg : ∀ b c, parseFunctionCallPair x g vars noErr marker
      (Template.new x g vars noErr marker depth) (argPair s b) c =
    .ok { c with
      args := c.args ++ [.expression (readProvider marker s none)]
      providers := requiring marker s c.providers }

variable {C x g vars noErr marker depth s}

theorem parse_valuePair (hvars : vars.get s = none) (startLen : Nat) (ps : Pieces) :
    parseExpressionPiece x g vars noErr marker (Template.new x g vars noErr marker depth)
        (valuePair s) startLen ps =
      .ok ⟨ps.pieces ++ [.expression (readProvider marker s (notOf ps.notCount))], 0,
        requiring marker s ps.providers⟩ := by
  simp [valuePair, parseExpressionPiece, parseValue, parseValuePair, parsePathPairs, parsePathPair,
    PathPieces.path, providerName, hvars, readProvider, requiring, Except.bind, Except.map]

theorem parse_argPair (hvars : vars.get s = none) (b : List Char) (c : CallPieces) :
    parseFunctionCallPair x g vars noErr marker (Template.new x g vars noErr marker depth)
        (argPair s b) c =
      .ok { c with
        args := c.args ++ [.expression (readProvider marker s none)]
        providers := requiring marker s c.providers } := by
  simp [argPair, parseFunctionCallPair, parseExpressionPieces, parse_valuePair hvars,
    parseExpressionPiece, Pieces.expression, Except.bind, Except.map, expressionHelper_single,
    Expression.setNot, mergeNot, notOf, readProvider, ValueOrExpression.fromExpression,
    Expression.simplifyToJson]

theorem parse_alone (hvars : vars.get s = none) {text : String}
    (hparse : g.parse .entryPoint s = some [.mk .expression text [valuePair s], .mk .eoi "" []])
    (p : RequiredProviders) :
    parseText x g vars noErr marker depth s p =
      .ok (readProvider marker s none, requiring marker s p) := by
  simp [parseText, hparse, parseExpression, parseExpressionPieces, parse_valuePair hvars,
    parseExpressionPiece, Pieces.expression, Except.bind, Except.map, expressionHelper_single,
    Expression.setNot, mergeNot, notOf, readProvider]

section Matches

variable (hw : IsIdent C s.toList)
include hw

theorem IsIdent.noBlank : NoBlank s.toList := by
  have h := hw.not_mem (t := []) " \n\t\r".toList (by decide)
  rwa [List.append_nil] at h

theorem gives_operand {b u t : List Char} {s' : Peg.State Char} {pairs : List Pair}
    (hl : ∀ u ∈ literals, ¬ u.toList <+: s.toList) (ht : EndsOperand b (u ++ t))
    (htail : (selectPest C).Gives .nonAtomic (.star (.seq (.rule .infixOperator)
      (.rule .expression))) ⟨k + s.toList.length + b.length, u ++ t, σ⟩ (some (s', pairs)))
    (hs : s'.rest = t) :
    (selectPest C).Gives .nonAtomic (.rule .expression) ⟨k, s.toList ++ (b ++ (u ++ t)), σ⟩
      (some (s', [.mk .expression (String.ofList (s.toList ++ (b ++ u)))
        (valuePair s :: pairs)])) := by
  have hvalue := gives_value (k := k) (σ := σ) hw ht hl
  rw [String.ofList_toList] at hvalue
  exact gives_expression hvalue (hw.not_mem _ (by decide)) ht.blanks ht.noBlank htail hs

theorem gives_argument {b t : List Char} (hl : ∀ u ∈ literals, ¬ u.toList <+: s.toList)
    (ht : EndsOperand b t) (hend : ∀ c ∈ t.head?, c = ',' ∨ c = ')') :
    (selectPest C).Gives .nonAtomic (.rule .functionArg) ⟨k, s.toList ++ (b ++ t), σ⟩
      (some (⟨k + s.toList.length + b.length, t, σ⟩, [argPair s b])) := by
  have hoperator : ∀ c ∈ t.head?, c ∉ "|&=!><+-*/%".toList := by
    intro c hc
    obtain rfl | rfl := hend c hc <;> decide
  have h := gives_operand (k := k) (σ := σ) (u := []) hw hl ht (gives_no_operator hoperator) rfl
  simp only [List.nil_append, List.append_nil] at h
  rw [← List.append_assoc] at h ⊢
  exact gives_pair rfl h rfl

theorem matches_ident (hl : ∀ u ∈ literals, ¬ u.toList <+: s.toList) :
    PestRule.entryPoint.Matches C s [.mk .expression s [valuePair s], .mk .eoi "" []] := by
  have hexpression := gives_operand (k := 0) (σ := []) (b := []) (u := []) (t := []) hw hl
    ⟨.nil, by simp⟩ (gives_no_operator (by simp)) rfl
  simp only [List.append_nil, String.ofList_toList] at hexpression
  exact ⟨_, gives_entryPoint hw.noBlank hexpression rfl⟩

/-- After a literal the rest of an identifier is left. -/
theorem not_matches_literal {u : String} (hu : u ∈ literals) (hp : u.toList <+: s.toList)
    (hne : s ≠ u) (pairs : List Pair) : ¬ PestRule.entryPoint.Matches C s pairs := by
  rintro ⟨s', hmatch⟩
  have hblank := hw.noBlank
  have hhead := hw.not_mem (t := []) " \n\t\r!".toList (by decide)
  have hrest := hw.rest
  obtain ⟨t, ht⟩ := hp
  rw [← ht] at hmatch hblank hhead hrest
  have hleft : ∀ c ∈ t.head?, c ∉ UnicodeClasses.separators := fun c hc =>
    UnicodeClasses.not_separator (hrest c (List.mem_append_right _ (List.mem_of_mem_head? hc)))
  have hnb : NoBlank t := fun c hc h => hleft c hc
    ((by decide : " \n\t\r".toList ⊆ UnicodeClasses.separators) h)
  have hne' : t ≠ [] := by
    rintro rfl
    rw [List.append_nil] at ht
    exact hne (String.toList_inj.mp ht).symm
  obtain ⟨pair, hvalue⟩ := gives_literal (C := C) (k := 0) (σ := []) (t := t) hu
  have hexpression := gives_expression (b := []) (u := []) hvalue (by simpa using hhead) .nil hnb
    (gives_no_operator fun c hc h => hleft c hc
      ((by decide : "|&=!><+-*/%".toList ⊆ UnicodeClasses.separators) h)) rfl
  have hnone := gives_entryPoint_none hblank hexpression hne' hnb
  cases hmatch.unique hnone

end Matches

/-- Exactly the identifiers that begin with no literal are read as providers: `value` tries the
literals before `json_path`, and none of them looks at what is after it. -/
theorem readsProvider_iff (hg : g.IsPest C) (hs : PestRule.jsonIdent.MatchesWhole C s)
    (hlit : s ∉ literals) (hvars : vars.get s = none) :
    ReadsProvider C x g vars noErr marker depth s ↔ ∀ u ∈ literals, ¬ u.toList <+: s.toList := by
  have hw := isIdent_of_matches hs
  constructor
  · intro h u hu hp
    have hne : s ≠ u := fun he => hlit (he ▸ hu)
    have halone := h.alone .new
    rw [parseText] at halone
    cases hparse : g.parse .entryPoint s with
    | none => simp [hparse] at halone
    | some pairs => exact not_matches_literal hw hu hp hne pairs ((hg.entryPoint s pairs).mp hparse)
  · intro hl
    have hparse := (hg.entryPoint s _).mpr (matches_ident hw hl)
    have hvalue : ∀ {k σ b t}, EndsOperand b t →
        (selectPest C).Gives .nonAtomic (.rule .value) ⟨k, s.toList ++ (b ++ t), σ⟩
          (some (⟨k + s.toList.length, b ++ t, σ⟩, [valuePair s])) := by
      intro k σ b t ht
      have h := gives_value (k := k) (σ := σ) hw ht hl
      rwa [String.ofList_toList] at h
    refine ⟨parse_alone hvars hparse, hvalue, gives_operand hw hl, parse_valuePair hvars, ?_,
      parse_argPair hvars⟩
    exact fun ht hend => gives_argument hw hl ht hend

end Reads

section Pest

/-- The classes of the characters of ASCII. -/
def UnicodeClasses.ascii : UnicodeClasses where
  LETTER := Char.isAlpha
  LETTER_NUMBER _ := false
  NONSPACING_MARK _ := false
  SPACING_MARK _ := false
  DECIMAL_NUMBER := Char.isDigit
  CONNECTOR_PUNCTUATION c := c == '_'
  letter_ascii _ _ := rfl
  letterNumber_ascii _ _ := rfl
  nonspacingMark_ascii _ _ := rfl
  spacingMark_ascii _ _ := rfl
  decimalNumber_ascii _ _ := rfl
  connectorPunctuation_ascii _ _ := rfl

open Classical in
/-- What the rules of `select.pest` match, and no numbers. -/
noncomputable def Grammar.pest (C : UnicodeClasses) : Grammar where
  parse rule text :=
    let r := if rule = .entryPoint then PestRule.entryPoint else .templateEntryPoint
    if h : ∃ pairs, r.Matches C text pairs then some h.choose else none
  number _ := none

theorem Grammar.isPest_pest (C : UnicodeClasses) : (Grammar.pest C).IsPest C := by
  have hmatch : ∀ (r : PestRule) text pairs, (open Classical in
      if h : ∃ pairs, r.Matches C text pairs then some h.choose else none) = some pairs ↔
        r.Matches C text pairs := by
    intro r text pairs
    split
    · rename_i h
      rw [Option.some.injEq]
      constructor
      · rintro rfl
        exact h.choose_spec
      · exact h.choose_spec.unique
    · rename_i h
      constructor
      · rintro ⟨⟩
      · intro hp
        exact absurd ⟨pairs, hp⟩ h
  exact ⟨hmatch .entryPoint, hmatch .templateEntryPoint⟩

theorem readsProvider_iff_name :
    ReadsProvider .ascii .plain (.pest .ascii) [] false ⟨1, 1⟩ 1 "name" := by
  refine (readsProvider_iff (Grammar.isPest_pest .ascii) ?_ (by simp [literals]) rfl).mpr
    (by simp [literals])
  exact ⟨⟨4, [], []⟩, [.mk .jsonIdent "name" []], ⟨40, by rfl⟩, rfl⟩

/-- `trueish` is an identifier, and no expression. -/
theorem not_readsProvider :
    ¬ ∀ (C : UnicodeClasses) (x : Externals) (g : Grammar) (vars : Object) (noErr : Bool)
      (marker : Marker) (depth : Nat) (s : String), g.IsPest C →
        PestRule.jsonIdent.MatchesWhole C s → s ∉ literals → vars.get s = none →
          ReadsProvider C x g vars noErr marker depth s := by
  intro h
  have hmatches : PestRule.jsonIdent.MatchesWhole .ascii "trueish" :=
    ⟨⟨7, [], []⟩, [.mk .jsonIdent "trueish" []], ⟨40, by rfl⟩, rfl⟩
  have hreads := h .ascii .plain (.pest .ascii) [] false ⟨1, 1⟩ 1 "trueish" (Grammar.isPest_pest _)
    hmatches (by simp [literals]) rfl
  have hnone := not_matches_literal (isIdent_of_matches hmatches) (u := "true") (by simp [literals])
    (by simp) (by simp)
  have halone := hreads.alone .new
  rw [parseText] at halone
  cases hparse : (Grammar.pest .ascii).parse .entryPoint "trueish" with
  | none => simp [hparse] at halone
  | some pairs => exact hnone pairs (((Grammar.isPest_pest _).entryPoint _ _).mp hparse)

end Pest

end Pewpew.SelectParser
