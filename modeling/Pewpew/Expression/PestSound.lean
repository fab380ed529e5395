import Pewpew.Expression.Construction
import Pewpew.Expression.SelectPest
import Pewpew.Library.PegMatches

/-! The pairs that the rules of `select.pest` give have the shapes that the parser expects. -/
namespace Pewpew.SelectParser

open Peg PestRule

variable {C : UnicodeClasses} {a : Atomicity} {n N : Nat} {w : List Char} {ps : List Pair}

/-- The pair of an expression. -/
def ExpressionPair (N : Nat) (ps : List Pair) : Prop :=
  ∃ text inner, ps = [.mk .expression text inner] ∧ ExpressionPairs N inner

/-- What the body of each rule takes and gives, in a text of length `N`. -/
def PestRule.Spec (N : Nat) : PestRule → Atomicity → List Char → List Pair → Prop
  | value, _, w, ps => w.length ≤ N → ValuePairs N ps
  | jsonPath, _, w, ps => w.length ≤ N → PathPairs N ps
  | indexedProperty, _, w, ps => w.length ≤ N →
    (∃ s, ps = [.mk .string s []] ∧ s.length < N) ∨ ∃ s, ps = [.mk .integer s []]
  | functionCall, _, w, ps => w.length ≤ N → CallPairs N ps
  | functionArg, a, w, ps | groupExpression, a, w, ps =>
    a = .nonAtomic → w.length ≤ N → ExpressionPair N ps
  | templateExpression, _, w, ps => w.length ≤ N → ExpressionPair N ps
  | expression, a, w, ps => a = .nonAtomic → w.length ≤ N → ExpressionPairs N ps
  | stringOuter, a, w, ps => a ≠ .atomic → ∃ s, ps = [.mk .string s []] ∧ s.length < w.length
  | number, a, _, ps => a ≠ .atomic → ∃ s, ps = [.mk .decimal s []] ∨ ps = [.mk .integer s []]
  | boolean, _, w, ps => ps = [] ∧ ∃ b : Bool, w = (if b then "true" else "false").toList
  | null, _, w, ps => ps = [] ∧ w = "null".toList
  | infixOperator, _, w, ps => ps = [] ∧ ∃ op : InfixOperator, w = op.text.toList
  | QUOTATION_MARK, _, w, ps => ps = [] ∧ w ≠ []
  | EOI, _, w, ps => ps = [] ∧ w = []
  | entryPoint, a, w, ps => a = .nonAtomic → w.length ≤ N → ∃ text inner,
    ps = [.mk .expression text inner, .mk .eoi "" []] ∧ ExpressionPairs N inner
  | templateEntryPoint, _, w, ps => w.length ≤ N → TemplatePairs N ps
  | WHITESPACE, _, _, ps | jsonIdent, _, _, ps | jsonIdentStart, _, _, ps
  | jsonIdentRest, _, _, ps | functionIdent, _, _, ps | notQuote, _, _, ps | string, _, _, ps
  | integer, _, _, ps | decimal, _, _, ps | templateNotExpression, _, _, ps
  | unaryOperator, _, _, ps => ps = []

section Bodies

variable (h : ∀ r a, Ensures (selectPest C) n a (.rule r)
  (Labelled (selectPest C) r a (r.Spec N a)))
include h

theorem ensures_WHITESPACE : Ensures (selectPest C) n .atomic (.rule (selectPest C).whitespace)
    fun _ ps => ps = [] :=
  ensures_silent (h .WHITESPACE .atomic) rfl

omit h in
theorem silent_lit (u : String) : Silent (selectPest C) n a (lit u) := ensures_text rfl

omit h in
theorem silent_char (p : Char → Bool) : Silent (selectPest C) n a (.char p) :=
  ensures_char fun _ _ => rfl

omit h in
theorem spec_identStart : Silent (selectPest C) n a (body C .jsonIdentStart) :=
  ensures_choice (silent_lit _) (ensures_choice (silent_lit _)
    (ensures_choice (silent_char _) (silent_char _)))

theorem spec_identRest : Silent (selectPest C) n a (body C .jsonIdentRest) :=
  ensures_choice (ensures_silent (h .jsonIdentStart a) rfl) (ensures_choice (silent_lit _)
    (ensures_choice (silent_lit _) (ensures_choice (silent_char _) (ensures_choice (silent_char _)
      (ensures_choice (silent_char _) (silent_char _))))))

theorem spec_ident : Silent (selectPest C) n .atomic (body C .jsonIdent) :=
  Silent.seq (ensures_WHITESPACE h) (ensures_silent (h .jsonIdentStart .atomic) rfl)
    (Silent.star (ensures_WHITESPACE h) (ensures_silent (h .jsonIdentRest .atomic) rfl))

theorem spec_functionIdent : Silent (selectPest C) n .atomic (body C .functionIdent) :=
  Silent.plus (ensures_WHITESPACE h) (ensures_choice (silent_char _) (silent_lit _))

theorem spec_escape : Silent (selectPest C) n a (.seq (lit "\\") ANY) :=
  Silent.seq (ensures_WHITESPACE h) (silent_lit _) (silent_char _)

theorem spec_notQuote : Silent (selectPest C) n a (body C .notQuote) :=
  Silent.seq (ensures_WHITESPACE h) (ensures_not rfl) (silent_char _)

theorem spec_string : Silent (selectPest C) n .atomic (body C .string) :=
  Silent.star (ensures_WHITESPACE h) (ensures_choice (spec_escape h)
    (ensures_silent (h .notQuote .atomic) rfl))

theorem spec_digits : Silent (selectPest C) n a (.plus ASCII_DIGIT) :=
  Silent.plus (ensures_WHITESPACE h) (silent_char _)

theorem spec_sign {e : Expr PestRule Char} (he : Silent (selectPest C) n a e) :
    Silent (selectPest C) n a (.seq (.opt (lit "-")) e) :=
  Silent.seq (ensures_WHITESPACE h) (ensures_opt (silent_lit _) rfl) he

theorem spec_integer : Silent (selectPest C) n a (body C .integer) :=
  spec_sign h (spec_digits h)

theorem spec_decimal : Silent (selectPest C) n a (body C .decimal) :=
  spec_sign h (Silent.seq (ensures_WHITESPACE h) (spec_digits h)
    (Silent.seq (ensures_WHITESPACE h) (silent_lit _) (spec_digits h)))

theorem spec_templateNotExpression : Silent (selectPest C) n a (body C .templateNotExpression) :=
  Silent.plus (ensures_WHITESPACE h) (Silent.seq (ensures_WHITESPACE h) (ensures_not rfl)
    (ensures_choice (spec_escape h) (silent_char _)))

omit h in
theorem spec_infixOperator :
    Ensures (selectPest C) n a (body C .infixOperator) (Spec N .infixOperator a) := by
  have hall : ∀ u ∈ operators, (InfixOperator.ofText u).map InfixOperator.text = some u := by
    simp [operators, InfixOperator.ofText, InfixOperator.text]
  refine ensures_texts ?_
  intro w hw
  obtain ⟨u, hu, rfl⟩ := List.mem_map.mp hw
  obtain ⟨op, -, rfl⟩ := Option.map_eq_some_iff.mp (hall u hu)
  exact ⟨rfl, op, rfl⟩

theorem spec_stringOuter :
    Ensures (selectPest C) n a (body C .stringOuter) (Spec N .stringOuter a) := by
  by_cases ha : a = .atomic
  · exact ensures_trivial n a _ fun w ps hne => absurd ha hne
  · have hquote := ensures_push (ensures_silent (h .QUOTATION_MARK a) rfl)
    have hstring : Ensures (selectPest C) n a (.rule .string)
        fun w ps => ps = [.mk .string (String.ofList w) []] := by
      refine ensures_rule_of (h .string a) (if_neg ha) ?_
      rintro w ps rfl
      rfl
    have hrest : Ensures (selectPest C) n a (.seq (.rule .string) .pop)
        fun w ps => ∃ s, ps = [.mk .string s []] ∧ s.length ≤ w.length := by
      refine ensures_seq (ensures_WHITESPACE h) hstring (ensures_pop (Q := fun _ ps => ps = [])
        fun _ => rfl) ?_
      rintro v t u ps qs rfl rfl
      exact ⟨_, rfl, by simp⟩
    refine ensures_seq (ensures_WHITESPACE h) hquote hrest ?_
    rintro v t u ps qs ⟨rfl, hne⟩ ⟨s, rfl, hs⟩ -
    refine ⟨s, rfl, ?_⟩
    have hpos := List.length_pos_iff.mpr hne
    simp only [List.length_append]
    omega

theorem spec_number : Ensures (selectPest C) n a (body C .number) (Spec N .number a) := by
  by_cases ha : a = .atomic
  · exact ensures_trivial n a _ fun w ps hne => absurd ha hne
  · refine ensures_choice (ensures_rule_of (h .decimal a) (if_neg ha) ?_)
      (ensures_rule_of (h .integer a) (if_neg ha) ?_)
    · rintro w ps rfl -
      exact ⟨_, .inl rfl⟩
    · rintro w ps rfl -
      exact ⟨_, .inr rfl⟩

theorem spec_value : Ensures (selectPest C) n .compound (body C .value) (Spec N .value a) := by
  refine ensures_choice ?_ (ensures_choice ?_ (ensures_choice ?_ (ensures_choice ?_ ?_)))
  · refine ensures_rule_of (h .boolean .compound) rfl ?_
    rintro w ps ⟨rfl, b, rfl⟩ -
    simpa [selectPest] using ValuePairs.boolean b
  · refine ensures_rule_of (h .null .compound) rfl ?_
    rintro w ps ⟨rfl, rfl⟩ -
    exact .null
  · refine ensures_rule_of (h .jsonPath .compound) rfl ?_
    intro w ps hp hw
    exact .path _ (hp hw)
  · refine (ensures_silent (h .stringOuter .compound) rfl).imp ?_
    intro w ps hp hw
    obtain ⟨s, rfl, hs⟩ := hp (by decide)
    exact .string s (by omega)
  · refine (ensures_silent (h .number .compound) rfl).imp ?_
    intro w ps hp _
    obtain ⟨s, rfl | rfl⟩ := hp (by decide)
    · exact .decimal s
    · exact .integer s

omit h in
theorem spec_boolean : Ensures (selectPest C) n a (body C .boolean) (Spec N .boolean a) := by
  refine ensures_texts ?_
  intro w hw
  simp only [List.map_cons, List.map_nil, List.mem_cons, List.not_mem_nil, or_false] at hw
  rcases hw with rfl | rfl
  · exact ⟨rfl, true, rfl⟩
  · exact ⟨rfl, false, rfl⟩

theorem spec_indexedProperty : Ensures (selectPest C) n .nonAtomic (body C .indexedProperty)
    (Spec N .indexedProperty a) := by
  have hinner : Ensures (selectPest C) n .nonAtomic (.choice (.rule .stringOuter) (.rule .integer))
      fun w ps => (∃ s, ps = [.mk .string s []] ∧ s.length < w.length) ∨
        ∃ s, ps = [.mk .integer s []] := by
    refine ensures_choice ((ensures_silent (h .stringOuter .nonAtomic) rfl).imp ?_)
      (ensures_rule_of (h .integer .nonAtomic) rfl ?_)
    · exact fun w ps hp => .inl (hp (by decide))
    · rintro w ps rfl
      exact .inr ⟨_, rfl⟩
  have hclosed : Ensures (selectPest C) n .nonAtomic (.seq (.choice (.rule .stringOuter)
      (.rule .integer)) (lit "]")) fun w ps => (∃ s, ps = [.mk .string s []] ∧
        s.length < w.length) ∨ ∃ s, ps = [.mk .integer s []] := by
    refine ensures_seq (ensures_WHITESPACE h) hinner (silent_lit "]") ?_
    rintro v t u ps qs (⟨s, rfl, hs⟩ | ⟨s, rfl⟩) rfl
    · exact .inl ⟨s, rfl, by simp only [List.length_append]; omega⟩
    · exact .inr ⟨s, rfl⟩
  refine ensures_seq (ensures_WHITESPACE h) (silent_lit "[") hclosed ?_
  rintro v t u ps qs rfl (⟨s, rfl, hs⟩ | ⟨s, rfl⟩) hle
  · simp only [List.length_append] at hle
    exact .inl ⟨s, rfl, by omega⟩
  · exact .inr ⟨s, rfl⟩

theorem spec_jsonPath :
    Ensures (selectPest C) n .compound (body C .jsonPath) (Spec N .jsonPath a) := by
  have hident : Ensures (selectPest C) n .compound (.rule .jsonIdent)
      fun w ps => ps = [.mk .jsonIdent (String.ofList w) []] := by
    refine ensures_rule_of (h .jsonIdent .compound) rfl ?_
    rintro w ps rfl
    rfl
  have hstart : Ensures (selectPest C) n .compound (.choice (.rule .functionCall)
      (.rule .jsonIdent)) (Within N fun ps => ∀ qs, SegmentPairs N qs →
        PathPairs N (ps ++ qs)) := by
    refine ensures_choice (ensures_rule_of (h .functionCall .compound) rfl ?_) (hident.imp ?_)
    · exact fun w ps hp hw qs hq => .call _ (hp hw) hq
    · rintro w ps rfl hw qs hq
      exact .ident _ hq
  have hfield : Ensures (selectPest C) n .compound (.seq (lit ".") (.rule .jsonIdent))
      (Within N fun ps => ∀ qs, SegmentPairs N qs → SegmentPairs N (ps ++ qs)) := by
    refine ensures_seq (ensures_WHITESPACE h) (P := fun w ps => w = ".".toList ∧ ps = [])
      (ensures_text ⟨rfl, rfl⟩) hident ?_
    rintro v t u ps qs ⟨rfl, rfl⟩ rfl hle rest hrest
    refine .ident _ ?_ hrest
    simp only [List.length_append, String.length_ofList] at hle ⊢
    have hdot : ".".toList.length = 1 := rfl
    omega
  have hindexed : Ensures (selectPest C) n .compound (.rule .indexedProperty)
      (Within N fun ps => ∀ qs, SegmentPairs N qs → SegmentPairs N (ps ++ qs)) := by
    refine ensures_rule_of (h .indexedProperty .compound) rfl ?_
    intro w ps hp hw qs hq
    obtain ⟨s, rfl, hs⟩ | ⟨s, rfl⟩ := hp hw
    · exact .string _ s hs hq
    · exact .integer _ s hq
  have hws := ensures_WHITESPACE h
  exact ensures_append hws hstart (ensures_list hws .nil (ensures_choice hindexed hfield))

theorem ensures_expression : Ensures (selectPest C) n .nonAtomic (.rule .expression)
    (Within N (ExpressionPair N)) :=
  ensures_rule_of (h .expression .nonAtomic) rfl fun _ _ hp hw => ⟨_, _, rfl, hp rfl hw⟩

/-- `expression` between two texts. -/
theorem ensures_between (u u' : String) : Ensures (selectPest C) n .nonAtomic
    (.seq (lit u) (.seq (.rule .expression) (lit u'))) (Within N (ExpressionPair N)) :=
  ensures_after (ensures_WHITESPACE h) (silent_lit u)
    (ensures_before (ensures_WHITESPACE h) (ensures_expression h) (silent_lit u'))

theorem spec_functionCall : Ensures (selectPest C) n .nonAtomic (body C .functionCall)
    (Spec N .functionCall a) := by
  have hws := ensures_WHITESPACE h
  have harg : Ensures (selectPest C) n .nonAtomic (.rule .functionArg)
      (Within N fun ps => ∀ qs, ArgPairs N qs → ArgPairs N (ps ++ qs)) := by
    refine ensures_rule_of (h .functionArg .nonAtomic) rfl ?_
    intro w ps hp hw qs hq
    obtain ⟨text, inner, rfl, hinner⟩ := hp rfl hw
    exact .cons _ text hinner hq
  have hnext := ensures_after hws (silent_lit ",") harg
  have hargs : Ensures (selectPest C) n .nonAtomic (.opt (.seq (.rule .functionArg)
      (.star (.seq (lit ",") (.rule .functionArg))))) (Within N (ArgPairs N)) :=
    ensures_opt (ensures_append hws harg (ensures_list hws .nil hnext)) fun _ => .nil
  have hparentheses :=
    ensures_after hws (silent_lit "(") (ensures_before hws hargs (silent_lit ")"))
  refine ensures_append hws (ensures_rule_of (h .functionIdent .nonAtomic) rfl ?_) hparentheses
  rintro w ps rfl - qs hq
  exact .mk _ hq

theorem spec_expression :
    Ensures (selectPest C) n a (body C .expression) (Spec N .expression a) := by
  by_cases ha : a = .nonAtomic
  swap
  · exact ensures_trivial n a _ fun w ps hne => absurd hne ha
  subst ha
  have hws := ensures_WHITESPACE h
  have hunary := Silent.star hws (ensures_silent (h .unaryOperator .nonAtomic) rfl)
  have hoperand : Ensures (selectPest C) n .nonAtomic (.choice (.rule .value)
      (.rule .groupExpression)) (Within N fun ps => ∀ qs, TailPairs N qs →
        ExpressionPairs N (ps ++ qs)) := by
    refine ensures_choice (ensures_rule_of (h .value .nonAtomic) rfl ?_)
      ((ensures_silent (h .groupExpression .nonAtomic) rfl).imp ?_)
    · exact fun w ps hp hw qs hq => .value _ (hp hw) hq
    · intro w ps hp hw qs hq
      obtain ⟨text, inner, rfl, hinner⟩ := hp rfl hw
      exact .group text hinner hq
  have hinfix : Ensures (selectPest C) n .nonAtomic (.rule .infixOperator)
      (Within N fun ps => ∀ qs, ExpressionPair N qs →
        ∀ rest, TailPairs N rest → TailPairs N (ps ++ qs ++ rest)) := by
    refine ensures_rule_of (h .infixOperator .nonAtomic) rfl ?_
    rintro w ps ⟨rfl, op, rfl⟩ - qs ⟨text, inner, rfl, hinner⟩ rest hrest
    simpa [selectPest] using TailPairs.cons op text hinner hrest
  have hnext : Ensures (selectPest C) n .nonAtomic (.seq (.rule .infixOperator) (.rule .expression))
      (Within N fun ps => ∀ rest, TailPairs N rest → TailPairs N (ps ++ rest)) :=
    ensures_append hws hinfix (ensures_expression h)
  have hoperands := ensures_append hws hoperand (ensures_list hws .nil hnext)
  exact (ensures_after hws hunary hoperands).imp fun w ps hp _ => hp

theorem spec_group :
    Ensures (selectPest C) n a (body C .groupExpression) (Spec N .groupExpression a) := by
  by_cases ha : a = .nonAtomic
  · subst ha
    exact (ensures_between h "(" ")").imp fun w ps hp _ => hp
  · exact ensures_trivial n a _ fun w ps hne => absurd hne ha

theorem spec_functionArg :
    Ensures (selectPest C) n a (body C .functionArg) (Spec N .functionArg a) := by
  by_cases ha : a = .nonAtomic
  · subst ha
    exact (ensures_expression h).imp fun w ps hp _ => hp
  · exact ensures_trivial n a _ fun w ps hne => absurd hne ha

theorem spec_entryPoint :
    Ensures (selectPest C) n a (body C .entryPoint) (Spec N .entryPoint a) := by
  by_cases ha : a = .nonAtomic
  swap
  · exact ensures_trivial n a _ fun w ps hne => absurd hne ha
  subst ha
  have hws := ensures_WHITESPACE h
  have hexpression : Ensures (selectPest C) n .nonAtomic (.rule .expression)
      (Within N fun ps => ∀ qs, qs = [.mk .eoi "" []] → ∃ text inner,
        ps ++ qs = [.mk .expression text inner, .mk .eoi "" []] ∧ ExpressionPairs N inner) := by
    refine (ensures_expression h).imp ?_
    rintro w ps hp hw qs rfl
    obtain ⟨text, inner, rfl, hinner⟩ := hp hw
    exact ⟨text, inner, rfl, hinner⟩
  have heoi : Ensures (selectPest C) n .nonAtomic (.rule .EOI)
      (Within N fun ps => ps = [.mk .eoi "" []]) := by
    refine ensures_rule_of (h .EOI .nonAtomic) rfl ?_
    rintro w ps ⟨rfl, rfl⟩ -
    rfl
  have hend : Ensures (selectPest C) n .nonAtomic (.seq (.rule .expression) (.rule .EOI))
      (Within N fun ps => ∃ text inner,
        ps = [.mk .expression text inner, .mk .eoi "" []] ∧ ExpressionPairs N inner) :=
    ensures_append hws hexpression heoi
  exact (ensures_after hws (ensures_start rfl) hend).imp fun w ps hp _ => hp

theorem spec_templateEntryPoint : Ensures (selectPest C) n .atomic (body C .templateEntryPoint)
    (Spec N .templateEntryPoint a) := by
  have hws := ensures_WHITESPACE h
  have hpiece : Ensures (selectPest C) n .atomic (.choice (.rule .templateExpression)
      (.rule .templateNotExpression)) (Within N fun ps => ∀ qs, TemplatePairs N qs →
        TemplatePairs N (ps ++ qs)) := by
    refine ensures_choice (ensures_rule_of (h .templateExpression .atomic) rfl ?_)
      (ensures_rule_of (h .templateNotExpression .atomic) rfl ?_)
    · intro w ps hp hw qs hq
      obtain ⟨text, inner, rfl, hinner⟩ := hp hw
      exact .expression _ text hinner hq
    · rintro w ps rfl - qs hq
      exact .text _ hq
  have heoi : Silent (selectPest C) n .atomic (.rule .EOI) :=
    (ensures_silent (h .EOI .atomic) rfl).imp fun w ps hp => hp.1
  exact ensures_after hws (ensures_start rfl)
    (ensures_before hws (ensures_list hws .nil hpiece) heoi)

/-- The bodies of the rules, as long as the rules in them keep to their specifications. -/
theorem spec_body (r : PestRule) (a : Atomicity) :
    Ensures (selectPest C) n ((kind r).inside a) (body C r) (r.Spec N a) := by
  cases r with
  | WHITESPACE => exact ensures_texts fun _ _ => rfl
  | value => exact spec_value h
  | jsonIdent => exact spec_ident h
  | jsonIdentStart => exact spec_identStart
  | jsonIdentRest => exact spec_identRest h
  | jsonPath => exact spec_jsonPath h
  | indexedProperty => exact spec_indexedProperty h
  | functionIdent => exact spec_functionIdent h
  | functionCall => exact spec_functionCall h
  | functionArg => exact spec_functionArg h
  | QUOTATION_MARK => exact ensures_texts (by simp [Spec])
  | notQuote => exact spec_notQuote h
  | string => exact spec_string h
  | stringOuter => exact spec_stringOuter h
  | integer => exact spec_integer h
  | decimal => exact spec_decimal h
  | number => exact spec_number h
  | boolean => exact spec_boolean
  | null => exact ensures_text ⟨rfl, rfl⟩
  | entryPoint => exact spec_entryPoint h
  | templateNotExpression => exact spec_templateNotExpression h
  | templateExpression => exact ensures_between h "$\x7b" "\x7d"
  | templateEntryPoint => exact spec_templateEntryPoint h
  | expression => exact spec_expression h
  | groupExpression => exact spec_group h
  | unaryOperator => exact silent_lit _
  | infixOperator => exact spec_infixOperator
  | EOI => exact ensures_finish ⟨rfl, rfl⟩

end Bodies

/-- Every match of a rule keeps to its specification. -/
theorem ensures_spec (n : Nat) (r : PestRule) (a : Atomicity) :
    Ensures (selectPest C) n a (.rule r) (Labelled (selectPest C) r a (r.Spec N a)) :=
  ensures_rules (fun _ h => spec_body h) n r a

/-- What a rule matches in a text keeps to the specification of the rule. -/
theorem matches_spec {r : PestRule} {s : String} (h : r.Matches C s ps) :
    ∃ w : List Char, w.length ≤ s.length ∧
      Labelled (selectPest C) r .nonAtomic (r.Spec s.length .nonAtomic) w ps := by
  obtain ⟨m, n, hrun⟩ := h
  obtain ⟨w, hw, hspec⟩ := ensures_spec n r .nonAtomic n le_rfl _ _ hrun
  refine ⟨w, ?_, hspec⟩
  have hlength := congrArg List.length hw
  rw [List.length_append, String.length_toList] at hlength
  omega

/-- A parser that follows the rules of `select.pest` gives pairs of the shapes that these have. -/
theorem Grammar.IsPest.sound {g : Grammar} (hg : g.IsPest C) : g.Sound := by
  constructor
  · intro s pairs hparse
    obtain ⟨w, hw, hspec⟩ := matches_spec ((hg.entryPoint s pairs).mp hparse)
    exact hspec rfl hw
  · intro s pairs hparse
    obtain ⟨w, hw, inner, rfl, hspec⟩ := matches_spec ((hg.templateEntryPoint s pairs).mp hparse)
    exact ⟨_, inner, rfl, hspec hw⟩

/-- With such a parser, an expression or a template is built or refused exactly where the parser
comes to no bad index, number or range. -/
theorem Grammar.IsPest.returns_iff {g : Grammar} (hg : g.IsPest C) (x : Externals) (vars : Object)
    (noErr : Bool) (marker : Marker) (s : String) (providers : RequiredProviders) (depth : Nat)
    (h : s.length < depth) :
    (Returns (ValueOrExpression.new x g vars noErr marker depth s providers) ↔
      ¬ Trips x g vars noErr marker depth (.expression s providers)) ∧
    (Returns (Template.new x g vars noErr marker depth s providers) ↔
      ¬ Trips x g vars noErr marker depth (.template s providers)) :=
  ⟨(expressionOf_ends hg.sound h.le providers).returns_iff Trips.panics,
    (template_ends hg.sound depth s providers h).returns_iff Trips.panics⟩

end Pewpew.SelectParser
