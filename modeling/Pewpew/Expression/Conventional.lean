import Pewpew.Expression.Operators
import Pewpew.Expression.Iterate

/-! Any match of the rule `expression` is parsed to the meaning of its conventional reading. -/
namespace Pewpew.SelectParser

open Precedence

mutual

/-- A match of `value` or `group_expression`, whose parentheses are silent. -/
inductive Operand where
  | value (text : String) (inner : List Pair)
  | group (m : ExpressionMatch)

/-- A match of `unary_operator* ~ (value | group_expression) ~ (infix_operator ~ expression)*`. -/
inductive ExpressionMatch where
  | mk (text : String) (unary : Nat) (head : Operand) (tail : ExpressionTail)

inductive ExpressionTail where
  | nil
  | cons (op : InfixOperator) (m : ExpressionMatch) (tail : ExpressionTail)

end

def ExpressionMatch.text : ExpressionMatch → String
  | .mk text _ _ _ => text

mutual

/-- The pair of an operand: silent rules produce none. -/
def Operand.pair : Operand → Pair
  | .value text inner => .mk .value text inner
  | .group m => .mk .expression m.text m.pairs

/-- The pairs inside an expression: `unary_operator` is silent. -/
def ExpressionMatch.pairs : ExpressionMatch → List Pair
  | .mk _ _ head tail => head.pair :: tail.pairs

def ExpressionTail.pairs : ExpressionTail → List Pair
  | .nil => []
  | .cons op m tail =>
    .mk .infixOperator op.text [] :: .mk .expression m.text m.pairs :: tail.pairs

end

/-- The pairs of `entry_point`. -/
def ExpressionMatch.entryPairs (m : ExpressionMatch) : List Pair :=
  [.mk .expression m.text m.pairs, .mk .eoi "" []]

mutual

def Operand.NoUnary : Operand → Prop
  | .value _ _ => True
  | .group m => m.NoUnary

/-- No `!` anywhere. -/
def ExpressionMatch.NoUnary : ExpressionMatch → Prop
  | .mk _ unary head tail => unary = 0 ∧ head.NoUnary ∧ tail.NoUnary

def ExpressionTail.NoUnary : ExpressionTail → Prop
  | .nil => True
  | .cons _ m tail => m.NoUnary ∧ tail.NoUnary

end

/-- The `n`-fold logical negation of a meaning. -/
def negate : Nat → Meaning → Meaning
  | 0, f => f
  | n + 1, f => fun d noErr forEach =>
    (negate n f d noErr forEach).map fun v => .owned (.bool (!v.val.boolValue))

section Read

variable (x : Externals) (g : Grammar) (vars : Object) (noErr : Bool) (marker : Marker)
  (template : TemplateParser) (neg : Nat → Meaning → Meaning)

mutual

/-- The conventional reading: what each operand means, given what a run of `!` before it does. -/
def Operand.read : Operand → RequiredProviders → Except Failure (Meaning × RequiredProviders)
  | .value _ inner, providers =>
    (parseValue x g vars noErr marker template inner providers).map fun (v, providers) =>
      (v.evaluate x, providers)
  | .group m, providers =>
    (m.read providers).map fun (s, providers) => (meaning s.1 s.2, providers)

def ExpressionMatch.read : ExpressionMatch → RequiredProviders →
    Except Failure ((Meaning × List (InfixOperator × Meaning)) × RequiredProviders)
  | .mk _ unary head tail, providers =>
    (head.read providers).bind fun (first, providers) =>
      (tail.read providers).map fun (rest, providers) => ((neg unary first, rest), providers)

def ExpressionTail.read : ExpressionTail → RequiredProviders →
    Except Failure (List (InfixOperator × Meaning) × RequiredProviders)
  | .nil, providers => .ok ([], providers)
  | .cons op m tail, providers =>
    (m.read providers).bind fun ((first, rest), providers) =>
      (tail.read providers).map fun (more, providers) =>
        ((op, first) :: rest ++ more, providers)

end

end Read

/-- A result that is the specified failure, or is related to the specified value. -/
def Follows {α β : Type} (rel : α → β → Prop) (r : Except Failure α) : Except Failure β → Prop
  | .error f => r = .error f
  | .ok b => ∃ a, r = .ok a ∧ rel a b

section Follows

variable {α β γ δ : Type} {rel : α → β → Prop} {rel' : γ → δ → Prop} {r : Except Failure α}
  {s : Except Failure β} {f : α → Except Failure γ} {h : β → Except Failure δ}

theorem Follows.bind (hr : Follows rel r s)
    (hf : ∀ a b, rel a b → Follows rel' (f a) (h b)) : Follows rel' (r.bind f) (s.bind h) := by
  cases s with
  | error e =>
    obtain rfl : r = .error e := hr
    rfl
  | ok b =>
    obtain ⟨a, rfl, hab⟩ := hr
    exact hf a b hab

theorem Follows.map_left {f : α → γ} {rel' : γ → β → Prop} (hr : Follows rel r s)
    (hf : ∀ a b, rel a b → rel' (f a) b) : Follows rel' (r.map f) s := by
  cases s with
  | error e =>
    obtain rfl : r = .error e := hr
    rfl
  | ok b =>
    obtain ⟨a, rfl, hab⟩ := hr
    exact ⟨f a, rfl, hf a b hab⟩

theorem Follows.map_right {h : β → δ} {rel' : α → δ → Prop} (hr : Follows rel r s)
    (hf : ∀ a b, rel a b → rel' a (h b)) : Follows rel' r (s.map h) := by
  cases s with
  | error e => exact hr
  | ok b =>
    obtain ⟨a, ha, hab⟩ := hr
    exact ⟨a, ha, hf a b hab⟩

theorem Follows.map {f : α → γ} {h : β → δ} (hr : Follows rel r s)
    (hf : ∀ a b, rel a b → rel' (f a) (h b)) : Follows rel' (r.map f) (s.map h) := by
  cases s with
  | error e =>
    obtain rfl : r = .error e := hr
    rfl
  | ok b =>
    obtain ⟨a, rfl, hab⟩ := hr
    exact ⟨f a, rfl, hf a b hab⟩

theorem Follows.trans {rel' : β → γ → Prop} {rel'' : α → γ → Prop} {t : Except Failure γ}
    (h : Follows rel r s) (h' : Follows rel' s t)
    (hrel : ∀ a b c, rel a b → rel' b c → rel'' a c) : Follows rel'' r t := by
  cases t with
  | error f =>
    obtain rfl : s = .error f := h'
    exact h
  | ok c =>
    obtain ⟨b, rfl, hb⟩ := h'
    obtain ⟨a, rfl, ha⟩ := h
    exact ⟨a, rfl, hrel a b c ha hb⟩

theorem Follows.ok {a : α} {b : β} (h : rel a b) : Follows rel (.ok a) (.ok b) := ⟨a, rfl, h⟩

theorem Follows.of_eq (r : Except Failure α) : Follows Eq r r := by
  cases r with
  | error e => rfl
  | ok a => exact ⟨a, rfl, rfl⟩

end Follows

section Pieces

variable {x : Externals} {g : Grammar} {vars : Object} {noErr : Bool} {marker : Marker}
  {template : TemplateParser}

/-- A plain expression with a given meaning. -/
def Means (x : Externals) (e : Expression) (f : Meaning) : Prop := e.Plain ∧ e.evaluate x = f

/-- Operators and expressions with the given meanings. -/
abbrev TailMeans (x : Externals) : List (InfixOperator × Expression) →
    List (InfixOperator × Meaning) → Prop :=
  List.Forall₂ fun p q => p.1 = q.1 ∧ Means x p.2 q.2

def tailItems (es : List (InfixOperator × Expression)) : List ExpressionOrOperator :=
  es.flatMap fun p => [.operator p.1, .expression p.2]

/-- The new pieces are an operand with the given meaning. -/
def AddsOperand (x : Externals) (before : List ExpressionOrOperator) (ps : Pieces)
    (s : Meaning × RequiredProviders) : Prop :=
  ∃ e, ps = ⟨before ++ [.expression e], 0, s.2⟩ ∧ Means x e s.1

/-- The new pieces are operators and operands with the given meanings. -/
def AddsTail (x : Externals) (before : List ExpressionOrOperator) (ps : Pieces)
    (s : List (InfixOperator × Meaning) × RequiredProviders) : Prop :=
  ∃ es, ps = ⟨before ++ tailItems es, 0, s.2⟩ ∧ TailMeans x es s.1

/-- The new pieces are a row with the given meanings. -/
def AddsRow (x : Externals) (before : List ExpressionOrOperator) (ps : Pieces)
    (s : (Meaning × List (InfixOperator × Meaning)) × RequiredProviders) : Prop :=
  ∃ e es, ps = ⟨before ++ itemsOf e es, 0, s.2⟩ ∧ Means x e s.1.1 ∧ TailMeans x es s.1.2

theorem precedence_push {α : Type} {t : Tree α InfixOperator} {o : InfixOperator} {b : α} :
    t.push InfixOperator.precedence o b = t.push InfixOperator.binding o b := by
  induction t with
  | leaf a => rfl
  | node l o' r _ ihr =>
    simp only [Tree.push, InfixOperator.precedence_eq, ihr, Nat.add_lt_add_iff_right]

theorem precedence_conventional {α : Type} (a : α) (rest : List (InfixOperator × α)) :
    Tree.conventional InfixOperator.precedence a rest =
      Tree.conventional InfixOperator.binding a rest := by
  simp only [Tree.conventional, precedence_push]

/-- The expression of a row means what the row means. -/
theorem expressionHelper_means {e : Expression} {es : List (InfixOperator × Expression)}
    {f : Meaning} {fs : List (InfixOperator × Meaning)} (he : Means x e f)
    (hes : TailMeans x es fs) :
    ∃ r, expressionHelper (itemsOf e es) 0 = .ok r ∧ Means x r (meaning f fs) := by
  have hplain : ∀ p ∈ es, p.2.Plain := by
    induction hes with
    | nil => simp
    | cons h _ ih => exact List.forall_mem_cons.mpr ⟨h.2.1, ih⟩
  have hmap : es.map (fun p => (p.1, p.2.evaluate x)) = fs := by
    induction hes with
    | nil => rfl
    | cons h _ ih =>
      obtain ⟨h₁, -, h₂⟩ := h
      rw [List.map_cons, h₁, h₂, ih fun p hp => hplain p (List.mem_cons_of_mem _ hp)]
  obtain ⟨r, t, hr, hrp, ht, rfl, rfl, hre⟩ :=
    expressionHelper_spec (x := x) 0 e es he.1 hplain fun _ _ => Nat.zero_le _
  refine ⟨r, hr, hrp, ?_⟩
  rw [hre, treeMeaning, ht.eq_conventional, Tree.conventional_map, precedence_conventional, he.2,
    hmap, meaning]

@[simp] theorem Expression.setNot_none {e : Expression} : e.setNot (notOf 0) = e := by
  obtain ⟨_ | _ | _, lhs, op⟩ := e <;> rfl

end Pieces

section Parse

variable {x : Externals} {g : Grammar} {vars : Object} {noErr : Bool} {marker : Marker}
  {template : TemplateParser}

/-- A run of `!` that has no effect. -/
def silent (_ : Nat) (f : Meaning) : Meaning := f

/-- The expression of the pieces of a row. -/
theorem Pieces.expression_follows {r : Except Failure Pieces}
    {s : Except Failure ((Meaning × List (InfixOperator × Meaning)) × RequiredProviders)}
    (h : Follows (AddsRow x []) r s) :
    Follows (fun a b => Means x a.1 (meaning b.1.1 b.1.2) ∧ a.2 = b.2) (Pieces.expression r) s := by
  cases s with
  | error f =>
    obtain rfl : r = .error f := h
    rfl
  | ok s =>
    obtain ⟨_, rfl, e, es, rfl, he, hes⟩ := h
    obtain ⟨r, hr, hmeans⟩ := expressionHelper_means he hes
    exact ⟨(r, s.2), by simp [Pieces.expression, Except.bind, Except.map, hr], hmeans, rfl⟩

mutual

theorem Operand.parse_follows (o : Operand) (pieces : List ExpressionOrOperator)
    (providers : RequiredProviders) :
    Follows (AddsOperand x pieces)
      (parseExpressionPiece x g vars noErr marker template o.pair pieces.length
        ⟨pieces, 0, providers⟩)
      (o.read x g vars noErr marker template silent providers) := by
  cases o with
  | value text inner =>
    simp only [Operand.pair, parseExpressionPiece, Operand.read, notOf]
    refine (Follows.of_eq _).map ?_
    rintro ⟨v, providers⟩ _ rfl
    exact ⟨_, rfl, ⟨rfl, v, rfl⟩, Expression.evaluate_value⟩
  | group m =>
    simp only [Operand.pair, parseExpressionPiece, Operand.read, if_true, Expression.setNot_none]
    refine (Pieces.expression_follows (m.parse_follows [] providers)).map ?_
    rintro ⟨e, providers⟩ s ⟨he, rfl⟩
    exact ⟨e, rfl, he⟩

theorem ExpressionMatch.parse_follows (m : ExpressionMatch) (pieces : List ExpressionOrOperator)
    (providers : RequiredProviders) :
    Follows (AddsRow x pieces)
      (parseExpressionPieces x g vars noErr marker template m.pairs pieces.length
        ⟨pieces, 0, providers⟩)
      (m.read x g vars noErr marker template silent providers) := by
  obtain ⟨text, unary, head, tail⟩ := m
  simp only [ExpressionMatch.pairs, parseExpressionPieces, ExpressionMatch.read]
  refine (head.parse_follows pieces providers).bind ?_
  rintro _ ⟨first, providers⟩ ⟨e, rfl, he⟩
  have hlen : pieces.length < (pieces ++ [ExpressionOrOperator.expression e]).length := by simp
  refine (tail.parse_follows (pieces ++ [.expression e]) providers hlen).map_right ?_
  rintro _ ⟨rest, providers⟩ ⟨es, rfl, hes⟩
  exact ⟨e, es, by simp [itemsOf, tailItems], he, hes⟩

theorem ExpressionTail.parse_follows (tail : ExpressionTail) {startLen : Nat}
    (pieces : List ExpressionOrOperator) (providers : RequiredProviders)
    (hlen : startLen < pieces.length) :
    Follows (AddsTail x pieces)
      (parseExpressionPieces x g vars noErr marker template tail.pairs startLen
        ⟨pieces, 0, providers⟩)
      (tail.read x g vars noErr marker template silent providers) := by
  cases tail with
  | nil =>
    simp only [ExpressionTail.pairs, parseExpressionPieces, ExpressionTail.read]
    exact Follows.ok ⟨[], by simp [tailItems], .nil⟩
  | cons op m tail =>
    have hne : (pieces ++ [ExpressionOrOperator.operator op]).length ≠ startLen := by
      simp
      omega
    simp only [ExpressionTail.pairs, parseExpressionPieces, parseExpressionPiece,
      InfixOperator.ofText_text, ExpressionTail.read, Except.bind, hne, if_false]
    have hreset : ∀ a b, AddsRow x (pieces ++ [ExpressionOrOperator.operator op]) a b →
        AddsRow x (pieces ++ [ExpressionOrOperator.operator op]) { a with notCount := 0 } b := by
      rintro _ s ⟨e, es, rfl, h⟩
      exact ⟨e, es, rfl, h⟩
    refine ((m.parse_follows (pieces ++ [.operator op]) providers).map_left hreset).bind ?_
    · rintro _ ⟨⟨first, rest⟩, providers⟩ ⟨e, es, rfl, he, hes⟩
      have hlt : startLen <
          (pieces ++ [ExpressionOrOperator.operator op] ++ itemsOf e es).length := by
        simp only [List.length_append]
        omega
      refine (tail.parse_follows _ providers hlt).map_right ?_
      rintro _ ⟨more, providers⟩ ⟨es', rfl, hes'⟩
      refine ⟨(op, e) :: es ++ es', by simp [itemsOf, tailItems], ?_⟩
      exact List.rel_append (.cons ⟨rfl, he⟩ hes) hes'

end

theorem fromExpression_evaluate {e : Expression} (he : e.Plain) :
    (ValueOrExpression.fromExpression e).evaluate x = e.evaluate x := by
  funext d noErr forEach
  obtain ⟨not, lhs, _ | o⟩ := e
  · obtain ⟨rfl, v, rfl⟩ := he
    rw [Expression.evaluate_value]
    cases v with
    | json v => rfl
    | _ =>
      simp only [ValueOrExpression.fromExpression, Expression.simplifyToJson,
        ValueOrExpression.evaluate, Expression.evaluate_value]
  · cases lhs <;> simp only [ValueOrExpression.fromExpression, Expression.simplifyToJson,
      ValueOrExpression.evaluate]

/-- The pairs of a text are parsed, if their operands are, to the meaning of the row. -/
theorem parseExpression_follows {m : ExpressionMatch} {providers : RequiredProviders} :
    Follows (fun a b => Means x a.1 (meaning b.1.1 b.1.2) ∧ a.2 = b.2)
      (parseExpression x g vars noErr marker template m.entryPairs providers)
      (m.read x g vars noErr marker template silent providers) := by
  have hgroup : Follows (AddsOperand x []) (parseExpressionPiece x g vars noErr marker template
      (Operand.group m).pair 0 ⟨[], 0, providers⟩) _ := (Operand.group m).parse_follows [] providers
  rw [Operand.pair] at hgroup
  have heoi : ∀ r : Except Failure Pieces,
      r.bind (parseExpressionPieces x g vars noErr marker template [.mk .eoi "" []] 0) = r := by
    intro r
    cases r <;> rfl
  rw [parseExpression, ExpressionMatch.entryPairs, parseExpressionPieces, heoi]
  cases hm : m.read x g vars noErr marker template silent providers with
  | error f =>
    rw [Operand.read, hm] at hgroup
    rw [show parseExpressionPiece x g vars noErr marker template _ _ _ = .error f from hgroup]
    rfl
  | ok s =>
    rw [Operand.read, hm] at hgroup
    obtain ⟨_, hp, e, rfl, he⟩ := hgroup
    obtain ⟨r, hr, hmeans⟩ := expressionHelper_means he (.nil : TailMeans x [] [])
    refine ⟨(r, s.2), ?_, hmeans, rfl⟩
    rw [itemsOf, List.flatMap_nil] at hr
    simp [hp, Pieces.expression, Except.bind, Except.map, hr]

/-- A text is parsed, if its operands are, to an expression with the meaning of the row. -/
theorem ValueOrExpression.new_follows {depth : Nat} {text : String} {m : ExpressionMatch}
    {providers : RequiredProviders} (ht : g.parse .entryPoint text = some m.entryPairs) :
    Follows (fun a b => a.1.evaluate x = meaning b.1.1 b.1.2 ∧ a.2 = b.2)
      (ValueOrExpression.new x g vars noErr marker depth text providers)
      (m.read x g vars noErr marker (Template.new x g vars noErr marker depth) silent
        providers) := by
  simp only [ValueOrExpression.new, parseText, ht]
  refine parseExpression_follows.map_left ?_
  rintro ⟨e, providers⟩ s ⟨⟨hp, he⟩, hs⟩
  exact ⟨(fromExpression_evaluate hp).trans he, hs⟩

variable {neg neg' : Nat → Meaning → Meaning}

mutual

theorem Operand.read_noUnary {o : Operand} (ho : o.NoUnary) (h : neg 0 = neg' 0)
    (providers : RequiredProviders) :
    o.read x g vars noErr marker template neg providers =
      o.read x g vars noErr marker template neg' providers := by
  cases o with
  | value text inner => simp only [Operand.read]
  | group m =>
    rw [Operand.NoUnary] at ho
    simp only [Operand.read, ExpressionMatch.read_noUnary ho h]

theorem ExpressionMatch.read_noUnary {m : ExpressionMatch} (hm : m.NoUnary) (h : neg 0 = neg' 0)
    (providers : RequiredProviders) :
    m.read x g vars noErr marker template neg providers =
      m.read x g vars noErr marker template neg' providers := by
  obtain ⟨text, unary, head, tail⟩ := m
  rw [ExpressionMatch.NoUnary] at hm
  obtain ⟨rfl, hhead, htail⟩ := hm
  simp only [ExpressionMatch.read, Operand.read_noUnary hhead h,
    ExpressionTail.read_noUnary htail h, h]

theorem ExpressionTail.read_noUnary {tail : ExpressionTail} (ht : tail.NoUnary)
    (h : neg 0 = neg' 0) (providers : RequiredProviders) :
    tail.read x g vars noErr marker template neg providers =
      tail.read x g vars noErr marker template neg' providers := by
  cases tail with
  | nil => simp only [ExpressionTail.read]
  | cons op m tail =>
    rw [ExpressionTail.NoUnary] at ht
    simp only [ExpressionTail.read, ExpressionMatch.read_noUnary ht.1 h,
      ExpressionTail.read_noUnary ht.2 h]

end

/-- Operands and operators in a row, with any parentheses, are parsed to an expression with the
value or error of the conventional tree. -/
theorem new_conventional {depth : Nat} {text : String} {m : ExpressionMatch}
    {providers : RequiredProviders} (ht : g.parse .entryPoint text = some m.entryPairs)
    (hm : m.NoUnary) :
    Follows (fun a b => a.1.evaluate x = meaning b.1.1 b.1.2 ∧ a.2 = b.2)
      (ValueOrExpression.new x g vars noErr marker depth text providers)
      (m.read x g vars noErr marker (Template.new x g vars noErr marker depth) negate
        providers) := by
  have hread : m.read x g vars noErr marker (Template.new x g vars noErr marker depth) negate
      providers = m.read x g vars noErr marker (Template.new x g vars noErr marker depth) silent
        providers :=
    ExpressionMatch.read_noUnary hm (funext fun _ => rfl : negate 0 = silent 0) providers
  rw [hread]
  exact ValueOrExpression.new_follows ht

/-- A match of an integer. -/
def integerOperand (s : String) : Operand := .value s [.mk .integer s []]

/-- The match of `1 + 2 * (3 + 4)`. -/
def arithmeticMatch : ExpressionMatch :=
  .mk "1 + 2 * (3 + 4)" 0 (integerOperand "1") <| .cons .add
    (.mk "2 * (3 + 4)" 0 (integerOperand "2") <| .cons .multiply
      (.mk "(3 + 4)" 0 (.group (.mk "3 + 4" 0 (integerOperand "3") <| .cons .add
        (.mk "4" 0 (integerOperand "4") .nil) .nil)) .nil) .nil) .nil

/-- The crates on one text, whose numbers are natural. -/
def oneText (s : String) (m : ExpressionMatch) : Grammar where
  parse rule text := if rule = .entryPoint ∧ text = s then some m.entryPairs else none
  number text := (usizeOfText text).map fun n => .int n

theorem arithmeticMatch_noUnary : arithmeticMatch.NoUnary := by
  simp [arithmeticMatch, integerOperand, ExpressionMatch.NoUnary, ExpressionTail.NoUnary,
    Operand.NoUnary]

theorem new_conventional_arithmetic :
    Follows (fun a b => a.1.evaluate .plain = meaning b.1.1 b.1.2 ∧ a.2 = b.2)
      (ValueOrExpression.new .plain (oneText "1 + 2 * (3 + 4)" arithmeticMatch) [] false ⟨1, 1⟩ 0
        "1 + 2 * (3 + 4)" .new)
      (arithmeticMatch.read .plain (oneText "1 + 2 * (3 + 4)" arithmeticMatch) [] false ⟨1, 1⟩
        (Template.new .plain (oneText "1 + 2 * (3 + 4)" arithmeticMatch) [] false ⟨1, 1⟩ 0) negate
        .new) :=
  new_conventional rfl arithmeticMatch_noUnary

/-- The value of a text on `null`. -/
def valueOf (g : Grammar) (text : String) : Option Json :=
  match ValueOrExpression.new .plain g [] false ⟨1, 1⟩ 0 text .new with
  | .ok (e, _) =>
    match e.evaluate .plain (.borrowed .null) false none with
    | .ok v => some v.val
    | .error _ => none
  | .error _ => none

example : (valueOf (oneText "1 + 2 * (3 + 4)" arithmeticMatch) "1 + 2 * (3 + 4)").any
    (·.eq (.ofNat 15)) = true := by
  decide +kernel

end Parse

end Pewpew.SelectParser
