import Pewpew.Library.Precedence
import Pewpew.Expression.Parser

/-! Operands and operators in a row are parsed as the conventional tree of their precedence. -/
namespace Pewpew.SelectParser

open Precedence

/-- What an expression means: its value or error on each data, mode and `for_each` binding. -/
abbrev Meaning := Cow → Bool → Option (List Cow) → Except ExecutingError Cow

namespace InfixOperator

/-- How tightly an operator binds: `||`, `&&`, comparisons, `+ -`, `* / %`. -/
def binding : InfixOperator → Nat
  | .or => 0
  | .and => 1
  | .eq | .ne | .gt | .gte | .lt | .lte => 2
  | .add | .subtract => 3
  | .multiply | .divide | .mod => 4

/-- The result that the left operand alone decides. -/
def decides : InfixOperator → Json → Option Bool
  | .and, v => if v.boolValue then none else some false
  | .or, v => if v.boolValue then some true else none
  | _, _ => none

/-- The result of an operator on two values. -/
def apply : InfixOperator → Json → Json → Json
  | .add, v, w => toJsonNumber (v.f64Value.add w.f64Value)
  | .and, v, w => .bool (v.boolValue && w.boolValue)
  | .divide, v, w => toJsonNumber (v.f64Value.div w.f64Value)
  | .eq, v, w => .bool (v.eq w)
  | .gt, v, w => .bool (w.f64Value.lt v.f64Value)
  | .gte, v, w => .bool (w.f64Value.le v.f64Value)
  | .lt, v, w => .bool (v.f64Value.lt w.f64Value)
  | .lte, v, w => .bool (v.f64Value.le w.f64Value)
  | .mod, v, w => toJsonNumber (v.f64Value.rem w.f64Value)
  | .multiply, v, w => toJsonNumber (v.f64Value.mul w.f64Value)
  | .ne, v, w => .bool (!v.eq w)
  | .or, v, w => .bool (v.boolValue || w.boolValue)
  | .subtract, v, w => toJsonNumber (v.f64Value.sub w.f64Value)

/-- An operator between two meanings: the error of the left one comes first, and the right one
counts only where the left one does not decide. -/
def combine (op : InfixOperator) (l r : Meaning) : Meaning := fun d noErr forEach =>
  match l d.borrow noErr forEach with
  | .error e => .error e
  | .ok v =>
    match op.decides v.val with
    | some b => .ok (.owned (.bool b))
    | none =>
      match r d.borrow noErr forEach with
      | .error e => .error e
      | .ok w => .ok (.owned (op.apply v.val w.val))

theorem evaluate_eq (op : InfixOperator) (v : Json) (r : Except ExecutingError Json) :
    op.evaluate v r =
      match op.decides v with
      | some b => .ok (.bool b)
      | none => r.map (op.apply v) := by
  cases op with
  | and =>
    cases h : v.boolValue <;> cases r <;> simp [evaluate, decides, apply, h, Except.map] <;> rfl
  | or =>
    cases h : v.boolValue <;> cases r <;> simp [evaluate, decides, apply, h, Except.map] <;> rfl
  | _ => cases r <;> rfl

theorem precedence_eq (op : InfixOperator) : op.precedence = op.binding + 1 := by
  cases op <;> rfl

theorem precedence_le (op : InfixOperator) : op.precedence ≤ 5 := by
  cases op <;> decide

def text : InfixOperator → String
  | .add => "+"
  | .and => "&&"
  | .divide => "/"
  | .eq => "=="
  | .gt => ">"
  | .gte => ">="
  | .lt => "<"
  | .lte => "<="
  | .mod => "%"
  | .multiply => "*"
  | .ne => "!="
  | .or => "||"
  | .subtract => "-"

@[simp] theorem ofText_text (op : InfixOperator) : ofText op.text = some op := by
  cases op <;> decide

end InfixOperator

/-- The meaning of operands and operators in a row. -/
def meaning (first : Meaning) (rest : List (InfixOperator × Meaning)) : Meaning :=
  (Tree.conventional InfixOperator.binding first rest).fold InfixOperator.combine

section Helper

variable {x : Externals} {level : Nat} {items left right : List ExpressionOrOperator}
  {op : InfixOperator} {e : Expression} {es : List (InfixOperator × Expression)}

/-- Operands and operators in a row, as items. -/
def itemsOf (e : Expression) (es : List (InfixOperator × Expression)) :
    List ExpressionOrOperator :=
  .expression e :: es.flatMap fun p => [.operator p.1, .expression p.2]

theorem itemsOf_cons {p : InfixOperator × Expression} :
    itemsOf e (p :: es) = .expression e :: .operator p.1 :: itemsOf p.2 es := rfl

theorem itemsOf_length : (itemsOf e es).length = 2 * es.length + 1 := by
  induction es generalizing e with
  | nil => rfl
  | cons p es ih => simp only [itemsOf_cons, List.length_cons, ih]; omega

/-- Items split at an operator are two rows. -/
theorem itemsOf_split (h : itemsOf e es = left ++ .operator op :: right) :
    ∃ es₁ e₂ es₂, left = itemsOf e es₁ ∧ right = itemsOf e₂ es₂ ∧ es = es₁ ++ (op, e₂) :: es₂ := by
  induction es generalizing e left with
  | nil =>
    cases left with
    | nil => simp [itemsOf] at h
    | cons i left => simp [itemsOf] at h
  | cons p es ih =>
    rw [itemsOf_cons] at h
    match left with
    | [] => simp at h
    | [i] =>
      simp only [List.cons_append, List.nil_append, List.cons.injEq,
        ExpressionOrOperator.operator.injEq] at h
      obtain ⟨rfl, rfl, rfl⟩ := h
      exact ⟨[], p.2, es, rfl, rfl, rfl⟩
    | i :: j :: left =>
      simp only [List.cons_append, List.cons.injEq] at h
      obtain ⟨rfl, rfl, h⟩ := h
      obtain ⟨es₁, e₂, es₂, rfl, rfl, rfl⟩ := ih h
      exact ⟨p :: es₁, e₂, es₂, rfl, rfl, rfl⟩

theorem splitLast_none (h : splitLast level items = none) :
    ∀ op, .operator op ∈ items → op.precedence ≠ level := by
  induction items with
  | nil => simp
  | cons item items ih =>
    cases hs : splitLast level items with
    | some r => simp [splitLast, hs] at h
    | none =>
      intro op hop
      obtain rfl | hop := List.mem_cons.mp hop
      · simpa [splitLast, hs] using h
      · exact ih hs op hop

theorem splitLast_some (h : splitLast level items = some (left, op, right)) :
    op.precedence = level ∧ ∀ o, .operator o ∈ right → o.precedence ≠ level := by
  induction items generalizing left with
  | nil => simp [splitLast] at h
  | cons item items ih =>
    cases hs : splitLast level items with
    | some r =>
      simp only [splitLast, hs, Option.some.injEq, Prod.mk.injEq] at h
      obtain ⟨-, rfl, rfl⟩ := h
      exact ih hs
    | none =>
      cases item with
      | expression e => simp [splitLast, hs] at h
      | operator o =>
        simp only [splitLast, hs, Option.ite_none_right_eq_some, Option.some.injEq,
          Prod.mk.injEq] at h
        obtain ⟨hp, rfl, rfl, rfl⟩ := h
        exact ⟨hp, splitLast_none hs⟩

theorem mem_itemsOf {p : InfixOperator × Expression} (h : p ∈ es) :
    .operator p.1 ∈ itemsOf e es :=
  List.mem_cons_of_mem _ (List.mem_flatMap.mpr ⟨p, h, by simp⟩)

/-- Without an operator, an expression is a value, and not negated. -/
def Expression.Plain : Expression → Prop
  | .mk not lhs none => not = none ∧ ∃ v, lhs = .value v
  | .mk _ _ (some _) => True

theorem Expression.attach_plain {r : Expression} : (e.attach op r).Plain := by
  obtain ⟨not, lhs, _ | o⟩ := e <;> trivial

theorem Expression.evaluate_binary {lhs : ExpressionLhs} {r : Expression} :
    (Expression.mk none lhs (some (op, r))).evaluate x =
      op.combine (lhs.evaluate x) (r.evaluate x) := by
  funext d noErr forEach
  simp only [evaluate, InfixOperator.combine]
  cases lhs.evaluate x d.borrow noErr forEach with
  | error e => rfl
  | ok v =>
    simp only [Except.bind, Except.map, applyNot, InfixOperator.evaluate_eq]
    cases op.decides v.val with
    | some b => rfl
    | none => cases r.evaluate x d.borrow noErr forEach <;> rfl

theorem Expression.evaluate_value {v : Value} :
    (Expression.mk none (.value v) none).evaluate x = v.evaluate x := by
  funext d noErr forEach
  simp only [evaluate, ExpressionLhs.evaluate]
  cases v.evaluate x d noErr forEach <;> rfl

/-- Attaching an operator to a plain expression combines the meanings. -/
theorem Expression.attach_evaluate {r : Expression} (he : e.Plain) :
    (e.attach op r).evaluate x = op.combine (e.evaluate x) (r.evaluate x) := by
  obtain ⟨not, lhs, _ | o⟩ := e
  · obtain ⟨rfl, v, rfl⟩ := he
    have hlhs : (ExpressionLhs.value v).evaluate x = v.evaluate x := by
      funext d noErr forEach
      rw [ExpressionLhs.evaluate]
    rw [attach, evaluate_binary, hlhs, evaluate_value]
  · have hlhs : (ExpressionLhs.expression (.mk not lhs (some o))).evaluate x =
        (Expression.mk not lhs (some o)).evaluate x := by
      funext d noErr forEach
      rw [ExpressionLhs.evaluate]
    rw [attach, evaluate_binary, hlhs]
    simp

/-- The expression of a tree of operands and operators. -/
def Expression.ofTree : Tree Expression InfixOperator → Expression :=
  Tree.fold fun op l r => l.attach op r

/-- `expression_helper` builds the expression of the conventional tree of its items. -/
theorem expressionHelper_builds (level : Nat) (e : Expression)
    (es : List (InfixOperator × Expression)) (hlevel : ∀ p ∈ es, level ≤ p.1.precedence) :
    ∃ t, expressionHelper (itemsOf e es) level = .ok (.ofTree t) ∧
      t.Conventional InfixOperator.precedence ∧ t.first = e ∧ t.rest = es := by
  rw [expressionHelper]
  split
  · next left op right hsplit =>
    obtain ⟨es₁, e₂, es₂, rfl, rfl, rfl⟩ := itemsOf_split (splitLast_eq hsplit)
    obtain ⟨hop, hright⟩ := splitLast_some hsplit
    have hlt : ∀ p ∈ es₂, level + 1 ≤ p.1.precedence := by
      intro p hp
      have := hlevel p (by simp [hp])
      have := hright p.1 (mem_itemsOf hp)
      omega
    have hleft : ∃ t, (if (itemsOf e es₁).length = 1 then onlyExpression (itemsOf e es₁)
          else expressionHelper (itemsOf e es₁) level) = .ok (.ofTree t) ∧
        t.Conventional InfixOperator.precedence ∧ t.first = e ∧ t.rest = es₁ := by
      split
      · next hone =>
        obtain rfl : es₁ = [] := by
          rw [itemsOf_length] at hone
          exact List.length_eq_zero_iff.mp (by omega)
        exact ⟨.leaf e, rfl, trivial, rfl, rfl⟩
      · exact expressionHelper_builds level e es₁ fun p hp => hlevel p (by simp [hp])
    obtain ⟨tl, hl, htl, rfl, rfl⟩ := hleft
    obtain ⟨tr, hr, htr, rfl, rfl⟩ :=
      expressionHelper_builds level e₂ es₂ fun p hp => Nat.le_of_succ_le (hlt p hp)
    refine ⟨.node tl op tr, ?_, ⟨htl, ?_, htr, ?_⟩, rfl, rfl⟩
    · simp [hl, hr, Except.bind, Except.map, Expression.ofTree, Tree.fold]
    · exact Tree.atLeast_of_rest fun p hp => hop ▸ hlevel p (by simp [hp])
    · exact Tree.atLeast_of_rest fun p hp => hop ▸ hlt p hp
  · next hsplit =>
    have hne := splitLast_none hsplit
    split
    · next hstop =>
      obtain rfl : es = [] := by
        rcases hstop with h | h
        · refine List.eq_nil_iff_forall_not_mem.mpr fun p hp => ?_
          have := hlevel p hp
          have := p.1.precedence_le
          exact hne p.1 (mem_itemsOf hp) (by omega)
        · rw [itemsOf_length] at h
          exact List.length_eq_zero_iff.mp (by omega)
      exact ⟨.leaf e, rfl, trivial, rfl, rfl⟩
    · refine expressionHelper_builds (level + 1) e es fun p hp => ?_
      have := hlevel p hp
      have := hne p.1 (mem_itemsOf hp)
      omega
termination_by (itemsOf e es).length + (6 - level)
decreasing_by
  all_goals simp_all only [itemsOf_length, List.length_append, List.length_cons]
  all_goals omega

/-- The value of a tree of expressions. -/
def treeMeaning (x : Externals) (t : Tree Expression InfixOperator) : Meaning :=
  (t.map (Expression.evaluate x)).fold InfixOperator.combine

/-- The expression of a tree of plain operands means what the tree means. -/
theorem Expression.ofTree_plain (t : Tree Expression InfixOperator) (he : t.first.Plain)
    (hes : ∀ p ∈ t.rest, p.2.Plain) :
    (ofTree t).Plain ∧ (ofTree t).evaluate x = treeMeaning x t := by
  induction t with
  | leaf e => exact ⟨he, rfl⟩
  | node l op r ihl ihr =>
    obtain ⟨hlp, hle⟩ := ihl he fun p hp => hes p (List.mem_append_left _ hp)
    have hr : r.first.Plain := hes (op, r.first) (by simp [Tree.rest])
    obtain ⟨-, hre⟩ := ihr hr fun p hp => hes p (by simp [Tree.rest, hp])
    refine ⟨attach_plain, ?_⟩
    change ((ofTree l).attach op (ofTree r)).evaluate x = _
    rw [attach_evaluate hlp, hle, hre]
    rfl

/-- `expression_helper` builds the conventional tree of its items. -/
theorem expressionHelper_spec (level : Nat) (e : Expression)
    (es : List (InfixOperator × Expression)) (he : e.Plain) (hes : ∀ p ∈ es, p.2.Plain)
    (hlevel : ∀ p ∈ es, level ≤ p.1.precedence) :
    ∃ r t, expressionHelper (itemsOf e es) level = .ok r ∧ r.Plain ∧
      t.Conventional InfixOperator.precedence ∧ t.first = e ∧ t.rest = es ∧
      r.evaluate x = treeMeaning x t := by
  obtain ⟨t, ht, hc, rfl, rfl⟩ := expressionHelper_builds level e es hlevel
  obtain ⟨hp, hm⟩ := Expression.ofTree_plain (x := x) t he hes
  exact ⟨_, t, ht, hp, hc, rfl, rfl, hm⟩

end Helper

end Pewpew.SelectParser
