import Pewpew.Expression.FunctionCall

/-! The parser: from the pairs that the grammar matches to syntax trees. -/
namespace Pewpew.SelectParser

/-- The rules of `select.pest` that produce pairs. -/
inductive Rule where
  | value | jsonIdent | jsonPath | indexedProperty | functionIdent | functionCall | functionArg
  | string | integer | decimal | boolean | null | entryPoint | templateNotExpression
  | templateExpression | templateEntryPoint | expression | unaryOperator | infixOperator | eoi
  deriving DecidableEq, Repr

/-- A match of a rule, with the matches inside it. -/
inductive Pair where
  | mk (rule : Rule) (text : String) (inner : List Pair)

/-- What the crates make of a text: the pairs that a rule matches, and the number it spells. -/
structure Grammar where
  parse : Rule → String → Option (List Pair)
  number : String → Option JsonNumber

def InfixOperator.ofText (s : String) : Option InfixOperator :=
  if s = "||" then some .or
  else if s = "&&" then some .and
  else if s = "==" then some .eq
  else if s = "!=" then some .ne
  else if s = ">=" then some .gte
  else if s = ">" then some .gt
  else if s = "<=" then some .lte
  else if s = "<" then some .lt
  else if s = "+" then some .add
  else if s = "-" then some .subtract
  else if s = "*" then some .multiply
  else if s = "/" then some .divide
  else if s = "%" then some .mod
  else none

/-- `str::parse::<usize>` of digits. -/
def usizeOfText (s : String) : Option Nat :=
  let n := s.toList.foldl (fun n c => n * 10 + (c.toNat - '0'.toNat)) 0
  if s ≠ "" ∧ s.toList.all Char.isDigit ∧ n < 2 ^ 64 then some n else none

inductive ExpressionOrOperator where
  | expression (e : Expression)
  | operator (op : InfixOperator)

/-- The operands and operators around the last operator of a level. -/
def splitLast (level : Nat) : List ExpressionOrOperator →
    Option (List ExpressionOrOperator × InfixOperator × List ExpressionOrOperator)
  | [] => none
  | item :: items =>
    match splitLast level items with
    | some (left, op, right) => some (item :: left, op, right)
    | none =>
      match item with
      | .operator op => if op.precedence = level then some ([], op, items) else none
      | .expression _ => none

theorem splitLast_eq {level : Nat} {items left right : List ExpressionOrOperator}
    {op : InfixOperator} (h : splitLast level items = some (left, op, right)) :
    items = left ++ .operator op :: right := by
  induction items generalizing left with
  | nil => simp [splitLast] at h
  | cons item items ih =>
    cases hs : splitLast level items with
    | some r =>
      simp only [splitLast, hs, Option.some.injEq, Prod.mk.injEq] at h
      obtain ⟨rfl, rfl, rfl⟩ := h
      rw [ih hs, List.cons_append]
    | none =>
      cases item with
      | expression e => simp [splitLast, hs] at h
      | operator o =>
        simp only [splitLast, hs, Option.ite_none_right_eq_some, Option.some.injEq,
          Prod.mk.injEq] at h
        obtain ⟨-, rfl, rfl, rfl⟩ := h
        rfl

/-- The operator and right operand join an expression without one, or an expression around it. -/
def Expression.attach : Expression → InfixOperator → Expression → Expression
  | .mk not lhs none, op, right => .mk not lhs (some (op, right))
  | e, op, right => .mk none (.expression e) (some (op, right))

/-- The only item, where an operator is unexpected. -/
def onlyExpression : List ExpressionOrOperator → Except Failure Expression
  | [.expression e] => .ok e
  | _ => .error .panic

/-- `expression_helper`: items are split at the last operator of the lowest level. -/
def expressionHelper (items : List ExpressionOrOperator) (level : Nat) :
    Except Failure Expression :=
  match h : splitLast level items with
  | some (left, op, right) =>
    (if left.length = 1 then onlyExpression left else expressionHelper left level).bind fun e =>
      (expressionHelper right level).map (e.attach op)
  | none =>
    if 5 ≤ level ∨ items.length = 1 then onlyExpression items
    else expressionHelper items (level + 1)
termination_by items.length + (6 - level)
decreasing_by
  · have := congrArg List.length (splitLast_eq h)
    simp at this ⊢
    omega
  · have := congrArg List.length (splitLast_eq h)
    simp at this ⊢
    omega
  · omega

theorem expressionHelper_single (e : Expression) :
    expressionHelper [.expression e] 0 = .ok e := by
  rw [expressionHelper]
  simp [splitLast, onlyExpression]

/-- `not_count` as the `not` of an operand. -/
def notOf : Nat → Option Bool
  | 0 => none
  | n => some (n % 2 == 1)

/-- The `not` of a group and the one before its parentheses. -/
def mergeNot : Option Bool → Option Bool → Option Bool
  | some true, _ | _, some true => some true
  | some false, _ | _, some false => some false
  | none, none => none

def Expression.setNot : Expression → Option Bool → Expression
  | .mk not lhs op, outer => .mk (mergeNot not outer) lhs op

/-- `simplify_to_json`: a constant, negated where `not` says so. -/
def Expression.simplifyToJson : Expression → Json ⊕ Expression
  | .mk not (.value (.json v)) none => .inl (applyNot not (.owned v)).val
  | .mk _ (.expression e) none => e.simplifyToJson
  | e => .inr e

/-- `ValueOrExpression::from_expression`. -/
def ValueOrExpression.fromExpression (e : Expression) : ValueOrExpression :=
  match e.simplifyToJson with
  | .inl v => .value (.json v)
  | .inr e => .expression e

/-- `Template::simplify_to_string`. -/
def Template.simplifyToString : Template → String ⊕ Template
  | .mk [.notExpression s] _ => .inl s
  | t => .inr t

/-- The pieces, operators and providers that a loop over the pairs of an expression has found. -/
structure Pieces where
  pieces : List ExpressionOrOperator
  notCount : Nat
  providers : RequiredProviders

/-- The start, segments and providers that a loop over the pairs of a path has found. -/
structure PathPieces where
  start : Option PathStart
  rest : List PathSegment
  providers : RequiredProviders

/-- The identifier, arguments and providers that a loop over the pairs of a call has found. -/
structure CallPieces where
  ident : Option String
  args : List ValueOrExpression
  providers : RequiredProviders

/-- `parse_expression`, after its pieces. -/
def Pieces.expression (r : Except Failure Pieces) :
    Except Failure (Expression × RequiredProviders) :=
  r.bind fun ps => (expressionHelper ps.pieces 0).map fun e => (e, ps.providers)

section

variable (x : Externals) (g : Grammar) (vars : Object) (noErr : Bool) (marker : Marker)

/-- `parse_function_call`, after its arguments. -/
def CallPieces.call (r : Except Failure CallPieces) :
    Except Failure ((FunctionCall ⊕ Json) × RequiredProviders) :=
  r.bind fun c =>
    match c.ident with
    | some ident => FunctionCall.new x marker vars ident c.args c.providers
    | none => .error .panic

/-- The name under which a path refers to a provider, or to a field of the request or response. -/
def providerName (s : String) : List PathSegment → String
  | .string next :: _ => if s = "request" ∨ s = "response" then s ++ "." ++ next else s
  | _ => s

/-- `parse_path`, after its segments: a constant is indexed at once. -/
def PathPieces.path (providers : RequiredProviders) (r : Except Failure PathPieces) :
    Except Failure ((Json ⊕ Path) × RequiredProviders) :=
  r.bind fun ps =>
    match ps.start with
    | none => .error .panic
    | some start =>
      let providers2 := match start with
        | .ident s => ps.providers.insert (providerName s ps.rest) marker
        | _ => ps.providers
      let p := Path.mk start ps.rest marker
      match start, providers2.isEmpty with
      | .value _, true =>
        match p.evaluate x (.owned .null) noErr none with
        | .ok v => .ok (.inl v.val, providers)
        | .error e => .error (.executing e)
      | _, _ => .ok (.inr p, providers.extend providers2)

/-- `Template::new` of a text. -/
abbrev TemplateParser := String → RequiredProviders → Except Failure (Template × RequiredProviders)

variable (template : TemplateParser)

/-- `PathSegment::from_str`. -/
def PathSegment.fromStr (s : String) (providers : RequiredProviders) :
    Except Failure (PathSegment × RequiredProviders) :=
  (template s providers).map fun (t, providers) =>
    match t.simplifyToString with
    | .inl s => (.string s, providers)
    | .inr t => (.template t, providers)

/-- `parse_indexed_property`, on the pairs inside. -/
def parseIndexedProperty : List Pair → RequiredProviders →
    Except Failure (PathSegment × RequiredProviders)
  | .mk .string text _ :: _, providers => PathSegment.fromStr template text providers
  | .mk .integer text _ :: _, providers =>
    match usizeOfText text with
    | some n => .ok (.number n, providers)
    | none => .error .panic
  | _, _ => .error .panic

mutual

/-- The loop of `parse_function_call`. -/
def parseFunctionCallPairs : List Pair → CallPieces → Except Failure CallPieces
  | [], c => .ok c
  | pair :: pairs, c => (parseFunctionCallPair pair c).bind (parseFunctionCallPairs pairs)

def parseFunctionCallPair : Pair → CallPieces → Except Failure CallPieces
  | .mk .functionIdent text _, c => .ok { c with ident := some text }
  | .mk .functionArg _ inner, c =>
    (Pieces.expression (parseExpressionPieces inner 0 ⟨[], 0, c.providers⟩)).map
      fun (e, providers) =>
        { c with args := c.args ++ [.fromExpression e], providers := providers }
  | .mk _ _ _, _ => .error .panic

/-- The loop of `parse_path`. -/
def parsePathPairs : List Pair → PathPieces → Except Failure PathPieces
  | [], ps => .ok ps
  | pair :: pairs, ps => (parsePathPair pair ps).bind (parsePathPairs pairs)

def parsePathPair : Pair → PathPieces → Except Failure PathPieces
  | .mk .functionCall _ inner, ps =>
    match ps.start with
    | some _ => .error .panic
    | none =>
      (CallPieces.call x vars marker
        (parseFunctionCallPairs inner ⟨none, [], ps.providers⟩)).map fun (f, providers) =>
          { ps with
            start := some (match f with | .inl f => .functionCall f | .inr v => .value v)
            providers := providers }
  | .mk .jsonIdent text _, ps =>
    match ps.start with
    | none =>
      .ok { ps with
        start := some (match vars.get text with | some v => .value v | none => .ident text) }
    | some _ =>
      (PathSegment.fromStr template text ps.providers).map fun (segment, providers) =>
        { ps with rest := ps.rest ++ [segment], providers := providers }
  | .mk .indexedProperty _ inner, ps =>
    match ps.start with
    | none => .error .panic
    | some _ =>
      (parseIndexedProperty template inner ps.providers).map fun (segment, providers) =>
        { ps with rest := ps.rest ++ [segment], providers := providers }
  | .mk _ _ _, _ => .error .panic

/-- `parse_value`, which looks at the first pair. -/
def parseValue : List Pair → RequiredProviders → Except Failure (Value × RequiredProviders)
  | [], _ => .error .panic
  | pair :: _, providers => parseValuePair pair providers

def parseValuePair : Pair → RequiredProviders → Except Failure (Value × RequiredProviders)
  | .mk .boolean text _, providers =>
    if text = "true" then .ok (.json (.bool true), providers)
    else if text = "false" then .ok (.json (.bool false), providers)
    else .error .panic
  | .mk .null _ _, providers => .ok (.json .null, providers)
  | .mk .jsonPath _ inner, providers =>
    (PathPieces.path x noErr marker providers (parsePathPairs inner ⟨none, [], .new⟩)).map
      fun (p, providers) =>
        match p with
        | .inl v => (.json v, providers)
        | .inr p => (.path p, providers)
  | .mk .string text _, providers =>
    (template text providers).map fun (t, providers) =>
      match t.simplifyToString with
      | .inl s => (.json (.string s), providers)
      | .inr t => (.template t, providers)
  | .mk .integer text _, providers | .mk .decimal text _, providers =>
    match g.number text with
    | some n => .ok (.json (.number n), providers)
    | none => .error .panic
  | .mk _ _ _, _ => .error .panic

/-- `parse_expression_pieces`; an expression before any other piece is one in parentheses. -/
def parseExpressionPieces : List Pair → (startLen : Nat) → Pieces → Except Failure Pieces
  | [], _, ps => .ok ps
  | pair :: pairs, startLen, ps =>
    (parseExpressionPiece pair startLen ps).bind (parseExpressionPieces pairs startLen)

def parseExpressionPiece : Pair → (startLen : Nat) → Pieces → Except Failure Pieces
  | .mk .unaryOperator _ _, _, ps => .ok { ps with notCount := ps.notCount + 1 }
  | .mk .value _ inner, _, ps =>
    (parseValue inner ps.providers).map fun (v, providers) =>
      { pieces := ps.pieces ++ [.expression (.mk (notOf ps.notCount) (.value v) none)]
        notCount := 0
        providers := providers }
  | .mk .expression _ inner, startLen, ps =>
    if ps.pieces.length = startLen then
      (Pieces.expression (parseExpressionPieces inner 0 ⟨[], 0, ps.providers⟩)).map
        fun (e, providers) =>
          { ps with
            pieces := ps.pieces ++ [.expression (e.setNot (notOf ps.notCount))]
            providers := providers }
    else
      (parseExpressionPieces inner ps.pieces.length { ps with notCount := 0 }).map fun ps' =>
        { ps' with notCount := ps.notCount }
  | .mk .infixOperator text _, _, ps =>
    match InfixOperator.ofText text with
    | some op => .ok { ps with pieces := ps.pieces ++ [.operator op] }
    | none => .error .panic
  | .mk .eoi _ _, _, ps => .ok ps
  | .mk _ _ _, _, _ => .error .panic

end

def parseExpression (pairs : List Pair) (providers : RequiredProviders) :
    Except Failure (Expression × RequiredProviders) :=
  Pieces.expression
    (parseExpressionPieces x g vars noErr marker template pairs 0 ⟨[], 0, providers⟩)

/-- One piece of a template; a constant joins the text before it. -/
def Template.newPiece : Pair → List TemplatePiece → RequiredProviders →
    Except Failure (List TemplatePiece × RequiredProviders)
  | .mk .templateExpression _ inner, pieces, providers =>
    (parseExpression x g vars noErr marker template inner providers).map fun (e, providers) =>
      match e.simplifyToJson with
      | .inl v =>
        let s := Json.valueToString x v
        match pieces.getLast? with
        | some (.notExpression t) => (pieces.dropLast ++ [.notExpression (t ++ s)], providers)
        | _ => (pieces ++ [.notExpression s], providers)
      | .inr e => (pieces ++ [.expression (.fromExpression e)], providers)
  | .mk .templateNotExpression text _, pieces, providers =>
    .ok (pieces ++ [.notExpression text], providers)
  | .mk _ _ _, _, _ => .error .panic

def Template.newPieces : List Pair → List TemplatePiece → RequiredProviders →
    Except Failure (List TemplatePiece × RequiredProviders)
  | [], pieces, providers => .ok (pieces, providers)
  | pair :: pairs, pieces, providers =>
    (newPiece x g vars noErr marker template pair pieces providers).bind
      fun (pieces, providers) => newPieces pairs pieces providers

end

section

variable (x : Externals) (g : Grammar) (vars : Object) (noErr : Bool) (marker : Marker)

/-- `Template::new`, for templates nested at most `depth` deep. -/
def Template.new : (depth : Nat) → TemplateParser
  | 0, _, _ => .error .tooDeep
  | depth + 1, t, providers =>
    match g.parse .templateEntryPoint t with
    | none => .error (.invalidExpression marker)
    | some [] => .error .panic
    | some (.mk _ _ inner :: _) =>
      (newPieces x g vars noErr marker (new depth) inner [] providers).map
        fun (pieces, providers) => (.mk pieces noErr, providers)

/-- The expression of a text, before `from_expression`. -/
def parseText (depth : Nat) (text : String) (providers : RequiredProviders) :
    Except Failure (Expression × RequiredProviders) :=
  match g.parse .entryPoint text with
  | none => .error (.invalidExpression marker)
  | some pairs =>
    parseExpression x g vars noErr marker (Template.new x g vars noErr marker depth) pairs providers

/-- `ValueOrExpression::new`. -/
def ValueOrExpression.new (depth : Nat) (text : String) (providers : RequiredProviders) :
    Except Failure (ValueOrExpression × RequiredProviders) :=
  (parseText x g vars noErr marker depth text providers).map fun (e, providers) =>
    (.fromExpression e, providers)

end

end Pewpew.SelectParser
