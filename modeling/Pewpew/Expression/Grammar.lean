import Pewpew.Expression.Conventional

/-! The pairs that the rules of `select.pest` match. -/
namespace Pewpew.SelectParser

/-- `(indexed_property | "." ~ json_ident)*`, in a text of length `n`: what stands after a dot or
between quotation marks is shorter. -/
inductive SegmentPairs (n : Nat) : List Pair → Prop where
  | nil : SegmentPairs n []
  | ident (text : String) {rest : List Pair} (h : text.length < n) (hr : SegmentPairs n rest) :
    SegmentPairs n (.mk .jsonIdent text [] :: rest)
  | string (text s : String) {rest : List Pair} (h : s.length < n) (hr : SegmentPairs n rest) :
    SegmentPairs n (.mk .indexedProperty text [.mk .string s []] :: rest)
  | integer (text s : String) {rest : List Pair} (hr : SegmentPairs n rest) :
    SegmentPairs n (.mk .indexedProperty text [.mk .integer s []] :: rest)

mutual

/-- The pairs inside `expression`, in a text of length `n`: `unary_operator` and `group_expression`
are silent. -/
inductive ExpressionPairs (n : Nat) : List Pair → Prop where
  | value (text : String) {inner tail : List Pair} (hv : ValuePairs n inner)
    (ht : TailPairs n tail) : ExpressionPairs n (.mk .value text inner :: tail)
  | group (text : String) {inner tail : List Pair} (he : ExpressionPairs n inner)
    (ht : TailPairs n tail) : ExpressionPairs n (.mk .expression text inner :: tail)

/-- `(infix_operator ~ expression)*` -/
inductive TailPairs (n : Nat) : List Pair → Prop where
  | nil : TailPairs n []
  | cons (op : InfixOperator) (text : String) {inner tail : List Pair}
    (he : ExpressionPairs n inner) (ht : TailPairs n tail) :
    TailPairs n (.mk .infixOperator op.text [] :: .mk .expression text inner :: tail)

/-- The pair inside `value`: the text between quotation marks is shorter than the whole. -/
inductive ValuePairs (n : Nat) : List Pair → Prop where
  | boolean (b : Bool) : ValuePairs n [.mk .boolean (if b then "true" else "false") []]
  | null : ValuePairs n [.mk .null "null" []]
  | path (text : String) {inner : List Pair} (hp : PathPairs n inner) :
    ValuePairs n [.mk .jsonPath text inner]
  | string (text : String) (h : text.length < n) : ValuePairs n [.mk .string text []]
  | integer (text : String) : ValuePairs n [.mk .integer text []]
  | decimal (text : String) : ValuePairs n [.mk .decimal text []]

/-- The pairs inside `json_path`. -/
inductive PathPairs (n : Nat) : List Pair → Prop where
  | call (text : String) {inner rest : List Pair} (hc : CallPairs n inner)
    (hr : SegmentPairs n rest) : PathPairs n (.mk .functionCall text inner :: rest)
  | ident (text : String) {rest : List Pair} (hr : SegmentPairs n rest) :
    PathPairs n (.mk .jsonIdent text [] :: rest)

/-- The pairs inside `function_call`. -/
inductive CallPairs (n : Nat) : List Pair → Prop where
  | mk (ident : String) {args : List Pair} (ha : ArgPairs n args) :
    CallPairs n (.mk .functionIdent ident [] :: args)

inductive ArgPairs (n : Nat) : List Pair → Prop where
  | nil : ArgPairs n []
  | cons (text text' : String) {inner args : List Pair} (he : ExpressionPairs n inner)
    (ha : ArgPairs n args) :
    ArgPairs n (.mk .functionArg text [.mk .expression text' inner] :: args)

end

/-- The pairs inside `template_entry_point`. -/
inductive TemplatePairs (n : Nat) : List Pair → Prop where
  | nil : TemplatePairs n []
  | text (s : String) {rest : List Pair} (hr : TemplatePairs n rest) :
    TemplatePairs n (.mk .templateNotExpression s [] :: rest)
  | expression (text text' : String) {inner rest : List Pair} (he : ExpressionPairs n inner)
    (hr : TemplatePairs n rest) :
    TemplatePairs n (.mk .templateExpression text [.mk .expression text' inner] :: rest)

/-- What a parser for `select.pest` matches. -/
structure Grammar.Sound (g : Grammar) : Prop where
  entryPoint : ∀ s pairs, g.parse .entryPoint s = some pairs → ∃ text inner,
    pairs = [.mk .expression text inner, .mk .eoi "" []] ∧ ExpressionPairs s.length inner
  templateEntryPoint : ∀ s pairs, g.parse .templateEntryPoint s = some pairs → ∃ text inner,
    pairs = [.mk .templateEntryPoint text inner] ∧ TemplatePairs s.length inner

end Pewpew.SelectParser
