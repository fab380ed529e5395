import Pewpew.Expression.Grammar
import Pewpew.Library.Peg

/-! The rules of `select.pest`, and what pest makes of a text. -/
namespace Pewpew.SelectParser

open Peg (Expr Kind Atomicity)

/-- The rules of `select.pest`. -/
inductive PestRule where
  | WHITESPACE | value | jsonIdent | jsonIdentStart | jsonIdentRest | jsonPath | indexedProperty
  | functionIdent | functionCall | functionArg | QUOTATION_MARK | notQuote | string | stringOuter
  | integer | decimal | number | boolean | null | entryPoint | templateNotExpression
  | templateExpression | templateEntryPoint | expression | groupExpression | unaryOperator
  | infixOperator | EOI

/-- The classes of Unicode that the rules name, of which only those of ASCII are known here. -/
structure UnicodeClasses where
  LETTER : Char → Bool
  LETTER_NUMBER : Char → Bool
  NONSPACING_MARK : Char → Bool
  SPACING_MARK : Char → Bool
  DECIMAL_NUMBER : Char → Bool
  CONNECTOR_PUNCTUATION : Char → Bool
  letter_ascii : ∀ c : Char, c.toNat < 128 → LETTER c = c.isAlpha
  letterNumber_ascii : ∀ c : Char, c.toNat < 128 → LETTER_NUMBER c = false
  nonspacingMark_ascii : ∀ c : Char, c.toNat < 128 → NONSPACING_MARK c = false
  spacingMark_ascii : ∀ c : Char, c.toNat < 128 → SPACING_MARK c = false
  decimalNumber_ascii : ∀ c : Char, c.toNat < 128 → DECIMAL_NUMBER c = c.isDigit
  connectorPunctuation_ascii : ∀ c : Char, c.toNat < 128 → CONNECTOR_PUNCTUATION c = (c == '_')

namespace PestRule

/-- A text of the grammar. -/
def lit (s : String) : Expr PestRule Char := .text s.toList

/-- Ordered choice between texts. -/
def lits (ss : List String) : Expr PestRule Char := .texts (ss.map String.toList)

def ANY : Expr PestRule Char := .char fun _ => true

def ASCII_DIGIT : Expr PestRule Char := .char Char.isDigit

def ASCII_ALPHANUMERIC : Expr PestRule Char := .char Char.isAlphanum

/-- The modifiers of the rules. Only `json_ident` names `json_ident_start` and `json_ident_rest`:
inside an atomic rule they give no pairs, as if they were silent. -/
def kind : PestRule → Kind Rule
  | WHITESPACE | jsonIdentStart | jsonIdentRest | QUOTATION_MARK | notQuote | stringOuter | number
  | entryPoint | groupExpression | unaryOperator => .silent
  | functionArg => .normal .functionArg
  | boolean => .normal .boolean
  | null => .normal .null
  | expression => .normal .expression
  | infixOperator => .normal .infixOperator
  | EOI => .normal .eoi
  | jsonIdent => .atomic .jsonIdent
  | functionIdent => .atomic .functionIdent
  | string => .atomic .string
  | integer => .atomic .integer
  | decimal => .atomic .decimal
  | templateEntryPoint => .atomic .templateEntryPoint
  | value => .compound .value
  | jsonPath => .compound .jsonPath
  | templateNotExpression => .compound .templateNotExpression
  | indexedProperty => .nonAtomic .indexedProperty
  | functionCall => .nonAtomic .functionCall
  | templateExpression => .nonAtomic .templateExpression

variable (C : UnicodeClasses)

/-- The alternatives of `WHITESPACE`. -/
def blanks : List String := [" ", "\n", "\t", "\r\n"]

/-- The alternatives of `infix_operator`. -/
def operators : List String :=
  ["||", "&&", "==", "!=", ">=", ">", "<=", "<", "+", "-", "*", "/", "%"]

/-- The right-hand sides of the rules. -/
def body : PestRule → Expr PestRule Char
  | WHITESPACE => lits blanks
  | value => .choice (.rule boolean) (.choice (.rule null) (.choice (.rule jsonPath)
      (.choice (.rule stringOuter) (.rule number))))
  | jsonIdent => .seq (.rule jsonIdentStart) (.star (.rule jsonIdentRest))
  | jsonIdentStart => .choice (lit "$") (.choice (lit "_") (.choice (.char C.LETTER)
      (.char C.LETTER_NUMBER)))
  | jsonIdentRest => .choice (.rule jsonIdentStart) (.choice (lit "\u200C") (.choice (lit "\u200D")
      (.choice (.char C.NONSPACING_MARK) (.choice (.char C.SPACING_MARK)
        (.choice (.char C.DECIMAL_NUMBER) (.char C.CONNECTOR_PUNCTUATION))))))
  | jsonPath => .seq (.choice (.rule functionCall) (.rule jsonIdent))
      (.star (.choice (.rule indexedProperty) (.seq (lit ".") (.rule jsonIdent))))
  | indexedProperty =>
    .seq (lit "[") (.seq (.choice (.rule stringOuter) (.rule integer)) (lit "]"))
  | functionIdent => .plus (.choice ASCII_ALPHANUMERIC (lit "_"))
  | functionCall => .seq (.rule functionIdent) (.seq (lit "(")
      (.seq (.opt (.seq (.rule functionArg) (.star (.seq (lit ",") (.rule functionArg)))))
        (lit ")")))
  | functionArg => .rule expression
  | QUOTATION_MARK => lits ["\"", "'", "\x60"]
  | notQuote => .seq (.not .peek) ANY
  | string => .star (.choice (.seq (lit "\\") ANY) (.rule notQuote))
  | stringOuter => .seq (.push (.rule QUOTATION_MARK)) (.seq (.rule string) .pop)
  | integer => .seq (.opt (lit "-")) (.plus ASCII_DIGIT)
  | decimal => .seq (.opt (lit "-")) (.seq (.plus ASCII_DIGIT) (.seq (lit ".") (.plus ASCII_DIGIT)))
  | number => .choice (.rule decimal) (.rule integer)
  | boolean => lits ["true", "false"]
  | null => lit "null"
  | entryPoint => .seq .start (.seq (.rule expression) (.rule EOI))
  | templateNotExpression => .plus (.seq (.not (lit "$\x7b")) (.choice (.seq (lit "\\") ANY) ANY))
  | templateExpression => .seq (lit "$\x7b") (.seq (.rule expression) (lit "\x7d"))
  | templateEntryPoint => .seq .start (.seq (.star (.choice (.rule templateExpression)
      (.rule templateNotExpression))) (.rule EOI))
  | expression => .seq (.star (.rule unaryOperator)) (.seq
      (.choice (.rule value) (.rule groupExpression))
        (.star (.seq (.rule infixOperator) (.rule expression))))
  | groupExpression => .seq (lit "(") (.seq (.rule expression) (lit ")"))
  | unaryOperator => lit "!"
  | infixOperator => lits operators
  | EOI => .finish

end PestRule

/-- `select.pest`. -/
def selectPest (C : UnicodeClasses) : Peg.Grammar PestRule Rule Char Pair where
  kind := PestRule.kind
  body := PestRule.body C
  whitespace := .WHITESPACE
  pair rule text inner := .mk rule (String.ofList text) inner

/-- A rule matches at the start of a text. -/
def PestRule.Matches (C : UnicodeClasses) (r : PestRule) (text : String) (pairs : List Pair) :
    Prop :=
  ∃ s, (selectPest C).Gives .nonAtomic (.rule r) ⟨0, text.toList, []⟩ (some (s, pairs))

theorem PestRule.Matches.unique {C : UnicodeClasses} {r : PestRule} {text : String}
    {pairs pairs' : List Pair} (h : r.Matches C text pairs) (h' : r.Matches C text pairs') :
    pairs = pairs' := by
  obtain ⟨s, hs⟩ := h
  obtain ⟨s', hs'⟩ := h'
  exact (Prod.ext_iff.mp (Option.some.inj (hs.unique hs'))).2

/-- A rule matches the whole of a text. -/
def PestRule.MatchesWhole (C : UnicodeClasses) (r : PestRule) (text : String) : Prop :=
  ∃ s pairs, (selectPest C).Gives .nonAtomic (.rule r) ⟨0, text.toList, []⟩ (some (s, pairs)) ∧
    s.rest = []

/-- `Parser::parse` gives what the rules of `select.pest` match. -/
structure Grammar.IsPest (g : Grammar) (C : UnicodeClasses) : Prop where
  entryPoint : ∀ text pairs,
    g.parse .entryPoint text = some pairs ↔ PestRule.entryPoint.Matches C text pairs
  templateEntryPoint : ∀ text pairs,
    g.parse .templateEntryPoint text = some pairs ↔ PestRule.templateEntryPoint.Matches C text pairs

end Pewpew.SelectParser
