import Pewpew.Expression.Select
import Pewpew.Library.Extending

/-! Parsing extends the providers that have been noted, in a way that does not depend on them. -/
namespace Pewpew.SelectParser

open RequiredProviders Extending

/-- What a parser leaves has the bits of `p` and, of both kinds, the same others. -/
def Grown {σ : Type} (providers : σ → RequiredProviders) (p : RequiredProviders)
    (r : Except Failure σ) : Prop :=
  ∀ t, r = .ok t → ∃ bits, Adds bits p (providers t)

/-- Both kinds of bits are the same. -/
def RequiredProviders.Balanced (p : RequiredProviders) : Prop := p.whereSpecial = p.special

/-- A parser that only extends the providers it is given. -/
abbrev Appends {σ : Type}
    (f : RequiredProviders → Except Failure (σ × RequiredProviders)) : Prop :=
  Extends RequiredProviders.extend Prod.mk f

/-- A name that a parser notes on its own. -/
def Notes {σ : Type} (f : RequiredProviders → Except Failure (σ × RequiredProviders))
    (s : String) : Prop :=
  ∃ a q, f .new = .ok (a, q) ∧ s ∈ q.inner

section Extended

variable {σ : Type} {f : RequiredProviders → Except Failure (σ × RequiredProviders)}
  {p q : RequiredProviders} {s : String} {a : σ}

theorem mem_extendAll {l : List RequiredProviders} :
    s ∈ (l.foldl extend p).inner ↔ s ∈ p.inner ∨ ∃ q ∈ l, s ∈ q.inner := by
  induction l generalizing p with
  | nil => simp
  | cons q l ih => rw [List.foldl_cons, ih, mem_extend, List.exists_mem_cons_iff, or_assoc]

theorem adds_extendAll (l : List RequiredProviders) :
    ∃ bits, Adds bits p (l.foldl extend p) := by
  induction l generalizing p with
  | nil => exact ⟨0, adds_zero⟩
  | cons q l ih =>
    obtain ⟨bits, hbits⟩ := ih (p := p.extend q)
    exact ⟨q.special ||| bits, adds_extend.trans hbits⟩

theorem grown_of_appends (hf : Appends f) : Grown Prod.snd p (f p) := by
  intro t ht
  obtain ⟨a, others, rfl, -⟩ := hf.of_ok ht
  exact adds_extendAll others

theorem grown_extend {τ : Type} {providers : τ → RequiredProviders} {t : τ}
    (h : providers t = p.extend q) : Grown providers p (.ok t) := by
  rintro _ ⟨⟩
  exact ⟨q.special, h ▸ adds_extend⟩

theorem Grown.balanced {τ : Type} {providers : τ → RequiredProviders} {r : Except Failure τ}
    (hr : Grown providers p r) (hp : p.Balanced) {t : τ} (h : r = .ok t) :
    (providers t).Balanced := by
  obtain ⟨bits, hs, hw, -⟩ := hr t h
  rw [RequiredProviders.Balanced, hs, hw, show p.whereSpecial = p.special from hp]

theorem notes_iff (h : f .new = .ok (a, q)) : Notes f s ↔ s ∈ q.inner := by
  constructor
  · rintro ⟨b, q', h', hs⟩
    rw [h] at h'
    cases h'
    exact hs
  · exact fun hs => ⟨a, q, h, hs⟩

/-- A parser adds the names that it notes on its own. -/
theorem mem_of_appends (hf : Appends f) (h : f p = .ok (a, q)) :
    s ∈ q.inner ↔ s ∈ p.inner ∨ Notes f s := by
  obtain ⟨b, others, heq, hall⟩ := hf.of_ok h
  obtain ⟨rfl, rfl⟩ := Prod.mk.inj heq
  rw [notes_iff (hall .new), mem_extendAll, mem_extendAll]
  exact or_congr_right (or_iff_right Std.ExtTreeMap.not_mem_empty).symm

end Extended

section Parse

variable {x : Externals} {g : Grammar} {vars : Object} {noErr : Bool} {marker : Marker}
  {template : TemplateParser}

/-- Templates of a text are parsed so. -/
abbrev TemplateAppends (template : TemplateParser) : Prop := ∀ s, Appends (template s)

/-- The same of a parser of pieces. -/
abbrev PiecesAppend (f : RequiredProviders → Except Failure Pieces) : Prop :=
  Extends RequiredProviders.extend
    (fun (s : List ExpressionOrOperator × Nat) p => Pieces.mk s.1 s.2 p) f

theorem pieces_appends (ps : List ExpressionOrOperator) (notCount : Nat) :
    PiecesAppend fun p => .ok ⟨ps, notCount, p⟩ := extends_ok (ps, notCount)

/-- A path is parsed on its own. -/
theorem PathPieces.path_appends (r : Except Failure PathPieces) :
    Appends fun p => PathPieces.path x noErr marker p r := by
  cases r with
  | error f => exact extends_error f
  | ok ps =>
    obtain ⟨start, rest, noted⟩ := ps
    cases start with
    | none => exact extends_error Failure.panic
    | some start =>
      simp only [PathPieces.path, Except.bind]
      split
      · split
        · exact extends_ok _
        · exact extends_error _
      · exact extends_ext _ _

theorem Pieces.expression_appends {f : RequiredProviders → Except Failure Pieces}
    (hf : PiecesAppend f) : Appends fun p => Pieces.expression (f p) := by
  refine hf.bind fun s => ?_
  cases hs : expressionHelper s.1 0 with
  | error f =>
    simp only [hs]
    exact extends_error f
  | ok e =>
    simp only [hs]
    exact extends_ok e

mutual

theorem parseValue_appends (ht : TemplateAppends template) (pairs : List Pair) :
    Appends (parseValue x g vars noErr marker template pairs) := by
  cases pairs with
  | nil => exact extends_error Failure.panic
  | cons pair pairs =>
    simp only [parseValue]
    exact parseValuePair_appends ht pair

theorem parseValuePair_appends (ht : TemplateAppends template) (pair : Pair) :
    Appends (parseValuePair x g vars noErr marker template pair) := by
  obtain ⟨rule, text, inner⟩ := pair
  cases rule with
  | boolean =>
    simp only [parseValuePair]
    split
    · exact extends_ok _
    · split
      · exact extends_ok _
      · exact extends_error _
  | null =>
    simp only [parseValuePair]
    exact extends_ok _
  | jsonPath =>
    simp only [parseValuePair]
    refine (PathPieces.path_appends _).map fun p => ?_
    cases p with
    | inl v => exact ⟨_, fun _ => rfl⟩
    | inr p => exact ⟨_, fun _ => rfl⟩
  | string =>
    simp only [parseValuePair]
    refine (ht text).map fun t => ?_
    dsimp only
    split
    · exact ⟨_, fun _ => rfl⟩
    · exact ⟨_, fun _ => rfl⟩
  | integer | decimal =>
    simp only [parseValuePair]
    split
    · exact extends_ok _
    · exact extends_error _
  | _ => simp only [parseValuePair]; exact extends_error _

theorem parseExpressionPieces_appends (ht : TemplateAppends template) (pairs : List Pair)
    (startLen : Nat) (ps : List ExpressionOrOperator) (notCount : Nat) :
    PiecesAppend fun p =>
      parseExpressionPieces x g vars noErr marker template pairs startLen ⟨ps, notCount, p⟩ := by
  cases pairs with
  | nil =>
    simp only [parseExpressionPieces]
    exact pieces_appends ps notCount
  | cons pair pairs =>
    simp only [parseExpressionPieces]
    refine (parseExpressionPiece_appends ht pair startLen ps notCount).bind fun s => ?_
    exact parseExpressionPieces_appends ht pairs startLen s.1 s.2

theorem parseExpressionPiece_appends (ht : TemplateAppends template) (pair : Pair)
    (startLen : Nat) (ps : List ExpressionOrOperator) (notCount : Nat) :
    PiecesAppend fun p =>
      parseExpressionPiece x g vars noErr marker template pair startLen ⟨ps, notCount, p⟩ := by
  obtain ⟨rule, text, inner⟩ := pair
  cases rule with
  | unaryOperator =>
    simp only [parseExpressionPiece]
    exact pieces_appends ps (notCount + 1)
  | value =>
    simp only [parseExpressionPiece]
    exact (parseValue_appends ht inner).map fun v =>
      ⟨(ps ++ [.expression (.mk (notOf notCount) (.value v) none)], 0), fun _ => rfl⟩
  | expression =>
    simp only [parseExpressionPiece]
    split
    · exact (Pieces.expression_appends (parseExpressionPieces_appends ht inner 0 [] 0)).map
        fun e => ⟨(ps ++ [.expression (e.setNot (notOf notCount))], notCount), fun _ => rfl⟩
    · exact (parseExpressionPieces_appends ht inner _ ps 0).map
        fun s => ⟨(s.1, notCount), fun _ => rfl⟩
  | infixOperator =>
    simp only [parseExpressionPiece]
    split
    · exact pieces_appends _ notCount
    · exact extends_error _
  | eoi =>
    simp only [parseExpressionPiece]
    exact pieces_appends ps notCount
  | _ => simp only [parseExpressionPiece]; exact extends_error _

end

theorem parseExpression_appends (ht : TemplateAppends template) (pairs : List Pair) :
    Appends (parseExpression x g vars noErr marker template pairs) :=
  Pieces.expression_appends (parseExpressionPieces_appends ht pairs 0 [] 0)

theorem Template.newPiece_appends (ht : TemplateAppends template) (pair : Pair)
    (pieces : List TemplatePiece) :
    Appends fun p => newPiece x g vars noErr marker template pair pieces p := by
  obtain ⟨rule, text, inner⟩ := pair
  cases rule with
  | templateExpression =>
    simp only [newPiece]
    refine (parseExpression_appends ht inner).map fun e => ?_
    dsimp only
    split
    · split
      · exact ⟨_, fun _ => rfl⟩
      · exact ⟨_, fun _ => rfl⟩
    · exact ⟨_, fun _ => rfl⟩
  | templateNotExpression =>
    simp only [newPiece]
    exact extends_ok _
  | _ => simp only [newPiece]; exact extends_error _

theorem Template.newPieces_appends (ht : TemplateAppends template) (pairs : List Pair)
    (pieces : List TemplatePiece) :
    Appends fun p => newPieces x g vars noErr marker template pairs pieces p := by
  induction pairs generalizing pieces with
  | nil => exact extends_ok pieces
  | cons pair pairs ih =>
    simp only [newPieces]
    exact (newPiece_appends ht pair pieces).bind fun pieces => ih pieces

/-- By induction on the bound of nested templates. -/
theorem Template.new_appends (depth : Nat) :
    TemplateAppends (Template.new x g vars noErr marker depth) := by
  induction depth with
  | zero => exact fun _ => extends_error Failure.tooDeep
  | succ depth ih =>
    intro s
    simp only [Template.new]
    split
    · exact extends_error _
    · exact extends_error _
    · exact (newPieces_appends ih _ []).map fun pieces => ⟨.mk pieces noErr, fun _ => rfl⟩

theorem Template.new_grows (depth : Nat) (s : String) (p : RequiredProviders) :
    Grown Prod.snd p (Template.new x g vars noErr marker depth s p) :=
  grown_of_appends (Template.new_appends depth s)

namespace Select

variable {depth : Nat}

theorem newJoin_appends (v : WithMarker String) :
    Appends fun p => newJoin x g vars noErr depth v p := by
  simp only [newJoin]
  cases parseText x g vars noErr v.marker depth v.inner .new with
  | error f => exact extends_error f
  | ok r =>
    simp only [Except.bind]
    split
    · exact extends_error _
    · exact extends_ext _ _

theorem newJoins_appends (vs : List (WithMarker String)) :
    Appends fun p => newJoins x g vars noErr depth vs p := by
  induction vs with
  | nil => exact extends_ok []
  | cons v vs ih =>
    simp only [newJoins]
    refine (newJoin_appends v).bind fun e => ?_
    dsimp only
    exact ih.map fun es => ⟨e :: es, fun _ => rfl⟩

theorem newWhere_appends (hasJoin : Bool) (clause : Option (WithMarker String)) :
    Appends fun p => newWhere x g vars noErr depth hasJoin clause p := by
  cases clause with
  | none => exact extends_ok (none, false)
  | some v =>
    simp only [newWhere]
    cases parseText x g vars noErr v.marker depth v.inner RequiredProviders.new.setIsWhere with
    | error f => exact extends_error f
    | ok r =>
      simp only [Except.bind]
      split
      · exact extends_error _
      · exact extends_ext _ _

theorem new_appends (provides : EndpointProvidesPreProcessed) :
    Appends fun p => Select.new x g vars noErr depth provides p := by
  unfold Select.new
  refine (newJoins_appends provides.forEach).bind fun join => ?_
  simp only [Bool.and_eq_true]
  refine (newWhere_appends _ provides.whereClause).bind fun w => ?_
  cases parseSelect x g vars noErr depth provides.select.marker provides.select.inner .new with
  | error f => exact extends_error f
  | ok r =>
    simp only [Except.bind]
    split
    · exact extends_error _
    · exact extends_ext _ _

theorem new_grows (provides : EndpointProvidesPreProcessed) (p : RequiredProviders) :
    Grown Prod.snd p (Select.new x g vars noErr depth provides p) :=
  grown_of_appends (new_appends provides)

end Select

end Parse

end Pewpew.SelectParser
