import Pewpew.Expression.Iterate
import Pewpew.Expression.Parser
import Pewpew.Library.Fallible

/-! Templates without anything to evaluate, which are to be one text. -/
namespace Pewpew.SelectParser

/-- `is_simple`. -/
def Template.isSimple : Template → Bool
  | .mk [.notExpression _] _ => true
  | _ => false

def Pair.isText : Pair → Bool
  | .mk .templateNotExpression _ _ => true
  | _ => false

/-- The tags of an endpoint that a try run takes for static. -/
def staticTags (x : Externals) (tags : List (String × Template)) :
    Except ExecutingError (List (String × String)) :=
  (tags.filter (·.2.isSimple)).mapM fun (k, t) =>
    (t.evaluate x (.owned .null) none).map fun v => (k, v)

section

variable (x : Externals) (g : Grammar) (vars : Object) (noErr : Bool) (marker : Marker)
  (depth : Nat)

/-- All pieces of a template are constants, with the given string forms, and the providers of its
expressions are added. -/
inductive Constants : List Pair → RequiredProviders → List String → RequiredProviders → Prop
  | nil {p : RequiredProviders} : Constants [] p [] p
  | text {s : String} {inner pairs : List Pair} {p q : RequiredProviders} {pieces : List String}
    (h : Constants pairs p pieces q) :
    Constants (.mk .templateNotExpression s inner :: pairs) p (s :: pieces) q
  | expression {s : String} {inner pairs : List Pair} {p p' q : RequiredProviders} {e : Expression}
    {v : Json} {pieces : List String}
    (he : parseExpression x g vars noErr marker (Template.new x g vars noErr marker depth) inner p =
      .ok (e, p'))
    (hv : e.simplifyToJson = .inl v) (h : Constants pairs p' pieces q) :
    Constants (.mk .templateExpression s inner :: pairs) p (Json.valueToString x v :: pieces) q

/-- A template counts as the text: it is simple, with that text, which it also evaluates to; a
string of a function's argument is a constant with that text, and a tag is static. -/
structure FoldsTo (t s : String) (p q : RequiredProviders) (template : Template) : Prop where
  simple : template.isSimple = true
  text : template.simplifyToString = .inl s
  evaluates : ∀ d forEach, template.evaluate x d forEach = .ok s
  argument : ∀ (textArg textExpression textValue : String) (inner : List Pair) (c : CallPieces),
    c.providers = p →
      parseFunctionCallPair x g vars noErr marker (Template.new x g vars noErr marker (depth + 1))
        (.mk .functionArg textArg
          [.mk .expression textExpression [.mk .value textValue [.mk .string t inner]]]) c =
        .ok { c with args := c.args ++ [.value (.json (.string s))], providers := q }
  tag : ∀ (tags : List (String × Template)) (r : List (String × String)) (k : String),
    staticTags x tags = .ok r → (k, template) ∈ tags → (k, s) ∈ r

end

variable {x : Externals} {g : Grammar} {vars : Object} {noErr : Bool} {marker : Marker}
  {depth : Nat} {pair : Pair} {pairs rest : List Pair} {p q : RequiredProviders}
  {pieces texts : List String} {t s : String} {rule : Rule}

/-- A constant piece joins the last text, if it has been an expression, or is added as another. -/
def foldPiece (texts : List String) (piece : Bool × String) : List String :=
  match texts.getLast?, piece.1 with
  | some last, false => texts.dropLast ++ [last ++ piece.2]
  | _, _ => texts ++ [piece.2]

/-- The texts that a template is left with. -/
def foldPieces (pairs : List Pair) (pieces texts : List String) : List String :=
  ((pairs.map Pair.isText).zip pieces).foldl foldPiece texts

theorem foldPiece_join (texts : List String) (piece : Bool × String) :
    String.join (foldPiece texts piece) = String.join texts ++ piece.2 := by
  rw [foldPiece]
  split
  · next last hlast _ =>
    obtain ⟨init, rfl⟩ := List.getLast?_eq_some_iff.mp hlast
    simp [String.append_assoc]
  · simp

/-- Only a text, or a constant at the start, makes the template longer. -/
theorem foldPiece_length (texts : List String) (piece : Bool × String) :
    (foldPiece texts piece).length =
      texts.length + if piece.1 = true ∨ texts = [] then 1 else 0 := by
  rw [foldPiece]
  split
  · next last hlast hconst =>
    obtain ⟨init, rfl⟩ := List.getLast?_eq_some_iff.mp hlast
    simp [hconst]
  · next hother =>
    have hadds : piece.1 = true ∨ texts = [] := by
      by_contra hnot
      obtain ⟨htext, hne⟩ := not_or.mp hnot
      obtain ⟨last, hlast⟩ := Option.ne_none_iff_exists'.mp (mt List.getLast?_eq_none_iff.mp hne)
      exact hother last hlast (Bool.eq_false_iff.mpr htext)
    simp [hadds]

theorem foldPiece_ne_nil (texts : List String) (piece : Bool × String) :
    foldPiece texts piece ≠ [] := by
  rw [foldPiece]
  split <;> simp

theorem foldPieces_cons : foldPieces (pair :: pairs) (s :: pieces) texts =
    foldPieces pairs pieces (foldPiece texts (pair.isText, s)) := rfl

section Constants

variable (h : Constants x g vars noErr marker depth pairs p pieces q)
include h

/-- The loop over the pieces, by induction on them. -/
theorem newPieces_constants (texts : List String) :
    Template.newPieces x g vars noErr marker (Template.new x g vars noErr marker depth) pairs
      (texts.map .notExpression) p =
      .ok ((foldPieces pairs pieces texts).map .notExpression, q) := by
  induction h generalizing texts with
  | nil => rfl
  | text _ ih =>
    rw [Template.newPieces, Template.newPiece, foldPieces_cons, ← ih]
    simp [Except.bind, foldPiece, Pair.isText]
  | expression he hv _ ih =>
    rw [Template.newPieces, Template.newPiece, foldPieces_cons, he, ← ih]
    simp only [Except.map, Except.bind, hv, foldPiece, Pair.isText, List.getLast?_map]
    cases texts.getLast? with
    | none => simp
    | some last => simp [List.map_dropLast]

theorem foldPieces_join (texts : List String) :
    String.join (foldPieces pairs pieces texts) = String.join texts ++ String.join pieces := by
  induction h generalizing texts with
  | nil => simp [foldPieces]
  | text _ ih => rw [foldPieces_cons, ih, foldPiece_join, String.join_cons, String.append_assoc]
  | expression _ _ _ ih =>
    rw [foldPieces_cons, ih, foldPiece_join, String.join_cons, String.append_assoc]

theorem foldPieces_length {texts : List String} (hne : texts ≠ []) :
    (foldPieces pairs pieces texts).length = texts.length + pairs.countP Pair.isText := by
  induction h generalizing texts with
  | nil => rfl
  | text _ ih =>
    rw [foldPieces_cons, ih (foldPiece_ne_nil _ _), foldPiece_length, List.countP_cons]
    simp [Pair.isText]
    omega
  | expression _ _ _ ih =>
    rw [foldPieces_cons, ih (foldPiece_ne_nil _ _), foldPiece_length, List.countP_cons]
    simp [Pair.isText, hne]

end Constants

/-- A template has pieces, and none after the first is a text. -/
def OneText : List Pair → Prop
  | [] => False
  | _ :: rest => ∀ pair ∈ rest, pair.isText = false

theorem foldPieces_one (h : Constants x g vars noErr marker depth pairs p pieces q) :
    (foldPieces pairs pieces []).length = 1 ↔ OneText pairs := by
  have hrest {pair : Pair} {pairs : List Pair} {s : String} {pieces : List String}
      {p q : RequiredProviders} (h : Constants x g vars noErr marker depth pairs p pieces q) :
      (foldPieces (pair :: pairs) (s :: pieces) []).length = 1 ↔ OneText (pair :: pairs) := by
    rw [foldPieces_cons, foldPieces_length h (foldPiece_ne_nil _ _), foldPiece_length,
      if_pos (.inr rfl), List.length_nil, Nat.zero_add, Nat.add_eq_left, List.countP_eq_zero]
    simp [OneText]
  cases h with
  | nil => simp [foldPieces, OneText]
  | text h => exact hrest h
  | expression he hv h => exact hrest h

theorem evaluatePieces_texts (texts : List String) (d : Cow) (noErr : Bool)
    (forEach : Option (List Cow)) :
    evaluatePieces x (texts.map .notExpression) d noErr forEach = .ok texts := by
  induction texts with
  | nil => rfl
  | cons s texts ih =>
    rw [List.map_cons, evaluatePieces, TemplatePiece.evaluate, ih]
    rfl

/-- A template of texts is one text exactly if there is one. -/
theorem isSimple_texts (texts : List String) :
    (Template.mk (texts.map .notExpression) noErr).isSimple = true ↔ texts.length = 1 := by
  match texts with
  | [] => simp [Template.isSimple]
  | [s] => simp [Template.isSimple]
  | s :: s' :: texts => simp [Template.isSimple]

theorem evaluate_texts (texts : List String) (d : Cow) (forEach : Option (List Cow)) :
    (Template.mk (texts.map .notExpression) noErr).evaluate x d forEach =
      .ok (String.join texts) := by
  rw [Template.evaluate, evaluatePieces_texts]
  rfl

/-- A simple template among the tags is a static one, with the text that it evaluates to. -/
theorem mem_staticTags {tags : List (String × Template)} {r : List (String × String)} {k : String}
    {template : Template} (hr : staticTags x tags = .ok r) (hmem : (k, template) ∈ tags)
    (hsimple : template.isSimple = true)
    (hs : template.evaluate x (.owned .null) none = .ok s) : (k, s) ∈ r := by
  have hstatic : (k, template) ∈ tags.filter (·.2.isSimple) := List.mem_filter.mpr ⟨hmem, hsimple⟩
  have htag := List.mem_map_of_mem (f := fun e : String × Template =>
    (e.2.evaluate x (.owned .null) none).map fun v => (e.1, v)) hstatic
  rw [Fallible.mapM_eq_map hr, hs] at htag
  obtain ⟨tag, htag, heq⟩ := List.mem_map.mp htag
  cases heq
  exact htag

theorem new_constants (hparse : g.parse .templateEntryPoint t = some (.mk rule s pairs :: rest))
    (h : Constants x g vars noErr marker depth pairs p pieces q) :
    Template.new x g vars noErr marker (depth + 1) t p =
      .ok (.mk ((foldPieces pairs pieces []).map .notExpression) noErr, q) := by
  have hpieces := newPieces_constants h []
  rw [List.map_nil] at hpieces
  simp only [Template.new, hparse, hpieces, Except.map]

/-- A template of constants counts as their text exactly if it is not empty, and has no text after
its first piece. -/
theorem folds_iff (hparse : g.parse .templateEntryPoint t = some (.mk rule s pairs :: rest))
    (h : Constants x g vars noErr marker depth pairs p pieces q) :
    ∃ template, Template.new x g vars noErr marker (depth + 1) t p = .ok (template, q) ∧
      (FoldsTo x g vars noErr marker depth t (String.join pieces) p q template ↔
        OneText pairs) := by
  have hnew := new_constants hparse h
  refine ⟨_, hnew, fun hfolds => ?_, fun hone => ?_⟩
  · exact (foldPieces_one h).mp ((isSimple_texts _).mp hfolds.simple)
  · obtain ⟨text, htext⟩ := List.length_eq_one_iff.mp ((foldPieces_one h).mpr hone)
    have hjoin : text = String.join pieces := by
      simpa [htext] using foldPieces_join h []
    have hevaluates : ∀ d forEach, (Template.mk ((foldPieces pairs pieces []).map .notExpression)
        noErr).evaluate x d forEach = .ok (String.join pieces) := by
      intro d forEach
      rw [evaluate_texts, foldPieces_join h, String.join_nil, String.empty_append]
    have hsimple : (Template.mk ((foldPieces pairs pieces []).map .notExpression)
        noErr).isSimple = true := (isSimple_texts _).mpr ((foldPieces_one h).mpr hone)
    refine ⟨hsimple, ?_, hevaluates, ?_, ?_⟩
    · rw [htext, hjoin]
      rfl
    · rintro textArg textExpression textValue inner c rfl
      rw [htext, hjoin] at hnew
      simp [parseFunctionCallPair, parseExpressionPieces, parseExpressionPiece, parseValue,
        parseValuePair, Pieces.expression, hnew, Template.simplifyToString, notOf, Except.bind,
        Except.map, expressionHelper_single, Expression.setNot, mergeNot,
        ValueOrExpression.fromExpression, Expression.simplifyToJson, applyNot]
    · intro tags r k hr hmem
      exact mem_staticTags hr hmem hsimple (hevaluates _ _)

/-- The pair of `${1}`. -/
def constantOne : Pair :=
  .mk .templateExpression "${1}" [.mk .expression "1" [.mk .value "1" [.mk .integer "1" []]]]

/-- The matches of `a${1}` and `${1}a`. -/
def oneGrammar : Grammar where
  parse rule text :=
    if rule = .templateEntryPoint ∧ text = "a${1}" then
      some [.mk rule text [.mk .templateNotExpression "a" [], constantOne]]
    else if rule = .templateEntryPoint ∧ text = "${1}a" then
      some [.mk rule text [constantOne, .mk .templateNotExpression "a" []]]
    else none
  number text := if text = "1" then some (.int 1) else none

theorem constants_one (h : Constants .plain oneGrammar [] false ⟨1, 1⟩ depth pairs p pieces q) :
    Constants .plain oneGrammar [] false ⟨1, 1⟩ depth (constantOne :: pairs) p ("1" :: pieces)
      q := by
  refine .expression (e := .mk none (.value (.json (.ofNat 1))) none) ?_ rfl h
  simp [parseExpression, parseExpressionPieces, parseExpressionPiece, parseValue, parseValuePair,
    Pieces.expression, oneGrammar, notOf, Except.bind, Except.map, expressionHelper_single,
    Expression.setNot, mergeNot, Json.ofNat]

theorem folds_iff_one :
    ∃ template, Template.new .plain oneGrammar [] false ⟨1, 1⟩ 1 "a${1}" .new =
        .ok (template, .new) ∧
      FoldsTo .plain oneGrammar [] false ⟨1, 1⟩ 0 "a${1}" "a1" .new .new template := by
  obtain ⟨template, hnew, hfolds⟩ := folds_iff (x := .plain) (g := oneGrammar) (t := "a${1}")
    (by rfl) (.text (constants_one .nil))
  exact ⟨template, hnew, hfolds.mpr (by simp [OneText, constantOne, Pair.isText])⟩

/-- The constant at the start of `${1}a` and the text after it stay two pieces. -/
theorem not_folds :
    ¬ ∀ (x : Externals) (g : Grammar) (vars : Object) (noErr : Bool) (marker : Marker)
      (depth : Nat) (t text : String) (rule : Rule) (pairs rest : List Pair) (pieces : List String)
      (p q : RequiredProviders) (template : Template),
      g.parse .templateEntryPoint t = some (.mk rule text pairs :: rest) →
        Constants x g vars noErr marker depth pairs p pieces q →
          Template.new x g vars noErr marker (depth + 1) t p = .ok (template, q) →
            FoldsTo x g vars noErr marker depth t (String.join pieces) p q template := by
  intro h
  have htext : Constants .plain oneGrammar [] false ⟨1, 1⟩ 0 [.mk .templateNotExpression "a" []]
      .new ["a"] .new := .text .nil
  have hconst := constants_one htext
  have hparse : oneGrammar.parse .templateEntryPoint "${1}a" =
      some [.mk .templateEntryPoint "${1}a" [constantOne, .mk .templateNotExpression "a" []]] := by
    rfl
  have hfolds := h .plain oneGrammar [] false ⟨1, 1⟩ 0 "${1}a" _ _ _ _ _ _ _ _ hparse hconst
    (new_constants hparse hconst)
  exact absurd hfolds.simple (by decide)

end Pewpew.SelectParser
