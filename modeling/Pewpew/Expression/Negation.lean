import Pewpew.Expression.Conventional

/-! What a run of `!` before an operand does to it, in any surroundings. -/
namespace Pewpew.SelectParser

open Precedence

/-- Surroundings of an operand: the operators and operands around it, and parentheses. -/
inductive Surroundings where
  | hole (after : ExpressionTail)
  | before (o : Operand) (op : InfixOperator) (c : Surroundings)
  | group (c : Surroundings) (after : ExpressionTail)

section

variable (x : Externals) (g : Grammar) (vars : Object) (noErr : Bool) (marker : Marker)
  (template : TemplateParser)

/-- The match of `n` times `!` and an operand in its surroundings. -/
def Surroundings.place (n : Nat) (o : Operand) : Surroundings → ExpressionMatch
  | hole after => .mk "" n o after
  | before first op c => .mk "" 0 first (.cons op (c.place n o) .nil)
  | group c after => .mk "" 0 (.group (c.place n o)) after

/-- The reading in which the operand is negated `n` times; all else is read as it is parsed. -/
def Surroundings.readNegated (n : Nat) (o : Operand) : Surroundings → RequiredProviders →
    Except Failure ((Meaning × List (InfixOperator × Meaning)) × RequiredProviders)
  | hole after, providers =>
    (o.read x g vars noErr marker template silent providers).bind fun (f, providers) =>
      (after.read x g vars noErr marker template silent providers).map fun (rest, providers) =>
        ((negate n f, rest), providers)
  | before first op c, providers =>
    (first.read x g vars noErr marker template silent providers).bind fun (f, providers) =>
      (c.readNegated n o providers).map fun (s, providers) =>
        ((f, (op, s.1) :: s.2), providers)
  | group c after, providers =>
    (c.readNegated n o providers).bind fun (s, providers) =>
      (after.read x g vars noErr marker template silent providers).map fun (rest, providers) =>
        ((meaning s.1 s.2, rest), providers)

/-- In its surroundings, an operand after `n` times `!` is parsed as negated `n` times: the whole
has the value or error, on the given data, that it has with the negated operand. -/
def NegatesIn (c : Surroundings) (n : Nat) (o : Operand) (providers : RequiredProviders)
    (d : Json) (noErr' : Bool) (forEach : Option (List Cow)) : Prop :=
  Follows
    (fun a b =>
      ((ValueOrExpression.fromExpression a.1).evaluate x (.borrowed d) noErr' forEach).map Cow.val =
        (meaning b.1.1 b.1.2 (.borrowed d) noErr' forEach).map Cow.val)
    (parseExpression x g vars noErr marker template (c.place n o).entryPairs providers)
    (c.readNegated x g vars noErr marker template n o providers)

/-- On the given data the operand is an error, or a boolean that an even run of `!` keeps. -/
def KeptByNegation (n : Nat) (o : Operand) (d : Json) (noErr' : Bool)
    (forEach : Option (List Cow)) : Prop :=
  ∀ providers f providers', o.read x g vars noErr marker template silent providers =
      .ok (f, providers') →
    ∀ v, f (.borrowed d) noErr' forEach = .ok v → n % 2 = 0 ∧ ∃ b, v.val = .bool b

end

section

variable {x : Externals} {g : Grammar} {vars : Object} {noErr : Bool} {marker : Marker}
  {template : TemplateParser} {n : Nat} {o : Operand} {d : Json} {noErr' : Bool}
  {forEach : Option (List Cow)} {f f' : Meaning}

/-- Two meanings have the same value or error on the given data. -/
def SameOn (d : Json) (noErr' : Bool) (forEach : Option (List Cow)) (f f' : Meaning) : Prop :=
  (f (.borrowed d) noErr' forEach).map Cow.val = (f' (.borrowed d) noErr' forEach).map Cow.val

theorem combine_sameOn (op : InfixOperator) (l l' r r' : Meaning)
    (hl : SameOn d noErr' forEach l l') (hr : SameOn d noErr' forEach r r') :
    SameOn d noErr' forEach (op.combine l r) (op.combine l' r') := by
  simp only [SameOn, InfixOperator.combine, Cow.borrow, Cow.val_borrowed] at hl hr ⊢
  cases hlv : l (.borrowed d) noErr' forEach <;> cases hlv' : l' (.borrowed d) noErr' forEach <;>
    simp only [hlv, hlv', Except.map, Except.ok.injEq, Except.error.injEq, reduceCtorEq] at hl ⊢
  · exact hl
  · rw [hl]
    cases op.decides _ with
    | some b => rfl
    | none =>
      cases hrv : r (.borrowed d) noErr' forEach <;>
        cases hrv' : r' (.borrowed d) noErr' forEach <;>
          simp_all [Except.map]

theorem meaning_sameOn {fs fs' : List (InfixOperator × Meaning)}
    (h : SameOn d noErr' forEach f f')
    (hs : List.Forall₂ (fun p q => p.1 = q.1 ∧ SameOn d noErr' forEach p.2 q.2) fs fs') :
    SameOn d noErr' forEach (meaning f fs) (meaning f' fs') :=
  (Tree.Rel.conventional h hs).fold combine_sameOn

theorem negate_succ {c : Cow} :
    negate (n + 1) f c noErr' forEach =
      (negate n f c noErr' forEach).map fun v => .owned (.bool (!v.val.boolValue)) := rfl

theorem negate_error {c : Cow} {e : ExecutingError} (h : f c noErr' forEach = .error e) :
    negate n f c noErr' forEach = .error e := by
  induction n with
  | zero => exact h
  | succ n ih => rw [negate_succ, ih]; rfl

theorem negate_ok {c v : Cow} (h : f c noErr' forEach = .ok v) :
    (negate (n + 1) f c noErr' forEach).map Cow.val =
      .ok (.bool (if (n + 1) % 2 = 0 then v.val.boolValue else !v.val.boolValue)) := by
  induction n with
  | zero => rw [negate_succ, negate, h]; rfl
  | succ n ih =>
    rw [negate_succ]
    cases hn : negate (n + 1) f c noErr' forEach with
    | error e => simp [hn, Except.map] at ih
    | ok w =>
      simp only [hn, Except.map, Except.ok.injEq] at ih
      have hmod : (n + 1 + 1) % 2 = 0 ↔ ¬(n + 1) % 2 = 0 := by omega
      simp only [Except.map, Cow.val_owned, ih, Json.boolValue, hmod]
      split <;> simp

/-- Negation keeps what it is applied to, on the given data. -/
theorem negate_sameOn_iff :
    SameOn d noErr' forEach f (negate n f) ↔
      n = 0 ∨ ∀ v, f (.borrowed d) noErr' forEach = .ok v → n % 2 = 0 ∧ ∃ b, v.val = .bool b := by
  cases n with
  | zero => simp [SameOn, negate]
  | succ n =>
    cases hf : f (.borrowed d) noErr' forEach with
    | error e => simp [SameOn, negate_error hf, hf]
    | ok v =>
      rw [SameOn, hf, negate_ok hf]
      simp only [Except.map, Except.ok.injEq, Nat.add_one_ne_zero, false_or, forall_eq']
      constructor
      · intro h
        refine ⟨?_, _, h⟩
        by_contra hodd
        rw [if_neg hodd] at h
        rw [h, Json.boolValue] at h
        simp at h
      · rintro ⟨heven, b, hb⟩
        rw [if_pos heven, hb, Json.boolValue]

/-- Rows of meanings that are the same on the given data. -/
def SameRow (d : Json) (noErr' : Bool) (forEach : Option (List Cow))
    (s s' : Meaning × List (InfixOperator × Meaning)) : Prop :=
  SameOn d noErr' forEach s.1 s'.1 ∧
    List.Forall₂ (fun p q => p.1 = q.1 ∧ SameOn d noErr' forEach p.2 q.2) s.2 s'.2

theorem sameRow_rfl (fs : List (InfixOperator × Meaning)) :
    List.Forall₂ (fun p q => p.1 = q.1 ∧ SameOn d noErr' forEach p.2 q.2) fs fs :=
  List.forall₂_same.mpr fun _ _ => ⟨rfl, rfl⟩

/-- The same row after the same providers, or the same failure. -/
abbrev SameRead (d : Json) (noErr' : Bool) (forEach : Option (List Cow)) :
    Except Failure ((Meaning × List (InfixOperator × Meaning)) × RequiredProviders) →
      Except Failure ((Meaning × List (InfixOperator × Meaning)) × RequiredProviders) → Prop :=
  Follows fun a b => SameRow d noErr' forEach a.1 b.1 ∧ a.2 = b.2

/-- Where negation keeps the operand, all surroundings read the same with and without it. -/
theorem Surroundings.read_sameRead (c : Surroundings) (providers : RequiredProviders)
    (h : n = 0 ∨ KeptByNegation x g vars noErr marker template n o d noErr' forEach) :
    SameRead d noErr' forEach
      ((c.place n o).read x g vars noErr marker template silent providers)
      (c.readNegated x g vars noErr marker template n o providers) := by
  induction c generalizing providers with
  | hole after =>
    simp only [place, ExpressionMatch.read, readNegated]
    cases ho : o.read x g vars noErr marker template silent providers with
    | error e => rfl
    | ok s =>
      obtain ⟨f, providers'⟩ := s
      have hf : SameOn d noErr' forEach f (negate n f) :=
        negate_sameOn_iff.mpr (h.imp_right fun h => h providers f providers' ho)
      refine (Follows.of_eq _).map ?_
      rintro ⟨rest, providers⟩ _ rfl
      exact ⟨⟨hf, sameRow_rfl rest⟩, rfl⟩
  | before first op c ih =>
    simp only [place, ExpressionMatch.read, ExpressionTail.read, readNegated]
    refine (Follows.of_eq _).bind ?_
    rintro ⟨f, providers⟩ _ rfl
    have hc := ih providers
    cases hs : c.readNegated x g vars noErr marker template n o providers with
    | error e =>
      rw [hs] at hc
      obtain hc : _ = _ := hc
      simp [hc, Except.bind, Except.map, Follows]
    | ok s =>
      rw [hs] at hc
      obtain ⟨⟨⟨f', rest⟩, providers⟩, hr, ⟨hf, hrest⟩, rfl⟩ := hc
      refine ⟨((f, (op, f') :: rest), s.2), ?_, ⟨rfl, .cons ⟨rfl, hf⟩ hrest⟩, rfl⟩
      simp [hr, Except.bind, Except.map, silent]
  | group c after ih =>
    simp only [place, ExpressionMatch.read, Operand.read, readNegated]
    have hmeaning : Follows (fun (a : Meaning × RequiredProviders)
          (b : (Meaning × List (InfixOperator × Meaning)) × RequiredProviders) =>
            SameOn d noErr' forEach a.1 (meaning b.1.1 b.1.2) ∧ a.2 = b.2)
        (((c.place n o).read x g vars noErr marker template silent providers).map
          fun (s, providers) => (meaning s.1 s.2, providers)) _ :=
      (ih providers).map_left fun _ _ ⟨⟨hf, hrest⟩, h⟩ => ⟨meaning_sameOn hf hrest, h⟩
    refine hmeaning.bind ?_
    rintro ⟨f, providers⟩ ⟨s, _⟩ ⟨hf, rfl⟩
    refine (Follows.of_eq _).map ?_
    rintro ⟨rest, providers⟩ _ rfl
    exact ⟨⟨hf, sameRow_rfl rest⟩, rfl⟩

/-- Without surroundings, a run of `!` acts as negation only where negation changes nothing. -/
theorem negatesAlone_imp_kept
    (h : ∀ providers,
      NegatesIn x g vars noErr marker template (.hole .nil) n o providers d noErr' forEach) :
    n = 0 ∨ KeptByNegation x g vars noErr marker template n o d noErr' forEach := by
  by_cases hn : n = 0
  · exact .inl hn
  · refine .inr fun providers f providers' ho => ?_
    have hread : ((Surroundings.hole .nil).place n o).read x g vars noErr marker template silent
        providers = .ok ((f, []), providers') := by
      simp [Surroundings.place, ExpressionMatch.read, ExpressionTail.read, ho, Except.bind,
        Except.map, silent]
    have hneg : (Surroundings.hole .nil).readNegated x g vars noErr marker template n o
        providers = .ok ((negate n f, []), providers') := by
      simp [Surroundings.readNegated, ExpressionTail.read, ho, Except.bind, Except.map]
    have hparse : Follows _ (parseExpression x g vars noErr marker template
        ((Surroundings.hole .nil).place n o).entryPairs providers) _ := parseExpression_follows
    rw [hread] at hparse
    obtain ⟨⟨e, _⟩, he, ⟨hp, hmeans⟩, -⟩ := hparse
    have hsame := h providers
    rw [NegatesIn, hneg, he] at hsame
    obtain ⟨_, heq, hsame⟩ := hsame
    obtain rfl := Except.ok.inj heq
    rw [fromExpression_evaluate hp, hmeans] at hsame
    exact (negate_sameOn_iff.mp hsame).resolve_left hn

/-- A run of `!` acts as negation in all surroundings exactly where negation changes nothing. -/
theorem negatesIn_iff_kept :
    (∀ c providers, NegatesIn x g vars noErr marker template c n o providers d noErr' forEach) ↔
      n = 0 ∨ KeptByNegation x g vars noErr marker template n o d noErr' forEach := by
  constructor
  · intro h
    refine negatesAlone_imp_kept fun providers => h (.hole .nil) providers
  · intro h c providers
    refine parseExpression_follows.trans (c.read_sameRead providers h) ?_
    rintro ⟨e, _⟩ ⟨s, _⟩ ⟨s', _⟩ ⟨⟨hp, he⟩, -⟩ ⟨hs, -⟩
    rw [fromExpression_evaluate hp, he]
    exact meaning_sameOn hs.1 hs.2

/-- Every run of `!` negates its operand in all surroundings. -/
def NegationIsParsed : Prop :=
  ∀ (x : Externals) (g : Grammar) (vars : Object) (noErr : Bool) (marker : Marker)
    (template : TemplateParser) (c : Surroundings) (n : Nat) (o : Operand)
    (providers : RequiredProviders) (d : Json) (noErr' : Bool) (forEach : Option (List Cow)),
    NegatesIn x g vars noErr marker template c n o providers d noErr' forEach

/-- `!true` is true: the silent `!` is lost. -/
theorem not_negationIsParsed : ¬NegationIsParsed := by
  intro h
  have hkept := negatesAlone_imp_kept (n := 1) (o := .value "true" [.mk .boolean "true" []])
    (d := .null) fun providers => h .plain ⟨fun _ _ => none, fun _ => none⟩ [] false ⟨1, 1⟩
      (fun _ _ => .error .tooDeep) (.hole .nil) 1 _ providers .null false none
  rcases hkept with hkept | hkept
  · omega
  · exact absurd (hkept .new _ .new rfl _ rfl).1 (by decide)

end

end Pewpew.SelectParser
