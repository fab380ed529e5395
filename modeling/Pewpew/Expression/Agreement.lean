import Pewpew.Expression.StreamRefinement
import Pewpew.Expression.Indexing
import Pewpew.Expression.Parser

/-! Evaluation by value and evaluation by streams. -/
namespace Pewpew.SelectParser

open Polling ZipAll

section Agreement

variable {x : Externals} {values : Object} {α β γ : Type}

/-! ### The minimum and the maximum -/

/-- The two folds stand for the same value. -/
def SameLeft : Option (F64 × Json) → Json → Prop
  | none, l => l = .null
  | some (f, v), l => l = v ∧ f = v.f64Value ∧ f.isFinite = true

theorem sameLeft_step {min : Bool} {left : Option (F64 × Json)} {l right : Json}
    (h : SameLeft left l) (hr : ∀ neg, right.f64Value ≠ .inf neg) :
    SameLeft (MinMax.evaluateStep min left right) (MinMax.iterStep min l right) := by
  have hnull : Json.f64Value .null = .nan := rfl
  have hstart (f : F64) : F64.nan.partialCmp f = none := by cases f <;> rfl
  have hfin : F64.nan.isFinite = false := rfl
  by_cases hf : right.f64Value.isFinite = true
  · have hright : SameLeft (some (right.f64Value, right)) right := ⟨rfl, rfl, hf⟩
    cases left with
    | none =>
      obtain rfl : l = .null := h
      simpa only [MinMax.evaluateStep, MinMax.iterStep, hnull, hstart, hfin, if_pos hf]
        using hright
    | some p =>
      obtain ⟨f, v⟩ := p
      obtain ⟨rfl, rfl, hl⟩ := h
      simp only [MinMax.evaluateStep, MinMax.iterStep]
      split
      · exact ⟨rfl, rfl, hl⟩
      · exact ⟨rfl, rfl, hl⟩
      · exact ⟨rfl, rfl, hl⟩
      · rw [if_pos hf, if_pos hf]
        exact hright
  · have hnan : right.f64Value = .nan := by
      cases hv : right.f64Value with
      | nan => rfl
      | inf neg => exact (hr neg hv).elim
      | fin _ _ => simp [hv, F64.isFinite] at hf
    have hcmp (f : F64) : f.partialCmp .nan = none := by cases f <;> rfl
    cases left with
    | none =>
      obtain rfl : l = .null := h
      simp [MinMax.evaluateStep, MinMax.iterStep, hnan, hnull, hstart, hfin, SameLeft]
    | some p =>
      obtain ⟨f, v⟩ := p
      obtain ⟨rfl, rfl, hl⟩ := h
      simp only [MinMax.evaluateStep, MinMax.iterStep, hnan, hcmp, hl]
      exact ⟨rfl, rfl, hl⟩

/-- Of values whose numbers are finite, both evaluators take the same one. -/
theorem MinMax.evaluateValues_eq {min : Bool} {vs : List Json}
    (h : ∀ v ∈ vs, ∀ neg, v.f64Value ≠ .inf neg) :
    MinMax.evaluateValues min vs = MinMax.evalIter min vs := by
  have key (left : Option (F64 × Json)) (l : Json) (hs : SameLeft left l) :
      SameLeft (vs.foldl (MinMax.evaluateStep min) left) (vs.foldl (MinMax.iterStep min) l) := by
    induction vs generalizing left l with
    | nil => exact hs
    | cons v vs ih =>
      exact ih (fun w hw => h w (List.mem_cons_of_mem _ hw)) _ _
        (sameLeft_step hs (h v List.mem_cons_self))
  have hsame := key none .null rfl
  rw [MinMax.evaluateValues, MinMax.evalIter]
  cases hl : vs.foldl (MinMax.evaluateStep min) none with
  | none =>
    rw [hl] at hsame
    exact hsame.symm
  | some p =>
    rw [hl] at hsame
    exact hsame.1.symm

/-! ### Where the evaluators may part -/

/-- A place that the streams of an expression reach, with what evaluation by value finds there. -/
inductive Site where
  /-- the rest of a path, applied to what its start has found -/
  | index (found : Cow) (rest : List PathSegment) (noErr : Bool) (marker : Marker)
  /-- a JSON path, applied to the whole data -/
  | select (provider selector : String) (data : Json)
  /-- the streams of a template's pieces, or of arguments -/
  | zip (empty : Bool)
  /-- the right operand of an operator -/
  | operand (result : Except ExecutingError Cow)
  /-- the arguments of `min` or `max` -/
  | compare (arguments : List Json)

/-- A borrowed object can be indexed by a number, an owned one cannot. -/
def Misses (noErr : Bool) : Cow → Index → Prop
  | .borrowed (.object o), .position n => noErr = false ∨ Object.get o (toString n) ≠ none
  | _, _ => False

variable (x) in
/-- Some segment is a number that indexes into a borrowed object. -/
def IndexMisses : List PathSegment → Cow → Bool → Marker → Prop
  | [], _, _, _ => False
  | segment :: rest, json, noErr, marker =>
    ∃ index, segment.evaluate x json.borrow none = .ok index ∧
      (Misses noErr json index ∨
        ∃ v, indexStep json index noErr marker = .ok v ∧ IndexMisses rest v noErr marker)

variable (x values) in
/-- The streams do not get another value here than evaluation by value does: without errors, no
number indexes into an object; a JSON path selects the same from its provider alone; and the
numbers that are compared are finite. -/
def Site.Faithful : Site → Prop
  | .index found rest noErr marker => noErr = true → ¬IndexMisses x rest found noErr marker
  | .select provider selector data => ∀ v, Object.get values provider = some v →
      x.pathSelect selector data = x.pathSelect selector (.object [(provider, v)])
  | .compare arguments => ∀ v ∈ arguments, ∀ neg, v.f64Value ≠ .inf neg
  | _ => True

variable (x) in
/-- The streams do not fail here: no number indexes into an object, there is a stream to zip, and
the right operand can be evaluated, whether the operator needs it or not. -/
def Site.Sound : Site → Prop
  | .index found rest noErr marker => noErr = false → ¬IndexMisses x rest found noErr marker
  | .zip empty => empty = false
  | .operand result => ∃ v, result = .ok v
  | _ => True

section Sites

variable (x)

/-- The places after a value that is found. -/
def sitesAfter (r : Except ExecutingError α) (ts : α → List Site) : List Site :=
  match r with
  | .ok v => ts v
  | .error _ => []

mutual

/-- The places that the streams of an expression reach. -/
def ValueOrExpression.sites : ValueOrExpression → Cow → Bool → List Site
  | .value v, d, noErr => v.sites d noErr
  | .expression e, d, noErr => e.sites d noErr

def Value.sites : Value → Cow → Bool → List Site
  | .path p, d, noErr => p.sites d noErr
  | .json _, _, _ => []
  | .template t, d, _ => t.sites d

def Path.sites : Path → Cow → Bool → List Site
  | .mk (.functionCall f) rest marker, d, noErr =>
    f.sites d noErr ++
      sitesAfter (f.evaluate x d noErr none) fun v => [.index v rest noErr marker]
  | .mk (.ident s) rest marker, d, noErr =>
    sitesAfter (indexStep d (.key s) noErr marker) fun v => [.index v rest noErr marker]
  | .mk (.value v) rest marker, _, noErr => [.index (.borrowed v) rest noErr marker]

def Template.sites : Template → Cow → List Site
  | .mk pieces noRecoverableError, d =>
    .zip pieces.isEmpty :: piecesSites pieces d noRecoverableError

def piecesSites : List TemplatePiece → Cow → Bool → List Site
  | [], _, _ => []
  | piece :: pieces, d, noErr => piece.sites d noErr ++ piecesSites pieces d noErr

def TemplatePiece.sites : TemplatePiece → Cow → Bool → List Site
  | .expression e, d, noErr => e.sites d.borrow noErr
  | .notExpression _, _, _ => []

def Expression.sites : Expression → Cow → Bool → List Site
  | .mk _ lhs none, d, noErr => lhs.sites d noErr
  | .mk _ lhs (some (_, rhs)), d, noErr =>
    lhs.sites d.borrow noErr ++
      (rhs.sites d.borrow noErr ++ [.operand (rhs.evaluate x d.borrow noErr none)])

def ExpressionLhs.sites : ExpressionLhs → Cow → Bool → List Site
  | .expression e, d, noErr => e.sites d noErr
  | .value v, d, noErr => v.sites d noErr

def FunctionCall.sites : FunctionCall → Cow → Bool → List Site
  | .collect arg _ _, d, noErr | .encode arg _, d, noErr | .entries arg, d, noErr
  | .join arg _ _, d, noErr | .matchRegex arg _ _, d, noErr | .pad _ arg _ _, d, noErr =>
    arg.sites d noErr
  | .epoch _, _, _ | .randomInteger _ _, _, _ | .randomFloat _ _, _, _ | .rangeConstant _, _, _
  | .repeatNull _ _, _, _ => []
  | .ifElse first second third, d, noErr =>
    first.sites d.borrow noErr ++ sitesAfter (first.evaluate x d.borrow noErr none) fun v =>
      if v.val.boolValue then second.sites d noErr else third.sites d noErr
  | .jsonPath provider selector _, d, _ => [.select provider selector d.val]
  | .minMax args _, d, noErr =>
    .zip args.isEmpty :: (argsSites args d noErr ++
      sitesAfter (evaluateArgs x args d noErr none) fun vs => [.compare vs])
  | .range first second _, d, noErr => first.sites d.borrow noErr ++ second.sites d noErr
  | .replace needle haystack replacer, d, noErr =>
    haystack.sites d noErr ++ needle.sites d.borrow noErr ++ replacer.sites d.borrow noErr

def argsSites : List ValueOrExpression → Cow → Bool → List Site
  | [], _, _ => []
  | arg :: args, d, noErr => arg.sites d.borrow noErr ++ argsSites args d noErr

end

end Sites

/-! ### Agreement -/

/-- Where nothing else is found at the sites, the streams have a value if and only if evaluation
by value has it and no site makes them fail. -/
def Agrees (x : Externals) (values : Object) (sites : List Site) (o : Option α)
    (r : Except ExecutingError α) : Prop :=
  (∀ site ∈ sites, site.Faithful x values) →
    ∀ w, o = some w ↔ (∀ site ∈ sites, site.Sound x) ∧ r = .ok w

theorem result_map_map (r : Except ExecutingError α) (f : α → β) (g : β → γ) :
    (r.map f).map g = r.map fun v => g (f v) := by
  cases r <;> rfl

theorem result_map_self (r : Except ExecutingError α) : (r.map fun v => v) = r := by
  cases r <;> rfl

theorem result_bind_map (r : Except ExecutingError α) (f : α → Except ExecutingError β)
    (g : β → γ) : (r.bind f).map g = r.bind fun v => (f v).map g := by
  cases r <;> rfl

theorem result_map_bind (r : Except ExecutingError α) (f : α → β)
    (g : β → Except ExecutingError γ) : (r.map f).bind g = r.bind fun v => g (f v) := by
  cases r <;> rfl

variable {ss ts : List Site} {o : Option α} {r : Except ExecutingError α} {o' : Option β}
  {r' : Except ExecutingError β}

theorem agrees_ok (w : α) : Agrees x values [] (some w) (.ok w) := by
  intro _ v
  simp

theorem Agrees.map (h : Agrees x values ss o r) (f : α → β) :
    Agrees x values ss (o.map f) (r.map f) := by
  intro hf w
  have h := h hf
  constructor
  · intro hw
    obtain ⟨v, hv, rfl⟩ := Option.map_eq_some_iff.mp hw
    obtain ⟨hs, hr⟩ := (h v).mp hv
    exact ⟨hs, by rw [hr]; rfl⟩
  · rintro ⟨hs, hw⟩
    cases r with
    | error e => cases hw
    | ok v =>
      obtain rfl := Except.ok.inj hw
      rw [(h v).mpr ⟨hs, rfl⟩]
      rfl

/-- Only the value of what is found counts. -/
theorem Agrees.mapFound {c : Except ExecutingError γ} {g : γ → α}
    (h : Agrees x values ss o (c.map g)) (f : α → β) :
    Agrees x values ss (o.map f) (c.map fun v => f (g v)) := by
  rw [← result_map_map]
  exact h.map f

/-- What follows depends on what is found. -/
theorem Agrees.bind {c : Except ExecutingError γ} {f : γ → α} {g : α → Option β}
    {g' : γ → Except ExecutingError β} {ts : γ → List Site} (h : Agrees x values ss o (c.map f))
    (hg : ∀ v, c = .ok v → Agrees x values (ts v) (g (f v)) (g' v)) :
    Agrees x values (ss ++ sitesAfter c ts) (o.bind g) (c.bind g') := by
  intro hf w
  have h := h fun site hs => hf site (List.mem_append_left _ hs)
  cases c with
  | error e =>
    have hnone : o = none := by
      cases o with
      | none => rfl
      | some v => cases ((h v).mp rfl).2
    simp [hnone, Except.bind]
  | ok v =>
    have hg := hg v rfl (fun site hs => hf site (List.mem_append_right _ hs)) w
    simp only [List.mem_append, or_imp, forall_and, sitesAfter]
    constructor
    · intro hw
      obtain ⟨u, hu, hw⟩ := Option.bind_eq_some_iff.mp hw
      obtain ⟨hs, hv⟩ := (h u).mp hu
      obtain rfl := Except.ok.inj hv
      obtain ⟨ht, hw⟩ := hg.mp hw
      exact ⟨⟨hs, ht⟩, hw⟩
    · rintro ⟨⟨hs, ht⟩, hw⟩
      rw [(h (f v)).mpr ⟨hs, rfl⟩]
      exact hg.mpr ⟨ht, hw⟩

/-- Both streams are polled, whatever the other one finds. -/
theorem Agrees.map2 (h : Agrees x values ss o r) (h' : Agrees x values ts o' r') (f : α → β → γ) :
    Agrees x values (ss ++ ts) (o.bind fun v => o'.map (f v)) (r.bind fun v => r'.map (f v)) := by
  intro hf p
  have h := h fun site hs => hf site (List.mem_append_left _ hs)
  have h' := h' fun site hs => hf site (List.mem_append_right _ hs)
  simp only [List.mem_append, or_imp, forall_and]
  constructor
  · intro hp
    obtain ⟨v, hv, hp⟩ := Option.bind_eq_some_iff.mp hp
    obtain ⟨w, hw, rfl⟩ := Option.map_eq_some_iff.mp hp
    obtain ⟨hs, rfl⟩ := (h v).mp hv
    obtain ⟨ht, rfl⟩ := (h' w).mp hw
    exact ⟨⟨hs, ht⟩, rfl⟩
  · rintro ⟨⟨hs, ht⟩, hp⟩
    cases r with
    | error e => cases hp
    | ok v =>
      cases r' with
      | error e => cases hp
      | ok w =>
        obtain rfl := Except.ok.inj hp
        rw [(h v).mpr ⟨hs, rfl⟩, (h' w).mpr ⟨ht, rfl⟩]
        rfl

/-- A function that may fail is applied to the value. -/
theorem Agrees.andThen (h : Agrees x values ss o r) (k : α → Except ExecutingError β) :
    Agrees x values ss (o.bind fun v => (k v).toOption) (r.bind k) := by
  intro hf w
  have h := h hf
  constructor
  · intro hw
    obtain ⟨v, hv, hw⟩ := Option.bind_eq_some_iff.mp hw
    obtain ⟨hs, rfl⟩ := (h v).mp hv
    refine ⟨hs, ?_⟩
    change k v = .ok w
    cases hk : k v with
    | error e => simp [hk, Except.toOption] at hw
    | ok u => simpa [hk, Except.toOption] using hw
  · rintro ⟨hs, hw⟩
    cases r with
    | error e => cases hw
    | ok v =>
      change k v = .ok w at hw
      rw [(h v).mpr ⟨hs, rfl⟩, Option.bind_some, hw]
      rfl

/-- Only the value counts, not the error. -/
theorem Agrees.of_ok_iff {s : Except ExecutingError α} (h : Agrees x values ss o r)
    (hs : ∀ w, s = .ok w ↔ r = .ok w) : Agrees x values ss o s := by
  intro hf w
  rw [h hf w, hs w]

theorem agrees_zip (h : Agrees x values ss o r) (empty : Bool) :
    Agrees x values (.zip empty :: ss) (if empty then none else o) r := by
  intro hf w
  have h := h (fun site hs => hf site (List.mem_cons_of_mem _ hs)) w
  cases empty <;> simp [Site.Sound, h]

theorem agrees_compare (min : Bool) (vs : List Json) :
    Agrees x values [.compare vs] (some (MinMax.evalIter min vs))
      (.ok (MinMax.evaluateValues min vs)) := by
  intro hf w
  have hfinite : ∀ v ∈ vs, ∀ neg, v.f64Value ≠ .inf neg := hf _ List.mem_cons_self
  simp [Site.Sound, MinMax.evaluateValues_eq hfinite]

/-- The stream needs the right operand; evaluation needs it only where the operator does. -/
theorem Agrees.operands {l : Option Json} {m : Option Json} {left : Except ExecutingError Json}
    {right : Except ExecutingError Cow} (h : Agrees x values ss l left)
    (h' : Agrees x values ts m (right.map Cow.val)) (op : InfixOperator) (f : Json → Json) :
    Agrees x values (ss ++ (ts ++ [.operand right]))
      (l.bind fun l => m.bind fun r => (op.evaluate l (.ok r)).toOption.map f)
      (left.bind fun l => (op.evaluate l (right.map Cow.val)).map f) := by
  intro hf w
  have h := h fun site hs => hf site (List.mem_append_left _ hs)
  have h' := h' fun site hs => hf site (List.mem_append_right _ (List.mem_append_left _ hs))
  simp only [List.mem_append, List.mem_singleton, or_imp, forall_and, forall_eq, Site.Sound]
  constructor
  · intro hw
    obtain ⟨v, hv, hw⟩ := Option.bind_eq_some_iff.mp hw
    obtain ⟨u, hu, hw⟩ := Option.bind_eq_some_iff.mp hw
    obtain ⟨hs, rfl⟩ := (h v).mp hv
    obtain ⟨ht, hright⟩ := (h' u).mp hu
    refine ⟨⟨hs, ht, ?_⟩, ?_⟩
    · cases right with
      | error e => cases hright
      | ok c => exact ⟨c, rfl⟩
    · change (op.evaluate v (right.map Cow.val)).map f = .ok w
      rw [hright]
      cases hop : op.evaluate v (.ok u) with
      | error e => simp [hop, Except.toOption] at hw
      | ok j =>
        obtain rfl : f j = w := by simpa [hop, Except.toOption] using hw
        rfl
  · rintro ⟨⟨hs, ht, c, rfl⟩, hw⟩
    cases left with
    | error e => cases hw
    | ok v =>
      change (op.evaluate v (.ok c.val)).map f = .ok w at hw
      rw [(h v).mpr ⟨hs, rfl⟩, (h' c.val).mpr ⟨ht, rfl⟩, Option.bind_some, Option.bind_some]
      cases hop : op.evaluate v (.ok c.val) with
      | error e => simp [hop, Except.map] at hw
      | ok j =>
        rw [hop] at hw
        obtain rfl := Except.ok.inj hw
        rfl

/-! ### Paths -/

variable {d : Cow} {noErr : Bool} {marker : Marker} {rest : List PathSegment} {index : Index}

theorem indexStep_owned (h : ¬Misses noErr d index) :
    indexStep (.owned d.val) index noErr marker =
      (indexStep d index noErr marker).map fun v => .owned v.val := by
  cases d with
  | owned v => exact indexStep_owned_self
  | borrowed v =>
    refine indexStep_owned_map ?_
    rintro ⟨m, n, rfl, rfl, hno | ⟨e, he, -⟩⟩
    · exact h (.inl hno)
    · exact h (.inr (he ▸ Option.some_ne_none e))

theorem indexStep_misses (h : Misses false d index) :
    ∃ e, indexStep (.owned d.val) index false marker = .error e := by
  cases d with
  | owned v => exact h.elim
  | borrowed v =>
    cases v with
    | object o =>
      cases index with
      | key s => exact h.elim
      | position n => exact ⟨_, rfl⟩
    | _ => exact h.elim

/-- An owned value is indexed as a borrowed one where no number indexes into an object. -/
theorem indexJson2_owned (h : ¬IndexMisses x rest d noErr marker) :
    (indexJson2 x rest (.owned d.val) noErr none marker).map Cow.val =
      (indexJson2 x rest d noErr none marker).map Cow.val := by
  induction rest generalizing d with
  | nil =>
    rw [indexJson2, indexJson2]
    rfl
  | cons segment rest ih =>
    rw [indexJson2, indexJson2]
    change (Except.bind (segment.evaluate x d.borrow none) _).map _ = _
    cases hi : segment.evaluate x d.borrow none with
    | error e => rfl
    | ok index =>
      have hstep : ¬Misses noErr d index := by
        intro hm
        exact h ⟨index, hi, .inl hm⟩
      change ((indexStep (.owned d.val) index noErr marker).bind _).map _ =
        ((indexStep d index noErr marker).bind _).map _
      rw [indexStep_owned hstep]
      cases hd : indexStep d index noErr marker with
      | error e => rfl
      | ok v =>
        apply ih
        intro hm
        exact h ⟨index, hi, .inr ⟨v, hd, hm⟩⟩

/-- Elsewhere, the owned value cannot be indexed. -/
theorem indexJson2_misses (h : IndexMisses x rest d false marker) :
    ∃ e, indexJson2 x rest (.owned d.val) false none marker = .error e := by
  induction rest generalizing d with
  | nil => exact h.elim
  | cons segment rest ih =>
    obtain ⟨index, hi, hm⟩ := h
    rw [indexJson2]
    change ∃ e, Except.bind (segment.evaluate x d.borrow none) _ = _
    rw [hi]
    change ∃ e, (indexStep (.owned d.val) index false marker).bind _ = _
    by_cases hstep : Misses false d index
    · obtain ⟨e, he⟩ : ∃ e, indexStep (.owned d.val) index false marker = .error e :=
        indexStep_misses hstep
      exact ⟨e, by rw [he]; rfl⟩
    · obtain ⟨v, hv, hm⟩ := hm.resolve_left hstep
      rw [indexStep_owned hstep, hv]
      exact ih hm

theorem agrees_index (found : Cow) :
    Agrees x values [.index found rest noErr marker] (indexValue x rest noErr marker found.val)
      ((indexJson2 x rest found noErr none marker).map Cow.val) := by
  intro hf w
  have hfaithful : noErr = true → ¬IndexMisses x rest found noErr marker :=
    hf _ List.mem_cons_self
  have hvalue : indexValue x rest noErr marker found.val =
      ((indexJson2 x rest (.owned found.val) noErr none marker).map Cow.val).toOption := by
    rw [indexValue]
    cases indexJson2 x rest (.owned found.val) noErr none marker <;> rfl
  simp only [List.mem_singleton, forall_eq, Site.Sound, hvalue]
  by_cases hm : IndexMisses x rest found noErr marker
  · cases noErr with
    | true => exact (hfaithful rfl hm).elim
    | false =>
      obtain ⟨e, he⟩ := indexJson2_misses hm
      simp [he, hm, Except.map, Except.toOption]
  · rw [indexJson2_owned hm]
    cases (indexJson2 x rest found noErr none marker).map Cow.val <;>
      simp [hm, Except.toOption]

/-! ### Expressions -/

/-- A provider is found in the data as it was assigned. -/
theorem indexStep_assigned {s : String} {v : Json} (hd : d.val = .object values)
    (hv : Object.get values s = some v) :
    ∃ c, indexStep d (.key s) noErr marker = .ok c ∧ c.val = v := by
  cases d with
  | borrowed j =>
    obtain rfl : j = .object values := hd
    exact ⟨.borrowed v, by simp [indexStep, Except.map, hv], rfl⟩
  | owned j =>
    obtain rfl : j = .object values := hd
    exact ⟨.owned v, by simp [indexStep, Except.map, hv], rfl⟩

theorem piecesStreamValues_isEmpty (pieces : List TemplatePiece) (noErr : Bool) :
    (piecesStreamValues x values pieces noErr).isEmpty = pieces.isEmpty := by
  cases pieces <;> rw [piecesStreamValues] <;> rfl

theorem argsStreamValues_isEmpty (args : List ValueOrExpression) (noErr : Bool) :
    (argsStreamValues x values args noErr).isEmpty = args.isEmpty := by
  cases args <;> rw [argsStreamValues] <;> rfl

/-! ### Calls whose arguments agree -/

section Calls

variable {us : List Site} {l m n : Option Json} {c c' c'' : Except ExecutingError Cow}
  {row : Option (List Json)} {args : Except ExecutingError (List Json)}

theorem agrees_minMax (h : Agrees x values ss row args) (empty min : Bool) :
    Agrees x values (.zip empty :: (ss ++ sitesAfter args fun vs => [.compare vs]))
      ((if empty then none else row).map (MinMax.evalIter min))
      (args.map fun vs => (Cow.owned (MinMax.evaluateValues min vs)).val) := by
  have hrow : Agrees x values ss row (args.map fun vs => vs) := by
    rwa [result_map_self]
  have hmin : Agrees x values (ss ++ sitesAfter args fun vs => [.compare vs])
      (row.bind fun vs => some (MinMax.evalIter min vs))
      (args.bind fun vs => .ok (MinMax.evaluateValues min vs)) :=
    hrow.bind fun vs _ => agrees_compare min vs
  have hzip := agrees_zip hmin empty
  have hvalue : (if empty then none else row).map (MinMax.evalIter min) =
      if empty then none else row.bind fun vs => some (MinMax.evalIter min vs) := by
    cases empty <;> cases row <;> rfl
  have hresult : (args.map fun vs => (Cow.owned (MinMax.evaluateValues min vs)).val) =
      args.bind fun vs => .ok (MinMax.evaluateValues min vs) := by
    cases args <;> rfl
  rw [hvalue, hresult]
  exact hzip

/-- The stream reads both ends; evaluation stops at a first one that is no integer. -/
theorem agrees_range (h : Agrees x values ss l (c.map Cow.val))
    (h' : Agrees x values ts m (c'.map Cow.val)) (marker : Marker) :
    Agrees x values (ss ++ ts)
      (l.bind fun l => m.bind fun r =>
        (rangeOf marker l r).toOption.map fun range => Json.array range.items)
      (c.bind fun v => Except.map Cow.val
        (if v.val.asU64.isNone then .error (invalidRange marker)
        else c'.bind fun r =>
          (rangeOf marker v.val r.val).map fun range => Cow.owned (.array range.items))) := by
  have hpair := (h.map2 h' Prod.mk).andThen fun p =>
    (rangeOf marker p.1 p.2).map fun range => Json.array range.items
  have hvalue : (l.bind fun l => m.bind fun r =>
        (rangeOf marker l r).toOption.map fun range => Json.array range.items) =
      (l.bind fun l => m.map (Prod.mk l)).bind fun p =>
        ((rangeOf marker p.1 p.2).map fun range => Json.array range.items).toOption := by
    rcases l with _ | l
    · rfl
    · rcases m with _ | r
      · rfl
      · change (rangeOf marker l r).toOption.map _ = ((rangeOf marker l r).map _).toOption
        cases rangeOf marker l r <;> rfl
  rw [hvalue]
  apply hpair.of_ok_iff
  intro w
  cases c with
  | error e => simp [Except.bind, Except.map]
  | ok v =>
    cases c' with
    | error e => by_cases hv : v.val.asU64.isNone = true <;> simp [Except.bind, Except.map, hv]
    | ok r =>
      cases hv : v.val.asU64 <;> simp [Except.bind, Except.map, rangeOf, hv]
      cases r.val.asU64 <;> simp

/-- The stream takes the value before the needle and the replacer, evaluation takes it last. -/
theorem agrees_replace (h : Agrees x values ss l (c.map Cow.val))
    (hn : Agrees x values ts m (c'.map Cow.val)) (hr : Agrees x values us n (c''.map Cow.val)) :
    Agrees x values (ss ++ ts ++ us)
      (l.bind fun h => m.bind fun n' => n.map fun r =>
        replaceIn (Json.valueToString x n') (Json.valueToString x r) h)
      (c'.bind fun n' => Except.map Cow.val (c''.bind fun r => c.map fun h =>
        Cow.owned
          (replaceIn (Json.valueToString x n'.val) (Json.valueToString x r.val) h.val))) := by
  have htriple := (h.map2 hn Prod.mk).map2 hr fun p r =>
    replaceIn (Json.valueToString x p.2) (Json.valueToString x r) p.1
  have hvalue : (l.bind fun h => m.bind fun n' => n.map fun r =>
        replaceIn (Json.valueToString x n') (Json.valueToString x r) h) =
      (l.bind fun h => m.map (Prod.mk h)).bind fun p => n.map fun r =>
        replaceIn (Json.valueToString x p.2) (Json.valueToString x r) p.1 := by
    cases l <;> cases m <;> rfl
  rw [hvalue]
  apply htriple.of_ok_iff
  intro w
  cases c' <;> cases c'' <;> cases c <;> simp [Except.bind, Except.map]

end Calls

mutual

theorem ValueOrExpression.agrees {e : ValueOrExpression} {d : Cow} (hd : d.val = .object values)
    (h : e.Ordinary (Assigned values)) (noErr : Bool) :
    Agrees x values (e.sites x d noErr) (e.streamValue x values noErr)
      ((e.evaluate x d noErr none).map Cow.val) := by
  cases e with
  | value v =>
    rw [ValueOrExpression.Ordinary] at h
    rw [ValueOrExpression.sites, ValueOrExpression.streamValue, ValueOrExpression.evaluate]
    exact Value.agrees hd h noErr
  | expression e =>
    rw [ValueOrExpression.Ordinary] at h
    rw [ValueOrExpression.sites, ValueOrExpression.streamValue, ValueOrExpression.evaluate]
    exact Expression.agrees hd h noErr

theorem Value.agrees {v : Value} {d : Cow} (hd : d.val = .object values)
    (h : v.Ordinary (Assigned values)) (noErr : Bool) :
    Agrees x values (v.sites x d noErr) (v.streamValue x values noErr)
      ((v.evaluate x d noErr none).map Cow.val) := by
  cases v with
  | path p =>
    rw [Value.Ordinary] at h
    rw [Value.sites, Value.streamValue, Value.evaluate]
    exact Path.agrees hd h noErr
  | json v =>
    rw [Value.sites, Value.streamValue, Value.evaluate]
    exact agrees_ok v
  | template t =>
    rw [Value.Ordinary] at h
    rw [Value.sites, Value.streamValue, Value.evaluate, result_map_map]
    exact (Template.agrees hd h).map Json.string

theorem Path.agrees {p : Path} {d : Cow} (hd : d.val = .object values)
    (h : p.Ordinary (Assigned values)) (noErr : Bool) :
    Agrees x values (p.sites x d noErr) (p.streamValue x values noErr)
      ((p.evaluate x d noErr none).map Cow.val) := by
  obtain ⟨start, rest, marker⟩ := p
  rw [Path.Ordinary] at h
  cases start with
  | functionCall f =>
    have hf := h.1
    rw [PathStart.Ordinary] at hf
    rw [Path.sites, Path.streamValue, Path.evaluate, result_bind_map]
    exact (FunctionCall.agrees hd hf noErr).bind fun c _ => agrees_index c
  | ident s =>
    have hs := h.1
    rw [PathStart.Ordinary] at hs
    obtain ⟨v, hv⟩ := hs
    obtain ⟨c, hc, rfl⟩ := @indexStep_assigned values d noErr marker s v hd hv
    rw [Path.sites, Path.streamValue, Path.evaluate, ite_self, hc, hv]
    exact agrees_index c
  | value v =>
    rw [Path.sites, Path.streamValue, Path.evaluate]
    exact agrees_index (.borrowed v)

theorem Template.agrees {t : Template} {d : Cow} (hd : d.val = .object values)
    (h : t.Ordinary (Assigned values)) :
    Agrees x values (t.sites x d) (t.streamValue x values) (t.evaluate x d none) := by
  obtain ⟨pieces, noErr⟩ := t
  rw [Template.Ordinary] at h
  rw [Template.sites, Template.streamValue, Template.evaluate, firstRow,
    piecesStreamValues_isEmpty]
  exact (agrees_zip (piecesAgree hd h noErr) pieces.isEmpty).map String.join

theorem piecesAgree {pieces : List TemplatePiece} {d : Cow} (hd : d.val = .object values)
    (h : piecesOrdinary (Assigned values) pieces) (noErr : Bool) :
    Agrees x values (piecesSites x pieces d noErr) (row (piecesStreamValues x values pieces noErr))
      (evaluatePieces x pieces d noErr none) := by
  cases pieces with
  | nil =>
    rw [piecesSites, piecesStreamValues, evaluatePieces]
    exact agrees_ok []
  | cons piece pieces =>
    rw [piecesOrdinary] at h
    rw [piecesSites, piecesStreamValues, evaluatePieces]
    exact (TemplatePiece.agrees hd h.1 noErr).map2 (piecesAgree hd h.2 noErr) List.cons

theorem TemplatePiece.agrees {piece : TemplatePiece} {d : Cow} (hd : d.val = .object values)
    (h : piece.Ordinary (Assigned values)) (noErr : Bool) :
    Agrees x values (piece.sites x d noErr) (piece.streamValue x values noErr)
      (piece.evaluate x d noErr none) := by
  cases piece with
  | expression e =>
    rw [TemplatePiece.Ordinary] at h
    rw [TemplatePiece.sites, TemplatePiece.streamValue, TemplatePiece.evaluate]
    exact (ValueOrExpression.agrees (d := d.borrow) hd h noErr).mapFound (Json.valueToString x)
  | notExpression s =>
    rw [TemplatePiece.sites, TemplatePiece.streamValue, TemplatePiece.evaluate]
    exact agrees_ok s

theorem Expression.agrees {e : Expression} {d : Cow} (hd : d.val = .object values)
    (h : e.Ordinary (Assigned values)) (noErr : Bool) :
    Agrees x values (e.sites x d noErr) (e.streamValue x values noErr)
      ((e.evaluate x d noErr none).map Cow.val) := by
  obtain ⟨not, lhs, _ | ⟨op, rhs⟩⟩ := e
  · rw [Expression.Ordinary] at h
    rw [Expression.sites, Expression.streamValue, Expression.evaluate, result_map_map]
    have hnot : (fun v : Cow => (applyNot not v).val) = fun v => negated not v.val := by
      funext v
      rcases not with _ | _ | _ <;> rfl
    rw [hnot]
    exact (ExpressionLhs.agrees hd h noErr).mapFound (negated not)
  · rw [Expression.Ordinary] at h
    rw [Expression.sites, Expression.streamValue, Expression.evaluate, result_bind_map]
    simp only [result_map_map]
    have hl := ExpressionLhs.agrees (d := d.borrow) hd h.1 noErr
    have hr := Expression.agrees (d := d.borrow) hd h.2 noErr
    have hop := hl.operands hr op (negated not)
    rw [result_map_bind] at hop
    exact hop

theorem ExpressionLhs.agrees {lhs : ExpressionLhs} {d : Cow} (hd : d.val = .object values)
    (h : lhs.Ordinary (Assigned values)) (noErr : Bool) :
    Agrees x values (lhs.sites x d noErr) (lhs.streamValue x values noErr)
      ((lhs.evaluate x d noErr none).map Cow.val) := by
  cases lhs with
  | expression e =>
    rw [ExpressionLhs.Ordinary] at h
    rw [ExpressionLhs.sites, ExpressionLhs.streamValue, ExpressionLhs.evaluate]
    exact Expression.agrees hd h noErr
  | value v =>
    rw [ExpressionLhs.Ordinary] at h
    rw [ExpressionLhs.sites, ExpressionLhs.streamValue, ExpressionLhs.evaluate]
    exact Value.agrees hd h noErr

theorem FunctionCall.agrees {f : FunctionCall} {d : Cow} (hd : d.val = .object values)
    (h : f.Ordinary (Assigned values)) (noErr : Bool) :
    Agrees x values (f.sites x d noErr) (f.streamValue x values noErr)
      ((f.evaluate x d noErr none).map Cow.val) := by
  cases f with
  | collect _ _ _ | epoch _ | randomInteger _ _ | randomFloat _ _ =>
    rw [FunctionCall.Ordinary] at h
    exact h.elim
  | encode arg _ | join arg _ _ | matchRegex arg _ _ | pad _ arg _ _ =>
    rw [FunctionCall.Ordinary] at h
    rw [FunctionCall.sites, FunctionCall.streamValue, FunctionCall.evaluate, result_map_map]
    exact (ValueOrExpression.agrees hd h noErr).mapFound _
  | entries arg =>
    rw [FunctionCall.Ordinary] at h
    rw [FunctionCall.sites, FunctionCall.streamValue, FunctionCall.evaluate, result_map_map]
    convert (ValueOrExpression.agrees hd h noErr).mapFound (entriesValue x) using 2
    funext v
    rw [entriesValue]
    cases entriesOf x v.val <;> rfl
  | ifElse first second third =>
    rw [FunctionCall.Ordinary] at h
    rw [FunctionCall.sites, FunctionCall.streamValue, FunctionCall.evaluate, result_bind_map]
    refine (ValueOrExpression.agrees (d := d.borrow) hd h.1 noErr).bind fun v _ => ?_
    by_cases hb : v.val.boolValue = true
    · simp only [if_pos hb]
      exact ValueOrExpression.agrees hd h.2.1 noErr
    · simp only [if_neg hb]
      exact ValueOrExpression.agrees hd h.2.2 noErr
  | jsonPath provider selector marker =>
    rw [FunctionCall.Ordinary] at h
    obtain ⟨v, hv⟩ := h
    rw [FunctionCall.sites, FunctionCall.streamValue, FunctionCall.evaluate, hv]
    intro hf w
    have hsame : x.pathSelect selector d.val = x.pathSelect selector (.object [(provider, v)]) :=
      hf _ List.mem_cons_self v hv
    simp [Site.Sound, Except.map, hsame]
  | minMax args min =>
    rw [FunctionCall.Ordinary] at h
    rw [FunctionCall.sites, FunctionCall.streamValue, FunctionCall.evaluate, result_map_map,
      firstRow, argsStreamValues_isEmpty]
    exact agrees_minMax (argsAgree hd h noErr) args.isEmpty min
  | range first second marker =>
    rw [FunctionCall.Ordinary] at h
    rw [FunctionCall.sites, FunctionCall.streamValue, FunctionCall.evaluate, result_bind_map]
    exact agrees_range (ValueOrExpression.agrees (d := d.borrow) hd h.1 noErr)
      (ValueOrExpression.agrees hd h.2 noErr) marker
  | rangeConstant r =>
    rw [FunctionCall.sites, FunctionCall.streamValue, FunctionCall.evaluate]
    exact agrees_ok _
  | repeatNull min random =>
    cases random with
    | none =>
      rw [FunctionCall.sites, FunctionCall.streamValue, FunctionCall.evaluate]
      exact agrees_ok _
    | some max =>
      rw [FunctionCall.Ordinary] at h
      exact h.elim
  | replace needle haystack replacer =>
    rw [FunctionCall.Ordinary] at h
    rw [FunctionCall.sites, FunctionCall.streamValue, FunctionCall.evaluate, result_bind_map]
    exact agrees_replace (ValueOrExpression.agrees hd h.2.1 noErr)
      (ValueOrExpression.agrees (d := d.borrow) hd h.1 noErr)
      (ValueOrExpression.agrees (d := d.borrow) hd h.2.2 noErr)

theorem argsAgree {args : List ValueOrExpression} {d : Cow} (hd : d.val = .object values)
    (h : argsOrdinary (Assigned values) args) (noErr : Bool) :
    Agrees x values (argsSites x args d noErr) (row (argsStreamValues x values args noErr))
      (evaluateArgs x args d noErr none) := by
  cases args with
  | nil =>
    rw [argsSites, argsStreamValues, evaluateArgs]
    exact agrees_ok []
  | cons arg args =>
    rw [argsOrdinary] at h
    rw [argsSites, argsStreamValues, evaluateArgs]
    have hcons := (ValueOrExpression.agrees (d := d.borrow) hd h.1 noErr).map2
      (argsAgree hd h.2 noErr) List.cons
    rw [result_map_bind] at hcons
    exact hcons

end

/-! ### Evaluation and streams -/

variable {Ar : Type} {z : Zip} {draws : Nat → Externals}
  {providers : String → Option (PollStream (Item Json Ar))} {e : ValueOrExpression}

/-- Each item of the stream is the value, and another item always follows. -/
def YieldsValue (s : PollStream (Item Json Ar)) (v : Json) : Prop :=
  Yields (fun i => ∃ returns, i = .ok (v, returns)) s

theorem yieldsValue_iff {s : PollStream (Item Json Ar)} {v : Json} :
    YieldsValue s v ↔ Yields (fun i => itemValue i = some v) s := by
  have hitem : (fun i : Item Json Ar => ∃ returns, i = .ok (v, returns)) =
      fun i => itemValue i = some v := by
    funext i
    rcases i with _ | ⟨w, r⟩ <;> simp [okValue]
  rw [YieldsValue, hitem]

/-- The stream yields the value that evaluation returns. -/
def EvaluatorsAgree (z : Zip) (x : Externals) (draws : Nat → Externals)
    (providers : String → Option (PollStream (Item Json Ar))) (e : ValueOrExpression) (d : Cow)
    (noErr : Bool) : Prop :=
  ∀ v, e.evaluate x d noErr none = .ok v →
    ∃ s, e.intoStream z x draws providers noErr = some s ∧ YieldsValue s v.val

/-- Where evaluation returns a value and the streams get no other one on the way, the two
evaluators agree if and only if the streams fail nowhere. -/
theorem evaluatorsAgree_iff (hp : Supplies providers values) (hd : d.val = .object values)
    (he : e.Ordinary (Assigned values))
    (hf : ∀ site ∈ e.sites x d noErr, site.Faithful x values)
    (hv : ∃ v, e.evaluate x d noErr none = .ok v) :
    EvaluatorsAgree z x draws providers e d noErr ↔
      ∀ site ∈ e.sites x d noErr, site.Sound x := by
  obtain ⟨v, hv⟩ := hv
  obtain ⟨s, hs, hgives⟩ : Streams (e.intoStream z x draws providers noErr)
      (e.streamValue x values noErr) := ValueOrExpression.streams hp he noErr
  have hvalue := ValueOrExpression.agrees hd he noErr hf v.val
  rw [hv] at hvalue
  constructor
  · intro hagree
    obtain ⟨t, ht, hyields⟩ := hagree v hv
    obtain rfl := Option.some.inj (hs.symm.trans ht)
    exact (hvalue.mp (hgives.yields_iff.mp (yieldsValue_iff.mp hyields))).1
  · intro hsound w hw
    obtain rfl := Except.ok.inj (hv.symm.trans hw)
    have hsome := hvalue.mpr ⟨hsound, rfl⟩
    exact ⟨s, hs, yieldsValue_iff.mpr (hgives.yields_iff.mpr hsome)⟩

/-- `a[0]`, evaluated on a list. -/
theorem evaluatorsAgree_iff_index :
    EvaluatorsAgree queueZip .plain (fun _ => .plain)
      (fun _ => some (always (.ok (.array [.ofNat 5], [()]))))
      (.value (.path (.mk (.ident "a") [.number 0] ⟨0, 0⟩)))
      (.borrowed (.object [("a", .array [.ofNat 5])])) false := by
  have hp : Supplies (fun _ => some (always (.ok (.array [.ofNat 5], [()]))))
      [("a", .array [.ofNat 5])] := by
    intro name v hv
    by_cases ha : name = "a"
    · subst ha
      obtain rfl : Json.array [.ofNat 5] = v := Option.some.inj hv
      exact ⟨_, rfl, always_behaves itemValue _⟩
    · simp [Object.get, List.lookup_cons, beq_false_of_ne ha] at hv
  have hmisses : ¬IndexMisses .plain [.number 0] (.borrowed (.array [.ofNat 5])) false ⟨0, 0⟩ := by
    rintro ⟨index, hi, hm | ⟨v, -, hm⟩⟩
    · cases index <;> exact hm
    · exact hm
  have he : (ValueOrExpression.value (.path (.mk (.ident "a") [.number 0] ⟨0, 0⟩))).Ordinary
      (Assigned [("a", .array [.ofNat 5])]) := by
    rw [ValueOrExpression.Ordinary, Value.Ordinary, Path.Ordinary]
    exact ⟨⟨_, rfl⟩, trivial, trivial⟩
  refine (evaluatorsAgree_iff hp rfl he ?_ ⟨_, rfl⟩).mpr ?_
  · intro site hs
    obtain rfl := List.mem_singleton.mp hs
    exact fun h => by cases h
  · intro site hs
    obtain rfl := List.mem_singleton.mp hs
    exact fun _ => hmisses

/-- For every expression that is parsed, the stream yields what evaluation returns. -/
def ParsedEvaluatorsAgree (Ar : Type) (z : Zip) (x : Externals) (draws : Nat → Externals) : Prop :=
  ∀ (g : Grammar) (vars : Object) (marker : Marker) (depth : Nat) (text : String)
    (parseNoErr : Bool) (e : ValueOrExpression) (r r' : RequiredProviders) (values : Object)
    (providers : String → Option (PollStream (Item Json Ar))) (d : Cow) (noErr : Bool),
    ValueOrExpression.new x g vars parseNoErr marker depth text r = .ok (e, r') →
    e.Ordinary (Assigned values) → Supplies providers values → d.val = .object values →
      EvaluatorsAgree z x draws providers e d noErr

/-- The text `""`, an empty string. -/
def emptyString : Grammar where
  parse rule text :=
    if rule = .entryPoint ∧ text = "\"\"" then
      some [.mk .expression "\"\"" [.mk .value "\"\"" [.mk .string "" []]], .mk .eoi "" []]
    else if rule = .templateEntryPoint ∧ text = "" then some [.mk .templateEntryPoint "" []]
    else none
  number _ := none

theorem new_emptyString (r : RequiredProviders) :
    ValueOrExpression.new .plain emptyString [] false ⟨1, 1⟩ 1 "\"\"" r =
      .ok (.expression (.mk none (.value (.template (.mk [] false))) none), r) := by
  rw [ValueOrExpression.new, parseText]
  simp [emptyString, parseExpression, Pieces.expression, parseExpressionPieces,
    parseExpressionPiece, parseValue, parseValuePair, Template.new, Template.newPieces,
    Template.simplifyToString, Except.bind, Except.map, notOf, Expression.setNot, mergeNot,
    expressionHelper_single, ValueOrExpression.fromExpression, Expression.simplifyToJson]

/-- The stream of an empty string literal ends at once. -/
theorem not_parsedEvaluatorsAgree :
    ¬ParsedEvaluatorsAgree Unit queueZip .plain fun _ => .plain := by
  intro h
  have hp : Supplies (fun _ => (none : Option (PollStream (Item Json Unit)))) [] := by
    intro name v hv
    cases hv
  obtain ⟨s, hs, hyields⟩ := h _ _ _ _ _ _ _ _ _ [] (fun _ => none) (.owned (.object [])) false
    (new_emptyString .new) trivial hp rfl (.owned (.string "")) rfl
  obtain rfl := Option.some.inj hs
  rcases hyields.head with hpending | ⟨i, hready, -⟩
  · cases hpending
  · cases hready

end Agreement

end Pewpew.SelectParser
