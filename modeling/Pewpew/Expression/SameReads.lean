import Pewpew.Expression.References

/-! Data that agree on what an expression reads give the same value. -/
namespace Pewpew.SelectParser

section Same

variable {x : Externals} {d d' : Cow} {forEach forEach' : Option (List Cow)} {r : Reference}

/-- What is bound is the same, where the reference is to `for_each`. -/
def BoundSame (forEach forEach' : Option (List Cow)) (r : Reference) : Prop :=
  r = .ident "for_each" → forEach = forEach'

/-- The reference finds the same in both data. -/
def FoundSame (x : Externals) (d d' : Cow) : Reference → Prop
  | .ident s => ∀ noErr marker,
      indexStep d (.key s) noErr marker = indexStep d' (.key s) noErr marker ∧
      indexStep d.borrow (.key s) noErr marker = indexStep d'.borrow (.key s) noErr marker
  | .selector s => x.pathSelect s d.val = x.pathSelect s d'.val

/-- The reference means the same with either data and binding. -/
structure MeansSame (x : Externals) (d d' : Cow) (forEach forEach' : Option (List Cow))
    (r : Reference) : Prop where
  bound : BoundSame forEach forEach' r
  found : FoundSame x d d' r

theorem foundSame_rfl : FoundSame x d d r := by
  cases r with
  | ident s => exact fun _ _ => ⟨rfl, rfl⟩
  | selector s => rfl

/-- All the references mean the same. -/
abbrev AllSame (x : Externals) (d d' : Cow) (forEach forEach' : Option (List Cow))
    (rs : List Reference) : Prop :=
  ∀ r ∈ rs, MeansSame x d d' forEach forEach' r

/-- What a path finds at its start and the key after it. -/
def find (s : String) (next : Option String) (d : Cow) (noErr : Bool) (marker : Marker) :
    Except ExecutingError Cow :=
  (indexStep d (.key s) noErr marker).bind fun v =>
    match next with
    | some next => indexStep v (.key next) noErr marker
    | none => .ok v

/-- The read finds the same in both data. -/
def Read.FoundSame (x : Externals) (d d' : Cow) : Read → Prop
  | .path s next => ∀ noErr marker,
      find s next d noErr marker = find s next d' noErr marker ∧
      find s next d.borrow noErr marker = find s next d'.borrow noErr marker
  | .selector _ s => x.pathSelect s d.val = x.pathSelect s d'.val

/-- The read means the same with either data and binding. -/
structure Read.MeansSame (x : Externals) (d d' : Cow) (forEach forEach' : Option (List Cow))
    (r : Read) : Prop where
  bound : BoundSame forEach forEach' r.reference
  found : r.FoundSame x d d'

section Reads

variable {r : Read}

theorem Read.foundSame_rfl : r.FoundSame x d d := by
  cases r with
  | path s next => exact fun _ _ => ⟨rfl, rfl⟩
  | selector provider s => rfl

theorem Read.FoundSame.borrow (h : r.FoundSame x d d') : r.FoundSame x d.borrow d'.borrow := by
  cases r with
  | path s next => exact fun noErr marker => ⟨(h noErr marker).2, (h noErr marker).2⟩
  | selector provider s => exact h

/-- What starts with the same goes on with the same. -/
theorem MeansSame.read (h : MeansSame x d d' forEach forEach' r.reference) :
    r.MeansSame x d d' forEach forEach' := by
  refine ⟨h.bound, ?_⟩
  have hfound := h.found
  cases r with
  | path s next =>
    intro noErr marker
    obtain ⟨hd, hborrow⟩ := hfound noErr marker
    rw [find, find, find, find, hd, hborrow]
    exact ⟨rfl, rfl⟩
  | selector provider s => exact hfound

end Reads

/-- All the reads mean the same. -/
abbrev SameReads (x : Externals) (d d' : Cow) (forEach forEach' : Option (List Cow))
    (rs : List Read) : Prop :=
  ∀ r ∈ rs, r.MeansSame x d d' forEach forEach'

variable {rs rs' : List Read}

theorem SameReads.borrow (h : SameReads x d d' forEach forEach' rs) :
    SameReads x d.borrow d'.borrow forEach forEach' rs :=
  fun r hr => ⟨(h r hr).bound, (h r hr).found.borrow⟩

theorem SameReads.left (h : SameReads x d d' forEach forEach' (rs ++ rs')) :
    SameReads x d d' forEach forEach' rs :=
  fun r hr => h r (List.mem_append_left rs' hr)

theorem SameReads.right (h : SameReads x d d' forEach forEach' (rs ++ rs')) :
    SameReads x d d' forEach forEach' rs' :=
  fun r hr => h r (List.mem_append_right rs hr)

/-- On one data, only the binding counts. -/
theorem SameReads.at (h : SameReads x d d' forEach forEach' rs) (j : Cow) :
    SameReads x j j forEach forEach' rs :=
  fun r hr => ⟨(h r hr).bound, Read.foundSame_rfl⟩

theorem AllSame.reads (h : AllSame x d d' forEach forEach' (rs.map Read.reference)) :
    SameReads x d d' forEach forEach' rs :=
  fun _ hr => (h _ (List.mem_map_of_mem hr)).read

/-- A path goes on from what it finds. -/
theorem find_indexJson2 {s : String} {rest : List PathSegment} {noErr : Bool} {marker : Marker} :
    ((indexStep d (.key s) noErr marker).bind fun v =>
        indexJson2 x rest v noErr forEach marker) =
      (find s (firstKey rest) d noErr marker).bind fun v =>
        indexJson2 x (afterKey rest) v noErr forEach marker := by
  rw [find]
  cases indexStep d (.key s) noErr marker with
  | error e => rfl
  | ok v =>
    rcases rest with _ | ⟨_ | next | _, rest⟩
    · rfl
    · rfl
    · simp only [firstKey, afterKey, Except.bind, indexJson2, PathSegment.evaluate]
    · rfl

mutual

theorem ValueOrExpression.evaluate_reads {e : ValueOrExpression} {d d' : Cow}
    (h : SameReads x d d' forEach forEach' e.reads) (noErr : Bool) :
    e.evaluate x d noErr forEach = e.evaluate x d' noErr forEach' := by
  cases e with
  | value v =>
    rw [ValueOrExpression.reads] at h
    simp only [ValueOrExpression.evaluate, Value.evaluate_reads h noErr]
  | expression e =>
    rw [ValueOrExpression.reads] at h
    simp only [ValueOrExpression.evaluate, Expression.evaluate_reads h noErr]

theorem Value.evaluate_reads {v : Value} {d d' : Cow}
    (h : SameReads x d d' forEach forEach' v.reads) (noErr : Bool) :
    v.evaluate x d noErr forEach = v.evaluate x d' noErr forEach' := by
  cases v with
  | path p =>
    rw [Value.reads] at h
    simp only [Value.evaluate, Path.evaluate_reads h noErr]
  | json v => simp only [Value.evaluate]
  | template t =>
    rw [Value.reads] at h
    simp only [Value.evaluate, Template.evaluate_reads h]

theorem Path.evaluate_reads {p : Path} {d d' : Cow}
    (h : SameReads x d d' forEach forEach' p.reads) (noErr : Bool) :
    p.evaluate x d noErr forEach = p.evaluate x d' noErr forEach' := by
  obtain ⟨start, rest, marker⟩ := p
  rw [Path.reads] at h
  have hrest (v : Cow) := indexJson2_reads (h.right.at v) noErr marker
  cases start with
  | functionCall f =>
    have hf := h.left
    rw [PathStart.reads] at hf
    simp only [Path.evaluate, FunctionCall.evaluate_reads hf noErr, hrest]
  | ident s =>
    have hs : (Read.path s (firstKey rest)).MeansSame x d d' forEach forEach' :=
      h.left _ (by simp [PathStart.reads])
    have hfound := (hs.found noErr marker).1
    rw [Path.evaluate, Path.evaluate]
    by_cases hforEach : s = "for_each"
    · rw [hs.bound (hforEach ▸ rfl)]
      simp only [find_indexJson2, hfound]
    · rw [if_neg hforEach, if_neg hforEach]
      simp only [find_indexJson2, hfound, hrest]
  | value v => simp only [Path.evaluate, hrest]

theorem indexJson2_reads {rest : List PathSegment} {json : Cow}
    (h : SameReads x json json forEach forEach' (segmentsReads rest)) (noErr : Bool)
    (marker : Marker) :
    indexJson2 x rest json noErr forEach marker = indexJson2 x rest json noErr forEach' marker := by
  cases rest with
  | nil => simp only [indexJson2]
  | cons segment rest =>
    rw [segmentsReads] at h
    have hrest (v : Cow) := indexJson2_reads (h.right.at v) noErr marker
    simp only [indexJson2, PathSegment.evaluate_reads h.left.borrow, hrest]

theorem PathSegment.evaluate_reads {segment : PathSegment} {d d' : Cow}
    (h : SameReads x d d' forEach forEach' segment.reads) :
    segment.evaluate x d forEach = segment.evaluate x d' forEach' := by
  cases segment with
  | number n => simp only [PathSegment.evaluate]
  | string s => simp only [PathSegment.evaluate]
  | template t =>
    rw [PathSegment.reads] at h
    simp only [PathSegment.evaluate, Template.evaluate_reads h]

theorem Template.evaluate_reads {t : Template} {d d' : Cow}
    (h : SameReads x d d' forEach forEach' t.reads) :
    t.evaluate x d forEach = t.evaluate x d' forEach' := by
  obtain ⟨pieces, noErr⟩ := t
  rw [Template.reads] at h
  simp only [Template.evaluate, evaluatePieces_reads h noErr]

theorem evaluatePieces_reads {pieces : List TemplatePiece} {d d' : Cow}
    (h : SameReads x d d' forEach forEach' (piecesReads pieces)) (noErr : Bool) :
    evaluatePieces x pieces d noErr forEach = evaluatePieces x pieces d' noErr forEach' := by
  cases pieces with
  | nil => simp only [evaluatePieces]
  | cons piece pieces =>
    rw [piecesReads] at h
    simp only [evaluatePieces, TemplatePiece.evaluate_reads h.left noErr,
      evaluatePieces_reads h.right noErr]

theorem TemplatePiece.evaluate_reads {piece : TemplatePiece} {d d' : Cow}
    (h : SameReads x d d' forEach forEach' piece.reads) (noErr : Bool) :
    piece.evaluate x d noErr forEach = piece.evaluate x d' noErr forEach' := by
  cases piece with
  | expression e =>
    rw [TemplatePiece.reads] at h
    simp only [TemplatePiece.evaluate, ValueOrExpression.evaluate_reads h.borrow noErr]
  | notExpression s => simp only [TemplatePiece.evaluate]

theorem Expression.evaluate_reads {e : Expression} {d d' : Cow}
    (h : SameReads x d d' forEach forEach' e.reads) (noErr : Bool) :
    e.evaluate x d noErr forEach = e.evaluate x d' noErr forEach' := by
  obtain ⟨not, lhs, _ | ⟨op, rhs⟩⟩ := e
  · rw [Expression.reads] at h
    simp only [Expression.evaluate, ExpressionLhs.evaluate_reads h noErr]
  · rw [Expression.reads] at h
    simp only [Expression.evaluate, ExpressionLhs.evaluate_reads h.left.borrow noErr,
      Expression.evaluate_reads h.right.borrow noErr]

theorem ExpressionLhs.evaluate_reads {lhs : ExpressionLhs} {d d' : Cow}
    (h : SameReads x d d' forEach forEach' lhs.reads) (noErr : Bool) :
    lhs.evaluate x d noErr forEach = lhs.evaluate x d' noErr forEach' := by
  cases lhs with
  | expression e =>
    rw [ExpressionLhs.reads] at h
    simp only [ExpressionLhs.evaluate, Expression.evaluate_reads h noErr]
  | value v =>
    rw [ExpressionLhs.reads] at h
    simp only [ExpressionLhs.evaluate, Value.evaluate_reads h noErr]

theorem FunctionCall.evaluate_reads {f : FunctionCall} {d d' : Cow}
    (h : SameReads x d d' forEach forEach' f.reads) (noErr : Bool) :
    f.evaluate x d noErr forEach = f.evaluate x d' noErr forEach' := by
  cases f with
  | collect arg _ _ | encode arg _ | entries arg | join arg _ _ | matchRegex arg _ _
  | pad _ arg _ _ =>
    rw [FunctionCall.reads] at h
    simp only [FunctionCall.evaluate, ValueOrExpression.evaluate_reads h noErr]
  | jsonPath provider selector _ =>
    have hs : x.pathSelect selector d.val = x.pathSelect selector d'.val :=
      (h (.selector provider selector) (by simp [FunctionCall.reads])).found
    simp only [FunctionCall.evaluate, hs]
  | epoch _ | randomInteger _ _ | randomFloat _ _ | rangeConstant _ | repeatNull _ _ =>
    simp only [FunctionCall.evaluate]
  | ifElse a b c | replace a b c =>
    rw [FunctionCall.reads] at h
    simp only [FunctionCall.evaluate, ValueOrExpression.evaluate_reads h.left.left.borrow noErr,
      ValueOrExpression.evaluate_reads h.left.right noErr,
      ValueOrExpression.evaluate_reads h.right.borrow noErr,
      ValueOrExpression.evaluate_reads h.right noErr]
  | range a b _ =>
    rw [FunctionCall.reads] at h
    simp only [FunctionCall.evaluate, ValueOrExpression.evaluate_reads h.left.borrow noErr,
      ValueOrExpression.evaluate_reads h.right noErr]
  | minMax args _ =>
    rw [FunctionCall.reads] at h
    simp only [FunctionCall.evaluate, evaluateArgs_reads h noErr]

theorem evaluateArgs_reads {args : List ValueOrExpression} {d d' : Cow}
    (h : SameReads x d d' forEach forEach' (argsReads args)) (noErr : Bool) :
    evaluateArgs x args d noErr forEach = evaluateArgs x args d' noErr forEach' := by
  cases args with
  | nil => simp only [evaluateArgs]
  | cons arg args =>
    rw [argsReads] at h
    simp only [evaluateArgs, ValueOrExpression.evaluate_reads h.left.borrow noErr,
      evaluateArgs_reads h.right noErr]

end

mutual

theorem ParsedSelect.evaluate_reads {p : ParsedSelect} {d d' : Cow}
    (h : SameReads x d d' forEach forEach' p.reads) (noErr : Bool) :
    p.evaluate x d noErr forEach = p.evaluate x d' noErr forEach' := by
  cases p with
  | null | bool b | number n => simp only [ParsedSelect.evaluate]
  | expression e =>
    rw [ParsedSelect.reads] at h
    simp only [ParsedSelect.evaluate, ValueOrExpression.evaluate_reads h noErr]
  | array a =>
    rw [ParsedSelect.reads] at h
    simp only [ParsedSelect.evaluate, evaluateSelects_reads h noErr]
  | object o =>
    rw [ParsedSelect.reads] at h
    simp only [ParsedSelect.evaluate, evaluateEntries_reads h noErr]

theorem evaluateSelects_reads {a : List ParsedSelect} {d d' : Cow}
    (h : SameReads x d d' forEach forEach' (selectsReads a)) (noErr : Bool) :
    evaluateSelects x a d noErr forEach = evaluateSelects x a d' noErr forEach' := by
  cases a with
  | nil => simp only [evaluateSelects]
  | cons p a =>
    rw [selectsReads] at h
    simp only [evaluateSelects, ParsedSelect.evaluate_reads h.left.borrow noErr,
      evaluateSelects_reads h.right noErr]

theorem evaluateEntries_reads {o : List (String × ParsedSelect)} {d d' : Cow}
    (h : SameReads x d d' forEach forEach' (entriesReads o)) (noErr : Bool) :
    evaluateEntries x o d noErr forEach = evaluateEntries x o d' noErr forEach' := by
  cases o with
  | nil => simp only [evaluateEntries]
  | cons e o =>
    rw [entriesReads] at h
    simp only [evaluateEntries, evaluateEntry_reads h.left noErr,
      evaluateEntries_reads h.right noErr]

theorem evaluateEntry_reads {e : String × ParsedSelect} {d d' : Cow}
    (h : SameReads x d d' forEach forEach' (entryReads e)) (noErr : Bool) :
    evaluateEntry x e d noErr forEach = evaluateEntry x e d' noErr forEach' := by
  obtain ⟨k, p⟩ := e
  rw [entryReads] at h
  simp only [evaluateEntry, ParsedSelect.evaluate_reads h.borrow noErr]

end

theorem Expression.evaluate_same {e : Expression}
    (h : AllSame x d d' forEach forEach' e.references) (noErr : Bool) :
    e.evaluate x d noErr forEach = e.evaluate x d' noErr forEach' :=
  e.evaluate_reads (AllSame.reads (e.references_eq ▸ h)) noErr

theorem ParsedSelect.evaluate_same {p : ParsedSelect}
    (h : AllSame x d d' forEach forEach' p.references) (noErr : Bool) :
    p.evaluate x d noErr forEach = p.evaluate x d' noErr forEach' :=
  p.evaluate_reads (AllSame.reads (p.references_eq ▸ h)) noErr

/-- Without a reference to `for_each` the binding does not count. -/
theorem allSame_unbound {rs : List Reference} (h : .ident "for_each" ∉ rs) (d : Cow)
    (forEach forEach' : Option (List Cow)) : AllSame x d d forEach forEach' rs :=
  fun _ hr => ⟨fun heq => absurd (heq ▸ hr) h, foundSame_rfl⟩

end Same

end Pewpew.SelectParser
