import Pewpew.Expression.StreamValue

/-! The streams of expressions yield their values, poll by poll. -/
namespace Pewpew.SelectParser

open Polling ZipAll

section Poll

variable {α β Ar : Type}

/-- The value of an item without its returns. -/
abbrev itemValue : Item α Ar → Option α := okValue Prod.fst

/-- How a stream of items behaves. -/
abbrev Gives (s : PollStream (Item α Ar)) (o : Option α) : Prop := Behaves itemValue s o

variable {s s1 s2 s3 : PollStream (Item Json Ar)} {o o1 o2 o3 : Option Json}
  {i : Option (Item Json Ar)} {t : PollStream (Item Json Ar)} {b : Bool} {r : List Ar}

theorem mapOk_gives {s : PollStream (Item α Ar)} {o : Option α} (f : α → β) (h : Gives s o) :
    Gives (mapOk f s) (o.map f) := by
  have hf (a : Item α Ar) : itemValue (a.map fun p => (f p.1, p.2)) =
      (itemValue a).bind fun v => some (f v) := by
    cases a <;> rfl
  rw [Option.map_eq_bind]
  exact h.mapItems hf

theorem always_gives (v : α) : Gives (always (.ok (v, ([] : List Ar)))) (some v) :=
  always_behaves itemValue _

/-! ### The poll function of `if` -/

@[simp] theorem IfState.branch_setBranch (c : IfState Ar) (b : Bool) :
    (c.setBranch b t).branch b = t := by
  cases b <;> rfl

@[simp] theorem IfState.setBranch_done (c : IfState Ar) (b : Bool) :
    (c.setBranch b t).done = c.done := by
  cases b <;> rfl

@[simp] theorem IfState.setBranch_holder (c : IfState Ar) (b : Bool) :
    (c.setBranch b t).holder = c.holder := by
  cases b <;> rfl

@[simp] theorem IfState.setBranch_first (c : IfState Ar) (b : Bool) :
    (c.setBranch b t).first = c.first := by
  cases b <;> rfl

@[simp] theorem IfState.setBranch_setBranch (c : IfState Ar) (b : Bool)
    (u : PollStream (Item Json Ar)) : (c.setBranch b t).setBranch b u = c.setBranch b u := by
  cases b <;> rfl

/-- The state after the item of a branch. -/
def IfState.taken (c : IfState Ar) (b : Bool) (t : PollStream (Item Json Ar)) : IfState Ar :=
  { c.setBranch b t with holder := none }

/-- While the condition is held, the answer is the one of its branch. -/
theorem ifState_branch {c : IfState Ar} (h : Next (c.branch b) i t) (hd : c.done = false)
    (hh : c.holder = some (b, r)) :
    ∃ j u, Next (run IfState.poll c) j u ∧ j.bind itemValue = i.bind itemValue ∧
      (i.bind itemValue ≠ none → u = run IfState.poll (c.taken b t)) := by
  generalize hs : c.branch b = s at h
  induction h generalizing c with
  | @ready s i hi =>
    subst hs
    rcases i with _ | e | ⟨v, returns⟩
    · have hp : c.poll = (.ready none, { c.setBranch b (c.branch b).tail with done := true }) := by
        simp [IfState.poll, hd, hh, IfState.pollBranch, hi]
      exact ⟨_, _, next_run_ready hp, rfl, by simp⟩
    · have hp : c.poll = (.ready (some (.error e)),
          { c.setBranch b (c.branch b).tail with done := true }) := by
        simp [IfState.poll, hd, hh, IfState.pollBranch, hi]
      exact ⟨_, _, next_run_ready hp, rfl, by simp [okValue]⟩
    · have hp : c.poll = (.ready (some (.ok (v, r ++ returns))),
          c.taken b (c.branch b).tail) := by
        simp [IfState.poll, hd, hh, IfState.pollBranch, hi, IfState.taken]
      exact ⟨_, _, next_run_ready hp, rfl, fun _ => rfl⟩
  | @pending s t i hi _ ih =>
    subst hs
    obtain ⟨j, u, hn, hj, hu⟩ := @ih (c.setBranch b (c.branch b).tail) (by simpa using hd)
      (by simpa using hh) (by simp)
    have hp : c.poll = (.pending, c.setBranch b (c.branch b).tail) := by
      simp [IfState.poll, hd, hh, IfState.pollBranch, hi]
    refine ⟨j, u, next_run_pending hp hn, hj, fun hi => ?_⟩
    rw [hu hi, IfState.taken, IfState.setBranch_setBranch, IfState.taken]

/-- While no condition is held, the answer is the one after the condition, or its failure. -/
theorem ifState_first {c : IfState Ar} (h : Next c.first i t) (hd : c.done = false)
    (hh : c.holder = none) :
    (∀ v r, i = some (.ok (v, r)) →
      ∀ j u, Next (run IfState.poll { c with first := t, holder := some (v.boolValue, r) }) j u →
        Next (run IfState.poll c) j u) ∧
      (i.bind itemValue = none →
        ∃ j u, Next (run IfState.poll c) j u ∧ j.bind itemValue = none) := by
  generalize hs : c.first = s at h
  induction h generalizing c with
  | @ready s i hi =>
    subst hs
    constructor
    · rintro v r rfl j u hn
      have hp : c.poll =
          IfState.poll { c with first := c.first.tail, holder := some (v.boolValue, r) } := by
        simp [IfState.poll, hd, hh, hi]
      rwa [run_congr hp]
    · intro hnone
      rcases i with _ | e | ⟨v, r⟩
      · have hp : c.poll = (.ready none, { c with first := c.first.tail, done := true }) := by
          simp [IfState.poll, hd, hh, hi]
        exact ⟨_, _, next_run_ready hp, rfl⟩
      · have hp : c.poll =
            (.ready (some (.error e)), { c with first := c.first.tail, done := true }) := by
          simp [IfState.poll, hd, hh, hi]
        exact ⟨_, _, next_run_ready hp, rfl⟩
      · cases hnone
  | @pending s t i hi _ ih =>
    subst hs
    have hp : c.poll = (.pending, { c with first := c.first.tail }) := by
      simp [IfState.poll, hd, hh, hi]
    obtain ⟨hok, hfails⟩ := @ih { c with first := c.first.tail } hd hh rfl
    constructor
    · intro v r hv j u hn
      exact next_run_pending hp (hok v r hv j u hn)
    · intro hnone
      obtain ⟨j, u, hn, hj⟩ := hfails hnone
      exact ⟨j, u, next_run_pending hp hn, hj⟩

/-- Between two items, with the values that the condition and both branches give. -/
structure IfState.Idle (o : Option Json) (branches : Bool → Option Json) (c : IfState Ar) :
    Prop where
  done : c.done = false
  holder : c.holder = none
  first : Gives c.first o
  branch : ∀ b, Gives (c.branch b) (branches b)

variable {branches : Bool → Option Json}

theorem IfState.idle_taken {c : IfState Ar} (hd : c.done = false) (hf : Gives c.first o)
    (hb : ∀ b, Gives (c.branch b) (branches b)) (b : Bool) (ht : Gives t (branches b)) :
    (c.taken b t).Idle o branches := by
  refine ⟨?_, rfl, ?_, ?_⟩
  · exact (IfState.setBranch_done c b).trans hd
  · exact (congrArg (Gives · o) (IfState.setBranch_first c b)).mpr hf
  · intro b'
    have hother := hb b'
    cases b <;> cases b' <;> assumption

theorem IfState.Idle.next {c : IfState Ar} (h : c.Idle o branches) :
    ∃ j u, Next (run IfState.poll c) j u ∧
      j.bind itemValue = (o.bind fun v => branches v.boolValue) ∧
        (j.bind itemValue ≠ none → ∃ c', u = run IfState.poll c' ∧ c'.Idle o branches) := by
  obtain ⟨i, t, hn, hi, ht⟩ := h.first.next
  obtain ⟨hok, hfails⟩ := ifState_first hn h.done h.holder
  cases o with
  | none =>
    obtain ⟨j, u, hnext, hj⟩ := hfails hi
    exact ⟨j, u, hnext, hj, fun hne => absurd hj hne⟩
  | some v =>
    obtain ⟨r, rfl⟩ : ∃ r, i = some (.ok (v, r)) := by
      rcases i with _ | e | ⟨w, r⟩
      · cases hi
      · cases hi
      · obtain rfl : w = v := by simpa [okValue] using hi
        exact ⟨r, rfl⟩
    let held : IfState Ar := { c with first := t, holder := some (v.boolValue, r) }
    have hb : ∀ b, Gives (held.branch b) (branches b) := h.branch
    have hd : held.done = false := h.done
    obtain ⟨i', t', hn', hi', ht'⟩ := (hb v.boolValue).next
    obtain ⟨j, u, hnext, hj, hu⟩ := ifState_branch hn' hd rfl
    refine ⟨j, u, hok v r rfl j u hnext, hj.trans hi', fun hne => ?_⟩
    rw [hj] at hne
    refine ⟨_, hu hne, IfState.idle_taken hd (ht (by simp)) hb _ (ht' ?_)⟩
    rwa [← hi']

/-- `If::into_stream` gives what the branch gives that the condition selects. -/
theorem ifState_gives (h1 : Gives s1 o1) (h2 : Gives s2 o2) (h3 : Gives s3 o3) :
    Gives (run IfState.poll ⟨s1, s2, s3, none, false⟩)
      (o1.bind fun v => if v.boolValue then o2 else o3) := by
  have hidle : IfState.Idle o1 (fun b => if b then o2 else o3) ⟨s1, s2, s3, none, false⟩ := by
    refine ⟨rfl, rfl, h1, ?_⟩
    rintro (_ | _)
    · exact h3
    · exact h2
  generalize ho : (o1.bind fun v => if v.boolValue then o2 else o3) = o
  cases o with
  | none =>
    obtain ⟨j, u, hn, hj, -⟩ := hidle.next
    exact ⟨j, u, hn, hj.trans ho⟩
  | some w =>
    apply yields_of_invariant (I := fun s => ∃ c, s = run IfState.poll c ∧
      c.Idle o1 fun b => if b then o2 else o3) _ ⟨_, rfl, hidle⟩
    rintro _ ⟨c, rfl, hc⟩
    obtain ⟨j, u, hn, hj, hu⟩ := hc.next
    rw [ho] at hj
    cases j with
    | none => cases hj
    | some a => exact ⟨a, u, hn, hj, hu (by simp [hj])⟩

/-! ### The functions applied to items -/

theorem infixItem_value (not : Option Bool) (op : InfixOperator)
    (p : Item Json Ar × Item Json Ar) : itemValue (infixItem not op p) =
      (pairValue itemValue itemValue p).bind fun q =>
        (op.evaluate q.1 (.ok q.2)).toOption.map (negated not) := by
  obtain ⟨_ | ⟨l, r⟩, _ | ⟨l', r'⟩⟩ := p
  · rfl
  · rfl
  · rfl
  · change itemValue ((op.evaluate l (.ok l')).map fun v => (negated not v, r ++ r')) = _
    cases h : op.evaluate l (.ok l') <;> simp [pairValue, okValue, Except.map, Except.toOption, h]

theorem rangeItem_value (marker : Marker) (p : Item Json Ar × Item Json Ar) :
    itemValue (rangeItem marker p) = (pairValue itemValue itemValue p).bind fun q =>
      (rangeOf marker q.1 q.2).toOption.map fun range => .array range.items := by
  obtain ⟨_ | ⟨l, r⟩, _ | ⟨l', r'⟩⟩ := p
  · rfl
  · rfl
  · rfl
  · change itemValue ((rangeOf marker l l').map fun range =>
      ((.array range.items : Json), r ++ r')) = _
    cases h : rangeOf marker l l' <;> simp [pairValue, okValue, Except.map, Except.toOption, h]

theorem replaceItem_value (x : Externals) (p : (Item Json Ar × Item Json Ar) × Item Json Ar) :
    itemValue (replaceItem x p) =
      (pairValue (pairValue itemValue itemValue) itemValue p).bind fun q => some
        (replaceIn (Json.valueToString x q.1.2) (Json.valueToString x q.2) q.1.1) := by
  obtain ⟨⟨_ | ⟨h, r⟩, _ | ⟨n, r'⟩⟩, _ | ⟨l, r''⟩⟩ := p <;> rfl

theorem indexItem_value (x : Externals) (rest : List PathSegment) (noErr : Bool)
    (marker : Marker) (i : Item Json Ar) :
    itemValue (indexItem x rest noErr marker i) =
      (itemValue i).bind (indexValue x rest noErr marker) := by
  rcases i with _ | ⟨v, r⟩
  · rfl
  · change itemValue ((indexJson2 x rest (.owned v) noErr none marker).map
      fun w => (w.val, r)) = indexValue x rest noErr marker v
    rw [indexValue]
    cases h : indexJson2 x rest (.owned v) noErr none marker <;>
      simp [okValue, Except.map, Except.toOption]

theorem joinItem_value (i : Except ExecutingError (List (String × List Ar))) :
    itemValue (joinItem i) = (okValue (List.map Prod.fst) i).bind fun vs =>
      some (String.join vs) := by
  cases i <;> rfl

theorem minMaxItem_value (min : Bool) (i : Except ExecutingError (List (Json × List Ar))) :
    itemValue (minMaxItem min i) = (okValue (List.map Prod.fst) i).bind fun vs =>
      some (MinMax.evalIter min vs) := by
  cases i <;> rfl

end Poll

section Refinement

variable {α β Ar : Type} {z : Zip} {x : Externals} {draws : Nat → Externals}
  {providers : String → Option (PollStream (Item Json Ar))} {values : Object}
  {known : String → Prop}

/-- There is a stream, and it behaves so. -/
def Streams (s : Option (PollStream (Item α Ar))) (o : Option α) : Prop :=
  ∃ t, s = some t ∧ Gives t o

/-- The stream of each assigned provider yields its value forever. -/
def Supplies (providers : String → Option (PollStream (Item Json Ar))) (values : Object) : Prop :=
  ∀ name v, Object.get values name = some v → Streams (providers name) (some v)

/-- A provider to which a value is assigned. -/
def Assigned (values : Object) (name : String) : Prop := ∃ v, Object.get values name = some v

variable {s : Option (PollStream (Item α Ar))} {t : Option (PollStream (Item β Ar))}
  {o : Option α} {r : Option β}

theorem Streams.map {f : PollStream (Item α Ar) → PollStream (Item β Ar)} (h : Streams s o)
    (hf : ∀ s, Gives s o → Gives (f s) r) : Streams (s.map f) r := by
  obtain ⟨t, rfl, ht⟩ := h
  exact ⟨f t, rfl, hf t ht⟩

theorem Streams.mapOk (h : Streams s o) (f : α → β) : Streams (s.map (mapOk f)) (o.map f) :=
  h.map fun _ hs => mapOk_gives f hs

theorem streams_always (v : α) : Streams (some (always (.ok (v, ([] : List Ar))))) (some v) :=
  ⟨_, rfl, always_gives v⟩

/-- There are streams for a list, which behave so one by one. -/
def StreamsAll (ss : Option (List (PollStream (Item α Ar)))) (os : List (Option α)) : Prop :=
  ∃ ts, ss = some ts ∧ List.Forall₂ Gives ts os

theorem StreamsAll.cons {ss : Option (List (PollStream (Item α Ar)))} {os : List (Option α)}
    (h : Streams s o) (hs : StreamsAll ss os) :
    StreamsAll (s.bind fun s => ss.map (s :: ·)) (o :: os) := by
  obtain ⟨t, rfl, ht⟩ := h
  obtain ⟨ts, rfl, hts⟩ := hs
  exact ⟨t :: ts, rfl, .cons ht hts⟩

mutual

theorem ValueOrExpression.streams (hp : Supplies providers values) {e : ValueOrExpression}
    (h : e.Ordinary (Assigned values))
    (noErr : Bool) :
    Streams (e.intoStream z x draws providers noErr) (e.streamValue x values noErr) := by
  cases e with
  | value v =>
    rw [ValueOrExpression.Ordinary] at h
    rw [ValueOrExpression.intoStream, ValueOrExpression.streamValue]
    exact Value.streams hp h noErr
  | expression e =>
    rw [ValueOrExpression.Ordinary] at h
    rw [ValueOrExpression.intoStream, ValueOrExpression.streamValue]
    exact Expression.streams hp h noErr

theorem Value.streams (hp : Supplies providers values) {v : Value}
    (h : v.Ordinary (Assigned values)) (noErr : Bool) :
    Streams (v.intoStream z x draws providers noErr) (v.streamValue x values noErr) := by
  cases v with
  | path p =>
    rw [Value.Ordinary] at h
    rw [Value.intoStream, Value.streamValue]
    exact Path.streams hp h noErr
  | json v =>
    rw [Value.intoStream, Value.streamValue]
    exact streams_always v
  | template t =>
    rw [Value.Ordinary] at h
    rw [Value.intoStream, Value.streamValue]
    exact (Template.streams hp h).mapOk Json.string

theorem Path.streams (hp : Supplies providers values) {p : Path} (h : p.Ordinary (Assigned values))
    (noErr : Bool) :
    Streams (p.intoStream z x draws providers noErr) (p.streamValue x values noErr) := by
  obtain ⟨start, rest, marker⟩ := p
  rw [Path.Ordinary] at h
  have hindex {s : PollStream (Item Json Ar)} {o : Option Json} (hs : Gives s o) :
      Gives (mapItems (indexItem x rest noErr marker) s)
        (o.bind (indexValue x rest noErr marker)) :=
    hs.mapItems (indexItem_value x rest noErr marker)
  cases start with
  | functionCall f =>
    have hf := h.1
    rw [PathStart.Ordinary] at hf
    rw [Path.intoStream, Path.streamValue]
    exact (FunctionCall.streams hp hf noErr).map fun _ => hindex
  | ident name =>
    have hname := h.1
    rw [PathStart.Ordinary] at hname
    obtain ⟨v, hv⟩ := hname
    rw [Path.intoStream, Path.streamValue, hv]
    exact (hp name v hv).map fun _ => hindex
  | value v =>
    rw [Path.intoStream, Path.streamValue]
    refine ⟨_, rfl, ?_⟩
    have hv := always_behaves itemValue
      (indexItem x rest noErr marker (.ok (v, ([] : List Ar))))
    rw [indexItem_value] at hv
    exact hv

theorem Template.streams (hp : Supplies providers values) {t : Template}
    (h : t.Ordinary (Assigned values)) :
    Streams (t.intoStream z x draws providers) (t.streamValue x values) := by
  obtain ⟨pieces, noErr⟩ := t
  rw [Template.Ordinary] at h
  rw [Template.intoStream, Template.streamValue]
  obtain ⟨ts, hts, hall⟩ := piecesStreams hp h noErr
  refine ⟨_, congrArg _ hts, ?_⟩
  rw [Option.map_eq_bind]
  exact (zipAll_behaves hall).mapItems joinItem_value

theorem piecesStreams (hp : Supplies providers values) {pieces : List TemplatePiece}
    (h : piecesOrdinary (Assigned values) pieces) (noErr : Bool) :
    StreamsAll (piecesIntoStream z x draws providers pieces noErr)
      (piecesStreamValues x values pieces noErr) := by
  cases pieces with
  | nil => exact ⟨[], by rw [piecesIntoStream], by rw [piecesStreamValues]; exact .nil⟩
  | cons piece pieces =>
    rw [piecesOrdinary] at h
    rw [piecesIntoStream, piecesStreamValues]
    exact .cons (TemplatePiece.streams hp h.1 noErr) (piecesStreams hp h.2 noErr)

theorem TemplatePiece.streams (hp : Supplies providers values) {piece : TemplatePiece}
    (h : piece.Ordinary (Assigned values))
    (noErr : Bool) :
    Streams (piece.intoStream z x draws providers noErr) (piece.streamValue x values noErr) := by
  cases piece with
  | expression e =>
    rw [TemplatePiece.Ordinary] at h
    rw [TemplatePiece.intoStream, TemplatePiece.streamValue]
    exact (ValueOrExpression.streams hp h noErr).mapOk (Json.valueToString x)
  | notExpression s =>
    rw [TemplatePiece.intoStream, TemplatePiece.streamValue]
    exact streams_always s

theorem Expression.streams (hp : Supplies providers values) {e : Expression}
    (h : e.Ordinary (Assigned values)) (noErr : Bool) :
    Streams (e.intoStream z x draws providers noErr) (e.streamValue x values noErr) := by
  obtain ⟨not, lhs, _ | ⟨op, rhs⟩⟩ := e
  · rw [Expression.Ordinary] at h
    rw [Expression.intoStream, Expression.streamValue]
    exact (ExpressionLhs.streams hp h noErr).mapOk (negated not)
  · rw [Expression.Ordinary] at h
    rw [Expression.intoStream, Expression.streamValue]
    obtain ⟨s, hs, hl⟩ := ExpressionLhs.streams hp h.1 noErr
    obtain ⟨t, ht, hr⟩ := Expression.streams hp h.2 noErr
    rw [hs, ht]
    refine ⟨_, rfl, ?_⟩
    have hpair := (z.behaves hl hr).mapItems (infixItem_value not op)
    simpa [Option.bind_assoc, Option.bind_map, Option.map_eq_bind] using hpair

theorem ExpressionLhs.streams (hp : Supplies providers values) {lhs : ExpressionLhs}
    (h : lhs.Ordinary (Assigned values))
    (noErr : Bool) :
    Streams (lhs.intoStream z x draws providers noErr) (lhs.streamValue x values noErr) := by
  cases lhs with
  | expression e =>
    rw [ExpressionLhs.Ordinary] at h
    rw [ExpressionLhs.intoStream, ExpressionLhs.streamValue]
    exact Expression.streams hp h noErr
  | value v =>
    rw [ExpressionLhs.Ordinary] at h
    rw [ExpressionLhs.intoStream, ExpressionLhs.streamValue]
    exact Value.streams hp h noErr

theorem FunctionCall.streams (hp : Supplies providers values) {f : FunctionCall}
    (h : f.Ordinary (Assigned values))
    (noErr : Bool) :
    Streams (f.intoStream z x draws providers noErr) (f.streamValue x values noErr) := by
  cases f with
  | collect _ _ _ | epoch _ | randomInteger _ _ | randomFloat _ _ =>
    rw [FunctionCall.Ordinary] at h
    exact h.elim
  | encode arg _ | entries arg | join arg _ _ | matchRegex arg _ _ | pad _ arg _ _ =>
    rw [FunctionCall.Ordinary] at h
    rw [FunctionCall.intoStream, FunctionCall.streamValue]
    exact (ValueOrExpression.streams hp h noErr).mapOk _
  | ifElse first second third =>
    rw [FunctionCall.Ordinary] at h
    obtain ⟨s1, hs1, h1⟩ := ValueOrExpression.streams hp h.1 noErr
    obtain ⟨s2, hs2, h2⟩ := ValueOrExpression.streams hp h.2.1 noErr
    obtain ⟨s3, hs3, h3⟩ := ValueOrExpression.streams hp h.2.2 noErr
    rw [FunctionCall.intoStream, FunctionCall.streamValue, hs1, hs2, hs3]
    exact ⟨_, rfl, ifState_gives h1 h2 h3⟩
  | jsonPath provider selector marker =>
    rw [FunctionCall.Ordinary] at h
    obtain ⟨v, hv⟩ := h
    rw [FunctionCall.intoStream, FunctionCall.streamValue, hv]
    exact (hp provider v hv).mapOk _
  | minMax args min =>
    rw [FunctionCall.Ordinary] at h
    obtain ⟨ts, hts, hall⟩ := argsStreams hp h noErr
    rw [FunctionCall.intoStream, FunctionCall.streamValue, hts]
    refine ⟨_, rfl, ?_⟩
    rw [Option.map_eq_bind]
    exact (zipAll_behaves hall).mapItems (minMaxItem_value min)
  | range first second marker =>
    rw [FunctionCall.Ordinary] at h
    obtain ⟨s, hs, h1⟩ := ValueOrExpression.streams hp h.1 noErr
    obtain ⟨t, ht, h2⟩ := ValueOrExpression.streams hp h.2 noErr
    rw [FunctionCall.intoStream, FunctionCall.streamValue, hs, ht]
    refine ⟨_, rfl, ?_⟩
    have hpair := (z.behaves h1 h2).mapItems (rangeItem_value marker)
    simpa [Option.bind_assoc, Option.bind_map, Option.map_eq_bind] using hpair
  | rangeConstant r =>
    rw [FunctionCall.intoStream, FunctionCall.streamValue]
    exact streams_always _
  | repeatNull min random =>
    cases random with
    | none =>
      rw [FunctionCall.intoStream, FunctionCall.streamValue]
      exact streams_always _
    | some max =>
      rw [FunctionCall.Ordinary] at h
      exact h.elim
  | replace needle haystack replacer =>
    rw [FunctionCall.Ordinary] at h
    obtain ⟨s, hs, hn⟩ := ValueOrExpression.streams hp h.1 noErr
    obtain ⟨t, ht, hh⟩ := ValueOrExpression.streams hp h.2.1 noErr
    obtain ⟨u, hu, hr⟩ := ValueOrExpression.streams hp h.2.2 noErr
    rw [FunctionCall.intoStream, FunctionCall.streamValue, hs, ht, hu]
    refine ⟨_, rfl, ?_⟩
    have hpair := (z.behaves (z.behaves hh hn) hr).mapItems (replaceItem_value x)
    simpa [Option.bind_assoc, Option.bind_map, Option.map_eq_bind] using hpair

theorem argsStreams (hp : Supplies providers values) {args : List ValueOrExpression}
    (h : argsOrdinary (Assigned values) args)
    (noErr : Bool) :
    StreamsAll (argsIntoStream z x draws providers args noErr)
      (argsStreamValues x values args noErr) := by
  cases args with
  | nil => exact ⟨[], by rw [argsIntoStream], by rw [argsStreamValues]; exact .nil⟩
  | cons arg args =>
    rw [argsOrdinary] at h
    rw [argsIntoStream, argsStreamValues]
    exact .cons (ValueOrExpression.streams hp h.1 noErr) (argsStreams hp h.2 noErr)

end

end Refinement

end Pewpew.SelectParser
