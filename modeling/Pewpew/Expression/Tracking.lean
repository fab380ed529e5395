import Pewpew.Expression.References

/-! The parser notes every read of the data among the required providers. -/
namespace Pewpew.SelectParser

/-- The selector that `json_path` compiles. -/
def JsonPath.selector (path : String) : String :=
  (if "[".toList.isPrefixOf path.toList then "$" else "$.") ++ path

namespace Read

/-- The name under which a read is noted. -/
def name : Read → String
  | .path s (some next) => if s = "request" ∨ s = "response" then s ++ "." ++ next else s
  | .path s none => s
  | .selector provider _ => provider

/-- The selector and its provider come from one path. -/
def Built : Read → Prop
  | .path _ _ => True
  | .selector provider s => ∃ path, provider = JsonPath.provider path ∧ s = JsonPath.selector path

/-- A read of the parser's that is noted. -/
structure Noted (r : RequiredProviders) (read : Read) : Prop where
  has : r.Has read.name
  built : read.Built

end Read

def AllNoted (r : RequiredProviders) (reads : List Read) : Prop := ∀ read ∈ reads, read.Noted r

abbrev Free {α : Type} (r : RequiredProviders) (reads : α → List Read) (a : α) : Prop :=
  AllNoted r (reads a)

/-- A parser that notes in `q` what it found after `p`: if that is all within a bound, what the
result reads is noted there. -/
def Tracks {α : Type} (bound : RequiredProviders) (free : α → Prop) (p : RequiredProviders)
    (r : Except Failure (α × RequiredProviders)) : Prop :=
  ∀ a q, r = .ok (a, q) → q.isWhere = p.isWhere ∧ (q.Within bound → p.Within bound ∧ free a)

/-- A step of a loop that notes what it finds in its state. -/
def TracksState {σ : Type} (bound : RequiredProviders) (providers : σ → RequiredProviders)
    (free : σ → Prop) (s : σ) (r : Except Failure σ) : Prop :=
  ∀ t, r = .ok t → (providers t).isWhere = (providers s).isWhere ∧
    ((providers t).Within bound → (providers s).Within bound ∧ (free s → free t))

section Combine

variable {bound : RequiredProviders} {α β σ : Type} {free : α → Prop} {free' : β → Prop}
  {p : RequiredProviders} {r : Except Failure (α × RequiredProviders)}
  {providers : σ → RequiredProviders} {freeS : σ → Prop} {s : σ}

theorem tracks_ok {a : α} (h : free a) : Tracks bound free p (.ok (a, p)) := by
  intro a' q hq
  obtain ⟨rfl, rfl⟩ := Prod.mk.inj (Except.ok.inj hq)
  exact ⟨rfl, fun hl => ⟨hl, h⟩⟩

theorem tracks_error {f : Failure} : Tracks bound free p (.error f) := by
  intro a q h
  simp at h

theorem tracks_ite {c : Prop} [Decidable c] {r' : Except Failure (α × RequiredProviders)}
    (h : Tracks bound free p r) (h' : Tracks bound free p r') :
    Tracks bound free p (if c then r else r') := by
  split
  · exact h
  · exact h'

theorem Tracks.mono {free' : α → Prop} (hr : Tracks bound free p r) (h : ∀ a, free a → free' a) :
    Tracks bound free' p r :=
  fun a q hq => (hr a q hq).imp_right fun hl hq => (hl hq).imp_right (h a)

theorem Tracks.bind {f : α × RequiredProviders → Except Failure (β × RequiredProviders)}
    (hr : Tracks bound free p r)
    (hf : ∀ a q, Tracks bound (fun b => free a → free' b) q (f (a, q))) :
    Tracks bound free' p (r.bind f) := by
  cases r with
  | error e => exact tracks_error
  | ok s =>
    obtain ⟨a, q⟩ := s
    intro b q' hq
    obtain ⟨hw, hl⟩ := hr a q rfl
    obtain ⟨hw', hl'⟩ := hf a q b q' hq
    refine ⟨hw'.trans hw, fun h => ?_⟩
    obtain ⟨h₁, h₂⟩ := hl' h
    obtain ⟨h₃, h₄⟩ := hl h₁
    exact ⟨h₃, h₂ h₄⟩

theorem Tracks.map {f : α × RequiredProviders → β × RequiredProviders} (hr : Tracks bound free p r)
    (hf : ∀ a q, (f (a, q)).2 = q ∧ (free a → free' (f (a, q)).1)) :
    Tracks bound free' p (r.map f) := by
  cases r with
  | error e => exact tracks_error
  | ok s =>
    obtain ⟨a, q⟩ := s
    intro b q' hq
    obtain ⟨hw, hl⟩ := hr a q rfl
    obtain ⟨hq₂, hfree⟩ := hf a q
    have hb : f (a, q) = (b, q') := Except.ok.inj hq
    rw [hb] at hq₂ hfree
    obtain rfl : q' = q := hq₂
    exact ⟨hw, fun h => (hl h).imp_right hfree⟩

theorem tracksState_ok {t : σ} (hp : providers t = providers s) (h : freeS s → freeS t) :
    TracksState bound providers freeS s (.ok t) := by
  rintro _ ⟨⟩
  exact ⟨by rw [hp], fun hl => ⟨hp ▸ hl, h⟩⟩

theorem tracksState_error {f : Failure} : TracksState bound providers freeS s (.error f) := by
  intro t h
  simp at h

theorem TracksState.bind {r : Except Failure σ} {f : σ → Except Failure σ}
    (hr : TracksState bound providers freeS s r)
    (hf : ∀ t, TracksState bound providers freeS t (f t)) :
    TracksState bound providers freeS s (r.bind f) := by
  cases r with
  | error e => exact tracksState_error
  | ok t =>
    intro u hu
    obtain ⟨hw, hl⟩ := hr t rfl
    obtain ⟨hw', hl'⟩ := hf t u hu
    refine ⟨hw'.trans hw, fun h => ?_⟩
    obtain ⟨h₁, h₂⟩ := hl' h
    obtain ⟨h₃, h₄⟩ := hl h₁
    exact ⟨h₃, h₂ ∘ h₄⟩

/-- A step between two updates that leave the providers. -/
theorem TracksState.update {s' : σ} {r : Except Failure σ} {f : σ → σ}
    (hr : TracksState bound providers freeS s' r)
    (hs : providers s' = providers s ∧ (freeS s → freeS s'))
    (hf : ∀ t, providers (f t) = providers t ∧ (freeS t → freeS (f t))) :
    TracksState bound providers freeS s (r.map f) := by
  cases r with
  | error e => exact tracksState_error
  | ok t =>
    rintro _ ⟨⟩
    obtain ⟨hw, hl⟩ := hr t rfl
    obtain ⟨hp, hfree⟩ := hf t
    rw [hs.1] at hw hl
    rw [hp]
    exact ⟨hw, fun h => (hl h).imp_right fun h' => hfree ∘ h' ∘ hs.2⟩

/-- A step that adds what a parser returns to the state. -/
theorem Tracks.toState {f : α × RequiredProviders → σ} (hr : Tracks bound free (providers s) r)
    (hf : ∀ a q, q.isWhere = (providers s).isWhere →
      providers (f (a, q)) = q ∧ (free a → freeS s → freeS (f (a, q)))) :
    TracksState bound providers freeS s (r.map f) := by
  cases r with
  | error e => exact tracksState_error
  | ok t =>
    obtain ⟨a, q⟩ := t
    rintro _ ⟨⟩
    obtain ⟨hw, hl⟩ := hr a q rfl
    obtain ⟨hq, hfree⟩ := hf a q hw
    rw [hq]
    exact ⟨hw, fun h => (hl h).imp_right hfree⟩

/-- What a loop returns, from a state whose reads are noted. -/
theorem TracksState.toTracks {r : Except Failure σ}
    {f : σ → Except Failure (β × RequiredProviders)} (hr : TracksState bound providers freeS s r)
    (hs : freeS s)
    (hf : ∀ t, (providers t).isWhere = (providers s).isWhere →
      Tracks bound (fun b => freeS t → free' b) (providers t) (f t)) :
    Tracks bound free' (providers s) (r.bind f) := by
  cases r with
  | error e => exact tracks_error
  | ok t =>
    intro b q hq
    obtain ⟨hw, hl⟩ := hr t rfl
    obtain ⟨hw', hl'⟩ := hf t hw b q hq
    refine ⟨hw'.trans hw, fun h => ?_⟩
    obtain ⟨h₁, h₂⟩ := hl' h
    obtain ⟨h₃, h₄⟩ := hl h₁
    exact ⟨h₃, h₂ (h₄ hs)⟩

/-- What was found apart from the providers before it. -/
theorem tracks_extend {a : α} {q : RequiredProviders} (h : q.Within bound → free a) :
    Tracks bound free p (.ok (a, p.extend q)) := by
  rintro _ _ ⟨⟩
  exact ⟨rfl, fun hl => hl.of_extend.imp_right h⟩

end Combine

section Assemble

variable {bound : RequiredProviders}

@[simp] theorem noted_nil : AllNoted bound [] := by simp [AllNoted]

@[simp] theorem noted_append {rs rs' : List Read} :
    AllNoted bound (rs ++ rs') ↔ AllNoted bound rs ∧ AllNoted bound rs' := by
  simp [AllNoted, or_imp, forall_and]

theorem noted_singleton {read : Read} (h : read.Noted bound) : AllNoted bound [read] :=
  fun _ hr => List.mem_singleton.mp hr ▸ h

def ExpressionOrOperator.reads : ExpressionOrOperator → List Read
  | .expression e => e.reads
  | .operator _ => []

abbrev ItemsNoted (bound : RequiredProviders) (items : List ExpressionOrOperator) : Prop :=
  ∀ i ∈ items, AllNoted bound i.reads

theorem Expression.attach_reads {e r : Expression} {op : InfixOperator} :
    (e.attach op r).reads = e.reads ++ r.reads := by
  obtain ⟨not, lhs, _ | ⟨o, rhs⟩⟩ := e
  · simp only [attach, reads]
  · rw [attach, reads, ExpressionLhs.reads]
    simp

theorem Expression.setNot_reads {e : Expression} {not : Option Bool} :
    (e.setNot not).reads = e.reads := by
  obtain ⟨_, lhs, _ | ⟨o, rhs⟩⟩ := e <;> simp only [setNot, reads]

theorem onlyExpression_noted {items : List ExpressionOrOperator} {e : Expression}
    (h : onlyExpression items = .ok e) (hi : ItemsNoted bound items) : AllNoted bound e.reads := by
  rw [onlyExpression.eq_def] at h
  split at h
  · obtain rfl := Except.ok.inj h
    exact hi _ (List.mem_singleton.mpr rfl)
  · simp at h

theorem expressionHelper_noted (items : List ExpressionOrOperator) (level : Nat)
    {e : Expression} (h : expressionHelper items level = .ok e) (hi : ItemsNoted bound items) :
    AllNoted bound e.reads := by
  fun_induction expressionHelper items level generalizing e with
  | case1 items level left op right hs ih₁ ih₂ =>
    obtain rfl := splitLast_eq hs
    have hleft : ItemsNoted bound left := fun i h => hi i (by simp [h])
    have hright : ItemsNoted bound right := fun i h => hi i (by simp [h])
    cases hl : (if left.length = 1 then onlyExpression left else expressionHelper left level) with
    | error f => simp [hl, Except.bind] at h
    | ok l =>
      cases hr : expressionHelper right level with
      | error f => simp [hl, hr, Except.bind, Except.map] at h
      | ok r =>
        simp only [hl, hr, Except.bind, Except.map, Except.ok.injEq] at h
        subst h
        rw [Expression.attach_reads]
        refine noted_append.mpr ⟨?_, ih₂ hr hright⟩
        split at hl
        · exact onlyExpression_noted hl hleft
        · exact ih₁ hl hleft
  | case2 items level hs hstop => exact onlyExpression_noted h hi
  | case3 items level hs hstop ih => exact ih h hi

theorem simplifyToJson_noted (e : Expression) {e' : Expression} (he : AllNoted bound e.reads)
    (h : e.simplifyToJson = .inr e') : AllNoted bound e'.reads := by
  fun_induction Expression.simplifyToJson e with
  | case1 => simp at h
  | case2 not e ih =>
    rw [Expression.reads, ExpressionLhs.reads] at he
    exact ih he h
  | case3 e => exact Sum.inr.inj h ▸ he

theorem fromExpression_noted {e : Expression} (he : AllNoted bound e.reads) :
    AllNoted bound (ValueOrExpression.fromExpression e).reads := by
  rw [ValueOrExpression.fromExpression]
  split
  · rw [ValueOrExpression.reads, Value.reads]
    exact noted_nil
  · next e' h =>
    rw [ValueOrExpression.reads]
    exact simplifyToJson_noted e he h

theorem argsNoted_iff {args : List ValueOrExpression} :
    AllNoted bound (argsReads args) ↔ ∀ a ∈ args, AllNoted bound a.reads := by
  induction args with
  | nil => simp [argsReads]
  | cons a args ih => simp [argsReads, ih]

theorem segmentsNoted_iff {rest : List PathSegment} :
    AllNoted bound (segmentsReads rest) ↔ ∀ s ∈ rest, AllNoted bound s.reads := by
  induction rest with
  | nil => simp [segmentsReads]
  | cons s rest ih => simp [segmentsReads, ih]

theorem piecesNoted_iff {pieces : List TemplatePiece} :
    AllNoted bound (piecesReads pieces) ↔ ∀ p ∈ pieces, AllNoted bound p.reads := by
  induction pieces with
  | nil => simp [piecesReads]
  | cons p pieces ih => simp [piecesReads, ih]

/-- What a call reads is noted; a constant reads nothing. -/
def CallNoted (bound : RequiredProviders) : FunctionCall ⊕ Json → Prop
  | .inl f => AllNoted bound f.reads
  | .inr _ => True

variable {x : Externals} {marker : Marker} {args : List ValueOrExpression}

theorem foldConstant_noted {arg : ValueOrExpression} {call : FunctionCall} {value : Json → Json}
    (h : AllNoted bound call.reads) : CallNoted bound (foldConstant arg call value) := by
  rw [foldConstant.eq_def]
  split
  · trivial
  · exact h

theorem randomBound_map {function : String} {min : Nat} {last : Option ValueOrExpression}
    {f : Option Nat → FunctionCall} {call : FunctionCall}
    (h : (randomBound marker function min last).map f = .ok call) : ∃ r, call = f r := by
  cases hr : randomBound marker function min last with
  | error e => simp [hr, Except.map] at h
  | ok r => exact ⟨r, by simpa [hr, Except.map] using h.symm⟩

theorem Collect.new_noted {call : FunctionCall} (h : Collect.new marker args = .ok call)
    (ha : ∀ a ∈ args, AllNoted bound a.reads) : AllNoted bound call.reads := by
  rw [Collect.new.eq_def] at h
  split at h
  · split at h
    · split at h
      · obtain ⟨r, rfl⟩ := randomBound_map h
        rw [FunctionCall.reads]
        exact ha _ (by simp)
      · simp [invalidArguments] at h
    · simp [invalidArguments] at h
  · simp [invalidArguments] at h

theorem Encode.new_noted {call : FunctionCall ⊕ Json} (h : Encode.new x marker args = .ok call)
    (ha : ∀ a ∈ args, AllNoted bound a.reads) : CallNoted bound call := by
  rw [Encode.new.eq_def] at h
  split at h
  · split at h
    · obtain rfl := Except.ok.inj h
      exact foldConstant_noted (by rw [FunctionCall.reads]; exact ha _ (by simp))
    · simp [invalidArguments] at h
  · simp [invalidArguments] at h

theorem Entries.new_noted {call : FunctionCall} (h : Entries.new marker args = .ok call)
    (ha : ∀ a ∈ args, AllNoted bound a.reads) : AllNoted bound call.reads := by
  rw [Entries.new.eq_def] at h
  split at h
  · obtain rfl := Except.ok.inj h
    rw [FunctionCall.reads]
    exact ha _ (by simp)
  · simp [invalidArguments] at h

theorem Epoch.new_noted {call : FunctionCall} (h : Epoch.new marker args = .ok call) :
    AllNoted bound call.reads := by
  rw [Epoch.new.eq_def] at h
  split at h
  · repeat' split at h
    all_goals first
      | (obtain rfl := Except.ok.inj h; rw [FunctionCall.reads]; exact noted_nil)
      | simp [invalidArguments] at h
  · simp [invalidArguments] at h

theorem If.new_noted {call : FunctionCall ⊕ Json} (h : If.new marker args = .ok call)
    (ha : ∀ a ∈ args, AllNoted bound a.reads) : CallNoted bound call := by
  rw [If.new.eq_def] at h
  split at h
  · next first second third =>
    have hcall : AllNoted bound (FunctionCall.ifElse first second third).reads := by
      rw [FunctionCall.reads, noted_append, noted_append]
      exact ⟨⟨ha _ (by simp), ha _ (by simp)⟩, ha _ (by simp)⟩
    split at h
    · obtain rfl := Except.ok.inj h
      exact foldConstant_noted hcall
    · obtain rfl := Except.ok.inj h
      exact hcall
  · simp [invalidArguments] at h

theorem Join.new_noted {call : FunctionCall ⊕ Json} (h : Join.new x marker args = .ok call)
    (ha : ∀ a ∈ args, AllNoted bound a.reads) : CallNoted bound call := by
  rw [Join.new.eq_def] at h
  split at h
  · obtain rfl := Except.ok.inj h
    exact foldConstant_noted (by rw [FunctionCall.reads]; exact ha _ (by simp))
  · obtain rfl := Except.ok.inj h
    exact foldConstant_noted (by rw [FunctionCall.reads]; exact ha _ (by simp))
  · simp [invalidArguments] at h

theorem Match.new_noted {call : FunctionCall ⊕ Json} (h : Match.new x marker args = .ok call)
    (ha : ∀ a ∈ args, AllNoted bound a.reads) : CallNoted bound call := by
  rw [Match.new.eq_def] at h
  split at h
  · split at h
    · obtain rfl := Except.ok.inj h
      exact foldConstant_noted (by rw [FunctionCall.reads]; exact ha _ (by simp))
    · simp [invalidArguments] at h
  · simp [invalidArguments] at h

theorem MinMax.new_noted {min : Bool} (ha : ∀ a ∈ args, AllNoted bound a.reads) :
    CallNoted bound (MinMax.new min args) := by
  rw [MinMax.new]
  split
  · trivial
  · rw [CallNoted, FunctionCall.reads]
    exact argsNoted_iff.mpr ha

theorem Pad.new_noted {start : Bool} {call : FunctionCall ⊕ Json}
    (h : Pad.new x marker start args = .ok call) (ha : ∀ a ∈ args, AllNoted bound a.reads) :
    CallNoted bound call := by
  rw [Pad.new.eq_def] at h
  split at h
  · split at h
    · obtain rfl := Except.ok.inj h
      exact foldConstant_noted (by rw [FunctionCall.reads]; exact ha _ (by simp))
    · simp [invalidArguments] at h
  · simp [invalidArguments] at h

theorem Random.new_noted {call : FunctionCall} (h : Random.new marker args = .ok call) :
    AllNoted bound call.reads := by
  rw [Random.new.eq_def] at h
  split at h
  · split at h
    · rw [uniform] at h
      split at h
      · obtain rfl := Except.ok.inj h
        rw [FunctionCall.reads]
        exact noted_nil
      · simp [Except.map] at h
    · dsimp only at h
      split at h
      · obtain rfl := Except.ok.inj h
        rw [FunctionCall.reads]
        exact noted_nil
      · simp at h
  · simp [invalidArguments] at h

theorem Range.new_noted {call : FunctionCall} (h : Range.new marker args = .ok call)
    (ha : ∀ a ∈ args, AllNoted bound a.reads) : AllNoted bound call.reads := by
  rw [Range.new.eq_def] at h
  split at h
  · split at h
    · split at h
      · obtain rfl := Except.ok.inj h
        rw [FunctionCall.reads]
        exact noted_nil
      · simp [invalidArguments] at h
    · obtain rfl := Except.ok.inj h
      rw [FunctionCall.reads, noted_append]
      exact ⟨ha _ (by simp), ha _ (by simp)⟩
  · simp [invalidArguments] at h

theorem Repeat.new_noted {call : FunctionCall} (h : Repeat.new marker args = .ok call) :
    AllNoted bound call.reads := by
  rw [Repeat.new.eq_def] at h
  split at h
  · split at h
    · split at h
      · obtain ⟨r, rfl⟩ := randomBound_map h
        rw [FunctionCall.reads]
        exact noted_nil
      · simp [invalidArguments] at h
    · simp [invalidArguments] at h
  · simp [invalidArguments] at h

theorem Replace.new_noted {call : FunctionCall ⊕ Json} (h : Replace.new marker args = .ok call)
    (ha : ∀ a ∈ args, AllNoted bound a.reads) : CallNoted bound call := by
  rw [Replace.new.eq_def] at h
  split at h
  · obtain rfl := Except.ok.inj h
    trivial
  · obtain rfl := Except.ok.inj h
    rw [CallNoted, FunctionCall.reads, noted_append, noted_append]
    exact ⟨⟨ha _ (by simp), ha _ (by simp)⟩, ha _ (by simp)⟩
  · simp [invalidArguments] at h

theorem JsonPath.new_tracks {vars : Object} {providers : RequiredProviders} :
    Tracks bound (fun call => providers.isWhere = false → CallNoted bound call) providers
      (JsonPath.new x marker vars args providers) := by
  rw [JsonPath.new.eq_def]
  split
  · next path =>
    rw [← JsonPath.selector]
    dsimp only
    split
    · split
      · exact tracks_ok fun _ => trivial
      · intro call q h
        obtain ⟨rfl, rfl⟩ := Prod.mk.inj (Except.ok.inj h)
        refine ⟨RequiredProviders.insert_isWhere, fun hl => ⟨hl.of_insert, fun hp => ?_⟩⟩
        rw [CallNoted, FunctionCall.reads]
        exact noted_singleton ⟨hl.has_insert hp, path, rfl, rfl⟩
    · exact tracks_error
  · exact tracks_error

theorem tracks_call {free : FunctionCall ⊕ Json → Prop} {providers : RequiredProviders}
    {r : Except Failure FunctionCall} (h : ∀ call, r = .ok call → free (.inl call)) :
    Tracks bound free providers (r.map fun f => (Sum.inl f, providers)) := by
  cases r with
  | error e => exact tracks_error
  | ok call => exact tracks_ok (h call rfl)

theorem tracks_callOrValue {free : FunctionCall ⊕ Json → Prop} {providers : RequiredProviders}
    {r : Except Failure (FunctionCall ⊕ Json)} (h : ∀ call, r = .ok call → free call) :
    Tracks bound free providers (r.map fun f => (f, providers)) := by
  cases r with
  | error e => exact tracks_error
  | ok call => exact tracks_ok (h call rfl)

/-- What a call reads is noted, where what its arguments read is. -/
theorem FunctionCall.new_tracks {vars : Object} {ident : String} {providers : RequiredProviders} :
    Tracks bound
      (fun call => (∀ a ∈ args, AllNoted bound a.reads) → providers.isWhere = false →
        CallNoted bound call)
      providers (FunctionCall.new x marker vars ident args providers) := by
  rw [FunctionCall.new]
  refine tracks_ite ?collect <| tracks_ite ?encode <| tracks_ite ?endPad <| tracks_ite ?entries <|
    tracks_ite ?epoch <| tracks_ite ?ifCall <| tracks_ite ?join <| tracks_ite ?jsonPath <|
    tracks_ite ?matchCall <| tracks_ite ?max <| tracks_ite ?min <| tracks_ite ?startPad <|
    tracks_ite ?random <| tracks_ite ?range <| tracks_ite ?repeatCall <| tracks_ite ?replace
    tracks_error
  case collect => exact tracks_call fun _ h ha _ => Collect.new_noted h ha
  case encode => exact tracks_callOrValue fun _ h ha _ => Encode.new_noted h ha
  case endPad => exact tracks_callOrValue fun _ h ha _ => Pad.new_noted h ha
  case entries => exact tracks_call fun _ h ha _ => Entries.new_noted h ha
  case epoch => exact tracks_call fun _ h _ _ => Epoch.new_noted h
  case ifCall => exact tracks_callOrValue fun _ h ha _ => If.new_noted h ha
  case join => exact tracks_callOrValue fun _ h ha _ => Join.new_noted h ha
  case jsonPath => exact JsonPath.new_tracks.mono fun _ h _ => h
  case matchCall => exact tracks_callOrValue fun _ h ha _ => Match.new_noted h ha
  case max => exact tracks_ok fun ha _ => MinMax.new_noted ha
  case min => exact tracks_ok fun ha _ => MinMax.new_noted ha
  case startPad => exact tracks_callOrValue fun _ h ha _ => Pad.new_noted h ha
  case random => exact tracks_call fun _ h _ _ => Random.new_noted h
  case range => exact tracks_call fun _ h ha _ => Range.new_noted h ha
  case repeatCall => exact tracks_call fun _ h _ _ => Repeat.new_noted h
  case replace => exact tracks_callOrValue fun _ h ha _ => Replace.new_noted h ha

end Assemble

section Parse

variable {bound : RequiredProviders} {x : Externals} {g : Grammar} {vars : Object}
  {noErr : Bool} {marker : Marker} {template : TemplateParser}

/-- Templates of a text note their reads. -/
def TemplateTracks (bound : RequiredProviders) (template : TemplateParser) : Prop :=
  ∀ s providers, Tracks bound (Free bound Template.reads) providers (template s providers)

theorem segment_number_noted {n : Nat} : AllNoted bound (PathSegment.number n).reads := by
  rw [PathSegment.reads]
  exact noted_nil

theorem segment_string_noted {s : String} : AllNoted bound (PathSegment.string s).reads := by
  rw [PathSegment.reads]
  exact noted_nil

theorem segment_template_noted {t : Template} (ht : AllNoted bound t.reads) :
    AllNoted bound (PathSegment.template t).reads := by
  rwa [PathSegment.reads]

theorem simplifyToString_noted {t t' : Template} (ht : AllNoted bound t.reads)
    (h : t.simplifyToString = .inr t') : AllNoted bound t'.reads := by
  rw [Template.simplifyToString.eq_def] at h
  split at h
  · simp at h
  · exact Sum.inr.inj h ▸ ht

theorem PathSegment.fromStr_tracks (ht : TemplateTracks bound template) (s : String)
    (providers : RequiredProviders) :
    Tracks bound (Free bound PathSegment.reads) providers
      (PathSegment.fromStr template s providers) := by
  rw [PathSegment.fromStr]
  refine (ht s providers).map fun t q => ?_
  dsimp only
  split
  · exact ⟨rfl, fun _ => segment_string_noted⟩
  · next t' h => exact ⟨rfl, fun ht => segment_template_noted (simplifyToString_noted ht h)⟩

theorem parseIndexedProperty_tracks (ht : TemplateTracks bound template) (pairs : List Pair)
    (providers : RequiredProviders) :
    Tracks bound (Free bound PathSegment.reads) providers
      (parseIndexedProperty template pairs providers) := by
  rw [parseIndexedProperty.eq_def]
  split
  · exact PathSegment.fromStr_tracks ht _ _
  · split
    · exact tracks_ok segment_number_noted
    · exact tracks_error
  · exact tracks_error

/-- What a loop over the pairs of a path has found reads what is noted, a start aside that the
providers do not note yet. -/
def PathPieces.IsFree (bound : RequiredProviders) (ps : PathPieces) : Prop :=
  (ps.providers.isWhere = false → ∀ f, ps.start = some (.functionCall f) →
      AllNoted bound f.reads) ∧
    ∀ s ∈ ps.rest, AllNoted bound s.reads

abbrev TracksPath (bound : RequiredProviders) (ps : PathPieces)
    (r : Except Failure PathPieces) : Prop :=
  TracksState bound PathPieces.providers (PathPieces.IsFree bound) ps r

abbrev TracksPieces (bound : RequiredProviders) (ps : Pieces)
    (r : Except Failure Pieces) : Prop :=
  TracksState bound Pieces.providers (fun ps => ItemsNoted bound ps.pieces) ps r

abbrev TracksCall (bound : RequiredProviders) (c : CallPieces)
    (r : Except Failure CallPieces) : Prop :=
  TracksState bound CallPieces.providers (fun c => ∀ a ∈ c.args, AllNoted bound a.reads) c r

theorem TracksPieces.expression {providers : RequiredProviders} {r : Except Failure Pieces}
    (hr : TracksPieces bound ⟨[], 0, providers⟩ r) :
    Tracks bound (Free bound Expression.reads) providers (Pieces.expression r) := by
  refine hr.toTracks (by simp [ItemsNoted]) fun t _ e q h => ?_
  cases he : expressionHelper t.pieces 0 with
  | error f => simp [he, Except.map] at h
  | ok e' =>
    simp only [he, Except.map, Except.ok.injEq, Prod.mk.injEq] at h
    obtain ⟨rfl, rfl⟩ := h
    exact ⟨rfl, fun hl => ⟨hl, expressionHelper_noted _ _ he⟩⟩

theorem TracksCall.call {providers : RequiredProviders} {r : Except Failure CallPieces}
    (hr : TracksCall bound ⟨none, [], providers⟩ r) :
    Tracks bound (fun call => providers.isWhere = false → CallNoted bound call) providers
      (CallPieces.call x vars marker r) := by
  refine hr.toTracks (by simp) fun t hw => ?_
  split
  · exact FunctionCall.new_tracks.mono fun _ h ha hp => h ha (hw.trans hp)
  · exact tracks_error

/-- What a path reads is noted; a constant reads nothing. -/
def PathNoted (bound : RequiredProviders) : Json ⊕ Path → Prop
  | .inl _ => True
  | .inr p => AllNoted bound p.reads

theorem providerName_eq (s : String) (rest : List PathSegment) :
    providerName s rest = (Read.path s (firstKey rest)).name := by
  rcases rest with _ | ⟨_ | next | _, rest⟩ <;> rfl

/-- The identifier that a path starts with is noted with its segments. -/
theorem PathPieces.path_tracks {providers : RequiredProviders} {r : Except Failure PathPieces}
    (hr : TracksPath bound ⟨none, [], .new⟩ r) :
    Tracks bound (PathNoted bound) providers (PathPieces.path x noErr marker providers r) := by
  cases r with
  | error f => exact tracks_error
  | ok ps =>
    obtain ⟨start, rest, noted⟩ := ps
    obtain ⟨hw, hfree⟩ := hr _ rfl
    dsimp only at hw hfree
    have hnone : PathPieces.IsFree bound ⟨none, [], .new⟩ := by simp [PathPieces.IsFree]
    have hpath {start : PathStart} (hs : AllNoted bound (start.reads rest))
        (hrest : ∀ s ∈ rest, AllNoted bound s.reads) :
        PathNoted bound (.inr (.mk start rest marker)) := by
      rw [PathNoted, Path.reads, noted_append]
      exact ⟨hs, segmentsNoted_iff.mpr hrest⟩
    cases start with
    | none => exact tracks_error
    | some start =>
      cases start with
      | value v =>
        rw [PathPieces.path, Except.bind]
        dsimp only
        split
        · split
          · exact tracks_ok trivial
          · exact tracks_error
        · refine tracks_extend fun hl => hpath ?_ ((hfree hl).2 hnone).2
          rw [PathStart.reads]
          exact noted_nil
      | ident s =>
        refine tracks_extend fun hl => hpath ?_ ((hfree hl.of_insert).2 hnone).2
        rw [PathStart.reads]
        refine noted_singleton ⟨?_, trivial⟩
        rw [← providerName_eq]
        exact hl.has_insert hw
      | functionCall f =>
        refine tracks_extend fun hl => hpath ?_ ((hfree hl).2 hnone).2
        rw [PathStart.reads]
        exact ((hfree hl).2 hnone).1 hw f rfl

theorem PathPieces.append_isFree {ps : PathPieces} {segment : PathSegment}
    {providers : RequiredProviders} (hw : providers.isWhere = ps.providers.isWhere)
    (hs : AllNoted bound segment.reads) (hps : ps.IsFree bound) :
    PathPieces.IsFree bound { ps with rest := ps.rest ++ [segment], providers := providers } :=
  ⟨fun hp => hps.1 (hw.symm.trans hp), by simpa [or_imp, forall_and] using ⟨hps.2, hs⟩⟩

theorem itemsNoted_append {items : List ExpressionOrOperator} {item : ExpressionOrOperator}
    (h : AllNoted bound item.reads) (hi : ItemsNoted bound items) :
    ItemsNoted bound (items ++ [item]) := by
  simpa [ItemsNoted, or_imp, forall_and] using ⟨hi, h⟩

theorem json_noted {v : Json} : AllNoted bound (Value.json v).reads := by
  rw [Value.reads]
  exact noted_nil

mutual

theorem parseFunctionCallPairs_tracks (ht : TemplateTracks bound template) (pairs : List Pair)
    (c : CallPieces) :
    TracksCall bound c (parseFunctionCallPairs x g vars noErr marker template pairs c) := by
  cases pairs with
  | nil =>
    rw [parseFunctionCallPairs]
    exact tracksState_ok rfl id
  | cons pair pairs =>
    rw [parseFunctionCallPairs]
    exact (parseFunctionCallPair_tracks ht pair c).bind
      (parseFunctionCallPairs_tracks ht pairs)

theorem parseFunctionCallPair_tracks (ht : TemplateTracks bound template) (pair : Pair)
    (c : CallPieces) :
    TracksCall bound c (parseFunctionCallPair x g vars noErr marker template pair c) := by
  obtain ⟨rule, text, inner⟩ := pair
  cases rule with
  | functionIdent =>
    rw [parseFunctionCallPair]
    exact tracksState_ok rfl id
  | functionArg =>
    rw [parseFunctionCallPair]
    refine (TracksPieces.expression (parseExpressionPieces_tracks ht inner 0 _)).toState ?_
    intro e q _
    refine ⟨rfl, fun he hc => ?_⟩
    simpa [or_imp, forall_and] using ⟨hc, fromExpression_noted he⟩
  | _ =>
    rw [parseFunctionCallPair] <;> first | exact tracksState_error | simp

theorem parsePathPairs_tracks (ht : TemplateTracks bound template) (pairs : List Pair)
    (ps : PathPieces) :
    TracksPath bound ps (parsePathPairs x g vars noErr marker template pairs ps) := by
  cases pairs with
  | nil =>
    rw [parsePathPairs]
    exact tracksState_ok rfl id
  | cons pair pairs =>
    rw [parsePathPairs]
    exact (parsePathPair_tracks ht pair ps).bind (parsePathPairs_tracks ht pairs)

theorem parsePathPair_tracks (ht : TemplateTracks bound template) (pair : Pair) (ps : PathPieces) :
    TracksPath bound ps (parsePathPair x g vars noErr marker template pair ps) := by
  obtain ⟨rule, text, inner⟩ := pair
  cases rule with
  | functionCall =>
    rw [parsePathPair]
    split
    · exact tracksState_error
    · next hs =>
      refine (TracksCall.call (parseFunctionCallPairs_tracks ht inner _)).toState ?_
      intro f q hw
      refine ⟨rfl, fun hf hps => ⟨fun hp f' hf' => ?_, hps.2⟩⟩
      cases f with
      | inl f =>
        obtain rfl := PathStart.functionCall.inj (Option.some.inj hf')
        exact hf (hw.symm.trans hp)
      | inr v => simp at hf'
  | jsonIdent =>
    rw [parsePathPair]
    split
    · refine tracksState_ok rfl fun hps => ⟨fun _ f hf => ?_, hps.2⟩
      dsimp only at hf
      split at hf <;> simp at hf
    · exact (PathSegment.fromStr_tracks ht text ps.providers).toState
        fun segment q hw => ⟨rfl, PathPieces.append_isFree hw⟩
  | indexedProperty =>
    rw [parsePathPair]
    split
    · exact tracksState_error
    · exact (parseIndexedProperty_tracks ht inner ps.providers).toState
        fun segment q hw => ⟨rfl, PathPieces.append_isFree hw⟩
  | _ =>
    rw [parsePathPair] <;> first | exact tracksState_error | simp

theorem parseValue_tracks (ht : TemplateTracks bound template) (pairs : List Pair)
    (providers : RequiredProviders) :
    Tracks bound (Free bound Value.reads) providers
      (parseValue x g vars noErr marker template pairs providers) := by
  cases pairs with
  | nil =>
    rw [parseValue]
    exact tracks_error
  | cons pair pairs =>
    rw [parseValue]
    exact parseValuePair_tracks ht pair providers

theorem parseValuePair_tracks (ht : TemplateTracks bound template) (pair : Pair)
    (providers : RequiredProviders) :
    Tracks bound (Free bound Value.reads) providers
      (parseValuePair x g vars noErr marker template pair providers) := by
  obtain ⟨rule, text, inner⟩ := pair
  cases rule with
  | boolean =>
    rw [parseValuePair]
    exact tracks_ite (tracks_ok json_noted) (tracks_ite (tracks_ok json_noted) tracks_error)
  | null =>
    rw [parseValuePair]
    exact tracks_ok json_noted
  | jsonPath =>
    rw [parseValuePair]
    refine (PathPieces.path_tracks (parsePathPairs_tracks ht inner ⟨none, [], .new⟩)).map
      fun p q => ?_
    cases p with
    | inl v => exact ⟨rfl, fun _ => json_noted⟩
    | inr p => exact ⟨rfl, fun hp => by rwa [Free, Value.reads]⟩
  | string =>
    rw [parseValuePair]
    refine (ht text providers).map fun t q => ?_
    dsimp only
    split
    · exact ⟨rfl, fun _ => json_noted⟩
    · next t' h => exact ⟨rfl, fun ht => by
        rw [Free, Value.reads]
        exact simplifyToString_noted ht h⟩
  | integer | decimal =>
    rw [parseValuePair]
    split
    · exact tracks_ok json_noted
    · exact tracks_error
  | _ =>
    rw [parseValuePair] <;> first | exact tracks_error | simp

theorem parseExpressionPieces_tracks (ht : TemplateTracks bound template) (pairs : List Pair)
    (startLen : Nat) (ps : Pieces) :
    TracksPieces bound ps
      (parseExpressionPieces x g vars noErr marker template pairs startLen ps) := by
  cases pairs with
  | nil =>
    rw [parseExpressionPieces]
    exact tracksState_ok rfl id
  | cons pair pairs =>
    rw [parseExpressionPieces]
    exact (parseExpressionPiece_tracks ht pair startLen ps).bind
      (parseExpressionPieces_tracks ht pairs startLen)

theorem parseExpressionPiece_tracks (ht : TemplateTracks bound template) (pair : Pair)
    (startLen : Nat) (ps : Pieces) :
    TracksPieces bound ps
      (parseExpressionPiece x g vars noErr marker template pair startLen ps) := by
  obtain ⟨rule, text, inner⟩ := pair
  cases rule with
  | unaryOperator =>
    rw [parseExpressionPiece]
    exact tracksState_ok rfl id
  | value =>
    rw [parseExpressionPiece]
    refine (parseValue_tracks ht inner ps.providers).toState ?_
    intro v q _
    refine ⟨rfl, fun hv => itemsNoted_append ?_⟩
    rw [ExpressionOrOperator.reads]
    rw [Expression.reads, ExpressionLhs.reads]
    exact hv
  | expression =>
    rw [parseExpressionPiece]
    split
    · refine (TracksPieces.expression (parseExpressionPieces_tracks ht inner 0 _)).toState ?_
      intro e q _
      refine ⟨rfl, fun he => itemsNoted_append ?_⟩
      rw [ExpressionOrOperator.reads]
      rwa [Expression.setNot_reads]
    · exact (parseExpressionPieces_tracks ht inner _ _).update ⟨rfl, id⟩ fun t => ⟨rfl, id⟩
  | infixOperator =>
    rw [parseExpressionPiece]
    split
    · exact tracksState_ok rfl (itemsNoted_append noted_nil)
    · exact tracksState_error
  | eoi =>
    rw [parseExpressionPiece]
    exact tracksState_ok rfl id
  | _ =>
    rw [parseExpressionPiece] <;> first | exact tracksState_error | simp

end

theorem parseExpression_tracks (ht : TemplateTracks bound template) (pairs : List Pair)
    (providers : RequiredProviders) :
    Tracks bound (Free bound Expression.reads) providers
      (parseExpression x g vars noErr marker template pairs providers) :=
  TracksPieces.expression (parseExpressionPieces_tracks ht pairs 0 _)

/-- A step of the loop over the pairs of a template. -/
abbrev TracksTemplate (bound : RequiredProviders) (pieces : List TemplatePiece)
    (providers : RequiredProviders) (r : Except Failure (List TemplatePiece × RequiredProviders)) :
    Prop :=
  TracksState bound Prod.snd (fun s => ∀ p ∈ s.1, AllNoted bound p.reads) (pieces, providers) r

theorem notExpression_noted {s : String} :
    AllNoted bound (TemplatePiece.notExpression s).reads := by
  rw [TemplatePiece.reads]
  exact noted_nil

theorem pieces_append_noted {pieces : List TemplatePiece} {piece : TemplatePiece}
    (h : AllNoted bound piece.reads) (hp : ∀ p ∈ pieces, AllNoted bound p.reads) :
    ∀ p ∈ pieces ++ [piece], AllNoted bound p.reads := by
  simpa [or_imp, forall_and] using ⟨hp, h⟩

theorem Template.newPiece_tracks (ht : TemplateTracks bound template) (pair : Pair)
    (pieces : List TemplatePiece) (providers : RequiredProviders) :
    TracksTemplate bound pieces providers
      (newPiece x g vars noErr marker template pair pieces providers) := by
  obtain ⟨rule, text, inner⟩ := pair
  cases rule with
  | templateExpression =>
    rw [newPiece]
    refine (parseExpression_tracks ht inner providers).toState fun e q _ => ?_
    dsimp only
    split
    · split
      · refine ⟨rfl, fun _ hp => pieces_append_noted notExpression_noted ?_⟩
        exact fun p h => hp p (List.dropLast_subset _ h)
      · exact ⟨rfl, fun _ => pieces_append_noted notExpression_noted⟩
    · next e' h =>
      refine ⟨rfl, fun he => pieces_append_noted ?_⟩
      rw [TemplatePiece.reads]
      exact fromExpression_noted (simplifyToJson_noted e he h)
  | templateNotExpression =>
    rw [newPiece]
    exact tracksState_ok rfl (pieces_append_noted notExpression_noted)
  | _ => rw [newPiece] <;> first | exact tracksState_error | simp

theorem Template.newPieces_tracks (ht : TemplateTracks bound template) (pairs : List Pair)
    (pieces : List TemplatePiece) (providers : RequiredProviders) :
    TracksTemplate bound pieces providers
      (newPieces x g vars noErr marker template pairs pieces providers) := by
  induction pairs generalizing pieces providers with
  | nil =>
    rw [newPieces]
    exact tracksState_ok rfl id
  | cons pair pairs ih =>
    rw [newPieces]
    exact (newPiece_tracks ht pair pieces providers).bind fun (pieces, q) => ih pieces q

/-- Templates within the parser's bound note their reads, by induction on the bound. -/
theorem Template.new_tracks (depth : Nat) :
    TemplateTracks bound (Template.new x g vars noErr marker depth) := by
  induction depth with
  | zero =>
    intro s providers
    rw [Template.new]
    exact tracks_error
  | succ depth ih =>
    intro s providers
    rw [Template.new]
    split
    · exact tracks_error
    · exact tracks_error
    · refine (newPieces_tracks ih _ [] providers).toTracks (by simp) fun s _ => ?_
      exact tracks_ok fun hp => by
        rw [Free, reads]
        exact piecesNoted_iff.mpr hp

theorem parseText_tracks (depth : Nat) (text : String)
    (providers : RequiredProviders) :
    Tracks bound (Free bound Expression.reads) providers
      (parseText x g vars noErr marker depth text providers) := by
  rw [parseText]
  split
  · exact tracks_error
  · exact parseExpression_tracks (Template.new_tracks depth) _ providers

theorem valueOrExpression_tracks (depth : Nat) (text : String)
    (providers : RequiredProviders) :
    Tracks bound (Free bound ValueOrExpression.reads) providers
      (ValueOrExpression.new x g vars noErr marker depth text providers) := by
  rw [ValueOrExpression.new]
  exact (parseText_tracks depth text providers).map fun e q =>
    ⟨rfl, fromExpression_noted⟩

mutual

theorem parseSelect_tracks (depth : Nat) (v : Json)
    (providers : RequiredProviders) :
    Tracks bound (Free bound ParsedSelect.reads) providers
      (parseSelect x g vars noErr depth marker v providers) := by
  cases v with
  | null | bool b | number n =>
    rw [parseSelect]
    exact tracks_ok (by rw [Free, ParsedSelect.reads]; exact noted_nil)
  | string s =>
    rw [parseSelect]
    exact (valueOrExpression_tracks depth s providers).map fun e q =>
      ⟨rfl, fun he => by rwa [Free, ParsedSelect.reads]⟩
  | array a =>
    rw [parseSelect]
    exact (parseSelectArray_tracks depth a providers).map fun a q =>
      ⟨rfl, fun ha => by rwa [Free, ParsedSelect.reads]⟩
  | object o =>
    rw [parseSelect]
    exact (parseSelectObject_tracks depth o providers).map fun o q =>
      ⟨rfl, fun ho => by rwa [Free, ParsedSelect.reads]⟩

theorem parseSelectArray_tracks (depth : Nat) (a : List Json)
    (providers : RequiredProviders) :
    Tracks bound (Free bound selectsReads) providers
      (parseSelectArray x g vars noErr depth marker a providers) := by
  cases a with
  | nil =>
    rw [parseSelectArray]
    exact tracks_ok (by rw [Free, selectsReads]; exact noted_nil)
  | cons v a =>
    rw [parseSelectArray]
    refine (parseSelect_tracks depth v providers).bind fun v q => ?_
    exact (parseSelectArray_tracks depth a q).map fun a q =>
      ⟨rfl, fun ha hv => by rw [Free, selectsReads, noted_append]; exact ⟨hv, ha⟩⟩

theorem parseSelectObject_tracks (depth : Nat)
    (o : List (String × Json)) (providers : RequiredProviders) :
    Tracks bound (Free bound entriesReads) providers
      (parseSelectObject x g vars noErr depth marker o providers) := by
  cases o with
  | nil =>
    rw [parseSelectObject]
    exact tracks_ok (by rw [Free, entriesReads]; exact noted_nil)
  | cons e o =>
    rw [parseSelectObject]
    refine (parseSelectEntry_tracks depth e providers).bind fun e q => ?_
    exact (parseSelectObject_tracks depth o q).map fun o q =>
      ⟨rfl, fun ho he => by rw [Free, entriesReads, noted_append]; exact ⟨he, ho⟩⟩

theorem parseSelectEntry_tracks (depth : Nat) (e : String × Json)
    (providers : RequiredProviders) :
    Tracks bound (Free bound entryReads) providers
      (parseSelectEntry x g vars noErr depth marker e providers) := by
  obtain ⟨k, v⟩ := e
  rw [parseSelectEntry]
  exact (parseSelect_tracks depth v providers).map fun v q =>
    ⟨rfl, fun hv => by rwa [Free, entryReads]⟩

end

namespace Select

variable {depth : Nat}

theorem newJoin_tracks (v : WithMarker String) (providers : RequiredProviders) :
    Tracks bound (Free bound ValueOrExpression.reads) providers
      (newJoin x g vars noErr depth v providers) := by
  rw [newJoin]
  cases ht : parseText x g vars noErr v.marker depth v.inner .new with
  | error f => exact tracks_error
  | ok r =>
    obtain ⟨e, q⟩ := r
    refine tracks_ite tracks_error (tracks_extend fun hl => fromExpression_noted ?_)
    exact ((parseText_tracks depth v.inner _ e q ht).2 hl).2

theorem newJoins_tracks (vs : List (WithMarker String)) (providers : RequiredProviders) :
    Tracks bound (Free bound argsReads) providers
      (newJoins x g vars noErr depth vs providers) := by
  induction vs generalizing providers with
  | nil =>
    rw [newJoins]
    exact tracks_ok (by rw [Free, argsReads]; exact noted_nil)
  | cons v vs ih =>
    rw [newJoins]
    refine (newJoin_tracks v providers).bind fun e q => ?_
    exact (ih q).map fun es q =>
      ⟨rfl, fun hes he => by rw [Free, argsReads, noted_append]; exact ⟨he, hes⟩⟩

theorem newWhere_tracks (hasJoin : Bool) (clause : Option (WithMarker String))
    (providers : RequiredProviders) :
    Tracks bound (fun r => AllNoted bound (clauseReads r.1)) providers
      (newWhere x g vars noErr depth hasJoin clause providers) := by
  rw [newWhere.eq_def]
  cases clause with
  | none => exact tracks_ok noted_nil
  | some v =>
    dsimp only
    cases ht : parseText x g vars noErr v.marker depth v.inner
      RequiredProviders.new.setIsWhere with
    | error f => exact tracks_error
    | ok r =>
      obtain ⟨e, q⟩ := r
      exact tracks_ite tracks_error
        (tracks_extend fun hl => ((parseText_tracks depth v.inner _ e q ht).2 hl).2)

/-- What all parts of a `Select` read is noted. -/
theorem new_tracks (provides : EndpointProvidesPreProcessed) (providers : RequiredProviders) :
    Tracks bound (Free bound Select.reads) providers
      (Select.new x g vars noErr depth provides providers) := by
  rw [Select.new]
  refine (newJoins_tracks provides.forEach providers).bind fun join q => ?_
  refine (newWhere_tracks _ provides.whereClause q).bind fun w q => ?_
  cases hs : parseSelect x g vars noErr depth provides.select.marker provides.select.inner .new with
  | error f => exact tracks_error
  | ok r =>
    obtain ⟨select, q'⟩ := r
    refine tracks_ite tracks_error (tracks_extend fun hl hw hj => ?_)
    rw [Free, reads, noted_append, noted_append]
    exact ⟨hj, hw, ((parseSelect_tracks depth _ _ select q' hs).2 hl).2⟩

end Select

end Parse

section Avoid

variable {name : String} {bits : BitVec 16} {q : RequiredProviders} {rs : List Read}

/-- The name of a provider of the program, with the bits that stand for it alone. -/
structure Special.Names (name : String) (bits : BitVec 16) : Prop where
  ofName : Special.ofName name = some bits
  nonzero : bits ≠ 0
  whole : name ≠ "request" ∧ name ≠ "response"

theorem Special.names_forEach : Names "for_each" forEach :=
  ⟨by decide, by decide, by decide⟩

theorem Special.names_stats : Names "stats" stats :=
  ⟨by decide, by decide, by decide⟩

/-- The name is not referred to. -/
def Avoids (name : String) (rs : List Reference) : Prop := .ident name ∉ rs

/-- Where the bits of a name are not noted, what is noted avoids it. -/
theorem avoids_of_noted (hn : Special.Names name bits) (h : AllNoted q rs) (hq : q.Lacks bits) :
    Avoids name (rs.map Read.reference) := by
  intro hmem
  obtain ⟨read, hr, heq⟩ := List.mem_map.mp hmem
  cases read with
  | selector provider s => simp [Read.reference] at heq
  | path s next =>
    obtain rfl := Reference.ident.inj heq
    have hname : (Read.path s next).name = s := by
      cases next with
      | none => rfl
      | some next => exact if_neg (not_or.mpr hn.whole)
    have hhas := (h _ hr).has
    rw [hname, RequiredProviders.Has, hn.ofName] at hhas
    rw [RequiredProviders.Lacks, ← hhas] at hq
    exact hn.nonzero (by simpa using (or_and_eq_zero.mp hq).1)

end Avoid

end Pewpew.SelectParser
