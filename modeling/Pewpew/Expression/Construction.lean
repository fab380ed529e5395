import Pewpew.Expression.Grammar

/-! Where the construction of an expression or a template panics. -/
namespace Pewpew.SelectParser

section EndsBy

variable {α β : Type} {trips : Prop} {post : α → Prop} {r : Except Failure α}

/-- A run ends in a value, in an `Err`, or in a panic that has its reason. -/
def EndsBy (trips : Prop) (post : α → Prop) : Except Failure α → Prop
  | .ok a => post a
  | .error .panic => trips
  | .error .tooDeep => False
  | .error _ => True

theorem EndsBy.mono {trips' : Prop} {post' : α → Prop} (h : EndsBy trips post r)
    (ht : trips → trips') (hp : ∀ a, r = .ok a → post a → post' a) : EndsBy trips' post' r := by
  cases r with
  | ok a => exact hp a rfl h
  | error f => cases f <;> first | exact ht h | exact h

theorem EndsBy.bind {post' : β → Prop} {f : α → Except Failure β} (h : EndsBy trips post r)
    (hf : ∀ a, r = .ok a → post a → EndsBy trips post' (f a)) : EndsBy trips post' (r.bind f) := by
  cases r with
  | ok a => exact hf a rfl h
  | error e => cases e <;> exact h

theorem EndsBy.map {post' : β → Prop} {f : α → β} (h : EndsBy trips post r)
    (hf : ∀ a, post a → post' (f a)) : EndsBy trips post' (r.map f) := by
  cases r with
  | ok a => exact hf a h
  | error e => cases e <;> exact h

theorem endsBy_ite {c : Prop} [Decidable c] {r' : Except Failure α}
    (h : c → EndsBy trips post r) (h' : ¬ c → EndsBy trips post r') :
    EndsBy trips post (if c then r else r') := by
  split
  · next hc => exact h hc
  · next hc => exact h' hc

end EndsBy

section Calls

/-- Calls with constant bounds of a random number that are the wrong way round, or equal. -/
inductive EmptyRange : String → List ValueOrExpression → Prop where
  | collect (arg low high : ValueOrExpression) {l h : Nat} (hl : asU64 low = some l)
    (hh : asU64 high = some h) (hn : ¬ l < h) : EmptyRange "collect" [arg, low, high]
  | «repeat» (low high : ValueOrExpression) {l h : Nat} (hl : asU64 low = some l)
    (hh : asU64 high = some h) (hn : ¬ l < h) : EmptyRange "repeat" [low, high]
  | randomInteger {low high : JsonNumber} {l h : Nat} (hl : low.asU64 = some l)
    (hh : high.asU64 = some h) (hn : ¬ l < h) :
    EmptyRange "random" [.value (.json (.number low)), .value (.json (.number high))]
  | randomFloat {low high : JsonNumber} (hu : low.asU64 = none ∨ high.asU64 = none)
    (hn : ¬ (low.asF64.lt high.asF64 ∧ (high.asF64.sub low.asF64).isFinite)) :
    EmptyRange "random" [.value (.json (.number low)), .value (.json (.number high))]

variable {x : Externals} {marker : Marker} {vars : Object} {ident : String}
  {args : List ValueOrExpression} {providers : RequiredProviders}

theorem EmptyRange.panics (h : EmptyRange ident args) :
    FunctionCall.new x marker vars ident args providers = .error .panic := by
  cases h with
  | collect arg low high hl hh hn =>
    simp [FunctionCall.new, Collect.new, randomBound, uniform, hl, hh, hn, Except.map]
  | «repeat» low high hl hh hn =>
    simp [FunctionCall.new, Repeat.new, randomBound, uniform, hl, hh, hn, Except.map]
  | randomInteger hl hh hn =>
    simp [FunctionCall.new, Random.new, uniform, hl, hh, hn, Except.map]
  | @randomFloat low high hu hn =>
    have hr : Random.new marker [.value (.json (.number low)), .value (.json (.number high))] =
        .error .panic := by
      rw [Random.new]
      split
      · simp_all
      · exact if_neg hn
    simp [FunctionCall.new, hr, Except.map]

/-- Calls of these functions never panic. -/
abbrev NeverPanics {α : Type} (r : Except Failure α) : Prop := EndsBy False (fun _ => True) r

theorem Encode.new_ends : NeverPanics (Encode.new x marker args) := by
  unfold Encode.new
  split
  · split <;> trivial
  · trivial

theorem Pad.new_ends {start : Bool} : NeverPanics (Pad.new x marker start args) := by
  unfold Pad.new
  split
  · split <;> trivial
  · trivial

theorem Entries.new_ends : NeverPanics (Entries.new marker args) := by
  unfold Entries.new
  split <;> trivial

theorem Epoch.new_ends : NeverPanics (Epoch.new marker args) := by
  unfold Epoch.new
  split
  · split_ifs <;> trivial
  · trivial

theorem If.new_ends : NeverPanics (If.new marker args) := by
  unfold If.new
  split
  · split <;> trivial
  · trivial

theorem Join.new_ends : NeverPanics (Join.new x marker args) := by
  unfold Join.new
  split <;> trivial

theorem JsonPath.new_ends : NeverPanics (JsonPath.new x marker vars args providers) := by
  unfold JsonPath.new
  split
  · dsimp only
    refine endsBy_ite (fun _ => ?_) fun _ => trivial
    split <;> trivial
  · trivial

theorem Match.new_ends : NeverPanics (Match.new x marker args) := by
  unfold Match.new
  split
  · split <;> trivial
  · trivial

theorem Range.new_ends : NeverPanics (Range.new marker args) := by
  unfold Range.new
  split
  · split
    · split <;> trivial
    · trivial
  · trivial

theorem Replace.new_ends : NeverPanics (Replace.new marker args) := by
  unfold Replace.new
  split <;> trivial

theorem randomBound_ends {function : String} {min : Nat} {rest : List ValueOrExpression}
    (hl : rest.length ≤ 1) :
    EndsBy (∃ arg max, rest = [arg] ∧ asU64 arg = some max ∧ ¬ min < max) (fun _ => True)
      (randomBound marker function min rest.head?) := by
  unfold randomBound
  split
  · trivial
  · next arg hhead =>
    have hrest : rest = [arg] := by
      cases rest with
      | nil => cases hhead
      | cons a rest => simp_all
    split
    · next max hm =>
      refine EndsBy.map (?_ : EndsBy _ (fun _ => True) _) fun _ _ => trivial
      unfold uniform
      split
      · trivial
      · next hn => exact ⟨arg, max, hrest, hm, hn⟩
    · trivial

theorem Collect.new_ends :
    EndsBy (EmptyRange "collect" args) (fun _ => True) (Collect.new marker args) := by
  unfold Collect.new
  split
  · next first second rest =>
    split
    · next hl =>
      split
      · next min hmin =>
        refine ((randomBound_ends hl).mono ?_ fun _ _ h => h).map fun _ _ => trivial
        rintro ⟨arg, max, rfl, hmax, hn⟩
        exact .collect first second arg hmin hmax hn
      · trivial
    · trivial
  · trivial

theorem Repeat.new_ends :
    EndsBy (EmptyRange "repeat" args) (fun _ => True) (Repeat.new marker args) := by
  unfold Repeat.new
  split
  · next first rest =>
    split
    · next hl =>
      split
      · next min hmin =>
        refine ((randomBound_ends hl).mono ?_ fun _ _ h => h).map fun _ _ => trivial
        rintro ⟨arg, max, rfl, hmax, hn⟩
        exact .repeat first arg hmin hmax hn
      · trivial
    · trivial
  · trivial

theorem Random.new_ends :
    EndsBy (EmptyRange "random" args) (fun _ => True) (Random.new marker args) := by
  unfold Random.new
  split
  · next first second =>
    split
    · next low high hl hh =>
      refine EndsBy.map (?_ : EndsBy _ (fun _ => True) _) fun _ _ => trivial
      unfold uniform
      split
      · trivial
      · next hn => exact .randomInteger hl hh hn
    · next hu =>
      dsimp only
      split
      · trivial
      · next hn =>
        refine .randomFloat ?_ hn
        cases hl : first.asU64 with
        | none => exact .inl rfl
        | some low =>
          cases hh : second.asU64 with
          | none => exact .inr rfl
          | some high => exact (hu low high hl hh).elim
  · trivial

/-- A call panics only on an empty range. -/
theorem FunctionCall.new_ends : EndsBy (EmptyRange ident args) (fun _ => True)
    (FunctionCall.new x marker vars ident args providers) := by
  have hn {α β : Type} {r : Except Failure α} (h : NeverPanics r) (f : α → β) :
      EndsBy (EmptyRange ident args) (fun _ => True) (r.map f) :=
    (h.mono False.elim fun _ _ h => h).map fun _ _ => trivial
  rw [FunctionCall.new]
  refine endsBy_ite (fun h => h ▸ Collect.new_ends.map fun _ _ => trivial) fun _ => ?_
  refine endsBy_ite (fun _ => hn Encode.new_ends _) fun _ => ?_
  refine endsBy_ite (fun _ => hn Pad.new_ends _) fun _ => ?_
  refine endsBy_ite (fun _ => hn Entries.new_ends _) fun _ => ?_
  refine endsBy_ite (fun _ => hn Epoch.new_ends _) fun _ => ?_
  refine endsBy_ite (fun _ => hn If.new_ends _) fun _ => ?_
  refine endsBy_ite (fun _ => hn Join.new_ends _) fun _ => ?_
  refine endsBy_ite (fun _ => JsonPath.new_ends.mono False.elim fun _ _ h => h) fun _ => ?_
  refine endsBy_ite (fun _ => hn Match.new_ends _) fun _ => ?_
  refine endsBy_ite (fun _ => trivial) fun _ => endsBy_ite (fun _ => trivial) fun _ => ?_
  refine endsBy_ite (fun _ => hn Pad.new_ends _) fun _ => ?_
  refine endsBy_ite (fun h => h ▸ Random.new_ends.map fun _ _ => trivial) fun _ => ?_
  refine endsBy_ite (fun _ => hn Range.new_ends _) fun _ => ?_
  refine endsBy_ite (fun h => h ▸ Repeat.new_ends.map fun _ _ => trivial) fun _ => ?_
  exact endsBy_ite (fun _ => hn Replace.new_ends _) fun _ => trivial

end Calls

section Renames

variable {o : Object} {k key : String} {v : Json}

def Object.keys (o : Object) : List String := o.map Prod.fst

theorem Object.mem_insert (h : k ∈ o.keys) : k ∈ (o.insert key v).keys := by
  induction o with
  | nil => simp [keys] at h
  | cons e o ih =>
    simp only [keys, List.map_cons, List.mem_cons] at h ih ⊢
    rw [insert]
    split
    · next he => simpa [he] using h
    · simpa using h.imp_right ih

theorem Object.mem_swapRemove (h : k ∈ o.keys) (hk : k ≠ key) : k ∈ (o.swapRemove key).keys := by
  induction o with
  | nil => simp [keys] at h
  | cons e o ih =>
    simp only [keys, List.map_cons, List.mem_cons] at h ih ⊢
    rw [swapRemove]
    split
    · next he =>
      rcases h with rfl | h
      · exact absurd he hk
      · split
        · next last hl =>
          obtain ⟨init, rfl⟩ := List.getLast?_eq_some_iff.mp hl
          simpa [or_comm] using h
        · next hl => simp [List.getLast?_eq_none_iff.mp hl] at h
    · simpa using h.imp_right ih

/-- A rename that has to find its key. -/
def renameFound (o : Object) (change : String × String) : Option Object :=
  (o.get change.1).map fun v => (o.swapRemove change.1).insert change.2 v

/-- `Replace::replace` renames keys that it has found, each once, so none is missing in its turn. -/
theorem renames_found {changes : List (String × String)} (hn : (changes.map Prod.fst).Nodup)
    (h : ∀ c ∈ changes, c.1 ∈ o.keys) :
    changes.foldlM renameFound o = some (changes.foldl renameKey o) := by
  induction changes generalizing o with
  | nil => rfl
  | cons c changes ih =>
    obtain ⟨hc, hn⟩ := List.nodup_cons.mp hn
    obtain ⟨e, he, hk⟩ := List.mem_map.mp (h c List.mem_cons_self)
    obtain ⟨v, hv⟩ : ∃ v, o.get c.1 = some v := by
      cases hv : o.get c.1 with
      | some v => exact ⟨v, rfl⟩
      | none =>
        have hne := List.lookup_eq_none_iff.mp hv e he
        simp [hk] at hne
    rw [List.foldlM_cons, List.foldl_cons, renameFound, renameKey, hv]
    refine ih hn fun c' hc' => ?_
    refine Object.mem_insert (Object.mem_swapRemove (h c' (List.mem_cons_of_mem _ hc')) ?_)
    intro heq
    exact hc (heq ▸ List.mem_map_of_mem hc')

end Renames

section Trips

variable (x : Externals) (g : Grammar) (vars : Object) (noErr : Bool) (marker : Marker)

/-- What is left for a function of the parser to do. -/
inductive Job where
  | call (pairs : List Pair) (c : CallPieces)
  | path (pairs : List Pair) (ps : PathPieces)
  | value (pairs : List Pair) (providers : RequiredProviders)
  | pieces (pairs : List Pair) (startLen : Nat) (ps : Pieces)
  | templatePieces (pairs : List Pair) (pieces : List TemplatePiece) (providers : RequiredProviders)
  | template (t : String) (providers : RequiredProviders)
  | expression (s : String) (providers : RequiredProviders)

open Job in
/-- A job comes to an index that is no `usize`, a number that is none in JSON, or an empty range
for a random number, and has met no error before. -/
inductive Trips : (depth : Nat) → Job → Prop where
  | arg {depth : Nat} {text : String} {inner rest : List Pair} {c : CallPieces}
    (h : Trips depth (pieces inner 0 ⟨[], 0, c.providers⟩)) :
    Trips depth (call (.mk .functionArg text inner :: rest) c)
  | nextArg {depth : Nat} {pair : Pair} {rest : List Pair} {c c' : CallPieces}
    (hp : parseFunctionCallPair x g vars noErr marker (Template.new x g vars noErr marker depth)
      pair c = .ok c') (h : Trips depth (call rest c')) : Trips depth (call (pair :: rest) c)
  | callArgs {depth : Nat} {text : String} {inner rest : List Pair} {ps : PathPieces}
    (hs : ps.start = none) (h : Trips depth (call inner ⟨none, [], ps.providers⟩)) :
    Trips depth (path (.mk .functionCall text inner :: rest) ps)
  | emptyRange {depth : Nat} {text ident : String} {inner rest : List Pair} {ps : PathPieces}
    {c : CallPieces} (hs : ps.start = none)
    (hc : parseFunctionCallPairs x g vars noErr marker (Template.new x g vars noErr marker depth)
      inner ⟨none, [], ps.providers⟩ = .ok c) (hi : c.ident = some ident)
    (h : EmptyRange ident c.args) : Trips depth (path (.mk .functionCall text inner :: rest) ps)
  | segment {depth : Nat} {text : String} {inner rest : List Pair} {ps : PathPieces}
    (hs : ps.start ≠ none) (h : Trips depth (template text ps.providers)) :
    Trips depth (path (.mk .jsonIdent text inner :: rest) ps)
  | indexText {depth : Nat} {text s : String} {inner more rest : List Pair} {ps : PathPieces}
    (hs : ps.start ≠ none) (h : Trips depth (template s ps.providers)) :
    Trips depth (path (.mk .indexedProperty text (.mk .string s inner :: more) :: rest) ps)
  | index {depth : Nat} {text s : String} {inner more rest : List Pair} {ps : PathPieces}
    (hs : ps.start ≠ none) (h : usizeOfText s = none) :
    Trips depth (path (.mk .indexedProperty text (.mk .integer s inner :: more) :: rest) ps)
  | nextSegment {depth : Nat} {pair : Pair} {rest : List Pair} {ps ps' : PathPieces}
    (hp : parsePathPair x g vars noErr marker (Template.new x g vars noErr marker depth) pair ps =
      .ok ps') (h : Trips depth (path rest ps')) : Trips depth (path (pair :: rest) ps)
  | valuePath {depth : Nat} {text : String} {inner more : List Pair} {p : RequiredProviders}
    (h : Trips depth (path inner ⟨none, [], .new⟩)) :
    Trips depth (value (.mk .jsonPath text inner :: more) p)
  | valueText {depth : Nat} {text : String} {inner more : List Pair} {p : RequiredProviders}
    (h : Trips depth (template text p)) : Trips depth (value (.mk .string text inner :: more) p)
  | integer {depth : Nat} {text : String} {inner more : List Pair} {p : RequiredProviders}
    (h : g.number text = none) : Trips depth (value (.mk .integer text inner :: more) p)
  | decimal {depth : Nat} {text : String} {inner more : List Pair} {p : RequiredProviders}
    (h : g.number text = none) : Trips depth (value (.mk .decimal text inner :: more) p)
  | operand {depth startLen : Nat} {text : String} {inner rest : List Pair} {ps : Pieces}
    (h : Trips depth (value inner ps.providers)) :
    Trips depth (pieces (.mk .value text inner :: rest) startLen ps)
  | group {depth startLen : Nat} {text : String} {inner rest : List Pair} {ps : Pieces}
    (hl : ps.pieces.length = startLen) (h : Trips depth (pieces inner 0 ⟨[], 0, ps.providers⟩)) :
    Trips depth (pieces (.mk .expression text inner :: rest) startLen ps)
  | row {depth startLen : Nat} {text : String} {inner rest : List Pair} {ps : Pieces}
    (hl : ps.pieces.length ≠ startLen)
    (h : Trips depth (pieces inner ps.pieces.length { ps with notCount := 0 })) :
    Trips depth (pieces (.mk .expression text inner :: rest) startLen ps)
  | nextPiece {depth startLen : Nat} {pair : Pair} {rest : List Pair} {ps ps' : Pieces}
    (hp : parseExpressionPiece x g vars noErr marker (Template.new x g vars noErr marker depth)
      pair startLen ps = .ok ps') (h : Trips depth (pieces rest startLen ps')) :
    Trips depth (pieces (pair :: rest) startLen ps)
  | templateExpression {depth : Nat} {text : String} {inner rest : List Pair}
    {ts : List TemplatePiece} {p : RequiredProviders}
    (h : Trips depth (pieces inner 0 ⟨[], 0, p⟩)) :
    Trips depth (templatePieces (.mk .templateExpression text inner :: rest) ts p)
  | nextTemplate {depth : Nat} {pair : Pair} {rest : List Pair} {ts ts' : List TemplatePiece}
    {p p' : RequiredProviders}
    (hp : Template.newPiece x g vars noErr marker (Template.new x g vars noErr marker depth) pair
      ts p = .ok (ts', p')) (h : Trips depth (templatePieces rest ts' p')) :
    Trips depth (templatePieces (pair :: rest) ts p)
  | template {depth : Nat} {t text : String} {rule : Rule} {inner more : List Pair}
    {p : RequiredProviders}
    (ht : g.parse .templateEntryPoint t = some (.mk rule text inner :: more))
    (h : Trips depth (templatePieces inner [] p)) : Trips (depth + 1) (template t p)
  | expression {depth : Nat} {s : String} {pairs : List Pair} {p : RequiredProviders}
    (hs : g.parse .entryPoint s = some pairs) (h : Trips depth (pieces pairs 0 ⟨[], 0, p⟩)) :
    Trips depth (expression s p)

/-- The job ends in a panic. -/
def Job.Panics (depth : Nat) : Job → Prop :=
  let t := Template.new x g vars noErr marker depth
  fun
  | call pairs c => parseFunctionCallPairs x g vars noErr marker t pairs c = .error .panic
  | path pairs ps => parsePathPairs x g vars noErr marker t pairs ps = .error .panic
  | value pairs p => parseValue x g vars noErr marker t pairs p = .error .panic
  | pieces pairs startLen ps =>
    parseExpressionPieces x g vars noErr marker t pairs startLen ps = .error .panic
  | templatePieces pairs ts p =>
    Template.newPieces x g vars noErr marker t pairs ts p = .error .panic
  | template text p => t text p = .error .panic
  | expression s p => ValueOrExpression.new x g vars noErr marker depth s p = .error .panic

variable {x : Externals} {g : Grammar} {vars : Object} {noErr : Bool} {marker : Marker}

theorem Trips.panics {depth : Nat} {j : Job} (h : Trips x g vars noErr marker depth j) :
    j.Panics x g vars noErr marker depth := by
  induction h with
  | arg _ ih =>
    simp only [Job.Panics] at ih ⊢
    simp [parseFunctionCallPairs, parseFunctionCallPair, Pieces.expression, ih, Except.bind,
      Except.map]
  | nextArg hp _ ih =>
    simp only [Job.Panics] at ih ⊢
    simp [parseFunctionCallPairs, hp, ih, Except.bind]
  | callArgs hs _ ih =>
    simp only [Job.Panics] at ih ⊢
    simp [parsePathPairs, parsePathPair, CallPieces.call, hs, ih, Except.bind, Except.map]
  | emptyRange hs hc hi h =>
    simp only [Job.Panics]
    simp [parsePathPairs, parsePathPair, CallPieces.call, hs, hc, hi, h.panics, Except.bind,
      Except.map]
  | @segment depth text inner rest ps hs _ ih =>
    simp only [Job.Panics] at ih ⊢
    obtain ⟨start, hs⟩ := Option.ne_none_iff_exists'.mp hs
    simp [parsePathPairs, parsePathPair, PathSegment.fromStr, hs, ih, Except.bind, Except.map]
  | indexText hs _ ih =>
    simp only [Job.Panics] at ih ⊢
    obtain ⟨start, hs⟩ := Option.ne_none_iff_exists'.mp hs
    simp [parsePathPairs, parsePathPair, parseIndexedProperty, PathSegment.fromStr, hs, ih,
      Except.bind, Except.map]
  | index hs h =>
    simp only [Job.Panics]
    obtain ⟨start, hs⟩ := Option.ne_none_iff_exists'.mp hs
    simp [parsePathPairs, parsePathPair, parseIndexedProperty, hs, h, Except.bind, Except.map]
  | nextSegment hp _ ih =>
    simp only [Job.Panics] at ih ⊢
    simp [parsePathPairs, hp, ih, Except.bind]
  | valuePath _ ih =>
    simp only [Job.Panics] at ih ⊢
    simp [parseValue, parseValuePair, PathPieces.path, ih, Except.bind, Except.map]
  | valueText _ ih =>
    simp only [Job.Panics] at ih ⊢
    simp [parseValue, parseValuePair, ih, Except.map]
  | integer h =>
    simp only [Job.Panics]
    simp [parseValue, parseValuePair, h]
  | decimal h =>
    simp only [Job.Panics]
    simp [parseValue, parseValuePair, h]
  | operand _ ih =>
    simp only [Job.Panics] at ih ⊢
    simp [parseExpressionPieces, parseExpressionPiece, ih, Except.bind, Except.map]
  | group hl _ ih =>
    simp only [Job.Panics] at ih ⊢
    simp [parseExpressionPieces, parseExpressionPiece, Pieces.expression, hl, ih, Except.bind,
      Except.map]
  | row hl _ ih =>
    simp only [Job.Panics] at ih ⊢
    simp [parseExpressionPieces, parseExpressionPiece, hl, ih, Except.bind, Except.map]
  | nextPiece hp _ ih =>
    simp only [Job.Panics] at ih ⊢
    simp [parseExpressionPieces, hp, ih, Except.bind]
  | templateExpression _ ih =>
    simp only [Job.Panics] at ih ⊢
    simp [Template.newPieces, Template.newPiece, parseExpression, Pieces.expression, ih,
      Except.bind, Except.map]
  | nextTemplate hp _ ih =>
    simp only [Job.Panics] at ih ⊢
    simp [Template.newPieces, hp, ih, Except.bind]
  | template ht _ ih =>
    simp only [Job.Panics] at ih ⊢
    simp [Template.new, ht, ih, Except.map]
  | expression hs _ ih =>
    simp only [Job.Panics] at ih ⊢
    simp [ValueOrExpression.new, parseText, parseExpression, Pieces.expression, hs, ih,
      Except.bind, Except.map]

end Trips

section Ends

variable {x : Externals} {g : Grammar} {vars : Object} {noErr : Bool} {marker : Marker}
  {depth n : Nat}

/-- Templates of shorter texts panic only for a reason. -/
def TemplatesEnd (x : Externals) (g : Grammar) (vars : Object) (noErr : Bool) (marker : Marker)
    (depth n : Nat) : Prop :=
  ∀ t p, t.length < n → EndsBy (Trips x g vars noErr marker depth (.template t p)) (fun _ => True)
    (Template.new x g vars noErr marker depth t p)

/-- A step of the loop over pieces, and the rest of the loop. -/
theorem endsBy_pieces {pair : Pair} {rest : List Pair} {startLen : Nat} {ps : Pieces}
    (mid : Pieces → Prop) {post : Pieces → Prop}
    (h : EndsBy (Trips x g vars noErr marker depth (.pieces (pair :: rest) startLen ps)) mid
      (parseExpressionPiece x g vars noErr marker (Template.new x g vars noErr marker depth) pair
        startLen ps))
    (hr : ∀ ps', mid ps' → EndsBy (Trips x g vars noErr marker depth (.pieces rest startLen ps'))
      post (parseExpressionPieces x g vars noErr marker
        (Template.new x g vars noErr marker depth) rest startLen ps')) :
    EndsBy (Trips x g vars noErr marker depth (.pieces (pair :: rest) startLen ps)) post
      (parseExpressionPieces x g vars noErr marker (Template.new x g vars noErr marker depth)
        (pair :: rest) startLen ps) := by
  rw [parseExpressionPieces]
  exact h.bind fun ps' hp hm => (hr ps' hm).mono (.nextPiece hp) fun _ _ h => h

theorem endsBy_path {pair : Pair} {rest : List Pair} {ps : PathPieces}
    (mid : PathPieces → Prop) {post : PathPieces → Prop}
    (h : EndsBy (Trips x g vars noErr marker depth (.path (pair :: rest) ps)) mid
      (parsePathPair x g vars noErr marker (Template.new x g vars noErr marker depth) pair ps))
    (hr : ∀ ps', mid ps' → EndsBy (Trips x g vars noErr marker depth (.path rest ps')) post
      (parsePathPairs x g vars noErr marker (Template.new x g vars noErr marker depth) rest ps')) :
    EndsBy (Trips x g vars noErr marker depth (.path (pair :: rest) ps)) post
      (parsePathPairs x g vars noErr marker (Template.new x g vars noErr marker depth)
        (pair :: rest) ps) := by
  rw [parsePathPairs]
  exact h.bind fun ps' hp hm => (hr ps' hm).mono (.nextSegment hp) fun _ _ h => h

theorem endsBy_call {pair : Pair} {rest : List Pair} {c : CallPieces} (mid : CallPieces → Prop)
    {post : CallPieces → Prop}
    (h : EndsBy (Trips x g vars noErr marker depth (.call (pair :: rest) c)) mid
      (parseFunctionCallPair x g vars noErr marker (Template.new x g vars noErr marker depth)
        pair c))
    (hr : ∀ c', mid c' → EndsBy (Trips x g vars noErr marker depth (.call rest c')) post
      (parseFunctionCallPairs x g vars noErr marker (Template.new x g vars noErr marker depth)
        rest c')) :
    EndsBy (Trips x g vars noErr marker depth (.call (pair :: rest) c)) post
      (parseFunctionCallPairs x g vars noErr marker (Template.new x g vars noErr marker depth)
        (pair :: rest) c) := by
  rw [parseFunctionCallPairs]
  exact h.bind fun c' hp hm => (hr c' hm).mono (.nextArg hp) fun _ _ h => h

/-- A row of operands and operators is an expression. -/
theorem Pieces.expression_ends {trips : Prop} {r : Except Failure Pieces}
    (h : EndsBy trips (fun ps => ∃ e es, ps.pieces = itemsOf e es) r) :
    EndsBy trips (fun _ => True) (Pieces.expression r) := by
  refine h.bind fun ps _ hps => ?_
  obtain ⟨e, es, he⟩ := hps
  obtain ⟨t, ht, -⟩ := expressionHelper_builds 0 e es fun _ _ => Nat.zero_le _
  rw [he, ht]
  trivial

/-- A path with a start is evaluated, or stays one. -/
theorem PathPieces.path_ends {trips : Prop} {p : RequiredProviders} {r : Except Failure PathPieces}
    (h : EndsBy trips (fun ps => ps.start ≠ none) r) :
    EndsBy trips (fun _ => True) (PathPieces.path x noErr marker p r) := by
  refine h.bind fun ps _ hs => ?_
  obtain ⟨start, hst⟩ := Option.ne_none_iff_exists'.mp hs
  simp only [hst]
  split
  · split <;> trivial
  · trivial

theorem PathSegment.fromStr_ends (ht : TemplatesEnd x g vars noErr marker depth n) {s : String}
    (h : s.length < n) (p : RequiredProviders) :
    EndsBy (Trips x g vars noErr marker depth (.template s p)) (fun _ => True)
      (PathSegment.fromStr (Template.new x g vars noErr marker depth) s p) :=
  (ht s p h).map fun _ _ => trivial

/-- The segments of a path, after its start. -/
theorem segments_end (ht : TemplatesEnd x g vars noErr marker depth n) {pairs : List Pair}
    (h : SegmentPairs n pairs) (ps : PathPieces) (hs : ps.start ≠ none) :
    EndsBy (Trips x g vars noErr marker depth (.path pairs ps)) (fun ps' => ps'.start ≠ none)
      (parsePathPairs x g vars noErr marker (Template.new x g vars noErr marker depth) pairs
        ps) := by
  induction h generalizing ps with
  | nil =>
    rw [parsePathPairs]
    exact hs
  | ident text h _ ih =>
    refine endsBy_path (fun ps' => ps'.start ≠ none) ?_ ih
    obtain ⟨start, hst⟩ := Option.ne_none_iff_exists'.mp hs
    simp only [parsePathPair, hst]
    refine ((PathSegment.fromStr_ends ht h _).mono (.segment hs) fun _ _ h => h).map fun _ _ => ?_
    exact Option.some_ne_none _
  | string text s h _ ih =>
    refine endsBy_path (fun ps' => ps'.start ≠ none) ?_ ih
    obtain ⟨start, hst⟩ := Option.ne_none_iff_exists'.mp hs
    simp only [parsePathPair, parseIndexedProperty, hst]
    refine ((PathSegment.fromStr_ends ht h _).mono (.indexText hs) fun _ _ h => h).map fun _ _ => ?_
    exact Option.some_ne_none _
  | integer text s _ ih =>
    refine endsBy_path (fun ps' => ps'.start ≠ none) ?_ ih
    obtain ⟨start, hst⟩ := Option.ne_none_iff_exists'.mp hs
    simp only [parsePathPair, parseIndexedProperty, hst]
    cases hu : usizeOfText s with
    | none => exact .index hs hu
    | some n => exact Option.some_ne_none _

/-- An operand comes first, and the tail adds operators, each with one operand more. -/
theorem endsBy_operand {pair : Pair} {rest : List Pair} {startLen : Nat} {ps : Pieces}
    (hl : ps.pieces.length = startLen)
    (h : EndsBy (Trips x g vars noErr marker depth (.pieces (pair :: rest) startLen ps))
      (fun ps' => ∃ e, ps'.pieces = ps.pieces ++ [.expression e])
      (parseExpressionPiece x g vars noErr marker (Template.new x g vars noErr marker depth) pair
        startLen ps))
    (hr : ∀ ps', startLen < ps'.pieces.length →
      EndsBy (Trips x g vars noErr marker depth (.pieces rest startLen ps'))
        (fun ps'' => ∃ es, ps''.pieces = ps'.pieces ++ tailItems es)
        (parseExpressionPieces x g vars noErr marker (Template.new x g vars noErr marker depth)
          rest startLen ps')) :
    EndsBy (Trips x g vars noErr marker depth (.pieces (pair :: rest) startLen ps))
      (fun ps' => ∃ e es, ps'.pieces = ps.pieces ++ itemsOf e es)
      (parseExpressionPieces x g vars noErr marker (Template.new x g vars noErr marker depth)
        (pair :: rest) startLen ps) := by
  refine endsBy_pieces _ h ?_
  rintro ps' ⟨e, he⟩
  have hlt : startLen < ps'.pieces.length := by
    rw [he, List.length_append, List.length_singleton]
    omega
  refine (hr ps' hlt).mono id ?_
  rintro ps'' - ⟨es, hes⟩
  exact ⟨e, es, by rw [hes, he, List.append_assoc]; rfl⟩

mutual

/-- The pairs of an expression make a row of operands and operators. -/
theorem expression_ends (ht : TemplatesEnd x g vars noErr marker depth n) (pairs : List Pair)
    (h : ExpressionPairs n pairs) (startLen : Nat) (ps : Pieces)
    (hl : ps.pieces.length = startLen) :
    EndsBy (Trips x g vars noErr marker depth (.pieces pairs startLen ps))
      (fun ps' => ∃ e es, ps'.pieces = ps.pieces ++ itemsOf e es)
      (parseExpressionPieces x g vars noErr marker (Template.new x g vars noErr marker depth)
        pairs startLen ps) := by
  cases h with
  | @value text inner tail hv htail =>
    refine endsBy_operand hl ?_ ?_
    · rw [parseExpressionPiece]
      refine ((value_ends ht inner hv ps.providers).mono .operand fun _ _ h => h).map ?_
      exact fun _ _ => ⟨_, rfl⟩
    · exact tail_ends ht tail htail startLen
  | @group text inner tail he htail =>
    refine endsBy_operand hl ?_ ?_
    · rw [parseExpressionPiece, if_pos hl]
      refine ((Pieces.expression_ends (expression_ends ht inner he 0 _ rfl)).mono (.group hl)
        fun _ _ h => h).map ?_
      exact fun _ _ => ⟨_, rfl⟩
    · exact tail_ends ht tail htail startLen

theorem tail_ends (ht : TemplatesEnd x g vars noErr marker depth n) (pairs : List Pair)
    (h : TailPairs n pairs) (startLen : Nat) (ps : Pieces) (hl : startLen < ps.pieces.length) :
    EndsBy (Trips x g vars noErr marker depth (.pieces pairs startLen ps))
      (fun ps' => ∃ es, ps'.pieces = ps.pieces ++ tailItems es)
      (parseExpressionPieces x g vars noErr marker (Template.new x g vars noErr marker depth)
        pairs startLen ps) := by
  cases h with
  | nil =>
    rw [parseExpressionPieces]
    exact ⟨[], (List.append_nil _).symm⟩
  | @cons op text inner tail he htail =>
    refine endsBy_pieces (fun ps' => ps'.pieces = ps.pieces ++ [.operator op]) ?_ ?_
    · rw [parseExpressionPiece, InfixOperator.ofText_text]
      exact rfl
    · intro ps' hps'
      have hlt : startLen < ps'.pieces.length := by
        rw [hps', List.length_append]
        omega
      refine endsBy_pieces (fun ps'' => ∃ e es, ps''.pieces = ps'.pieces ++ itemsOf e es)
        ?_ ?_
      · rw [parseExpressionPiece, if_neg (Nat.ne_of_gt hlt)]
        exact ((expression_ends ht inner he _ { ps' with notCount := 0 } rfl).mono
          (.row (Nat.ne_of_gt hlt)) fun _ _ h => h).map fun _ h => h
      · rintro ps'' ⟨e, es, hes⟩
        have hlt' : startLen < ps''.pieces.length := by
          rw [hes, List.length_append]
          omega
        refine (tail_ends ht tail htail startLen ps'' hlt').mono id ?_
        rintro ps₃ - ⟨es', hes'⟩
        refine ⟨(op, e) :: (es ++ es'), ?_⟩
        rw [hes', hes, hps']
        simp [tailItems, itemsOf]

theorem value_ends (ht : TemplatesEnd x g vars noErr marker depth n) (pairs : List Pair)
    (h : ValuePairs n pairs) (p : RequiredProviders) :
    EndsBy (Trips x g vars noErr marker depth (.value pairs p)) (fun _ => True)
      (parseValue x g vars noErr marker (Template.new x g vars noErr marker depth) pairs p) := by
  cases h with
  | boolean b =>
    cases b
    · simp [parseValue, parseValuePair, EndsBy]
    · simp [parseValue, parseValuePair, EndsBy]
  | null => simp [parseValue, parseValuePair, EndsBy]
  | @path text inner hp =>
    rw [parseValue, parseValuePair]
    exact ((PathPieces.path_ends (path_ends ht inner hp .new)).mono .valuePath fun _ _ h => h).map
      fun _ _ => trivial
  | string text h =>
    rw [parseValue, parseValuePair]
    exact ((ht text p h).mono .valueText fun _ _ h => h).map fun _ _ => trivial
  | integer text =>
    rw [parseValue, parseValuePair]
    cases hn : g.number text with
    | none => exact .integer hn
    | some v => trivial
  | decimal text =>
    rw [parseValue, parseValuePair]
    cases hn : g.number text with
    | none => exact .decimal hn
    | some v => trivial

theorem path_ends (ht : TemplatesEnd x g vars noErr marker depth n) (pairs : List Pair)
    (h : PathPairs n pairs) (p : RequiredProviders) :
    EndsBy (Trips x g vars noErr marker depth (.path pairs ⟨none, [], p⟩))
      (fun ps => ps.start ≠ none)
      (parsePathPairs x g vars noErr marker (Template.new x g vars noErr marker depth) pairs
        ⟨none, [], p⟩) := by
  cases h with
  | @call text inner rest hc hr =>
    refine endsBy_path _ ?_ (segments_end ht hr)
    rw [parsePathPair]
    refine EndsBy.map (?_ : EndsBy _ (fun _ => True) _) fun _ _ => Option.some_ne_none _
    cases hc with
    | @mk ident args ha =>
      have hargs := args_end ht args ha ⟨some ident, [], p⟩
      refine EndsBy.bind (?_ : EndsBy _ (fun c => c.ident = some ident) _) fun c hc hi => ?_
      · rw [parseFunctionCallPairs, parseFunctionCallPair]
        exact hargs.mono (fun h => .callArgs rfl (.nextArg (by rw [parseFunctionCallPair]) h))
          fun _ _ h => h
      · rw [hi]
        exact FunctionCall.new_ends.mono (.emptyRange rfl hc hi) fun _ _ _ => trivial
  | ident text hr =>
    refine endsBy_path _ ?_ (segments_end ht hr)
    rw [parsePathPair]
    exact Option.some_ne_none _

theorem args_end (ht : TemplatesEnd x g vars noErr marker depth n) (pairs : List Pair)
    (h : ArgPairs n pairs) (c : CallPieces) :
    EndsBy (Trips x g vars noErr marker depth (.call pairs c)) (fun c' => c'.ident = c.ident)
      (parseFunctionCallPairs x g vars noErr marker (Template.new x g vars noErr marker depth)
        pairs c) := by
  cases h with
  | nil =>
    rw [parseFunctionCallPairs]
    exact rfl
  | @cons text text' inner args he ha =>
    refine endsBy_call (fun c' => c'.ident = c.ident) ?_ fun c' hc' => ?_
    · rw [parseFunctionCallPair]
      have hrow := expression_ends ht [.mk .expression text' inner] (.group text' he .nil) 0
        ⟨[], 0, c.providers⟩ rfl
      exact ((Pieces.expression_ends hrow).mono .arg fun _ _ h => h).map fun _ _ => rfl
    · exact (args_end ht args ha c').mono id fun _ _ h => h.trans hc'

end

/-- The expression of a whole text, which the end of the text follows. -/
theorem entryPoint_ends (ht : TemplatesEnd x g vars noErr marker depth n) {text : String}
    {inner : List Pair} (h : ExpressionPairs n inner) (p : RequiredProviders) :
    EndsBy (Trips x g vars noErr marker depth
      (.pieces [.mk .expression text inner, .mk .eoi "" []] 0 ⟨[], 0, p⟩)) (fun _ => True)
      (parseExpression x g vars noErr marker (Template.new x g vars noErr marker depth)
        [.mk .expression text inner, .mk .eoi "" []] p) := by
  refine Pieces.expression_ends ?_
  refine endsBy_pieces (fun ps => ∃ e, ps.pieces = [.expression e]) ?_ ?_
  · rw [parseExpressionPiece, if_pos List.length_nil]
    exact ((Pieces.expression_ends (expression_ends ht inner h 0 _ rfl)).mono (.group rfl)
      fun _ _ h => h).map fun e _ => ⟨_, rfl⟩
  · rintro ps ⟨e, he⟩
    simp only [parseExpressionPieces, parseExpressionPiece, Except.bind]
    exact ⟨e, [], he⟩

theorem templatePieces_end (ht : TemplatesEnd x g vars noErr marker depth n) {pairs : List Pair}
    (h : TemplatePairs n pairs) (ts : List TemplatePiece) (p : RequiredProviders) :
    EndsBy (Trips x g vars noErr marker depth (.templatePieces pairs ts p)) (fun _ => True)
      (Template.newPieces x g vars noErr marker (Template.new x g vars noErr marker depth) pairs ts
        p) := by
  induction h generalizing ts p with
  | nil => trivial
  | text s _ ih =>
    rw [Template.newPieces, Template.newPiece]
    exact (ih _ p).mono (.nextTemplate rfl) fun _ _ h => h
  | @expression text text' inner rest he _ ih =>
    rw [Template.newPieces]
    have hrow := expression_ends ht [.mk .expression text' inner] (.group text' he .nil) 0
      ⟨[], 0, p⟩ rfl
    have hp : EndsBy (Trips x g vars noErr marker depth (.templatePieces
        (.mk .templateExpression text [.mk .expression text' inner] :: rest) ts p)) (fun _ => True)
        (Template.newPiece x g vars noErr marker (Template.new x g vars noErr marker depth)
          (.mk .templateExpression text [.mk .expression text' inner]) ts p) := by
      rw [Template.newPiece, parseExpression]
      exact ((Pieces.expression_ends hrow).mono .templateExpression fun _ _ h => h).map
        fun _ _ => trivial
    exact hp.bind fun s hs _ => (ih s.1 s.2).mono (.nextTemplate hs) fun _ _ h => h

/-- Templates end, by induction on the depth: a text inside is shorter. -/
theorem template_ends (hg : g.Sound) (depth : Nat) :
    TemplatesEnd x g vars noErr marker depth depth := by
  induction depth with
  | zero => exact fun _ _ h => absurd h (Nat.not_lt_zero _)
  | succ depth ih =>
    intro t p hl
    have hshort : TemplatesEnd x g vars noErr marker depth t.length :=
      fun s q hs => ih s q (by omega)
    rw [Template.new]
    cases ht : g.parse .templateEntryPoint t with
    | none => trivial
    | some pairs =>
      obtain ⟨text, inner, rfl, hp⟩ := hg.templateEntryPoint t pairs ht
      exact ((templatePieces_end hshort hp [] p).mono (.template ht) fun _ _ h => h).map
        fun _ _ => trivial

theorem expressionOf_ends (hg : g.Sound) {s : String} (hs : s.length ≤ depth)
    (p : RequiredProviders) :
    EndsBy (Trips x g vars noErr marker depth (.expression s p)) (fun _ => True)
      (ValueOrExpression.new x g vars noErr marker depth s p) := by
  have hshort : TemplatesEnd x g vars noErr marker depth s.length :=
    fun t q ht => template_ends hg depth t q (by omega)
  rw [ValueOrExpression.new, parseText]
  cases hp : g.parse .entryPoint s with
  | none => trivial
  | some pairs =>
    obtain ⟨text, inner, rfl, hi⟩ := hg.entryPoint s pairs hp
    exact ((entryPoint_ends hshort hi p).mono (.expression hp) fun _ _ h => h).map
      fun _ _ => trivial

end Ends

section Returns

variable {α : Type}

/-- An expression or template, or an `Err`. -/
def Returns (r : Except Failure α) : Prop := r ≠ .error .panic ∧ r ≠ .error .tooDeep

theorem EndsBy.returns_iff {trips : Prop} {post : α → Prop} {r : Except Failure α}
    (h : EndsBy trips post r) (ht : trips → r = .error .panic) : Returns r ↔ ¬ trips := by
  constructor
  · exact fun hr htrips => hr.1 (ht htrips)
  · intro hn
    constructor
    · rintro rfl
      exact hn h
    · rintro rfl
      exact h

end Returns

/-- Deep enough for the text, an expression or a template is built or refused exactly where the
parser comes to no bad index, number or range. -/
theorem new_returns_iff (x : Externals) (g : Grammar) (hg : g.Sound) (vars : Object) (noErr : Bool)
    (marker : Marker) (s : String) (providers : RequiredProviders) (depth : Nat)
    (h : s.length < depth) :
    (Returns (ValueOrExpression.new x g vars noErr marker depth s providers) ↔
      ¬ Trips x g vars noErr marker depth (.expression s providers)) ∧
    (Returns (Template.new x g vars noErr marker depth s providers) ↔
      ¬ Trips x g vars noErr marker depth (.template s providers)) :=
  ⟨(expressionOf_ends hg (Nat.le_of_lt h) providers).returns_iff fun h => h.panics,
    (template_ends hg depth s providers h).returns_iff fun h => h.panics⟩

theorem oneText_sound {s : String} {m : ExpressionMatch} (h : ExpressionPairs s.length m.pairs) :
    (oneText s m).Sound where
  entryPoint t pairs hp := by
    obtain ⟨⟨-, rfl⟩, rfl⟩ := Option.ite_none_right_eq_some.mp hp |>.imp_right Option.some.inj
    exact ⟨m.text, m.pairs, rfl, h⟩
  templateEntryPoint t pairs hp := by simp [oneText] at hp

/-- The match of `a[-1]`. -/
def indexMatch : ExpressionMatch :=
  .mk "a[-1]" 0 (.value "a[-1]" [.mk .jsonPath "a[-1]"
    [.mk .jsonIdent "a" [], .mk .indexedProperty "[-1]" [.mk .integer "-1" []]]]) .nil

theorem indexMatch_pairs : ExpressionPairs "a[-1]".length indexMatch.pairs :=
  .value _ (.path _ (.ident _ (.integer _ _ .nil))) .nil

/-- The index of `a[-1]` is no `usize`. -/
theorem indexMatch_trips : Trips .plain (oneText "a[-1]" indexMatch) [] false ⟨1, 1⟩ 6
    (.expression "a[-1]" .new) := by
  refine .expression rfl (.group rfl (.operand (.valuePath ?_)))
  refine .nextSegment rfl (.index (Option.some_ne_none _) ?_)
  decide

theorem not_returns_index :
    ¬ Returns (ValueOrExpression.new .plain (oneText "a[-1]" indexMatch) [] false ⟨1, 1⟩ 6 "a[-1]"
      .new) := by
  rw [(new_returns_iff .plain (oneText "a[-1]" indexMatch) (oneText_sound indexMatch_pairs) [] false
    ⟨1, 1⟩ "a[-1]" .new 6 (by decide)).1, not_not]
  exact indexMatch_trips

/-- Every text gives an expression or an `Err`. -/
def ConstructionReturns : Prop :=
  ∀ (x : Externals) (g : Grammar), g.Sound → ∀ (vars : Object) (noErr : Bool) (marker : Marker)
    (s : String) (providers : RequiredProviders) (depth : Nat), s.length < depth →
      Returns (ValueOrExpression.new x g vars noErr marker depth s providers) ∧
      Returns (Template.new x g vars noErr marker depth s providers)

theorem not_constructionReturns : ¬ ConstructionReturns := by
  intro h
  have hr := (h .plain (oneText "a[-1]" indexMatch) (oneText_sound indexMatch_pairs) [] false
    ⟨1, 1⟩ "a[-1]" .new 6 (by decide)).1
  exact hr.1 indexMatch_trips.panics

end Pewpew.SelectParser
