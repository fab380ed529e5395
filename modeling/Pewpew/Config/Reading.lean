import Pewpew.Config.Exact
import Mathlib.Logic.Relation

/-! The nodes that a parser reads for a node, each as a type. -/
namespace Pewpew.Config

open SelectParser Yaml Reader

/-- A type, and a node that is read as it. -/
abbrev Call := ConfigType × Tree

/-- The parser for the first call reads a node as the second one says. -/
inductive Hands : Call → Call → Prop where
  | item (t : ConfigType) (start : Marker) (items : List Tree) (close : Marker) (n : Tree)
      (h : n ∈ items) : Hands (.vec t, .sequence start items close) (t, n)
  | firstKey (t : ConfigType) (start : Marker) (k v : Tree) (pairs : List (Tree × Tree))
      (close : Marker) : Hands (.vec t, .mapping start ((k, v) :: pairs) close) (t, k)
  | alone (t : ConfigType) (s : String) (style : TScalarStyle) (tag : Option (String × String))
      (m : Marker) : Hands (.vec t, .scalar s style tag m) (t, .scalar s style tag m)
  | tupleValue (t : ConfigType) (start : Marker) (pairs : List (Tree × Tree)) (close : Marker)
      (p : Tree × Tree) (h : p ∈ pairs) : Hands (.tupleVec t, .mapping start pairs close) (t, p.2)
  | tupleSecond (t : ConfigType) (start : Marker) (k v : Tree) (items : List Tree)
      (close : Marker) : Hands (.tupleVec t, .sequence start (k :: v :: items) close) (t, v)
  | btreeValue (t : ConfigType) (start : Marker) (pairs : List (Tree × Tree)) (close : Marker)
      (p : Tree × Tree) (h : p ∈ pairs) : Hands (.btreeMap t, .mapping start pairs close) (t, p.2)
  | btreeSecond (t : ConfigType) (start : Marker) (k v : Tree) (items : List Tree)
      (close : Marker) : Hands (.btreeMap t, .sequence start (k :: v :: items) close) (t, v)
  | nullable (t : ConfigType) (n : Tree)
      (h : ∀ s style tag m, n = .scalar s style tag m → isNull (.scalar s style tag) = false) :
      Hands (.nullable t, n) (t, n)
  | withMarker (t : ConfigType) (n : Tree) : Hands (.withMarker t, n) (t, n)
  | field (s : SectionType) (t : ConfigType) (start : Marker) (pairs : List (Tree × Tree))
      (close : Marker) (key : String) (style : TScalarStyle) (tag : Option (String × String))
      (m : Marker) (v : Tree) (h : (.scalar key style tag m, v) ∈ pairs)
      (hk : s.field key = some t) : Hands (.section s, .mapping start pairs close) (t, v)
  | entry (t u : ConfigType) (start : Marker) (pairs : List (Tree × Tree)) (close : Marker)
      (key : String) (style : TScalarStyle) (tag : Option (String × String)) (m : Marker)
      (v : Tree) (hk : t.entry key = some u) :
      Hands (t, .mapping start ((.scalar key style tag m, v) :: pairs) close) (u, v)
  | list (start : Marker) (items : List Tree) (close : Marker) :
      Hands (.listProvider, .sequence start items close) (.vec .json, .sequence start items close)
  | options (start : Marker) (pairs : List (Tree × Tree)) (close : Marker) :
      Hands (.listProvider, .mapping start pairs close)
        (.section .listWithOptions, .mapping start pairs close)
  | pieces (start : Marker) (items : List Tree) (close : Marker) :
      Hands (.body, .sequence start items close)
        (.tupleVec (.section .bodyMultipartPiece), .sequence start items close)

/-- The calls for a node and for the nodes inside it. -/
abbrev Reading : Call → Call → Prop := Relation.ReflTransGen Hands

/-- No call for a node or inside it is bad. -/
def Clear (bad : Call → Prop) (c : Call) : Prop := ∀ c', Reading c c' → ¬ bad c'

theorem Clear.self {bad : Call → Prop} {c : Call} (h : Clear bad c) : ¬ bad c := h c .refl

theorem Clear.hands {bad : Call → Prop} {c c' : Call} (h : Clear bad c) (hc : Hands c c') :
    Clear bad c' := fun d hd => h d (.head hc hd)

/-- The types whose parsers may take the end of a collection for a value. -/
def ConfigType.takesEnd : ConfigType → Bool
  | json | vec _ | tupleVec _ | btreeMap _ => true
  | nullable t | withMarker t => t.takesEnd
  | _ => false

/-- A call that sets out on the wrong event: a section, or a provider, that starts at one of its
keys, and a sequence without an item, whose end is left to a type that takes it. -/
def Misled : Call → Prop
  | (.section s, .scalar key _ _ _) => (s.field key).isSome
  | (.provider, .scalar key _ _ _) => (ConfigType.entry .provider key).isSome
  | (.vec t, .sequence _ [] _) => t.takesEnd
  | _ => False

section Guards

variable {b : Build} {fault : Failure → Prop} {bad : Call → Prop}

/-- What the calls that are not bad are spared. -/
structure Guards (b : Build) (fault : Failure → Prop) (bad : Call → Prop) : Prop where
  misled : ∀ c, Misled c → bad c
  emptySequence : ∀ t start close, ¬ bad (.vec t, .sequence start [] close) →
    ∀ stop rest, fault stop → Refuses fault (t.parse b) stop ((.sequenceEnd, close) :: rest)
  emptyMapping : ∀ t start close, ¬ bad (.vec t, .mapping start [] close) →
    ∀ stop rest, fault stop → Quiet fault (t.parse b) stop ((.mappingEnd, close) :: rest)
  tupleSingle : ∀ t start s style tag m close,
    ¬ bad (.tupleVec t, .sequence start [.scalar s style tag m] close) →
      ∀ stop rest, fault stop → Quiet fault (t.parse b) stop ((.sequenceEnd, close) :: rest)
  btreeSingle : ∀ t start s style tag m close,
    ¬ bad (.btreeMap t, .sequence start [.scalar s style tag m] close) →
      ∀ stop rest, fault stop → Quiet fault (t.parse b) stop ((.sequenceEnd, close) :: rest)
  tupleScalar : ∀ t s style tag m, ¬ bad (.tupleVec t, .scalar s style tag m) →
    ∀ stop rest, fault stop → Quiet fault (t.parse b) stop rest
  btreeScalar : ∀ t s style tag m, ¬ bad (.btreeMap t, .scalar s style tag m) →
    ∀ stop rest, fault stop → Quiet fault (t.parse b) stop rest
  stats : ∀ n, ¬ bad (.logProviderStats, n) →
    Exact fault (ConfigType.parse b .logProviderStats) n

end Guards

section Kinds

variable {b : Build} {fault : Failure → Prop} {γ : Type}

theorem kind_agree (b : Build) (key : String) :
    Agree b (ConfigType.entry .provider key) (ProviderPreProcessed.kind b key) := by
  have h (t : ConfigType) (f : t.Val → ProviderPreProcessed) :
      Agree b (some t) (some ((namedErr key (t.parse b)).map fun v => (f v.1, v.2))) := by
    refine .some fun stop ts => ?_
    have h := alike_check (t.parse b) key (f := fun v => .ok (f v.1, v.2)) (g := .ok)
      (fun _ => .ok _ _) stop ts
    rwa [check_ok] at h
  exact agree_ite (h (.section .fileProvider) _) (agree_ite (h (.section .rangeProvider) _)
    (agree_ite (h (.section .responseProvider) _) (agree_ite (h .listProvider _) .none)))

/-- What is read for a key is exact where the type of the key is. -/
theorem exact_of_agree (hf : Tolerated fault) {t : Option ConfigType} {p : Option (Decoding γ)}
    {n : Tree} (ha : Agree b t p) (h : ∀ u, t = some u → Exact fault (u.parse b) n)
    {q : Decoding γ} (hq : p = some q) : Exact fault q n := by
  cases ha with
  | none => nomatch hq
  | some hr =>
    obtain rfl := Option.some.inj hq
    exact exact_of_readsAs hf hr (h _ rfl)

theorem preTemplate_exact (hf : Tolerated fault) (n : Tree) :
    Exact fault PreTemplate.parse n :=
  exactOn_map _ (exactOn_map _ (ScalarType.exact hf .string n))

theorem provider_scalar (hf : Tolerated fault) {s : String} {style : TScalarStyle}
    {tag : Option (String × String)} {m : Marker} (hk : ProviderPreProcessed.kind b s = none) :
    Exact fault (ProviderPreProcessed.parse b) (.scalar s style tag m) := by
  intro stop rest hs
  rw [ProviderPreProcessed.parse, ends_andThen, ends_loop, ProviderPreProcessed.round,
    ends_andThen, Tree.events, List.singleton_append, ends_next_cons]
  simpa [hk] using hf.err _

theorem pieceBody_scalar (hf : Tolerated fault) {s : String} {style : TScalarStyle}
    {tag : Option (String × String)} {m : Marker} :
    Exact fault BodyMultipartPieceBody.parse (.scalar s style tag m) := by
  intro stop rest hs
  have ht (f : PreTemplate × Marker → BodyMultipartPieceBody × Marker) :=
    exactOn_map f (preTemplate_exact hf (.scalar s style tag m)) stop rest hs
  rw [BodyMultipartPieceBody.parse, Tree.events, List.singleton_append, ends_peekThen_cons]
  dsimp only
  split
  · exact ht _
  · exact ht _
  all_goals simp_all

theorem body_scalar (hf : Tolerated fault) {s : String} {style : TScalarStyle}
    {tag : Option (String × String)} {m : Marker} :
    Exact fault Body.parse (.scalar s style tag m) := by
  intro stop rest hs
  have ht (f : PreTemplate × Marker → Body × Marker) :=
    exactOn_map f (preTemplate_exact hf (.scalar s style tag m)) stop rest hs
  rw [Body.parse, Tree.events, List.singleton_append, ends_peekThen_cons]
  dsimp only
  split
  · exact ht _
  · exact ht _
  all_goals simp_all

/-- A mapping of one key, with its start. -/
theorem onlyEntry_mapping (hf : Tolerated fault) {value : String → Option (FromYaml γ)}
    {entry : String → Option ConfigType}
    (ha : ∀ key, Agree b (entry key) (value key))
    {pairs : List (Tree × Tree)}
    (h : OnFirst pairs fun key v => ∀ u, entry key = some u → Exact fault (u.parse b) v)
    (close : Marker) {stop : Failure} {rest : List Delivered} (hs : fault stop) :
    Ends (fun _ left => left = rest) fault
      ((onlyEntry value).run stop (pairsEvents pairs ++ (.mappingEnd, close) :: rest)) :=
  onlyEntry_ends hf hs (fun key style tag m v more hp _ hk =>
    exact_of_agree hf (ha key) (h key style tag m v more hp) hk) close

theorem loadPattern_mapping (hf : Tolerated fault) {pairs : List (Tree × Tree)}
    (h : OnFirst pairs fun key v => ∀ u, ConfigType.entry .loadPattern key = some u →
      Exact fault (u.parse b) v) (start close : Marker) :
    Exact fault LoadPatternPreProcessed.parse (.mapping start pairs close) := by
  intro stop rest hs
  simp only [LoadPatternPreProcessed.parse, Tree.events, List.cons_append, List.append_assoc,
    ends_andThen, ends_next_cons, ends_more]
  exact onlyEntry_mapping hf (fun key => agree_ite
    (.some (readsAs_map (.section .linearBuilder) _)) .none) h close hs

theorem pieceBody_mapping (hf : Tolerated fault) {pairs : List (Tree × Tree)}
    (h : OnFirst pairs fun key v => ∀ u, ConfigType.entry .multipartPieceBody key = some u →
      Exact fault (u.parse b) v) (start close : Marker) :
    Exact fault BodyMultipartPieceBody.parse (.mapping start pairs close) := by
  intro stop rest hs
  simp only [BodyMultipartPieceBody.parse, Tree.events, List.cons_append, List.append_assoc,
    ends_peekThen_cons, ends_andThen, ends_next_cons, ends_more]
  exact onlyEntry_mapping hf (fun key => agree_ite
    (.some (readsAs_map .preTemplate _)) .none) h close hs

theorem body_mapping (hf : Tolerated fault) {pairs : List (Tree × Tree)}
    (h : OnFirst pairs fun key v => ∀ u, ConfigType.entry .body key = some u →
      Exact fault (u.parse b) v) (start close : Marker) :
    Exact fault Body.parse (.mapping start pairs close) := by
  intro stop rest hs
  simp only [Body.parse, Tree.events, List.cons_append, List.append_assoc,
    ends_peekThen_cons, ends_andThen, ends_next_cons, ends_more]
  exact onlyEntry_mapping hf (fun key => agree_ite (.some (readsAs_map .preTemplate _))
    (agree_ite (.some (readsAs_map (.tupleVec (.section .bodyMultipartPiece)) _)) .none)) h close hs

end Kinds

section Maps

variable {V C : Type} {fault : Failure → Prop} {i : Insert C (String × V)} {value : FromYaml V}

/-- A collection of keys and values, which begins with a mapping. -/
def OfMapping (i : Insert C (String × V)) : Prop :=
  ∀ c v e, e ≠ .mappingStart → i.insert c v e = none

theorem ofMapping_tupleVec (V : Type) : OfMapping (TupleVec.insert V) :=
  fun _ _ _ he => if_neg he

theorem ofMapping_btreeMap (V : Type) : OfMapping (BTreeMap.insert V) :=
  fun _ _ _ he => if_neg he

/-- A pair is refused where its key is not a scalar. -/
theorem pair_quiet (hf : Tolerated fault) {stop : Failure} {e : YamlEvent} {m : Marker}
    {rest : List Delivered} (h : e.isScalar = true → Quiet fault value stop rest) :
    Quiet fault (Pair.parse value) stop ((e, m) :: rest) := by
  rw [Quiet, Pair.parse, ends_andThen, FromYaml.into, ends_map, String.parse, ofEvent, ends_check,
    ends_next_cons]
  cases e with
  | scalar s style tag =>
    change Ends _ _ ((value.map _).run stop rest)
    rw [ends_map]
    exact h rfl
  | mappingStart => exact hf.err _
  | mappingEnd => exact hf.err _
  | sequenceStart => exact hf.err _
  | sequenceEnd => exact hf.err _

theorem pair_refuses (hf : Tolerated fault) {stop : Failure} {e : YamlEvent} {m : Marker}
    {rest : List Delivered} (h : e.isScalar = false) :
    Refuses fault (Pair.parse value) stop ((e, m) :: rest) := by
  rw [Refuses, Pair.parse, ends_andThen, FromYaml.into, ends_map, String.parse, ofEvent, ends_check,
    ends_next_cons]
  cases e with
  | scalar s style tag => simp [YamlEvent.isScalar] at h
  | mappingStart => exact hf.err _
  | mappingEnd => exact hf.err _
  | sequenceStart => exact hf.err _
  | sequenceEnd => exact hf.err _

theorem map_scalar (hf : Tolerated fault) (hi : OfMapping i) {s : String} {style : TScalarStyle}
    {tag : Option (String × String)} {m : Marker}
    (h : ∀ stop rest, fault stop → Quiet fault value stop rest) :
    Exact fault (i.parse (Pair.parse value)) (.scalar s style tag m) := by
  intro stop rest hs
  refine Refuses.ends (parse_refuses_scalar hf (fun v => hi _ v _ (by simp)) ?_) _
  exact pair_quiet hf fun _ => h stop rest hs

theorem map_sequence (hf : Tolerated fault) (hi : OfMapping i) {start close : Marker}
    {items : List Tree}
    (hsingle : ∀ s style tag m, items = [.scalar s style tag m] → ∀ stop rest, fault stop →
      Quiet fault value stop ((.sequenceEnd, close) :: rest))
    (hsecond : ∀ k v more, items = k :: v :: more → Exact fault value v) :
    Exact fault (i.parse (Pair.parse value)) (.sequence start items close) := by
  intro stop rest hs
  rw [Tree.events, List.cons_append, List.append_assoc]
  refine Refuses.ends (parse_refuses hf rfl ?_) _
  have hq : Quiet fault (Pair.parse value) stop
      (itemsEvents items ++ ([(.sequenceEnd, close)] ++ rest)) := by
    rcases items with _ | ⟨k, _ | ⟨v, more⟩⟩
    · exact pair_quiet hf fun h => by simp [YamlEvent.isScalar] at h
    · simp only [itemsEvents, List.append_nil]
      cases k with
      | scalar s style tag m => exact pair_quiet hf fun _ => hsingle _ _ _ _ rfl stop rest hs
      | sequence => exact pair_quiet hf fun h => by simp [YamlEvent.isScalar] at h
      | mapping => exact pair_quiet hf fun h => by simp [YamlEvent.isScalar] at h
    · simp only [itemsEvents, List.append_assoc]
      cases k with
      | scalar s style tag m =>
        exact pair_quiet hf fun _ => (hsecond _ v more rfl).quiet hs
      | sequence => exact pair_quiet hf fun h => by simp [YamlEvent.isScalar] at h
      | mapping => exact pair_quiet hf fun h => by simp [YamlEvent.isScalar] at h
  exact Ends.mono hq (fun _ _ _ => hi _ _ _ (by simp)) fun _ h => h

theorem pairsEvents_eq (pairs : List (Tree × Tree)) :
    pairsEvents pairs = (pairs.map pairEvents).flatten := by
  induction pairs with
  | nil => rfl
  | cons p pairs ih => rw [pairsEvents, ih, List.map_cons, List.flatten_cons]

theorem itemsEvents_eq (items : List Tree) :
    itemsEvents items = (items.map Tree.events).flatten := by
  induction items with
  | nil => rfl
  | cons n items ih => rw [itemsEvents, ih, List.map_cons, List.flatten_cons]

/-- The entries of a mapping. -/
theorem map_entries (i : Insert C (String × V)) (start close : Marker) (hf : Tolerated fault)
    {pairs : List (Tree × Tree)} (h : ∀ p ∈ pairs, Exact fault value p.2) (stop : Failure)
    (rest : List Delivered) (hs : fault stop) :
    Ends (fun ret left => left = rest ∧ ∃ vs,
        List.Forall₂ (Gives (Pair.parse value)) (pairs.map pairEvents) vs ∧
        addAll i .mappingStart i.default vs = some ret.1) fault
      ((i.parse (Pair.parse value)).run stop
        ((Tree.mapping start pairs close).events ++ rest)) := by
  rw [Tree.events, List.cons_append, List.append_assoc, pairsEvents_eq]
  cases pairs with
  | nil => exact Refuses.ends (parse_refuses hf rfl (Refuses.ends (pair_refuses hf rfl) _)) _
  | cons p pairs =>
    refine parse_exact hf hs (fun u hu => ?_) rfl rfl start close
    obtain ⟨q, hq, rfl⟩ := List.mem_map.mp (show u ∈ (p :: pairs).map pairEvents from hu)
    exact ⟨opens_pair q, pair_exact hf (h q hq)⟩

theorem map_mapping (hf : Tolerated fault) {start close : Marker} {pairs : List (Tree × Tree)}
    (h : ∀ p ∈ pairs, Exact fault value p.2) :
    Exact fault (i.parse (Pair.parse value)) (.mapping start pairs close) :=
  fun stop rest hs =>
    (map_entries i start close hf h stop rest hs).mono (fun _ _ h => h.1) fun _ h => h

end Maps

section Vecs

variable {V : Type} {fault : Failure → Prop} {value : FromYaml V}

theorem vec_insert {c : List V} {v : V} {e : YamlEvent} (h : e ≠ .sequenceStart) :
    (Vec.insert V).insert c v e = none := if_neg h

/-- The elements of a sequence. -/
theorem vec_elements (start close : Marker) (hf : Tolerated fault) {items : List Tree}
    (hempty : items = [] → ∀ stop rest, fault stop →
      Refuses fault value stop ((.sequenceEnd, close) :: rest))
    (h : ∀ n ∈ items, Exact fault value n) (stop : Failure) (rest : List Delivered)
    (hs : fault stop) :
    Ends (fun ret left => left = rest ∧ ∃ vs,
        List.Forall₂ (Gives value) (items.map Tree.events) vs ∧
        addAll (Vec.insert V) .sequenceStart [] vs = some ret.1) fault
      ((Vec.parse value).run stop ((Tree.sequence start items close).events ++ rest)) := by
  rw [Tree.events, List.cons_append, List.append_assoc, itemsEvents_eq]
  cases items with
  | nil => exact Refuses.ends (parse_refuses hf rfl (Refuses.ends (hempty rfl stop rest hs) _)) _
  | cons n items =>
    refine parse_exact hf hs (fun u hu => ?_) rfl rfl start close
    obtain ⟨q, hq, rfl⟩ := List.mem_map.mp (show u ∈ (n :: items).map Tree.events from hu)
    exact ⟨opens_events q, h q hq⟩

theorem vec_sequence (hf : Tolerated fault) {start close : Marker} {items : List Tree}
    (hempty : items = [] → ∀ stop rest, fault stop →
      Refuses fault value stop ((.sequenceEnd, close) :: rest))
    (h : ∀ n ∈ items, Exact fault value n) :
    Exact fault (Vec.parse value) (.sequence start items close) :=
  fun stop rest hs =>
    (vec_elements start close hf hempty h stop rest hs).mono (fun _ _ h => h.1) fun _ h => h

theorem vec_scalar (hf : Tolerated fault) {s : String} {style : TScalarStyle}
    {tag : Option (String × String)} {m : Marker} (h : Exact fault value (.scalar s style tag m)) :
    Exact fault (Vec.parse value) (.scalar s style tag m) :=
  fun _ _ hs => Refuses.ends
    (parse_refuses_scalar hf (fun _ => vec_insert (by simp)) (ExactOn.quiet h hs)) _

theorem vec_mapping (hf : Tolerated fault) {start close : Marker} {pairs : List (Tree × Tree)}
    (hempty : pairs = [] → ∀ stop rest, fault stop →
      Quiet fault value stop ((.mappingEnd, close) :: rest))
    (hfirst : ∀ k v more, pairs = (k, v) :: more → Exact fault value k) :
    Exact fault (Vec.parse value) (.mapping start pairs close) := by
  intro stop rest hs
  rw [Tree.events, List.cons_append, List.append_assoc]
  refine Refuses.ends (parse_refuses hf rfl ?_) _
  have hq : Quiet fault value stop (pairsEvents pairs ++ ([(.mappingEnd, close)] ++ rest)) := by
    cases pairs with
    | nil => exact hempty rfl stop rest hs
    | cons p pairs =>
      obtain ⟨k, v⟩ := p
      simp only [pairsEvents, pairEvents, List.append_assoc]
      exact (hfirst k v pairs rfl).quiet hs
  exact Ends.mono hq (fun _ _ _ => vec_insert (by simp)) fun _ h => h

end Vecs

section Calls

variable {b : Build} {fault : Failure → Prop} {bad : Call → Prop}

theorem nullable_exact {V : Type} {value : FromYaml V} {n : Tree}
    (h : (∀ s style tag m, n = .scalar s style tag m → isNull (.scalar s style tag) = false) →
      Exact fault value n) : Exact fault (Nullable.parse value) n := by
  intro stop rest hs
  cases n with
  | scalar s style tag m =>
    rw [Nullable.parse, Tree.events, List.singleton_append, ends_peekThen_cons]
    cases hn : isNull (.scalar s style tag) with
    | true =>
      simp only [hn]
      exact rfl
    | false =>
      simp only [hn]
      refine exactOn_map _ (h fun _ _ _ _ he => ?_) stop rest hs
      cases he
      exact hn
  | sequence start items close =>
    exact exactOn_map (fun v : V × Marker => (some v.1, v.2)) (h (by simp))
      stop rest hs
  | mapping start pairs close =>
    exact exactOn_map (fun v : V × Marker => (some v.1, v.2)) (h (by simp))
      stop rest hs

theorem level_exact (hf : Tolerated fault) (n : Tree) :
    Exact fault (ConfigType.parse b .logLevel) n := by
  refine exactOn_check (ScalarType.exact hf .string n) fun a e he => ?_
  unfold GeneralConfigPreProcessed.levelValue at he
  cases hl : b.level a.1 with
  | some level => simp [hl, Except.map] at he
  | none =>
    simp only [hl, Except.map, Except.error.injEq] at he
    subst he
    exact hf.err _

theorem exact_scalar (hf : Tolerated fault) (g : Guards b fault bad) {s : String}
    {style : TScalarStyle} {tag : Option (String × String)} {m : Marker} (t : ConfigType)
    (hc : Clear bad (t, .scalar s style tag m)) :
    Exact fault (t.parse b) (.scalar s style tag m) := by
  have hm : ¬ Misled (t, .scalar s style tag m) := fun h => hc.self (g.misled _ h)
  induction t with
  | scalar k => exact k.exact hf _
  | logProviderStats => exact g.stats _ hc.self
  | logLevel => exact level_exact hf _
  | json => exact Value.exact hf _ _
  | preTemplate => exact preTemplate_exact hf _
  | vec t ih =>
    have hc := hc.hands (.alone ..)
    exact vec_scalar hf (ih hc fun h => hc.self (g.misled _ h))
  | tupleVec t ih => exact map_scalar hf (ofMapping_tupleVec _) (g.tupleScalar _ _ _ _ _ hc.self)
  | btreeMap t ih => exact map_scalar hf (ofMapping_btreeMap _) (g.btreeScalar _ _ _ _ _ hc.self)
  | nullable t ih =>
    refine nullable_exact fun h => ?_
    have hc := hc.hands (.nullable t _ h)
    exact ih hc fun h => hc.self (g.misled _ h)
  | withMarker t ih =>
    have hc := hc.hands (.withMarker t _)
    exact exactOn_map _ (ih hc fun h => hc.self (g.misled _ h))
  | loadPattern => exact fun _ _ _ => hf.err _
  | listProvider => exact fun _ _ _ => hf.err _
  | provider => exact provider_scalar hf (none_of_agree (kind_agree b s) hm)
  | multipartPieceBody => exact pieceBody_scalar hf
  | body => exact body_scalar hf
  | «section» x =>
    exact fun stop rest hs => (section_scalar hf (none_of_agree (layout_agree b x s m) hm)).ends _

theorem exact_sequence (hf : Tolerated fault) (g : Guards b fault bad) {start close : Marker}
    {items : List Tree} (ih : ∀ n ∈ items, ∀ t, Clear bad (t, n) → Exact fault (t.parse b) n)
    (t : ConfigType) (hc : Clear bad (t, .sequence start items close)) :
    Exact fault (t.parse b) (.sequence start items close) := by
  have htuple (t : ConfigType) (hc : Clear bad (.tupleVec t, .sequence start items close)) :
      Exact fault (TupleVec.parse (t.parse b)) (.sequence start items close) := by
    refine map_sequence hf (ofMapping_tupleVec _) (fun s style tag m hk => ?_) fun k v more hv => ?_
    · subst hk
      exact g.tupleSingle _ _ _ _ _ _ _ hc.self
    · subst hv
      exact ih v (by simp) t (hc.hands (.tupleSecond ..))
  have hvec (t : ConfigType) (hc : Clear bad (.vec t, .sequence start items close)) :
      Exact fault (Vec.parse (t.parse b)) (.sequence start items close) := by
    refine vec_sequence hf (fun hi => ?_) fun n hn => ih n hn t (hc.hands (.item _ _ _ _ _ hn))
    subst hi
    exact g.emptySequence _ _ _ hc.self
  induction t with
  | scalar k => exact k.exact hf _
  | logProviderStats => exact g.stats _ hc.self
  | logLevel => exact level_exact hf _
  | json => exact Value.exact hf _ _
  | preTemplate => exact preTemplate_exact hf _
  | vec t => exact hvec t hc
  | tupleVec t => exact htuple t hc
  | btreeMap t =>
    refine map_sequence hf (ofMapping_btreeMap _) (fun s style tag m hk => ?_) fun k v more hv => ?_
    · subst hk
      exact g.btreeSingle _ _ _ _ _ _ _ hc.self
    · subst hv
      exact ih v (by simp) t (hc.hands (.btreeSecond ..))
  | nullable t iht =>
    exact nullable_exact fun h => iht (hc.hands (.nullable t _ h))
  | withMarker t iht => exact exactOn_map _ (iht (hc.hands (.withMarker t _)))
  | loadPattern => exact fun _ _ _ => hf.err _
  | listProvider =>
    exact exactOn_map _ (hvec .json (hc.hands (.list ..)))
  | provider => exact fun _ _ _ => hf.err _
  | multipartPieceBody => exact fun _ _ _ => hf.err _
  | body => exact exactOn_map _ (htuple _ (hc.hands (.pieces ..)))
  | «section» x => exact fun stop rest hs => (section_sequence hf).ends _

theorem exact_mapping (hf : Tolerated fault) (g : Guards b fault bad) {start close : Marker}
    {pairs : List (Tree × Tree)}
    (ih : ∀ p ∈ pairs, (∀ t, Clear bad (t, p.1) → Exact fault (t.parse b) p.1) ∧
      ∀ t, Clear bad (t, p.2) → Exact fault (t.parse b) p.2)
    (t : ConfigType) (hc : Clear bad (t, .mapping start pairs close)) :
    Exact fault (t.parse b) (.mapping start pairs close) := by
  have hsection (x : SectionType) (hc : Clear bad (.section x, .mapping start pairs close)) :
      Exact fault (x.layout b).parse (.mapping start pairs close) := by
    refine section_mapping hf (fun p hp key style tag m hk q hq => ?_) start close
    obtain ⟨k, v⟩ := p
    obtain rfl : k = _ := hk
    exact exact_of_agree hf (layout_agree b x key m)
      (fun u hu => (ih _ hp).2 u (hc.hands (.field _ _ _ _ _ _ _ _ _ _ hp hu))) hq
  have hentry (t : ConfigType) (hc : Clear bad (t, .mapping start pairs close)) :
      OnFirst pairs fun key v => ∀ u, t.entry key = some u → Exact fault (u.parse b) v := by
    intro key style tag m v more hp u hu
    subst hp
    exact (ih _ List.mem_cons_self).2 u (hc.hands (.entry _ _ _ _ _ _ _ _ _ _ hu))
  induction t with
  | scalar k => exact k.exact hf _
  | logProviderStats => exact g.stats _ hc.self
  | logLevel => exact level_exact hf _
  | json => exact Value.exact hf _ _
  | preTemplate => exact preTemplate_exact hf _
  | vec t =>
    refine vec_mapping hf (fun hp => ?_) fun k v more hp => ?_
    · subst hp
      exact g.emptyMapping _ _ _ hc.self
    · subst hp
      exact (ih _ List.mem_cons_self).1 t (hc.hands (.firstKey ..))
  | tupleVec t =>
    exact map_mapping hf fun p hp => (ih p hp).2 t (hc.hands (.tupleValue _ _ _ _ _ hp))
  | btreeMap t =>
    exact map_mapping hf fun p hp => (ih p hp).2 t (hc.hands (.btreeValue _ _ _ _ _ hp))
  | nullable t iht =>
    exact nullable_exact fun h => iht (hc.hands (.nullable t _ h))
  | withMarker t iht => exact exactOn_map _ (iht (hc.hands (.withMarker t _)))
  | loadPattern => exact loadPattern_mapping hf (hentry _ hc) start close
  | listProvider => exact exactOn_map _ (hsection .listWithOptions (hc.hands (.options ..)))
  | provider =>
    refine provider_mapping hf (fun key style tag m v more hp q hq => ?_) start close
    exact exact_of_agree hf (kind_agree b key) (hentry _ hc key style tag m v more hp) hq
  | multipartPieceBody => exact pieceBody_mapping hf (hentry _ hc) start close
  | body => exact body_mapping hf (hentry _ hc) start close
  | «section» x => exact hsection x hc

/-- The parser of a type takes exactly one node where no call for the node is bad. -/
theorem exact_of_clear (hf : Tolerated fault) (g : Guards b fault bad) (n : Tree) :
    ∀ t : ConfigType, Clear bad (t, n) → Exact fault (t.parse b) n := by
  induction n using Tree.nested with
  | scalar s style tag m => exact fun t hc => exact_scalar hf g t hc
  | sequence start items close ih => exact fun t hc => exact_sequence hf g ih t hc
  | mapping start pairs close ih => exact fun t hc => exact_mapping hf g ih t hc

end Calls

end Pewpew.Config
