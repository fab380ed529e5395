import Pewpew.Config.Reading

/-! Every parser takes one node, unless a call sets out on the wrong event. -/
namespace Pewpew.Config

open SelectParser Yaml Reader Section

section Statement

variable (b : Build)

/-- The elements of a sequence, and the entries of a mapping, in order. -/
def Elements : (t : ConfigType) → Tree → t.Val → Prop
  | .vec t, .sequence _ items _, vs =>
    List.Forall₂ (fun n v => Gives (t.parse b) n.events v) items vs
  | .tupleVec t, .mapping _ pairs _, vs =>
    List.Forall₂ (fun p e => (∃ style tag m, p.1 = .scalar e.1 style tag m) ∧
      Gives (t.parse b) p.2.events e.2) pairs vs
  | _, _, _ => True

/-- What a call takes of a well-nested sequence of events is the node at its place. -/
def OneNode (c : Call) : Prop :=
  ∀ stop rest v left, Follows rest → (c.1.parse b).run stop (c.2.events ++ rest) = .ok (v, left) →
    left = rest ∧ Elements b c.1 c.2 v.1

end Statement

section Enough

variable {b : Build} {fault : Failure → Prop}

/-- The types whose parsers panic at the end of a sequence. -/
def ConfigType.panicsAtEnd : ConfigType → Bool
  | .section _ | provider => true
  | nullable t | withMarker t => t.panicsAtEnd
  | _ => false

theorem ends_nullable {V : Type} {value : FromYaml V} {e : YamlEvent} {stop : Failure}
    {m : Marker} {rest : List Delivered} {post : Option V × Marker → List Delivered → Prop}
    (hn : isNull e = false)
    (h : Ends (fun v left => post (some v.1, v.2) left) fault (value.run stop ((e, m) :: rest))) :
    Ends post fault ((Nullable.parse value).run stop ((e, m) :: rest)) := by
  rw [Nullable.parse, ends_peekThen_cons]
  simp only [hn]
  exact ends_map.mpr h

theorem refuses_sequenceEnd (hf : Tolerated fault) {t : ConfigType} (ht : t.takesEnd = false)
    (hp : t.panicsAtEnd = true → fault (.panic "shouldn't see sequence end")) (stop : Failure)
    (m : Marker) (rest : List Delivered) :
    Refuses fault (t.parse b) stop ((.sequenceEnd, m) :: rest) := by
  induction t with
  | scalar k =>
    obtain ⟨f, he, hn⟩ := k.parse_eq
    rw [ConfigType.parse, he]
    exact refuses_ofEvent hf (hn _ rfl)
  | logProviderStats => exact hf.err _
  | logLevel => exact hf.err _
  | json => simp [ConfigType.takesEnd] at ht
  | preTemplate => exact hf.err _
  | vec t => simp [ConfigType.takesEnd] at ht
  | tupleVec t => simp [ConfigType.takesEnd] at ht
  | btreeMap t => simp [ConfigType.takesEnd] at ht
  | nullable t ih => exact ends_nullable rfl (ih ht hp)
  | withMarker t ih => exact ends_map.mpr (ih ht hp)
  | loadPattern => exact hf.err _
  | listProvider => exact hf.err _
  | provider => exact hp rfl
  | multipartPieceBody => exact hf.err _
  | body => exact hf.err _
  | «section» s => exact hp rfl

theorem tolerated_all : Tolerated fun _ => True := ⟨fun _ => trivial, fun _ _ => trivial⟩

theorem quiet_all {γ : Type} {p : Decoding γ} {stop : Failure} {ts : List Delivered} :
    Quiet (fun _ => True) p stop ts := by
  rw [Quiet, ends_ok]
  exact fun _ _ _ => trivial

theorem guards_all (b : Build) : Guards b (fun _ => True) Misled where
  misled _ h := h
  emptySequence t start close h stop rest _ :=
    refuses_sequenceEnd tolerated_all (by simpa [Misled] using h) (fun _ => trivial) stop close rest
  emptyMapping _ _ _ _ _ _ _ := quiet_all
  tupleSingle _ _ _ _ _ _ _ _ _ _ _ := quiet_all
  btreeSingle _ _ _ _ _ _ _ _ _ _ _ := quiet_all
  tupleScalar _ _ _ _ _ _ _ _ _ := quiet_all
  btreeScalar _ _ _ _ _ _ _ _ _ := quiet_all
  stats n _ := exactOn_check (ScalarType.exact tolerated_all .string n) fun _ _ _ => trivial

theorem addAll_vec {V : Type} (c vs : List V) :
    addAll (Vec.insert V) .sequenceStart c vs = some (c ++ vs) := by
  induction vs generalizing c with
  | nil => simp [addAll]
  | cons v vs ih =>
    have hi : (Vec.insert V).insert c v .sequenceStart = some (c ++ [v]) := rfl
    rw [addAll, List.foldlM_cons, hi]
    exact (ih (c ++ [v])).trans (by rw [List.append_assoc, List.singleton_append])

theorem addAll_tupleVec {V : Type} (c vs : List (String × V)) :
    addAll (TupleVec.insert V) .mappingStart c vs = some (c ++ vs) := by
  induction vs generalizing c with
  | nil => simp [addAll]
  | cons v vs ih =>
    have hi : (TupleVec.insert V).insert c v .mappingStart = some (c ++ [v]) := rfl
    rw [addAll, List.foldlM_cons, hi]
    exact (ih (c ++ [v])).trans (by rw [List.append_assoc, List.singleton_append])

theorem elements_of_clear {t : ConfigType} {n : Tree} (hc : Clear Misled (t, n)) {stop : Failure}
    {rest left : List Delivered} {v : t.Val × Marker}
    (h : (t.parse b).run stop (n.events ++ rest) = .ok (v, left)) : Elements b t n v.1 := by
  have hx {c : Call} (hh : Hands (t, n) c) : Exact (fun _ => True) (c.1.parse b) c.2 :=
    exact_of_clear tolerated_all (guards_all b) c.2 c.1 (hc.hands hh)
  cases t with
  | vec t =>
    cases n with
    | scalar => trivial
    | mapping => trivial
    | sequence start items close =>
      have he := vec_elements start close tolerated_all (fun hi stop' rest' _ => by
          subst hi
          exact (guards_all b).emptySequence _ _ _ hc.self stop' rest' trivial)
        (fun n hn => hx (.item _ _ _ _ _ hn)) stop rest trivial
      obtain ⟨-, vs', hg, ha⟩ := ends_ok.mp he _ _ h
      rw [addAll_vec] at ha
      obtain rfl := Option.some.inj ha
      exact List.forall₂_map_left_iff.mp hg
  | tupleVec t =>
    cases n with
    | scalar => trivial
    | sequence => trivial
    | mapping start pairs close =>
      have hv : ∀ p ∈ pairs, Exact (fun _ => True) (t.parse b) p.2 := fun p hp =>
        hx (.tupleValue _ _ _ _ _ hp)
      have he := map_entries (TupleVec.insert t.Val) start close tolerated_all hv stop rest trivial
      obtain ⟨-, vs', hg, ha⟩ := ends_ok.mp he _ _ h
      rw [addAll_tupleVec] at ha
      obtain rfl := Option.some.inj ha
      exact (List.forall₂_map_left_iff.mp hg).imp fun _ _ h => gives_pair h
  | _ => cases n <;> trivial

theorem oneNode_of_clear {c : Call} (hc : Clear Misled c) : OneNode b c := by
  intro stop rest v left _ h
  have hx : Exact (fun _ => True) (c.1.parse b) c.2 :=
    exact_of_clear tolerated_all (guards_all b) c.2 c.1 hc
  exact ⟨ends_ok.mp (hx stop rest trivial) _ _ h, elements_of_clear hc h⟩

end Enough

section Needed

variable {b : Build} {γ : Type}

/-- Nodes with the same position everywhere. -/
def text (s : String) : Tree := .scalar s .plain none ⟨0, 0⟩

def seq (items : List Tree) : Tree := .sequence ⟨0, 0⟩ items ⟨0, 0⟩

def dict (pairs : List (String × Tree)) : Tree :=
  .mapping ⟨0, 0⟩ (pairs.map fun p => (text p.1, p.2)) ⟨0, 0⟩

/-- There is a node that a parser takes. -/
def Accepts (p : Decoding γ) : Prop :=
  ∃ (n : Tree) (stop : Failure) (a : γ), p.run stop n.events = .ok (a, [])

theorem Accepts.run {p : Decoding γ} (h : Accepts p) :
    ∃ (n : Tree) (a : γ), ∀ stop rest, p.run stop (n.events ++ rest) = .ok (a, rest) := by
  obtain ⟨n, stop, a, h⟩ := h
  have hrun : p.run stop (n.events ++ []) = .ok (a, []) := by rwa [List.append_nil]
  exact ⟨n, a, run_append hrun⟩

theorem forall_ite {P : γ → Prop} {c : Prop} [Decidable c] {x y : Option γ}
    (h : ∀ p, x = some p → P p) (h' : ∀ p, y = some p → P p) :
    ∀ p, (if c then x else y) = some p → P p := by
  split
  · exact h
  · exact h'

theorem accepts_some {p : Decoding γ} (n : Tree) {a : γ}
    (h : p.run (misfit ⟨0, 0⟩) n.events = .ok (a, [])) : ∀ q, some p = some q → Accepts q := by
  rintro q ⟨⟩
  exact ⟨n, _, a, h⟩

theorem accepts_level (key : String) (marker : Marker) {F : Type} (set : LevelFilter → F → F) :
    ∀ p, tryNamed key String.parse (fun d =>
      (GeneralConfigPreProcessed.levelValue b key marker d).map set) = some p → Accepts p := by
  refine accepts_some (text LevelFilter.info.name) (a := set .info) ?_
  have hl : GeneralConfigPreProcessed.levelValue b key marker LevelFilter.info.name =
      .ok .info := by
    simp [GeneralConfigPreProcessed.levelValue, b.level_name]
  exact check_run (a := (LevelFilter.info.name, ⟨0, 0⟩)) rfl (by simp [hl, Except.map])

/-- Every field of a section takes some node. -/
theorem field_accepts (s : SectionType) (key : String) (marker : Marker) :
    ∀ p, (s.layout b).field key marker = some p → Accepts p := by
  have hn {F : Type} : ∀ p : Decoding F, none = some p → Accepts p := fun _ h => nomatch h
  cases s
  all_goals repeat' refine forall_ite ?_ ?_
  all_goals first
    | exact hn
    | exact accepts_some (text "true") rfl
    | exact accepts_some (text "1") rfl
    | exact accepts_some (text "GET") rfl
    | exact accepts_some (text "block") rfl
    | exact accepts_some (text "csv") rfl
    | exact accepts_level key marker _
    | exact accepts_some (seq [text "null"]) rfl
    | exact accepts_some (dict []) rfl
    | exact accepts_some (dict [("", text "null")]) rfl
    | exact accepts_some (dict [("", dict [("select", text "null")])]) rfl
    | exact accepts_some (dict [("", dict [("to", text "null")])]) rfl
    | exact accepts_some (dict [("", dict [("range", dict [])])]) rfl
    | exact accepts_some (seq [dict [("url", text "")]]) rfl
    | exact accepts_some (seq [dict [("linear", dict [("to", text ""), ("over", text "")])]]) rfl

/-- The fields that a section requires. -/
def required : SectionType → List (String × Tree)
  | .linearBuilder => [("to", text ""), ("over", text "")]
  | .listWithOptions => [("values", seq [text "null"])]
  | .fileProvider => [("path", text "")]
  | .logger => [("to", text "")]
  | .logs | .endpointProvides => [("select", text "null")]
  | .bodyMultipartPiece => [("body", text "")]
  | .endpoint => [("url", text "")]
  | .loadTest => [("endpoints", seq [dict [("url", text "")]])]
  | _ => []

/-- A section that has not seen its opening goes on with the mapping of its required fields. -/
theorem required_run (s : SectionType) (fields : (s.layout b).Fields) (marker : Marker)
    (stop : Failure) (rest : List Delivered) :
    ∃ a, ((loop (s.layout b).round (false, fields)).check ((s.layout b).close marker)).run stop
      ((dict (required s)).events ++ rest) = .ok (a, rest) := by
  cases s
  all_goals exact ⟨_, rfl⟩

theorem kind_accepts (key : String) :
    ∀ p, ProviderPreProcessed.kind b key = some p → Accepts p := by
  refine forall_ite ?_ (forall_ite ?_ (forall_ite ?_ (forall_ite ?_ fun _ h => nomatch h)))
  · exact accepts_some (dict [("path", text "")]) rfl
  · exact accepts_some (dict []) rfl
  · exact accepts_some (dict []) rfl
  · exact accepts_some (seq [text "null"]) rfl

/-- A type that takes the end of a collection gives a value for it. -/
theorem takesEnd_run {t : ConfigType} (ht : t.takesEnd) (m : Marker) (stop : Failure)
    (rest : List Delivered) :
    ∃ v, (t.parse b).run stop ((.sequenceEnd, m) :: rest) = .ok (v, rest) := by
  induction t with
  | json => exact ⟨_, rfl⟩
  | vec t => exact ⟨_, rfl⟩
  | tupleVec t => exact ⟨_, rfl⟩
  | btreeMap t => exact ⟨_, rfl⟩
  | nullable t ih =>
    obtain ⟨v, h⟩ := ih ht
    exact ⟨_, map_run h fun v => (some v.1, v.2)⟩
  | withMarker t ih =>
    obtain ⟨v, h⟩ := ih ht
    exact ⟨_, map_run h fun v => (WithMarker.mk v.1 v.2, v.2)⟩
  | _ => simp [ConfigType.takesEnd] at ht

theorem follows_two (n n' : Tree) (m : Marker) :
    Follows (n.events ++ (n'.events ++ [(.sequenceEnd, m)])) := by
  simpa [itemsEvents] using Follows.item [n, n'] m .root

/-- In some surroundings a call gives a value and does not leave what follows its node. -/
def Strays (b : Build) (c : Call) : Prop :=
  ∃ e rest v left, Follows rest ∧
    (c.1.parse b).run (.err e) (c.2.events ++ rest) = .ok (v, left) ∧ left ≠ rest

/-- A section that starts at one of its keys goes on with the nodes after it. -/
theorem section_misled {s : SectionType} {key : String} (style : TScalarStyle)
    (tag : Option (String × String)) (m : Marker) (h : (s.field key).isSome) :
    Strays b (.section s, .scalar key style tag m) := by
  obtain ⟨p, hk⟩ := some_of_agree (layout_agree b s key m) h
  obtain ⟨value, set, hv⟩ := (field_accepts s key m p hk).run
  let tail : List Delivered := (dict (required s)).events ++ [(.sequenceEnd, m)]
  have hl : (loop (s.layout b).round (false, (s.layout b).init)).run (misfit m)
      ((.scalar key style tag, m) :: (value.events ++ tail)) =
        (loop (s.layout b).round (false, set (s.layout b).init)).run (misfit m) tail := by
    have hr : ((s.layout b).round (false, (s.layout b).init)).run (misfit m)
        ((.scalar key style tag, m) :: (value.events ++ tail)) =
          .ok (.inl (false, set (s.layout b).init), tail) := by
      rw [Section.round, andThen_run (a := (.scalar key style tag, m)) rfl]
      simp only [hk]
      exact map_run (hv _ _) _
    rw [loop_run, hr]
  obtain ⟨a, ha⟩ := required_run s (set (s.layout b).init) m (misfit m) [(.sequenceEnd, m)]
  have hp : (s.layout b).parse.run (misfit m)
      ((Tree.scalar key style tag m).events ++ (value.events ++ tail)) =
        .ok (a, [(.sequenceEnd, m)]) := by
    refine Eq.trans ?_ ha
    change ((loop (s.layout b).round (false, (s.layout b).init)).check
      ((s.layout b).close m)).run (misfit m) _ = _
    simp only [check, andThen]
    rw [← hl]
    rfl
  refine ⟨_, _, _, _, follows_two value _ m, hp, fun hl => ?_⟩
  replace hl := congrArg List.length hl
  simp only [List.length_append, dict, Tree.events, List.length_cons] at hl
  omega

/-- A provider that starts at one of its keys takes the end of the mapping around it. -/
theorem provider_misled {key : String} (style : TScalarStyle) (tag : Option (String × String))
    (m : Marker) (h : (ConfigType.entry .provider key).isSome) :
    Strays b (.provider, .scalar key style tag m) := by
  obtain ⟨p, hk⟩ := some_of_agree (kind_agree b key) h
  obtain ⟨value, a, hv⟩ := (kind_accepts key p hk).run
  have hf : Follows (value.events ++ [(.mappingEnd, m)]) := by
    simpa [pairsEvents] using Follows.key value [] m .root
  have hr : (ProviderPreProcessed.round b false).run (misfit m)
      ((.scalar key style tag, m) :: (value.events ++ [(.mappingEnd, m)])) =
        .ok (.inr a, [(.mappingEnd, m)]) := by
    rw [ProviderPreProcessed.round, andThen_run (a := (.scalar key style tag, m)) rfl]
    simp only [hk]
    exact map_run (hv _ _) _
  have hl : (loop (ProviderPreProcessed.round b) false).run (misfit m)
      ((.scalar key style tag, m) :: (value.events ++ [(.mappingEnd, m)])) =
        .ok (a, [(.mappingEnd, m)]) := by
    rw [loop_run, hr]
  have hp : (ConfigType.parse b .provider).run (misfit m)
      ((Tree.scalar key style tag m).events ++ (value.events ++ [(.mappingEnd, m)])) =
        .ok (a, []) := andThen_run hl _
  exact ⟨_, _, _, _, hf, hp, by simp⟩

/-- A sequence without an item leaves its end to its first value. -/
theorem vec_misled {t : ConfigType} (ht : t.takesEnd) (start close : Marker) :
    Strays b (.vec t, .sequence start [] close) := by
  obtain ⟨v, hv⟩ := takesEnd_run (b := b) ht close (misfit start) [(.sequenceEnd, close)]
  have hr : ((Vec.insert t.Val).round (t.parse b) .sequenceStart (true, [])).run (misfit start)
      [(.sequenceStart, start), (.sequenceEnd, close), (.sequenceEnd, close)] =
        .ok (.inl (false, [v.1]), [(.sequenceEnd, close)]) := by
    have he : (element (t.parse b) true).run (misfit start)
        [(.sequenceStart, start), (.sequenceEnd, close), (.sequenceEnd, close)] =
          .ok (v.1, [(.sequenceEnd, close)]) := map_run hv _
    exact check_run (f := (Vec.insert t.Val).add .sequenceStart start []) he rfl
  have hp : (ConfigType.parse b (.vec t)).run (misfit start)
      ((Tree.sequence start [] close).events ++ [(.sequenceEnd, close)]) =
        .ok (([v.1], start), []) := by
    have hl : (loop ((Vec.insert t.Val).round (t.parse b) .sequenceStart) (true, [])).run
        (misfit start) [(.sequenceStart, start), (.sequenceEnd, close), (.sequenceEnd, close)] =
          .ok ([v.1], []) := by
      rw [loop_run, hr]
      rfl
    exact map_run hl _
  have hf : Follows [(.sequenceEnd, close)] := by
    simpa [itemsEvents] using Follows.item [] close .root
  exact ⟨_, _, _, _, hf, hp, by simp⟩

theorem misled_strays {c : Call} (h : Misled c) : Strays b c := by
  obtain ⟨t, n⟩ := c
  unfold Misled at h
  split at h
  · rename_i hc
    cases hc
    exact section_misled _ _ _ h
  · rename_i hc
    cases hc
    exact provider_misled _ _ _ h
  · rename_i hc
    cases hc
    exact vec_misled h _ _
  · exact h.elim

theorem misled_not_oneNode {c : Call} (h : Misled c) : ¬ OneNode b c := by
  obtain ⟨e, rest, v, left, hf, hp, hl⟩ := misled_strays (b := b) h
  exact fun ho => hl (ho _ _ _ _ hf hp).1

end Needed

/-- At every node that is read for a node, the parser takes that node alone, with its elements in
order, exactly where none of these calls sets out on the wrong event. -/
theorem oneNode_iff (b : Build) (c : Call) :
    (∀ c', Reading c c' → OneNode b c') ↔ ∀ c', Reading c c' → ¬ Misled c' :=
  ⟨fun h _ hc hm => misled_not_oneNode hm (h _ hc),
    fun h _ hc => oneNode_of_clear fun d hd => h d (hc.trans hd)⟩

/-- A build whose crates know levels only. -/
def plain : Build where
  json _ := none
  level s := [.off, .error, .warn, .info, .debug, .trace].find? fun l => l.name = s
  level_name l := by cases l <;> decide
  durations _ := none
  overflowChecks := true

/-- The provider of a list without a value: the end of the list is taken for a value, and the end of
the provider for the end of the list. -/
theorem not_oneNode : ¬ ∀ (b : Build) (t : ConfigType) (n : Tree), OneNode b (t, n) := by
  intro h
  have hf : Follows [(.mappingEnd, ⟨1, 10⟩)] := by
    simpa [pairsEvents] using Follows.value [] ⟨1, 10⟩ .root
  have hp : (ConfigType.parse plain .listProvider).run (misfit ⟨0, 0⟩)
      ((seq []).events ++ [(.mappingEnd, ⟨1, 10⟩)]) =
        .ok ((ListProvider.defaultOptions [.null], ⟨0, 0⟩), []) := rfl
  cases (h plain .listProvider (seq []) _ _ _ _ hf hp).1

end Pewpew.Config
