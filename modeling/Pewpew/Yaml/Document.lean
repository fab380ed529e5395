import Pewpew.Yaml.Alias
import Pewpew.Yaml.Tree

/-! The trees that documents stand for, and what the decoder makes of the results of a scan. -/
namespace Pewpew.Yaml

open SelectParser Generator

/-- The trees under the anchors that are complete, the latest first. -/
abbrev Bindings := List (Nat × Tree)

def Bindings.bind (a : Bindings) (anchor : Nat) (t : Tree) : Bindings :=
  if 0 < anchor then (anchor, t) :: a else a

/-- Keys and values, which stand in turn. -/
def pairUp : List Tree → Option (List (Tree × Tree))
  | [] => some []
  | [_] => none
  | k :: v :: ts => (pairUp ts).map ((k, v) :: ·)

def collectionTree (isMapping : Bool) (start : Marker) (items : List Tree) (stop : Marker) :
    Option Tree :=
  if isMapping then (pairUp items).map (.mapping start · stop)
  else some (.sequence start items stop)

mutual

/-- The tree of a node, with a copy of the node of its anchor for each alias, and the anchors after
it. There is none where an alias stands for a node that is not complete, or a key has no value. -/
def Node.tree (a : Bindings) : Node → Option (Tree × Bindings)
  | .scalar anchor s style tag m =>
    let t := .scalar s style tag m
    some (t, a.bind anchor t)
  | .alias id _ => (a.lookup id).map (·, a)
  | .collection anchor isMapping start items stop => do
    let (ts, a) ← itemTrees a items
    let t ← collectionTree isMapping start ts stop
    some (t, a.bind anchor t)

def itemTrees (a : Bindings) : List Node → Option (List Tree × Bindings)
  | [] => some ([], a)
  | n :: ns => do
    let (t, a) ← n.tree a
    let (ts, a) ← itemTrees a ns
    some (t :: ts, a)

end

section Trees

/-- The events of the trees under the anchors. -/
def Bindings.events (a : Bindings) : Anchors := a.map fun (id, t) => (id, t.events)

theorem Bindings.lookup_events (a : Bindings) (id : Nat) :
    a.events.lookup id = (a.lookup id).map Tree.events := by
  induction a with
  | nil => rfl
  | cons p a ih =>
    obtain ⟨i, t⟩ := p
    rw [Bindings.events, List.map_cons, List.lookup_cons, List.lookup_cons]
    cases id == i with
    | true => rfl
    | false => exact ih

theorem Bindings.events_bind (a : Bindings) (anchor : Nat) (t : Tree) :
    (a.bind anchor t).events = a.events.bind anchor t.events := by
  unfold Bindings.bind Anchors.bind
  split <;> rfl

theorem pairUp_events {ts : List Tree} {ps : List (Tree × Tree)} (h : pairUp ts = some ps) :
    pairsEvents ps = itemsEvents ts := by
  induction ts using pairUp.induct generalizing ps with
  | case1 =>
    cases h
    rfl
  | case2 t => nomatch h
  | case3 k v ts ih =>
    obtain ⟨qs, hq, rfl⟩ := Option.map_eq_some_iff.mp h
    simp [pairsEvents, pairEvents, itemsEvents, ih hq]

theorem collectionTree_events {isMapping : Bool} {start stop : Marker} {ts : List Tree} {t : Tree}
    (h : collectionTree isMapping start ts stop = some t) :
    t.events =
      (startEvent isMapping, start) :: (itemsEvents ts ++ [(stopEvent isMapping, stop)]) := by
  cases isMapping with
  | false =>
    cases h
    rfl
  | true =>
    obtain ⟨ps, hp, rfl⟩ := Option.map_eq_some_iff.mp h
    rw [Tree.events, pairUp_events hp]
    rfl

mutual

/-- The events of the tree of a node are the node with its aliases expanded. -/
theorem Node.tree_events : ∀ (n : Node) {a a' : Bindings} {t : Tree}, n.tree a = some (t, a') →
    n.expand ownCopy a.events = (t.events, a'.events)
  | .scalar anchor s style tag m, a, a', t, h => by
    cases h
    rw [Bindings.events_bind]
    rfl
  | .alias id m, a, a', t, h => by
    obtain ⟨u, hu, he⟩ := Option.map_eq_some_iff.mp h
    cases he
    rw [Node.expand, Bindings.lookup_events, hu]
    rfl
  | .collection anchor isMapping start items stop, a, a', t, h => by
    obtain ⟨⟨ts, a₁⟩, hts, h⟩ := Option.bind_eq_some_iff.mp h
    obtain ⟨u, hu, h⟩ := Option.bind_eq_some_iff.mp h
    cases h
    simp only [Node.expand, itemTrees_events items hts, Bindings.events_bind,
      collectionTree_events hu]

theorem itemTrees_events : ∀ (ns : List Node) {a a' : Bindings} {ts : List Tree},
    itemTrees a ns = some (ts, a') →
    expandItems ownCopy a.events ns = (itemsEvents ts, a'.events)
  | [], a, a', ts, h => by
    cases h
    rfl
  | n :: ns, a, a', ts, h => by
    obtain ⟨⟨t, a₁⟩, ht, h⟩ := Option.bind_eq_some_iff.mp h
    obtain ⟨⟨us, a₂⟩, hu, h⟩ := Option.bind_eq_some_iff.mp h
    cases h
    simp only [expandItems, Node.tree_events n ht, itemTrees_events ns hu, itemsEvents]

end

/-- A document stands for a tree. -/
def Node.StandsFor (n : Node) (t : Tree) : Prop := (n.tree []).map Prod.fst = some t

theorem Node.StandsFor.events {n : Node} {t : Tree} (h : n.StandsFor t) :
    (n.expand ownCopy []).1 = t.events := by
  obtain ⟨⟨u, a⟩, hu, rfl⟩ := Option.map_eq_some_iff.mp h
  exact congrArg Prod.fst (n.tree_events hu)

end Trees

/-- The results of a scan are those of a stream whose first document is the node, or the first of
them and an error; a stream may also have no document. -/
inductive Scans : List (Except String (YamlParseEvent × Marker)) → Node → Prop where
  | document (n : Node) (start stop : Marker)
    (rest : List (Except String (YamlParseEvent × Marker))) : Scans (n.stream start stop rest) n
  | nothing (n : Node) (start stop : Marker)
    (rest : List (Except String (YamlParseEvent × Marker))) :
    Scans (.ok (.streamStart, start) :: .ok (.streamEnd, stop) :: rest) n
  | fails (n : Node) (start : Marker) (e : String) {es : List (YamlParseEvent × Marker)}
    (rest : List (Except String (YamlParseEvent × Marker)))
    (h : es <+: (.streamStart, start) :: (.documentStart, start) :: n.events) :
    Scans (es.map .ok ++ .error e :: rest) n

namespace Decoder

/-- A decoder whose parser gives other results. -/
def withParser (parser : List (Except String (YamlParseEvent × Marker))) (d : Decoder) : Decoder :=
  { d with parser := parser }

variable {d u : Decoder} {es : List Delivered}
  (parser : List (Except String (YamlParseEvent × Marker)))

theorem note_withParser (d : Decoder) (anchor : Nat) (e : YamlEvent) (m : Marker) :
    (d.withParser parser).note anchor e m = (d.note anchor e m).withParser parser := by
  obtain ⟨events, known, results, stack, ranges⟩ := d
  rcases Nat.eq_zero_or_pos anchor with rfl | hpos
  · rcases stack with _ | ⟨_ | top, stack⟩
    all_goals cases e <;> rfl
  · cases e
    all_goals simp [note, withParser, hpos, YamlEvent.isScalar]

theorem replay_withParser (d : Decoder) (id : Nat) :
    (d.withParser parser).replay id = (d.replay id).withParser parser := by
  simp only [replay, withParser]
  split <;> rfl

/-- An event of the parser is taken the same way, whatever comes after it. -/
theorem parse_withParser (d : Decoder) (e : YamlParseEvent) (m : Marker) :
    parse (d.withParser parser) e m = (parse d e m).map (withParser parser) := by
  cases e
  all_goals
    simp only [parse, eventOf, replay_withParser, note_withParser]
    rfl

/-- A replay does not look at the parser. -/
theorem step_withParser (hr : d.replayingAlias ≠ []) :
    step (d.withParser parser) = (step d).map (withParser parser) := by
  obtain ⟨events, known, results, stack, ranges⟩ := d
  obtain ⟨r, rs, rfl⟩ := List.exists_cons_of_ne_nil hr
  simp only [step, withParser]
  split
  · split <;> rfl
  · rfl

/-- A step takes nothing from the parser, or its first result only. -/
theorem step_first (d : Decoder) {first more : List (Except String (YamlParseEvent × Marker))}
    (hd : d.parser = first ++ more) :
    d.replayingAlias = [] ∧ first = [] ∨ ∃ left, ∀ parser,
      step (d.withParser (first ++ parser)) = (step d).map (withParser (left ++ parser)) := by
  by_cases hr : d.replayingAlias = []
  · cases first with
    | nil => exact .inl ⟨hr, rfl⟩
    | cons r left =>
      refine .inr ⟨left, fun parser => ?_⟩
      cases r with
      | error e => simp [step, withParser, hr, hd, Round.map]
      | ok p =>
        obtain ⟨e, m⟩ := p
        have hfirst : step (d.withParser (.ok (e, m) :: left ++ parser)) =
            (parse d e m).map (withParser (left ++ parser)) := by
          have hr' : (d.withParser (.ok (e, m) :: left ++ parser)).replayingAlias = [] := hr
          rw [step_parse hr' rfl]
          exact parse_withParser _ d e m
        have hall : step d = (parse d e m).map (withParser (left ++ more)) := by
          rw [step_parse hr hd]
          exact parse_withParser _ d e m
        rw [hfirst, hall]
        cases parse d e m <;> rfl
  · exact .inr ⟨first, fun parser => step_withParser _ hr⟩

/-- What the parser still gives after a step. -/
theorem step_left {first left more : List (Except String (YamlParseEvent × Marker))}
    (hd : d.parser = first ++ more) (hstep : ∀ parser, step (d.withParser (first ++ parser)) =
      (step d).map (withParser (left ++ parser))) :
    step d = (step d).map (withParser (left ++ more)) := by
  rw [← hstep more, ← hd]
  rfl

/-- Where the parser gives the first of some results only, the decoder emits the first of the events
that it emits for all of them. -/
theorem emits_withParser (h : Emits step d es u) (hr : u.replayingAlias = [])
    {first more : List (Except String (YamlParseEvent × Marker))} (hd : d.parser = first ++ more)
    (hu : u.parser.length ≤ more.length) :
    ∃ fs v, fs <+: es ∧ Emits step (d.withParser (first ++ parser)) fs v ∧
      v.replayingAlias = [] ∧ v.parser = parser := by
  induction h generalizing first with
  | refl d =>
    have hfirst : first = [] := by
      rw [hd, List.length_append] at hu
      exact List.length_eq_zero_iff.mp (by omega)
    subst hfirst
    exact ⟨[], _, List.nil_prefix, .refl _, hr, rfl⟩
  | @again d t u es hs _ ih =>
    obtain ⟨hreplay, rfl⟩ | ⟨left, hleft⟩ := step_first d hd
    · exact ⟨[], _, List.nil_prefix, .refl _, hreplay, rfl⟩
    have ht := step_left hd hleft
    rw [hs] at ht hleft
    obtain ⟨fs, v, hfs, hv, hend⟩ := ih hr (congrArg Decoder.parser (Round.again.inj ht)) hu
    exact ⟨fs, v, hfs, .again (hleft parser) hv, hend⟩
  | @yield d t u w es hs _ ih =>
    obtain ⟨hreplay, rfl⟩ | ⟨left, hleft⟩ := step_first d hd
    · exact ⟨[], _, List.nil_prefix, .refl _, hreplay, rfl⟩
    have ht := step_left hd hleft
    rw [hs] at ht hleft
    obtain ⟨fs, v, hfs, hv, hend⟩ := ih hr (congrArg Decoder.parser (Round.yield.inj ht).2) hu
    exact ⟨w :: fs, v, (List.prefix_cons_inj w).mpr hfs, .yield (hleft parser) hv, hend⟩

end Decoder

/-- What the decoder makes of a scan: the first of the events of the document, and an error. -/
theorem Scans.collects {results : List (Except String (YamlParseEvent × Marker))} {n : Node}
    (h : Scans results n) :
    ∃ ts e, ts <+: (n.expand noCopy []).1 ∧ e ≠ .indexOutOfBounds ∧
      ∃ bound, ∀ fuel, bound ≤ fuel →
        collect Decoder.step fuel (.new results) = some (ts, e) := by
  cases h with
  | document n start stop rest =>
    obtain ⟨d, hd, hr, hp⟩ := stream_emits n start stop rest
    exact ⟨_, .yamlDeserialize stop, List.prefix_rfl, by simp,
      hd.collects (step_parse hr hp)⟩
  | nothing n start stop rest =>
    have hd : Emits Decoder.step
        (.new (.ok (.streamStart, start) :: .ok (.streamEnd, stop) :: rest)) []
        (.new (.ok (.streamEnd, stop) :: rest)) := .again rfl (.refl _)
    exact ⟨[], .yamlDeserialize stop, List.nil_prefix, by simp, hd.collects rfl⟩
  | @fails n start e es rest h =>
    obtain ⟨more, hmore⟩ := h
    obtain ⟨d, hd, hr, hp⟩ := stream_emits n start start []
    have hparser : (Decoder.new (n.stream start start [])).parser =
        es.map .ok ++ (more.map .ok ++ [.ok (.documentEnd, start)]) := by
      rw [← List.append_assoc, ← List.map_append, hmore]
      rfl
    obtain ⟨ts, v, hts, hv, hvr, hvp⟩ := Decoder.emits_withParser (.error e :: rest) hd hr hparser
      (by simp [hp])
    refine ⟨ts, .invalidYaml e, hts, by simp, hv.collects (u := { v with parser := rest }) ?_⟩
    simp [Decoder.step, hvr, hvp]

end Pewpew.Yaml
