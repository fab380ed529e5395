import Pewpew.Config.Types
import Pewpew.Yaml.Tree
import Mathlib.Data.List.Forall2

/-! Parsers that take exactly the events of one node. -/
namespace Pewpew.Config

open SelectParser Yaml Reader

/-- Failures that are let pass: the errors, and what is no more a panic than another one. -/
structure Tolerated (fault : Failure → Prop) : Prop where
  err : ∀ e, fault (.err e)
  same : ∀ {f f' : Failure}, f'.isPanic = f.isPanic → fault f → fault f'

section Exact

variable {γ V C : Type} {fault : Failure → Prop} {stop : Failure} {rest : List Delivered}

/-- A parser takes some events and no others, or fails. -/
def ExactOn (fault : Failure → Prop) (p : Decoding γ) (used : List Delivered) : Prop :=
  ∀ stop rest, fault stop → Ends (fun _ left => left = rest) fault (p.run stop (used ++ rest))

/-- A parser takes the events of a node, or fails. -/
abbrev Exact (fault : Failure → Prop) (p : Decoding γ) (n : Tree) : Prop :=
  ExactOn fault p n.events

/-- A parser fails, if at all, in a way that is let pass. -/
def Quiet (fault : Failure → Prop) (p : Decoding γ) (stop : Failure) (ts : List Delivered) : Prop :=
  Ends (fun _ _ => True) fault (p.run stop ts)

/-- A parser fails, in a way that is let pass. -/
def Refuses (fault : Failure → Prop) (p : Decoding γ) (stop : Failure) (ts : List Delivered) :
    Prop := Ends (fun _ _ => False) fault (p.run stop ts)

theorem Refuses.ends {p : Decoding γ} {ts : List Delivered} (h : Refuses fault p stop ts)
    (post : γ → List Delivered → Prop) : Ends post fault (p.run stop ts) :=
  Ends.mono h (fun _ _ h => h.elim) fun _ h => h

theorem ExactOn.quiet {p : Decoding γ} {used : List Delivered} (h : ExactOn fault p used)
    (hs : fault stop) : Quiet fault p stop (used ++ rest) :=
  (h stop rest hs).mono (fun _ _ _ => trivial) fun _ h => h

theorem exactOn_map {used : List Delivered} {p : Decoding γ} {δ : Type} (f : γ → δ)
    (h : ExactOn fault p used) : ExactOn fault (p.map f) used := by
  intro stop rest hs
  rw [ends_map]
  exact h stop rest hs

theorem exactOn_check {used : List Delivered} {p : Decoding γ} {δ : Type}
    {f : γ → Except Failure δ} (h : ExactOn fault p used)
    (hf : ∀ a e, f a = .error e → fault e) : ExactOn fault (p.check f) used := by
  intro stop rest hs
  rw [ends_check]
  refine (h stop rest hs).mono (fun a left hl => ?_) fun _ h => h
  cases he : f a with
  | ok d => exact hl
  | error e => exact hf a e he

/-- A parser that reads a value as a type is exact where the type is. -/
theorem exact_of_readsAs {b : Build} {p : Decoding γ} {t : ConfigType} {n : Tree}
    (hf : Tolerated fault) (hr : ReadsAs b p t) (h : Exact fault (t.parse b) n) :
    Exact fault p n := by
  intro stop rest hs
  have hx := h stop rest hs
  have ha := hr stop (n.events ++ rest)
  generalize p.run stop (n.events ++ rest) = r at ha ⊢
  generalize (t.parse b).run stop (n.events ++ rest) = r' at ha hx
  cases ha with
  | ok a c left => exact hx
  | error he => exact hf.same he hx

theorem exact_ofEvent (hf : Tolerated fault) {f : YamlEvent → Option γ}
    (hn : ∀ e, e.isScalar = false → f e = none) (n : Tree) : Exact fault (ofEvent f) n := by
  intro stop rest hs
  rw [ofEvent, ends_check]
  cases n with
  | scalar s style tag m =>
    simp only [Tree.events, List.singleton_append, ends_next_cons]
    cases f (.scalar s style tag) with
    | none => exact hf.err _
    | some a => exact rfl
  | sequence start items close =>
    simp only [Tree.events, List.cons_append, ends_next_cons, hn .sequenceStart rfl]
    exact hf.err _
  | mapping start pairs close =>
    simp only [Tree.events, List.cons_append, ends_next_cons, hn .mappingStart rfl]
    exact hf.err _

theorem refuses_ofEvent (hf : Tolerated fault) {f : YamlEvent → Option γ} {e : YamlEvent}
    {m : Marker} (hn : f e = none) : Refuses fault (ofEvent f) stop ((e, m) :: rest) := by
  rw [Refuses, ofEvent, ends_check, ends_next_cons]
  simp only [hn]
  exact hf.err _

/-- A scalar type takes a scalar and nothing else. -/
theorem ScalarType.parse_eq (k : ScalarType) :
    ∃ f : YamlEvent → Option k.Val, k.parse = ofEvent f ∧ ∀ e, e.isScalar = false → f e = none := by
  cases k
  all_goals
    simp only [parse, Bool.parse, NonZeroU16.parse, NonZeroUsize.parse, I64.parse, Usize.parse,
      String.parse, fromYamlCharU8, Method.parse, Limit.parse, FileFormat.parse, CsvHeader.parse,
      EndpointProvidesSendOptions.parse]
    refine ⟨_, rfl, fun e he => ?_⟩
    cases e <;> first | rfl | simp [YamlEvent.isScalar] at he

theorem ScalarType.exact (hf : Tolerated fault) (k : ScalarType) (n : Tree) :
    Exact fault k.parse n := by
  obtain ⟨f, he, hn⟩ := k.parse_eq
  rw [he]
  exact exact_ofEvent hf hn n

end Exact

section Json

variable {fault : Failure → Prop} {json : String → Option Json} {rest : List Delivered}
  {stop : Failure}

theorem round_root {n : Tree} (hn : ∀ s style tag m, n ≠ .scalar s style tag m) (a : List Json) :
    (Value.round json (Value.read json) (some (.array a))).run stop (n.events ++ rest) =
      ((Value.read json).map fun v => .inl (some (.array (a ++ [v])))).run stop
        (n.events ++ rest) := by
  cases n with
  | scalar s style tag m => exact absurd rfl (hn s style tag m)
  | sequence start items close => rfl
  | mapping start pairs close => rfl

theorem array_exact {items : List Tree} (hi : ∀ n ∈ items, Exact fault (Value.read json) n)
    (hs : fault stop) (a : List Json) (m : Marker) :
    Ends (fun _ left => left = rest) fault
      ((loop (Value.round json (Value.read json)) (some (.array a))).run stop
        (itemsEvents items ++ (.sequenceEnd, m) :: rest)) := by
  induction items generalizing a with
  | nil =>
    rw [itemsEvents, List.nil_append, ends_loop]
    exact rfl
  | cons n items ih =>
    have hn := hi n List.mem_cons_self
    replace ih := ih fun n hm => hi n (List.mem_cons_of_mem _ hm)
    rw [itemsEvents, List.append_assoc, ends_loop]
    by_cases hsc : ∃ s style tag m, n = .scalar s style tag m
    · obtain ⟨s, style, tag, m', rfl⟩ := hsc
      simpa [Tree.events, Value.round] using ih _
    · rw [round_root (by simpa using hsc), ends_map]
      refine (hn stop _ hs).mono (fun v left hl => ?_) fun _ h => h
      subst hl
      exact ih _

theorem object_exact (hf : Tolerated fault) {pairs : List (Tree × Tree)}
    (hp : ∀ p ∈ pairs, Exact fault (Value.read json) p.1 ∧ Exact fault (Value.read json) p.2)
    (hs : fault stop) (o : Object) (m : Marker) :
    Ends (fun _ left => left = rest) fault
      ((loop (Value.round json (Value.read json)) (some (.object o))).run stop
        (pairsEvents pairs ++ (.mappingEnd, m) :: rest)) := by
  induction pairs generalizing o with
  | nil =>
    rw [pairsEvents, List.nil_append, ends_loop]
    exact rfl
  | cons p pairs ih =>
    have hv := (hp p List.mem_cons_self).2
    replace ih := ih fun p hm => hp p (List.mem_cons_of_mem _ hm)
    obtain ⟨k, v⟩ := p
    rw [pairsEvents, pairEvents, List.append_assoc, List.append_assoc, ends_loop]
    cases k with
    | scalar s style tag m' =>
      simp only [Tree.events, List.singleton_append, Value.round, ends_peekThen_cons, ends_andThen,
        ends_next_cons, ends_more, ends_map]
      refine (hv stop _ hs).mono (fun v left hl => ?_) fun _ h => h
      subst hl
      exact ih _
    | sequence start items close => exact hf.err _
    | mapping start items close => exact hf.err _

/-- Every node can be taken as a JSON value. -/
theorem Value.read_exact (hf : Tolerated fault) (json : String → Option Json) (n : Tree) :
    Exact fault (Value.read json) n := by
  induction n using Tree.nested with
  | scalar s style tag m =>
    intro stop rest hs
    rw [Value.read, fix_run, Value.body, ends_map, ends_loop]
    exact rfl
  | sequence start items close ih =>
    intro stop rest hs
    rw [Value.read, fix_run, ← Value.read]
    simp only [Value.body, ends_map, Tree.events, List.cons_append, List.append_assoc]
    rw [ends_loop]
    exact array_exact ih hs [] close
  | mapping start pairs close ih =>
    intro stop rest hs
    rw [Value.read, fix_run, ← Value.read]
    simp only [Value.body, ends_map, Tree.events, List.cons_append, List.append_assoc]
    rw [ends_loop]
    exact object_exact hf ih hs [] close

theorem peek_exact {γ : Type} {f : Delivered → Decoding γ} {n : Tree}
    (h : ∀ d, Exact fault (f d) n) : Exact fault (peekThen f) n := by
  intro stop rest hs
  cases n with
  | scalar s style tag m => exact h _ stop rest hs
  | sequence start items close => exact h _ stop rest hs
  | mapping start pairs close => exact h _ stop rest hs

theorem Value.exact (hf : Tolerated fault) (json : String → Option Json) (n : Tree) :
    Exact fault (Value.parse json) n :=
  peek_exact fun _ => exactOn_map _ (Value.read_exact hf json n)

end Json

section Collections

variable {V C : Type} {fault : Failure → Prop} {i : Insert C V} {elem : FromYaml V}
  {first : YamlEvent} {stop : Failure} {rest used : List Delivered}

/-- Events that do not begin with an end. -/
def Opens (used : List Delivered) : Prop :=
  ∃ e m more, used = (e, m) :: more ∧ e.isNestedEnd = false

theorem opens_events (n : Tree) : Opens n.events := by
  cases n
  all_goals exact ⟨_, _, _, rfl, rfl⟩

theorem opens_pair (p : Tree × Tree) : Opens (pairEvents p) := by
  obtain ⟨e, m, more, he, hn⟩ := opens_events p.1
  exact ⟨e, m, more ++ p.2.events, by rw [pairEvents, he, List.cons_append], hn⟩

/-- A parser makes a value of some events, whatever stands after them. -/
def Gives (p : FromYaml V) (used : List Delivered) (v : V) : Prop :=
  ∃ m, ∀ stop rest, p.run stop (used ++ rest) = .ok ((v, m), rest)

/-- A collection with more values. -/
def addAll (i : Insert C V) (first : YamlEvent) (c : C) (vs : List V) : Option C :=
  vs.foldlM (fun c v => i.insert c v first) c

/-- After the first round every value is read where it stands. -/
theorem round_opens (i : Insert C V) (elem : FromYaml V) (first : YamlEvent) (ho : Opens used)
    (c : C) (stop : Failure) (rest : List Delivered) :
    ∃ m, (i.round elem first (false, c)).run stop (used ++ rest) =
      (elem.into.check (i.add first m c)).run stop (used ++ rest) := by
  obtain ⟨e, m, more, rfl, hn⟩ := ho
  refine ⟨m, ?_⟩
  cases e with
  | mappingEnd => simp [YamlEvent.isNestedEnd] at hn
  | sequenceEnd => simp [YamlEvent.isNestedEnd] at hn
  | mappingStart => rfl
  | sequenceStart => rfl
  | scalar s style tag => rfl

/-- The value of one round, and the rounds after it. -/
theorem ends_value (hf : Tolerated fault) (he : ExactOn fault elem used) (hs : fault stop)
    {m : Marker} {c : C} {post : (Bool × C) ⊕ C → List Delivered → Prop}
    (h : ∀ v c', Gives elem used v → i.insert c v first = some c' → post (.inl (false, c')) rest) :
    Ends post fault ((elem.into.check (i.add first m c)).run stop (used ++ rest)) := by
  rw [ends_check, FromYaml.into, ends_map]
  refine (he stop rest hs).with_eq.mono (fun v left ⟨hl, hr⟩ => ?_) fun _ h => h
  subst hl
  rw [Insert.add]
  cases hi : i.insert c v.1 first with
  | none => exact hf.err _
  | some c' => exact h v.1 c' ⟨v.2, fun stop' rest' => run_append hr stop' rest'⟩ hi

theorem loop_exact (i : Insert C V) (first : YamlEvent) (rest : List Delivered)
    (hf : Tolerated fault) (hs : fault stop) {chunks : List (List Delivered)}
    (h : ∀ used ∈ chunks, Opens used ∧ ExactOn fault elem used) {close : YamlEvent}
    (hc : close.isNestedEnd = true) (m : Marker) (c : C) :
    Ends (fun ret left => left = rest ∧ ∃ vs, List.Forall₂ (Gives elem) chunks vs ∧
        addAll i first c vs = some ret) fault
      ((loop (i.round elem first) (false, c)).run stop (chunks.flatten ++ (close, m) :: rest)) := by
  induction chunks generalizing c with
  | nil =>
    rw [List.flatten_nil, List.nil_append, ends_loop]
    have hn : Ends (fun ret left => left = rest ∧ ∃ vs, List.Forall₂ (Gives elem) [] vs ∧
        addAll i first c vs = some ret) fault (.ok (c, rest)) := ⟨rfl, [], .nil, rfl⟩
    cases close with
    | mappingEnd => exact hn
    | sequenceEnd => exact hn
    | mappingStart => simp [YamlEvent.isNestedEnd] at hc
    | sequenceStart => simp [YamlEvent.isNestedEnd] at hc
    | scalar s style tag => simp [YamlEvent.isNestedEnd] at hc
  | cons used chunks ih =>
    obtain ⟨ho, he⟩ := h used List.mem_cons_self
    replace ih := ih fun u hu => h u (List.mem_cons_of_mem _ hu)
    rw [List.flatten_cons, List.append_assoc, ends_loop]
    obtain ⟨m', hr⟩ := round_opens i elem first ho c stop (chunks.flatten ++ (close, m) :: rest)
    rw [hr]
    refine ends_value hf he hs fun v c' hv hi => (ih c').mono (fun ret left hl => ?_) fun _ h => h
    obtain ⟨rfl, vs, hvs, ha⟩ := hl
    refine ⟨rfl, v :: vs, .cons hv hvs, ?_⟩
    rw [addAll, List.foldlM_cons, hi]
    exact ha

/-- A collection that is not empty. -/
theorem parse_exact (hf : Tolerated fault) (hs : fault stop) {used : List Delivered}
    {chunks : List (List Delivered)}
    (h : ∀ u ∈ used :: chunks, Opens u ∧ ExactOn fault elem u) {start close : YamlEvent}
    (hb : start.isNestedStart = true) (hc : close.isNestedEnd = true) (m m' : Marker) :
    Ends (fun ret left => left = rest ∧ ∃ vs, List.Forall₂ (Gives elem) (used :: chunks) vs ∧
        addAll i start i.default vs = some ret.1) fault
      ((i.parse elem).run stop
        ((start, m) :: ((used :: chunks).flatten ++ (close, m') :: rest))) := by
  obtain ⟨ho, he⟩ := h used List.mem_cons_self
  rw [Insert.parse, ends_peekThen_cons, ends_map, ends_loop]
  have hr : Ends (fun c left => c.elim (fun s => Ends (fun ret left => left = rest ∧ ∃ vs,
      List.Forall₂ (Gives elem) (used :: chunks) vs ∧ addAll i start i.default vs = some ret) fault
        ((loop (i.round elem start) s).run stop left)) (fun b => left = rest ∧ ∃ vs,
      List.Forall₂ (Gives elem) (used :: chunks) vs ∧ addAll i start i.default vs = some b)) fault
      ((elem.into.check (i.add start m i.default)).run stop
        (used ++ (chunks.flatten ++ (close, m') :: rest))) := by
    refine ends_value hf he hs fun v c hv hi => ?_
    have ht := loop_exact i start rest hf hs
      (fun u hu => h u (List.mem_cons_of_mem _ hu)) hc m' c
    refine ht.mono (fun ret left hl => ?_) fun _ h => h
    obtain ⟨rfl, vs, hvs, ha⟩ := hl
    refine ⟨rfl, v :: vs, .cons hv hvs, ?_⟩
    rw [addAll, List.foldlM_cons, hi]
    exact ha
  rw [← List.append_assoc, ← List.flatten_cons] at hr
  cases start with
  | mappingStart => exact hr
  | sequenceStart => exact hr
  | mappingEnd => simp [YamlEvent.isNestedStart] at hb
  | sequenceEnd => simp [YamlEvent.isNestedStart] at hb
  | scalar s style tag => simp [YamlEvent.isNestedStart] at hb

theorem parse_refuses (hf : Tolerated fault) {start : YamlEvent} (hb : start.isNestedStart = true)
    {m : Marker} {ts : List Delivered}
    (h : Ends (fun v _ => i.insert i.default v.1 start = none) fault (elem.run stop ts)) :
    Refuses fault (i.parse elem) stop ((start, m) :: ts) := by
  rw [Refuses, Insert.parse, ends_peekThen_cons, ends_map, ends_loop]
  have hr (post : (Bool × C) ⊕ C → List Delivered → Prop) :
      Ends post fault ((elem.into.check (i.add start m i.default)).run stop ts) := by
    rw [ends_check, FromYaml.into, ends_map]
    refine h.mono (fun v left hn => ?_) fun _ h => h
    rw [Insert.add, hn]
    exact hf.err _
  cases start with
  | mappingStart => exact hr _
  | sequenceStart => exact hr _
  | mappingEnd => simp [YamlEvent.isNestedStart] at hb
  | sequenceEnd => simp [YamlEvent.isNestedStart] at hb
  | scalar s style tag => simp [YamlEvent.isNestedStart] at hb

theorem parse_refuses_scalar (hf : Tolerated fault) {s : String} {style : TScalarStyle}
    {tag : Option (String × String)} {m : Marker}
    (hi : ∀ v, i.insert i.default v (.scalar s style tag) = none)
    (h : Quiet fault elem stop ((.scalar s style tag, m) :: rest)) :
    Refuses fault (i.parse elem) stop ((.scalar s style tag, m) :: rest) := by
  rw [Refuses, Insert.parse, ends_peekThen_cons, ends_map, ends_loop, Insert.round,
    ends_peekThen_cons, ends_check, FromYaml.into, ends_map]
  refine h.mono (fun v left _ => ?_) fun _ h => h
  rw [Insert.add, hi]
  exact hf.err _

theorem pair_exact (hf : Tolerated fault) {p : Tree × Tree} (h : Exact fault elem p.2) :
    ExactOn fault (Pair.parse elem) (pairEvents p) := by
  intro stop rest hs
  rw [Pair.parse, ends_andThen, FromYaml.into, ends_map, pairEvents, List.append_assoc]
  refine (ScalarType.exact hf .string p.1 stop _ hs).mono (fun s left hl => ?_) fun _ h => h
  subst hl
  rw [ends_more, ends_map]
  exact h stop rest hs

/-- A key and a value that are read are a scalar and what is read as the value. -/
theorem gives_pair {p : Tree × Tree} {e : String × V}
    (h : Gives (Pair.parse elem) (pairEvents p) e) :
    (∃ style tag m, p.1 = .scalar e.1 style tag m) ∧ Gives elem p.2.events e.2 := by
  obtain ⟨m, h⟩ := h
  obtain ⟨k, v⟩ := p
  have hr (stop : Failure) (rest : List Delivered) := h stop rest
  simp only [pairEvents, List.append_assoc] at hr
  cases k with
  | sequence start items close => exact absurd (hr (misfit m) []) (by intro h; nomatch h)
  | mapping start items close => exact absurd (hr (misfit m) []) (by intro h; nomatch h)
  | scalar s style tag mk =>
    have he (stop : Failure) (rest : List Delivered) :
        ∃ x mv, elem.run stop (v.events ++ rest) = .ok ((x, mv), rest) ∧ e = (s, x) ∧ m = mv := by
      have hv : (elem.map fun v => ((s, v.1), v.2)).run stop (v.events ++ rest) =
        .ok ((e, m), rest) := hr stop rest
      rw [map, andThen] at hv
      cases hx : elem.run stop (v.events ++ rest) with
      | error f => simp [hx] at hv
      | ok q =>
        obtain ⟨⟨x, mv⟩, left⟩ := q
        simp only [hx, Next.run, Except.ok.injEq, Prod.mk.injEq] at hv
        obtain ⟨⟨rfl, rfl⟩, rfl⟩ := hv
        exact ⟨x, mv, rfl, rfl, rfl⟩
    obtain ⟨x, mv, hx, rfl, rfl⟩ := he (misfit m) []
    refine ⟨⟨style, tag, mk, rfl⟩, m, fun stop rest => ?_⟩
    obtain ⟨x', mv', hx', he', rfl⟩ := he stop rest
    rw [hx', (Prod.mk.inj he').2]

end Collections

section Sections

variable {α : Type} {fault : Failure → Prop} {stop : Failure} {rest : List Delivered}

/-- The keys and values of a section, after its opening. -/
theorem section_pairs (hf : Tolerated fault) (hs : fault stop) {s : Section α}
    {pairs : List (Tree × Tree)}
    (h : ∀ p ∈ pairs, ∀ key style tag m, p.1 = .scalar key style tag m → ∀ q,
      s.field key m = some q → Exact fault q p.2) (fields : s.Fields) (close : Marker) :
    Ends (fun _ left => left = rest) fault
      ((loop s.round (true, fields)).run stop
        (pairsEvents pairs ++ (.mappingEnd, close) :: rest)) := by
  induction pairs generalizing fields with
  | nil =>
    rw [pairsEvents, List.nil_append, ends_loop]
    exact rfl
  | cons p pairs ih =>
    have hp := h p List.mem_cons_self
    replace ih := ih fun p hm => h p (List.mem_cons_of_mem _ hm)
    obtain ⟨k, v⟩ := p
    rw [pairsEvents, pairEvents, List.append_assoc, List.append_assoc, ends_loop]
    cases k with
    | sequence start items close => exact hf.err _
    | mapping start items close => exact hf.err _
    | scalar key style tag m =>
      rw [Section.round, ends_andThen, Tree.events, List.singleton_append, ends_next_cons]
      cases hk : s.field key m with
      | none => simpa [hk] using hf.err _
      | some q =>
        simp only [hk, ends_more, ends_map]
        refine (hp key style tag m rfl q hk stop _ hs).mono (fun set left hl => ?_) fun _ h => h
        subst hl
        exact ih _

theorem section_mapping (hf : Tolerated fault) {s : Section α} {pairs : List (Tree × Tree)}
    (h : ∀ p ∈ pairs, ∀ key style tag m, p.1 = .scalar key style tag m → ∀ q,
      s.field key m = some q → Exact fault q p.2) (start close : Marker) :
    Exact fault s.parse (.mapping start pairs close) := by
  intro stop rest hs
  simp only [Section.parse, Tree.events, List.cons_append, List.append_assoc,
    ends_peekThen_cons, ends_check]
  rw [ends_loop]
  refine (section_pairs hf hs h s.init close).mono (fun fields left hl => ?_) fun _ h => h
  subst hl
  rw [Section.close]
  cases s.finish fields start with
  | error e => exact hf.err _
  | ok a => exact rfl

theorem section_sequence (hf : Tolerated fault) {s : Section α} {ts : List Delivered} {m : Marker} :
    Refuses fault s.parse stop ((.sequenceStart, m) :: ts) := by
  rw [Refuses, Section.parse, ends_peekThen_cons, ends_check, ends_loop]
  exact hf.err _

theorem section_scalar (hf : Tolerated fault) {s : Section α} {key : String} {style : TScalarStyle}
    {tag : Option (String × String)} {m : Marker} {ts : List Delivered}
    (h : s.field key m = none) :
    Refuses fault s.parse stop ((.scalar key style tag, m) :: ts) := by
  rw [Refuses, Section.parse, ends_peekThen_cons, ends_check, ends_loop, Section.round,
    ends_andThen, ends_next_cons]
  simpa [h] using hf.err _

/-- The rest of a mapping of one key, after its value. -/
theorem closeMapping_ends (hf : Tolerated fault) (a : α) (pairs : List (Tree × Tree))
    (close : Marker) :
    Ends (fun _ left => left = rest) fault
      ((closeMapping a).run stop (pairsEvents pairs ++ (.mappingEnd, close) :: rest)) := by
  rw [closeMapping, ends_check]
  cases pairs with
  | nil => exact rfl
  | cons p pairs =>
    obtain ⟨k, v⟩ := p
    cases k
    all_goals exact hf.err _

/-- The value of the only key of a mapping, and the rest of the mapping. -/
theorem entry_ends (hf : Tolerated fault) (hs : fault stop) {p : Decoding α} {v : Tree}
    (h : Exact fault p v) (pairs : List (Tree × Tree)) (close : Marker) :
    Ends (fun _ left => left = rest) fault
      ((p.andThen fun a => .more (closeMapping a)).run stop
        (v.events ++ (pairsEvents pairs ++ (.mappingEnd, close) :: rest))) := by
  rw [ends_andThen]
  refine (h stop _ hs).mono (fun a left hl => ?_) fun _ h => h
  subst hl
  exact closeMapping_ends hf a pairs close

/-- A mapping that is read for its first key. -/
def OnFirst (pairs : List (Tree × Tree)) (read : String → Tree → Prop) : Prop :=
  ∀ key style tag m v more, pairs = (.scalar key style tag m, v) :: more → read key v

theorem onlyEntry_ends (hf : Tolerated fault) (hs : fault stop)
    {value : String → Option (FromYaml α)} {pairs : List (Tree × Tree)}
    (h : OnFirst pairs fun key v => ∀ p, value key = some p → Exact fault p v) (close : Marker) :
    Ends (fun _ left => left = rest) fault
      ((onlyEntry value).run stop (pairsEvents pairs ++ (.mappingEnd, close) :: rest)) := by
  rw [onlyEntry, ends_andThen]
  cases pairs with
  | nil => exact hf.err _
  | cons p pairs =>
    obtain ⟨k, v⟩ := p
    cases k with
    | sequence start items close => exact hf.err _
    | mapping start items close => exact hf.err _
    | scalar key style tag m =>
      rw [pairsEvents, pairEvents, List.append_assoc, List.append_assoc, Tree.events,
        List.singleton_append, ends_next_cons]
      cases hk : value key with
      | none => simpa [hk] using hf.err _
      | some p =>
        simp only [hk, ends_more]
        exact entry_ends hf hs (h key style tag m v pairs rfl p hk) pairs close

theorem provider_mapping (hf : Tolerated fault) {b : Build} {pairs : List (Tree × Tree)}
    (h : OnFirst pairs fun key v => ∀ p, ProviderPreProcessed.kind b key = some p → Exact fault p v)
    (start close : Marker) :
    Exact fault (ProviderPreProcessed.parse b) (.mapping start pairs close) := by
  intro stop rest hs
  simp only [ProviderPreProcessed.parse, Tree.events, List.cons_append, List.append_assoc,
    ends_andThen, ends_more]
  rw [ends_loop]
  change Ends _ _ ((loop (ProviderPreProcessed.round b) true).run stop _)
  rw [ends_loop, ProviderPreProcessed.round, ends_andThen]
  cases pairs with
  | nil => exact hf.err _
  | cons p pairs =>
    obtain ⟨k, v⟩ := p
    cases k with
    | sequence start items close => exact hf.err _
    | mapping start items close => exact hf.err _
    | scalar key style tag m =>
      simp only [pairsEvents, pairEvents, Tree.events, List.append_assoc, List.cons_append,
        List.nil_append]
      rw [ends_next_cons]
      cases hk : ProviderPreProcessed.kind b key with
      | none => simpa [hk] using hf.err _
      | some p =>
        simp only [hk, ends_more, ends_map]
        refine (h key style tag m v pairs rfl p hk stop _ hs).mono (fun a left hl => ?_)
          fun _ h => h
        subst hl
        exact closeMapping_ends hf a pairs close

end Sections

end Pewpew.Config
