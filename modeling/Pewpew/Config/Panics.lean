import Pewpew.Config.OneNode
import Pewpew.Yaml.Document

/-! Where the loading of a config file panics. -/
namespace Pewpew.Config

open SelectParser Yaml Reader

/-- A YAML parser: what it gives for a text. -/
abbrev Scanner := String → List (Except String (YamlParseEvent × Marker))

/-- What a parser ends with at an error of the decoder. -/
def Failure.ofDecoder : Yaml.Error → Failure
  | .invalidYaml e => .err (.invalidYaml e)
  | .yamlDeserialize m => .err (.yamlDeserialize none m)
  | .indexOutOfBounds => .panic "index out of bounds"

/-- The first step of `LoadTest::from_config`. The first error of the decoder ends every parser, so
that they get the events before it at once. -/
def LoadTest.preProcessed (b : Build) (scan : Scanner) (fuel : Nat) (bytes : ByteArray) :
    Option (Except Failure LoadTestPreProcessed) :=
  match String.fromUTF8? bytes with
  | none => some (.error (.panic "called Result::unwrap() on an Err value"))
  | some s =>
    (Generator.collect Decoder.step fuel (.new (scan s))).map fun (ts, e) =>
      ((LoadTestPreProcessed.layout b).parse.run (.ofDecoder e) ts).map fun r => r.1.1

/-- Loading comes to an end, with a result or an `Err`. -/
def LoadTest.Returns (b : Build) (scan : Scanner) (bytes : ByteArray) : Prop :=
  ∃ bound, ∀ fuel, bound ≤ fuel → ∃ r, LoadTest.preProcessed b scan fuel bytes = some r ∧
    ∀ message, r ≠ .error (.panic message)

/-- The bytes are a text whose scan begins a document, or is all of it, and the document stands for
a tree. -/
structure Shows (scan : Scanner) (bytes : ByteArray) (n : Node) (t : Tree) : Prop where
  scans : ∃ s, String.fromUTF8? bytes = some s ∧ Scans (scan s) n
  tree : n.StandsFor t

/-- The types that are read from a scalar, or as JSON. -/
def ConfigType.simple : ConfigType → Bool
  | scalar _ | json | preTemplate => true
  | nullable t | withMarker t => t.simple
  | _ => false

/-- The types of the values of a config file. -/
def ConfigType.known : ConfigType → Bool
  | vec t | nullable t | withMarker t => t.known
  | tupleVec t | btreeMap t => (t.simple || t.panicsAtEnd) && t.known
  | _ => true

/-- A call that panics: a sequence without an item whose end is left to a type that panics there, a
sequence that is a key alone, or a scalar, where keys and values of such a type are expected, and a
duration that is too large. -/
def Trips (b : Build) : Call → Prop
  | (.vec t, .sequence _ [] _) => t.panicsAtEnd
  | (.tupleVec t, .sequence _ [.scalar ..] _) | (.btreeMap t, .sequence _ [.scalar ..] _) =>
    t.panicsAtEnd
  | (.tupleVec t, .scalar ..) | (.btreeMap t, .scalar ..) => t.panicsAtEnd
  | (.logProviderStats, .scalar d ..) =>
    d ≠ "true" ∧ d ≠ "false" ∧ ∃ message, durationFromString b d ⟨1, 0⟩ = .error (.panic message)
  | _ => False

/-- Whatever follows, a call takes its node or gives an `Err`. -/
def Handles (b : Build) (c : Call) : Prop :=
  ∀ e rest, Follows rest → Ends (fun _ left => left = rest) (fun f => f.isPanic = false)
    ((c.1.parse b).run (.err e) (c.2.events ++ rest))

section Quiet

variable {b : Build} {fault : Failure → Prop} {stop : Failure}

theorem round_quiet (hf : Tolerated fault) (hs : fault stop) {json : String → Option Json}
    {value : Decoding Json} {bound : Nat}
    (h : ∀ ts : List Delivered, ts.length ≤ bound → Quiet fault value stop ts) (root : Option Json)
    (ts : List Delivered) (hl : ts.length ≤ bound) :
    Quiet fault (Value.round json value root) stop ts := by
  have hm {γ : Type} (f : Json → γ) {ts : List Delivered} (hl : ts.length ≤ bound) :
      Quiet fault (value.map f) stop ts := ends_map.mpr (h ts hl)
  cases ts with
  | nil => exact hs
  | cons t ts =>
    obtain ⟨e, m⟩ := t
    have hl' : ts.length ≤ bound := Nat.le_of_succ_le hl
    cases e with
    | mappingEnd => trivial
    | sequenceEnd => trivial
    | mappingStart =>
      rcases root with _ | ⟨_ | _ | _ | _ | _ | _⟩
      all_goals first | exact hf.err _ | exact hm _ hl | trivial
    | sequenceStart =>
      rcases root with _ | ⟨_ | _ | _ | _ | _ | _⟩
      all_goals first | exact hf.err _ | exact hm _ hl | trivial
    | scalar s style tag =>
      rcases root with _ | ⟨_ | _ | _ | _ | _ | _⟩
      all_goals first | exact hm _ hl' | trivial

/-- The parser of JSON values never panics. -/
theorem Value.read_quiet (hf : Tolerated fault) (hs : fault stop) (json : String → Option Json)
    (ts : List Delivered) : Quiet fault (Value.read json) stop ts := by
  induction hn : ts.length using Nat.strongRecOn generalizing ts with
  | ind n ih =>
    rw [Quiet, Value.read, fix_run, ← Value.read, Value.body, ends_map, ends_loop]
    cases ts with
    | nil => exact hs
    | cons t ts =>
      rw [List.length_cons] at hn
      have hr (root : Option Json) : Quiet fault
          (loop (Value.round json (Value.read json)) root) stop ts :=
        loop_ends (round_quiet hf hs fun ts hl => ih ts.length (by omega) ts rfl) root le_rfl
      obtain ⟨e, m⟩ := t
      cases e with
      | mappingEnd => trivial
      | sequenceEnd => trivial
      | mappingStart => exact hr _
      | sequenceStart => exact hr _
      | scalar s style tag => trivial

theorem quiet_ofEvent (hf : Tolerated fault) (hs : fault stop) {γ : Type}
    (f : YamlEvent → Option γ) (ts : List Delivered) : Quiet fault (ofEvent f) stop ts := by
  rw [Quiet, ofEvent, ends_check]
  cases ts with
  | nil => exact hs
  | cons t ts =>
    obtain ⟨e, m⟩ := t
    simp only [ends_next_cons]
    cases f e with
    | none => exact hf.err _
    | some a => trivial

theorem quiet_nullable {V : Type} (hs : fault stop) {value : FromYaml V} {ts : List Delivered}
    (h : Quiet fault value stop ts) : Quiet fault (Nullable.parse value) stop ts := by
  cases ts with
  | nil => exact hs
  | cons t ts =>
    obtain ⟨e, m⟩ := t
    cases hn : isNull e with
    | false => exact ends_nullable hn h
    | true =>
      rw [Quiet, Nullable.parse, ends_peekThen_cons]
      simp [hn]

/-- What is read from a scalar, or as JSON, never panics. -/
theorem quiet_simple (hf : Tolerated fault) (hs : fault stop) {t : ConfigType} (ht : t.simple)
    (ts : List Delivered) : Quiet fault (t.parse b) stop ts := by
  induction t with
  | scalar k =>
    obtain ⟨f, he, -⟩ := k.parse_eq
    rw [ConfigType.parse, he]
    exact quiet_ofEvent hf hs f ts
  | json =>
    cases ts with
    | nil => exact hs
    | cons t ts => exact ends_map.mpr (Value.read_quiet hf hs b.json _)
  | preTemplate => exact ends_map.mpr (ends_map.mpr (quiet_ofEvent hf hs YamlEvent.asStr ts))
  | nullable t ih => exact quiet_nullable hs (ih ht)
  | withMarker t ih => exact ends_map.mpr (ih ht)
  | _ => simp [ConfigType.simple] at ht

theorem section_mappingEnd (hf : Tolerated fault) {α : Type} (s : Section α) (m : Marker)
    (rest : List Delivered) : Quiet fault s.parse stop ((.mappingEnd, m) :: rest) := by
  rw [Quiet, Section.parse, ends_peekThen_cons, ends_check, ends_loop]
  change Ends _ _ ((s.close m s.init).map (·, rest))
  rw [Section.close]
  cases s.finish s.init m with
  | ok a => trivial
  | error e => exact hf.err _

/-- No parser panics at the end of a mapping. -/
theorem quiet_mappingEnd (hf : Tolerated fault) (t : ConfigType) (m : Marker)
    (rest : List Delivered) : Quiet fault (t.parse b) stop ((.mappingEnd, m) :: rest) := by
  induction t with
  | scalar k =>
    obtain ⟨f, he, hn⟩ := k.parse_eq
    rw [ConfigType.parse, he]
    exact (refuses_ofEvent hf (hn _ rfl)).ends _
  | logProviderStats => exact hf.err _
  | logLevel => exact hf.err _
  | json => trivial
  | preTemplate => exact hf.err _
  | vec t => trivial
  | tupleVec t => trivial
  | btreeMap t => trivial
  | nullable t ih => exact ends_nullable rfl ih
  | withMarker t ih => exact ends_map.mpr ih
  | loadPattern => exact hf.err _
  | listProvider => exact hf.err _
  | provider => exact hf.err _
  | multipartPieceBody => exact hf.err _
  | body => exact hf.err _
  | «section» s =>
    exact section_mappingEnd hf (s.layout b) m rest

theorem quiet_sequenceEnd (hf : Tolerated fault) {t : ConfigType} (ht : t.panicsAtEnd = false)
    (m : Marker) (rest : List Delivered) :
    Quiet fault (t.parse b) stop ((.sequenceEnd, m) :: rest) := by
  cases he : t.takesEnd with
  | false => exact (refuses_sequenceEnd hf he (by simp [ht]) stop m rest).ends _
  | true =>
    obtain ⟨v, hv⟩ := takesEnd_run he m stop rest
    rw [Quiet, hv]
    trivial

end Quiet

section Enough

variable {b : Build}

theorem tolerated_err : Tolerated fun f => f.isPanic = false :=
  ⟨fun _ => rfl, fun h hf => h.trans hf⟩

/-- A call that panics, or is misled, or is none that a config file leads to. -/
def Bad (b : Build) (c : Call) : Prop := Misled c ∨ Trips b c ∨ c.1.known = false

theorem quiet_of_known {t : ConfigType} (hk : (t.simple || t.panicsAtEnd) && t.known)
    (ht : t.panicsAtEnd = false) {stop : Failure} (hs : stop.isPanic = false)
    (rest : List Delivered) : Quiet (fun f => f.isPanic = false) (t.parse b) stop rest := by
  have hsimple : t.simple := by simp_all
  exact quiet_simple tolerated_err hs hsimple rest

theorem statsValue_err {key d : String} {m : Marker} {f : Failure}
    (h : ¬ (d ≠ "true" ∧ d ≠ "false" ∧
      ∃ message, durationFromString b d ⟨1, 0⟩ = .error (.panic message)))
    (he : GeneralConfigPreProcessed.statsValue b key m d = .error f) : f.isPanic = false := by
  unfold GeneralConfigPreProcessed.statsValue at he
  split at he
  · nomatch he
  · split at he
    · nomatch he
    · rename_i ht hfalse
      split at he
      · nomatch he
      · obtain rfl := Except.error.inj he
        rfl
      · rename_i f' hne hp
        cases f' with
        | err e => exact (hne e rfl).elim
        | panic message => exact absurd ⟨ht, hfalse, message, hp⟩ h

theorem guards_err (b : Build) : Guards b (fun f => f.isPanic = false) (Bad b) where
  misled _ h := .inl h
  emptySequence t start close h stop rest _ := by
    simp only [Bad, Misled, Trips, not_or, Bool.not_eq_true] at h
    exact refuses_sequenceEnd tolerated_err h.1 (by simp [h.2.1]) stop close rest
  emptyMapping t _ close _ _ rest _ := quiet_mappingEnd tolerated_err t close rest
  tupleSingle t _ _ _ _ _ close h stop rest _ := by
    simp only [Bad, Trips, not_or, Bool.not_eq_true] at h
    exact quiet_sequenceEnd tolerated_err h.2.1 close rest
  btreeSingle t _ _ _ _ _ close h stop rest _ := by
    simp only [Bad, Trips, not_or, Bool.not_eq_true] at h
    exact quiet_sequenceEnd tolerated_err h.2.1 close rest
  tupleScalar t _ _ _ _ h stop rest hs := by
    simp only [Bad, Trips, not_or, Bool.not_eq_true, Bool.not_eq_false] at h
    exact quiet_of_known h.2.2 h.2.1 hs rest
  btreeScalar t _ _ _ _ h stop rest hs := by
    simp only [Bad, Trips, not_or, Bool.not_eq_true, Bool.not_eq_false] at h
    exact quiet_of_known h.2.2 h.2.1 hs rest
  stats n h := by
    cases n with
    | scalar d style tag m =>
      refine fun stop rest _ => ends_check.mpr (ends_check.mpr ?_)
      change Ends _ _ (((GeneralConfigPreProcessed.statsValue b "" m d).map _).map _)
      cases he : GeneralConfigPreProcessed.statsValue b "" m d with
      | ok v => rfl
      | error f => exact statsValue_err (fun ht => h (.inr (.inl ht))) he
    | sequence start items close => exact fun _ _ _ => rfl
    | mapping start pairs close => exact fun _ _ _ => rfl

theorem field_known (s : SectionType) (key : String) : ∀ t, s.field key = some t → t.known := by
  have hn : ∀ t : ConfigType, none = some t → t.known := fun _ h => nomatch h
  cases s
  all_goals repeat' refine forall_ite ?_ ?_
  all_goals first
    | exact hn
    | rintro t ⟨⟩; rfl

theorem entry_known (t : ConfigType) (key : String) : ∀ u, t.entry key = some u → u.known := by
  have hn : ∀ t : ConfigType, none = some t → t.known := fun _ h => nomatch h
  cases t
  all_goals repeat' refine forall_ite ?_ ?_
  all_goals first
    | exact hn
    | rintro t ⟨⟩; rfl

theorem hands_known {c c' : Call} (h : Hands c c') (hk : c.1.known) : c'.1.known := by
  cases h
  case field hf => exact field_known _ _ _ hf
  case entry he => exact entry_known _ _ _ he
  all_goals simp_all [ConfigType.known, ConfigType.panicsAtEnd]

/-- A config file leads to known types only. -/
theorem reading_known {n : Tree} {c : Call} (h : Reading (.section .loadTest, n) c) :
    c.1.known := by
  induction h with
  | refl => rfl
  | tail _ h ih => exact hands_known h ih

theorem handles_of_clear {n : Tree}
    (h : ∀ c, Reading (.section .loadTest, n) c → ¬ Misled c ∧ ¬ Trips b c) {c : Call}
    (hc : Reading (.section .loadTest, n) c) : Handles b c := by
  have hclear : Clear (Bad b) c := by
    intro c' hc'
    have hr := hc.trans hc'
    simp [Bad, h c' hr, reading_known hr]
  intro e rest _
  exact exact_of_clear tolerated_err (guards_err b) c.2 c.1 hclear (.err e) rest rfl

end Enough

section Needed

variable {b : Build} {stop : Failure}

/-- A parser panics. -/
abbrev Panics {γ : Type} (p : Decoding γ) (stop : Failure) (ts : List Delivered) : Prop :=
  Refuses (fun f => f.isPanic = true) p stop ts

theorem panics_sequenceEnd {t : ConfigType} (ht : t.panicsAtEnd) (m : Marker)
    (rest : List Delivered) : Panics (t.parse b) stop ((.sequenceEnd, m) :: rest) := by
  induction t with
  | «section» s => exact rfl
  | provider => exact rfl
  | nullable t ih => exact ends_nullable rfl (ih ht)
  | withMarker t ih => exact ends_map.mpr (ih ht)
  | _ => simp [ConfigType.panicsAtEnd] at ht

variable {C V : Type} {i : Insert C V} {elem : FromYaml V} {value : FromYaml V}

theorem panics_parse {start : YamlEvent} (hb : start.isNestedStart = true) {m : Marker}
    {ts : List Delivered} (h : Panics elem stop ts) :
    Panics (i.parse elem) stop ((start, m) :: ts) := by
  rw [Panics, Refuses, Insert.parse, ends_peekThen_cons, ends_map, ends_loop]
  have hr (post : (Bool × C) ⊕ C → List Delivered → Prop) :
      Ends post (fun f => f.isPanic = true)
        ((elem.into.check (i.add start m i.default)).run stop ts) := by
    rw [ends_check, FromYaml.into, ends_map]
    exact h.ends _
  cases start with
  | mappingStart => exact hr _
  | sequenceStart => exact hr _
  | mappingEnd => simp [YamlEvent.isNestedStart] at hb
  | sequenceEnd => simp [YamlEvent.isNestedStart] at hb
  | scalar s style tag => simp [YamlEvent.isNestedStart] at hb

theorem panics_scalar {s : String} {style : TScalarStyle} {tag : Option (String × String)}
    {m : Marker} {ts : List Delivered} (h : Panics elem stop ((.scalar s style tag, m) :: ts)) :
    Panics (i.parse elem) stop ((.scalar s style tag, m) :: ts) := by
  rw [Panics, Refuses, Insert.parse, ends_peekThen_cons, ends_map, ends_loop, Insert.round,
    ends_peekThen_cons, ends_check, FromYaml.into, ends_map]
  exact h.ends _

theorem panics_pair {s : String} {style : TScalarStyle} {tag : Option (String × String)}
    {m : Marker} {ts : List Delivered} (h : Panics value stop ts) :
    Panics (Pair.parse value) stop ((.scalar s style tag, m) :: ts) := by
  rw [Panics, Refuses, Pair.parse, ends_andThen, FromYaml.into, ends_map, String.parse, ofEvent,
    ends_check, ends_next_cons]
  change Ends _ _ ((value.map _).run stop ts)
  rw [ends_map]
  exact h

theorem not_handles {c : Call} (e : Error) {rest : List Delivered} (hf : Follows rest)
    (h : Panics (c.1.parse b) (.err e) (c.2.events ++ rest)) : ¬ Handles b c := by
  intro hh
  replace hh := hh e rest hf
  rw [Panics, Refuses] at h
  generalize (c.1.parse b).run (.err e) (c.2.events ++ rest) = r at h hh
  cases r with
  | ok p => exact h
  | error f => cases hh.symm.trans h

theorem trips_not_handles {c : Call} (h : Trips b c) : ¬ Handles b c := by
  obtain ⟨t, n⟩ := c
  let e : Error := .invalidYaml ""
  have hend (m : Marker) : Follows [(.sequenceEnd, m)] := by
    simpa [itemsEvents] using Follows.item [] m .root
  unfold Trips at h
  split at h
  · rename_i hc
    cases hc
    exact not_handles e .root (panics_parse rfl (panics_sequenceEnd h _ _))
  · rename_i hc
    cases hc
    exact not_handles e .root (panics_parse rfl (panics_pair (panics_sequenceEnd h _ _)))
  · rename_i hc
    cases hc
    exact not_handles e .root (panics_parse rfl (panics_pair (panics_sequenceEnd h _ _)))
  · rename_i m hc
    cases hc
    exact not_handles e (hend m) (panics_scalar (panics_pair (panics_sequenceEnd h _ _)))
  · rename_i m hc
    cases hc
    exact not_handles e (hend m) (panics_scalar (panics_pair (panics_sequenceEnd h _ _)))
  · rename_i d style tag m hc
    cases hc
    obtain ⟨ht, hfalse, message, hd⟩ := h
    refine not_handles e .root (ends_check.mpr (ends_check.mpr ?_))
    have hs : GeneralConfigPreProcessed.statsValue b "" m d = .error (.panic message) := by
      simp [GeneralConfigPreProcessed.statsValue, ht, hfalse, hd]
    change Ends _ _ (((GeneralConfigPreProcessed.statsValue b "" m d).map _).map _)
    rw [hs]
    exact rfl
  · exact h.elim

end Needed

section Loading

variable {b : Build} {scan : Scanner} {bytes : ByteArray} {n : Node} {t : Tree}

/-- The decoder delivers the tree of a document exactly if no alias stands for a scalar. -/
theorem delivers_tree_iff (h : n.StandsFor t) (start stop : Marker)
    (rest : List (Except String (YamlParseEvent × Marker))) :
    Generator.Delivers Decoder.step ⟨.new (n.stream start stop rest), none⟩ t.events ↔
      n.SparesScalars [] := by
  have hd := stream_delivers n start stop rest
  rw [← expand_noCopy_iff, h.events]
  constructor
  · intro ht
    exact hd.unique ht
  · intro he
    rwa [← he]

/-- A parser that does not panic at the events of a tree does not panic at the first of them. -/
theorem no_panic_of_prefix {p : FromYaml LoadTestPreProcessed} {e : Error} {ts : List Delivered}
    (h : Quiet (fun f => f.isPanic = false) p (.err e) t.events) (ht : ts <+: t.events)
    {stop : Failure} (hs : stop.isPanic = false) (message : String) :
    p.run stop ts ≠ .error (.panic message) := by
  intro hp
  obtain ⟨more, hmore⟩ := ht
  have hlike : ¬ Failure.panic message ≈ stop := by
    intro hl
    exact absurd (hl.trans hs) (by simp [Failure.isPanic])
  rw [Quiet, ← hmore, error_append hp hlike] at h
  exact absurd h (by simp [Ends, Failure.isPanic])

/-- Without a call that is misled or panics, loading gives a result or an `Err`. -/
theorem returns_of_clear (hn : Shows scan bytes n t) (hs : n.SparesScalars [])
    (hc : ∀ c, Reading (.section .loadTest, t) c → ¬ Misled c ∧ ¬ Trips b c) :
    LoadTest.Returns b scan bytes := by
  obtain ⟨⟨s, hbytes, hscan⟩, htree⟩ := hn
  obtain ⟨ts, e, hts, he, bound, hall⟩ := hscan.collects
  rw [expand_noCopy_iff n |>.mpr hs, htree.events] at hts
  have hstop : (Failure.ofDecoder e).isPanic = false := by
    cases e with
    | indexOutOfBounds => exact absurd rfl he
    | invalidYaml e => rfl
    | yamlDeserialize m => rfl
  have hquiet : Quiet (fun f => f.isPanic = false) (LoadTestPreProcessed.layout b).parse
      (.err (.invalidYaml "")) t.events := by
    have h := handles_of_clear hc .refl (.invalidYaml "") [] .root
    rw [List.append_nil] at h
    exact h.mono (fun _ _ _ => trivial) fun _ h => h
  refine ⟨bound, fun fuel hfuel => ?_⟩
  simp only [LoadTest.preProcessed, hbytes, hall fuel hfuel, Option.map_some, Option.some.injEq,
    exists_eq_left']
  intro message hm
  cases hr : (LoadTestPreProcessed.layout b).parse.run (.ofDecoder e) ts with
  | ok v => simp [hr, Except.map] at hm
  | error f =>
    simp only [hr, Except.map, Except.error.injEq] at hm
    exact no_panic_of_prefix hquiet hts hstop message (hm ▸ hr)

/-- Calls that take their nodes alone or give an `Err` are neither misled nor do they panic. -/
theorem clear_of_handles {c : Call} (h : Handles b c) : ¬ Misled c ∧ ¬ Trips b c := by
  refine ⟨fun hm => ?_, fun ht => trips_not_handles ht h⟩
  obtain ⟨e, rest, v, left, hf, hp, hl⟩ := misled_strays (b := b) hm
  have hh := h e rest hf
  rw [hp] at hh
  exact hl hh

end Loading

/-- A YAML parser gives well-nested events or an error. -/
def WellNested (scan : Scanner) : Prop := ∀ s, ∃ n t, Scans (scan s) n ∧ n.StandsFor t

/-- A YAML parser on a text. -/
def scanAs (n : Node) : Scanner := fun _ => n.stream ⟨1, 0⟩ ⟨2, 0⟩ []

def plainText (s : String) : Node := .scalar 0 s .plain none ⟨1, 0⟩

def plainMapping (items : List Node) : Node := .collection 0 true ⟨1, 0⟩ items ⟨1, 0⟩

/-- `endpoints: []` -/
def noEndpoints : Node :=
  plainMapping [plainText "endpoints", .collection 0 false ⟨1, 0⟩ [] ⟨1, 0⟩]

/-- `vars: {a: &x foo}`, and an endpoint with `logs: {l: {select: *x}}` -/
def aliasedSelect : Node :=
  plainMapping [plainText "vars", plainMapping [plainText "a", .scalar 1 "foo" .plain none ⟨1, 0⟩],
    plainText "endpoints", .collection 0 false ⟨1, 0⟩ [plainMapping [plainText "url",
      plainText "http://localhost", plainText "logs", plainMapping [plainText "l",
        plainMapping [plainText "select", .alias 1 ⟨1, 0⟩]]]] ⟨1, 0⟩]

theorem fromUTF8_toByteArray (s : String) : String.fromUTF8? s.toByteArray = some s := by
  rw [String.fromUTF8?, dif_pos s.isValidUTF8]
  rfl

theorem preProcessed_le {b : Build} {scan : Scanner} {bytes : ByteArray} {fuel fuel' : Nat}
    {r : Except Failure LoadTestPreProcessed}
    (h : LoadTest.preProcessed b scan fuel bytes = some r) (hle : fuel ≤ fuel') :
    LoadTest.preProcessed b scan fuel' bytes = some r := by
  unfold LoadTest.preProcessed at h ⊢
  cases hs : String.fromUTF8? bytes with
  | none => simpa only [hs] using h
  | some s =>
    simp only [hs] at h ⊢
    obtain ⟨q, hq, hr⟩ := Option.map_eq_some_iff.mp h
    rw [Generator.collect_le hq hle, Option.map_some, hr]

/-- A run that panics. -/
theorem not_returns {b : Build} {scan : Scanner} {bytes : ByteArray} (fuel : Nat) (message : String)
    (h : LoadTest.preProcessed b scan fuel bytes = some (.error (.panic message))) :
    ¬ LoadTest.Returns b scan bytes := by
  rintro ⟨bound, hall⟩
  obtain ⟨r, hr, hn⟩ := hall (max bound fuel) (le_max_left _ _)
  rw [preProcessed_le h (le_max_right _ _), Option.some.injEq] at hr
  exact hn message hr.symm

/-- An alias of a scalar that is read as an expression. -/
example : ¬ LoadTest.Returns plain (scanAs aliasedSelect) "vars: {a: &x foo}".toByteArray := by
  refine not_returns 50 "shouldn't see sequence end" ?_
  rw [LoadTest.preProcessed, fromUTF8_toByteArray]
  rfl

end Pewpew.Config
