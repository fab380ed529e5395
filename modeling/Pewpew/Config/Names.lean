import Pewpew.Config.Streams
import Pewpew.Expression.Availability
import Pewpew.Library.Fallible

/-! The names that the endpoints of an accepted config refer to. -/
namespace Pewpew.SelectParser

/-- The keys of the data that a read looks up; `roots` has those that a JSON path begins with. -/
def Read.names (roots : String → List String) : Read → List String
  | .path s _ => [s]
  | .selector _ s => roots s

def Read.isForEach : Read → Bool
  | .path s _ => s = "for_each"
  | .selector _ _ => false

/-- `as_iter` binds the tuples of its joins. -/
def Select.binds (s : Select) : Bool := !s.join.isEmpty && s.referencesForEach

/-- What a `Select` reads, and whether it is a tuple that is read and not the data. -/
def Select.lookups (s : Select) : List (Read × Bool) :=
  (argsReads s.join).map (·, false) ++
    ((clauseReads s.whereClause).map
        (fun r => (r, s.binds && s.whereReferencesForEach && r.isForEach)) ++
      s.select.reads.map fun r => (r, s.binds && r.isForEach))

theorem Select.lookups_fst (s : Select) : s.lookups.map Prod.fst = s.reads := by
  simp [lookups, reads, Function.comp_def]

end Pewpew.SelectParser

namespace Pewpew.Config

open SelectParser Polling Fallible
open Request (EndpointProvidesSendOptions BodyTemplate MultipartPiece Prepared)

/-- The program puts the name into the data of a position, whatever the streams give. -/
def Position.Adds (pos : Position) (name : String) : Prop :=
  ∀ values request response rtt body error,
    ((pos.data values (.complete request response rtt body) (some error)).field name).isSome

theorem Position.adds_iff {pos : Position} {name : String} :
    pos.Adds name ↔ name ∈ pos.special := by
  constructor
  · intro h
    have hdata := h [] .null [] 0 none .timeout
    rw [data_complete] at hdata
    exact hdata.resolve_right (by simp [Object.get])
  · exact fun h values request response rtt body error =>
      (data_complete pos values request response rtt body error).mpr (.inl h)

theorem Position.isSpecial {pos : Position} {s : String} (h : s ∈ pos.special) : IsSpecial s := by
  have hall : ∀ s ∈ Position.logs.special, (Special.ofName s).isSome := List.all_eq_true.mp rfl
  have hsub : pos.special ⊆ Position.logs.special := by
    cases pos with
    | request => exact List.nil_subset _
    | tags | provides =>
      exact List.Sublist.subset (.cons_cons _ (.cons_cons _ (.cons_cons _ (List.nil_sublist _))))
    | logs => exact List.Subset.refl _
  exact Option.isSome_iff_ne_none.mp (hall s (hsub h))

def templatesReads (ts : List (String × Template)) : List Read := ts.flatMap fun t => t.2.reads

def pieceReads (piece : MultipartPiece) : List Read :=
  piece.template.reads ++ templatesReads piece.headers

def bodyReads : BodyTemplate → List Read
  | .none => []
  | .file _ t | .string t => t.reads
  | .multipart m => m.pieces.flatMap pieceReads

namespace Endpoint

variable {v : Values}

def reads (e : Endpoint v) : Position → List Read
  | .request => e.url.reads ++ (templatesReads e.headers ++ bodyReads e.body)
  | .tags => templatesReads e.tags
  | .provides => e.provides.flatMap fun p => p.2.2.reads
  | .logs => e.logs.flatMap fun l => l.2.reads

/-- The same, and whether a tuple is read and not the data of the position. -/
def lookups (e : Endpoint v) : Position → List (Read × Bool)
  | .request => (e.reads .request).map (·, false)
  | .tags => (e.reads .tags).map (·, false)
  | .provides => e.provides.flatMap fun p => p.2.2.lookups
  | .logs => e.logs.flatMap fun l => l.2.lookups

theorem lookups_fst (e : Endpoint v) (pos : Position) :
    (e.lookups pos).map Prod.fst = e.reads pos := by
  cases pos with
  | request | tags => simp [lookups, Function.comp_def]
  | provides | logs => simp [lookups, reads, List.map_flatMap, Select.lookups_fst]

theorem read_of_lookup {e : Endpoint v} {pos : Position} {read : Read} {tuple : Bool}
    (h : (read, tuple) ∈ e.lookups pos) : read ∈ e.reads pos :=
  e.lookups_fst pos ▸ List.mem_map_of_mem h

/-- What the declared expressions read: each name is that of a stream. -/
def declareReads (e : Endpoint v) : List Read := e.declare.flatMap fun d => d.2.reads

/-- Every name that an endpoint refers to is known and in the data of its request, and its declared
expressions have their streams. -/
structure Complete (roots : String → List String) (x : Externals) (lt : LoadTest v)
    (e : Endpoint v) : Prop where
  known : ∀ pos read, (read, false) ∈ e.lookups pos → ∀ name ∈ read.names roots,
    name ∈ lt.providers ∨ name ∈ e.declares ∨ pos.Adds name
  declared : ∀ read ∈ e.declareReads,
    read.key ∈ lt.providers ∧ ∀ name ∈ read.names roots, name = read.key
  built : ∀ d ∈ e.declare, ∀ (Ar : Type) (z : Zip) (draws : Nat → Externals)
    (streams : String → Option (PollStream (Item Json Ar))),
    (∀ name ∈ lt.providers, (streams name).isSome) → (d.2.intoStream z x draws streams false).isSome
  present : ∀ pos read, (read, false) ∈ e.lookups pos → ∀ name ∈ read.names roots,
    ∀ timed items, List.Forall₂ Source.Gives (e.streamCollection timed lt) items →
      ∀ request response rtt body error,
        ((pos.data (Prepared.ofItems e.noAutoReturns items).values
          (.complete request response rtt body) (some error)).field name).isSome

/-- What is not checked: the special names, keys that a JSON path reads and that are not noted, and
the names in `logs`. -/
structure Proper (roots : String → List String) (lt : LoadTest v) (e : Endpoint v) : Prop where
  declared : ∀ read ∈ e.declareReads,
    (IsSpecial read.key → read.key ∈ lt.providers) ∧ ∀ name ∈ read.names roots, name = read.key
  special : ∀ pos read, (read, false) ∈ e.lookups pos → ∀ name ∈ read.names roots,
    IsSpecial name → name ∈ e.declares ∨ name ∈ pos.special
  selected : ∀ pos read, (read, false) ∈ e.lookups pos → ∀ name ∈ read.names roots,
    ¬ IsSpecial name → name ≠ read.key →
      name ∈ e.declares ∨ name ∈ e.providersToStream.inner ∧ name ∈ lt.providers
  logs : ∀ read, (read, false) ∈ e.lookups .logs → read.key ∈ read.names roots →
    ¬ IsSpecial read.key → read.key ∈ lt.providers ∨ read.key ∈ e.declares

end Endpoint

/-! ### The parts of an endpoint -/

section Parts

variable {α β : Type} {bound : RequiredProviders} {free : β → Prop} {x : Externals} {g : Grammar}
  {depth : Nat} {vars : Object}
  {f : α → RequiredProviders → Except SelectParser.Failure (β × RequiredProviders)}

theorem noting_tracks (hf : ∀ a p, Tracks bound free p (f a p)) (l : List α)
    (p : RequiredProviders) : Tracks bound (fun bs => ∀ b ∈ bs, free b) p (noting f l p) := by
  induction l generalizing p with
  | nil => exact tracks_ok (List.forall_mem_nil _)
  | cons a l ih =>
    refine (hf a p).bind fun b q => ?_
    refine (ih q).map fun bs q' => ⟨rfl, fun hbs hb => ?_⟩
    exact List.forall_mem_cons.mpr ⟨hb, hbs⟩

theorem keyed_tracks (hf : ∀ a p, Tracks bound free p (f a p)) (a : String × α)
    (p : RequiredProviders) : Tracks bound (fun b => free b.2) p (keyed f a p) :=
  (hf a.2 p).map fun _ _ => ⟨rfl, id⟩

/-- The keys stay. -/
theorem noting_keys {l : List (String × α)} {p q : RequiredProviders} {bs : List (String × β)}
    (h : noting (keyed f) l p = .ok (bs, q)) : bs.map Prod.fst = l.map Prod.fst := by
  induction l generalizing p q bs with
  | nil =>
    cases h
    rfl
  | cons a l ih =>
    obtain ⟨k, a⟩ := a
    rw [noting, keyed] at h
    cases hf : f a p with
    | error e =>
      rw [hf] at h
      cases h
    | ok r =>
      cases hrest : noting (keyed f) l r.2 with
      | error e => simp [hf, hrest, Except.map, Except.bind] at h
      | ok r' =>
        obtain ⟨bs', q'⟩ := r'
        simp only [hf, hrest, Except.map, Except.bind, Except.ok.injEq, Prod.mk.injEq] at h
        rw [← h.1, List.map_cons, List.map_cons, ih hrest]

theorem asTemplate_tracks (t : PreTemplate) (p : RequiredProviders) :
    Tracks bound (Free bound Template.reads) p (t.asTemplate x g depth vars p) :=
  Template.new_tracks depth t.text.inner p

theorem declared_tracks (e : PreValueOrExpression) (p : RequiredProviders) :
    Tracks bound (Free bound ValueOrExpression.reads) p (declared x g depth vars e p) :=
  valueOrExpression_tracks depth e.inner p

theorem noted_flatMap {reads : β → List Read} {bs : List β} :
    AllNoted bound (bs.flatMap reads) ↔ ∀ b ∈ bs, AllNoted bound (reads b) := by
  simp only [AllNoted, List.mem_flatMap]
  constructor
  · exact fun h b hb read hread => h read ⟨b, hb, hread⟩
  · rintro h read ⟨b, hb, hread⟩
    exact h b hb read hread

theorem templates_tracks (ts : List (String × PreTemplate)) (p : RequiredProviders) :
    Tracks bound (Free bound templatesReads) p
      (noting (keyed (PreTemplate.asTemplate x g depth vars)) ts p) :=
  (noting_tracks (keyed_tracks asTemplate_tracks) ts p).mono fun _ => noted_flatMap.mpr

theorem piece_tracks (name : String) (piece : BodyMultipartPiece) (p : RequiredProviders) :
    Tracks bound (Free bound pieceReads) p (piece.process x g depth vars name p) := by
  refine (asTemplate_tracks piece.body.template p).bind fun template q => ?_
  refine (templates_tracks piece.headers q).map fun headers q' => ⟨rfl, fun hh ht => ?_⟩
  exact noted_append.mpr ⟨ht, hh⟩

theorem body_tracks (configPath : String) (p : RequiredProviders) (body : Option Body) :
    Tracks bound (Free bound bodyReads) p (Body.process x g depth vars configPath p body) := by
  cases body with
  | none => exact tracks_ok noted_nil
  | some body =>
    cases body with
    | file t => exact (asTemplate_tracks t p).map fun _ _ => ⟨rfl, id⟩
    | string t => exact (asTemplate_tracks t p).map fun _ _ => ⟨rfl, id⟩
    | multipart pieces =>
      have hpieces : Tracks bound (fun ps => ∀ piece ∈ ps, AllNoted bound (pieceReads piece)) p
          (noting (fun e => e.2.process x g depth vars e.1) pieces p) :=
        noting_tracks (fun e p => piece_tracks e.1 e.2 p) pieces p
      rw [Body.process]
      refine hpieces.map fun pieces q => ⟨rfl, fun h => ?_⟩
      exact noted_flatMap.mpr h

theorem provides_tracks (hasPeakLoad : Bool) (e : EndpointProvidesPreProcessed)
    (p : RequiredProviders) :
    Tracks bound (fun r => AllNoted bound r.2.reads) p (e.process x g depth vars hasPeakLoad p) :=
  (Select.new_tracks e.toEndpointProvidesPreProcessed p).map fun _ _ => ⟨rfl, id⟩

end Parts

/-! ### What is required of an endpoint -/

section Required

variable {v : Values} {x : Externals} {g : Grammar} {depth : Nat} {vars : Object}

/-- Unless they are special or among the given names, the names of the reads are in the map. -/
def Covered (inner : BTreeMap Marker) (names : List String) (rs : List Read) : Prop :=
  ∀ read ∈ rs, ¬ IsSpecial read.key → read.key ∈ inner ∨ read.key ∈ names

theorem Covered.mono {inner inner' : BTreeMap Marker} {names : List String} {rs : List Read}
    (h : Covered inner names rs) (hsub : ∀ s ∈ inner, s ∈ inner') : Covered inner' names rs :=
  fun read hread hs => (h read hread hs).imp_left (hsub _)

theorem covered_append {inner : BTreeMap Marker} {names : List String} {rs rs' : List Read} :
    Covered inner names (rs ++ rs') ↔ Covered inner names rs ∧ Covered inner names rs' := by
  simp [Covered, or_imp, forall_and]

theorem covered_of_noted {p : RequiredProviders} {names : List String} {rs : List Read}
    (h : AllNoted p rs) : Covered p.inner names rs :=
  fun read hread hs => .inl ((h read hread).mem hs)

/-- What all parts of an endpoint refer to is required of it. -/
structure Endpoint.Traced (e : Endpoint v) : Prop where
  streamed : ∀ pos, Covered e.providersToStream.inner e.declares (e.reads pos)
  required : ∀ pos, pos ≠ .logs → Covered e.requiredProviders.inner e.declares (e.reads pos)
  declared : Covered e.requiredProviders.inner [] e.declareReads

theorem Endpoint.traced_of_streamed {e : Endpoint v}
    (hstreamed : ∀ pos, Covered e.providersToStream.inner e.declares (e.reads pos))
    (hsub : ∀ s ∈ e.providersToStream.inner, s ∈ e.requiredProviders.inner)
    (hdeclared : Covered e.requiredProviders.inner [] e.declareReads) : e.Traced :=
  ⟨hstreamed, fun pos _ => (hstreamed pos).mono hsub, hdeclared⟩

theorem parsed_ok {α : Type} {r : Except SelectParser.Failure α} {a : α} :
    parsed r = .ok a ↔ r = .ok a := by
  cases r with
  | error e => simp [parsed, Except.mapError]
  | ok a => simp [parsed, Except.mapError]

theorem Endpoint.appendLogger_traced {e e' : Endpoint v} (he : e.Traced) {key : String}
    {value : LogsPreProcessed}
    (h : e.appendLogger x g depth v vars key value = .ok e') : e'.Traced := by
  rw [appendLogger, bind_ok] at h
  obtain ⟨⟨select, p⟩, hselect, h⟩ := h
  cases h
  rw [parsed_ok] at hselect
  obtain ⟨hwithin, hreads⟩ :=
    (Select.new_tracks _ _ select p hselect).2 RequiredProviders.within_refl
  refine ⟨fun pos => ?_, fun pos hlogs => ?_, he.declared⟩
  · have hold := (he.streamed pos).mono hwithin.inner
    cases pos with
    | logs =>
      change Covered p.inner _ ((e.logs ++ [(key, select)]).flatMap fun l => l.2.reads)
      rw [List.flatMap_append, covered_append, List.flatMap_singleton]
      exact ⟨hold, covered_of_noted hreads⟩
    | request | tags | provides => exact hold
  · cases pos with
    | logs => exact absurd rfl hlogs
    | request | tags | provides => exact he.required _ hlogs

theorem Endpoint.Traced.appendProcessedLogger {e : Endpoint v} (he : e.Traced) (key : String)
    {select : Select} {p : RequiredProviders} (hselect : AllNoted p select.reads) :
    (e.appendProcessedLogger key select p).Traced := by
  have hold : ∀ q : RequiredProviders, ∀ s ∈ q.inner, s ∈ (q.extend p).inner :=
    fun q s hs => RequiredProviders.mem_extend.mpr (.inl hs)
  have hnew : ∀ q : RequiredProviders, ∀ s ∈ p.inner, s ∈ (q.extend p).inner :=
    fun q s hs => RequiredProviders.mem_extend.mpr (.inr hs)
  refine ⟨fun pos => ?_, fun pos hlogs => ?_, he.declared.mono (hold _)⟩
  · have hpart := (he.streamed pos).mono (hold e.providersToStream)
    cases pos with
    | logs =>
      change Covered _ _ ((e.logs ++ [(key, select)]).flatMap fun l => l.2.reads)
      rw [List.flatMap_append, covered_append, List.flatMap_singleton]
      exact ⟨hpart, (covered_of_noted hselect).mono (hnew _)⟩
    | request | tags | provides => exact hpart
  · cases pos with
    | logs => exact absurd rfl hlogs
    | request | tags | provides => exact (he.required _ hlogs).mono (hold _)

theorem mem_removed {names : List String} {p : RequiredProviders} {s : String} :
    s ∈ (names.foldl RequiredProviders.remove p).inner ↔ s ∈ p.inner ∧ s ∉ names := by
  induction names generalizing p with
  | nil => simp
  | cons name names ih =>
    have hkept : s ∈ (p.remove name).inner ↔ s ≠ name ∧ s ∈ p.inner := by
      rw [RequiredProviders.remove, Std.ExtTreeMap.mem_erase, ne_eq,
        Std.LawfulEqCmp.compare_eq_iff_eq, eq_comm]
    rw [List.foldl_cons, ih, hkept, List.mem_cons, not_or]
    tauto

theorem covered_removed {names : List String} {p : RequiredProviders} {rs : List Read}
    (h : AllNoted p rs) : Covered (names.foldl RequiredProviders.remove p).inner names rs := by
  intro read hread hs
  by_cases hname : read.key ∈ names
  · exact .inr hname
  · exact .inl (mem_removed.mpr ⟨(h read hread).mem hs, hname⟩)

/-- A global header with what its template requires. -/
def NotesHeader (h : String × Template × RequiredProviders) : Prop :=
  ∀ bound, h.2.2.Within bound → AllNoted bound h.2.1.reads

theorem within_extendAll {hs : List (String × Template × RequiredProviders)}
    {p bound : RequiredProviders}
    (h : (hs.foldl (fun p h => p.extend h.2.2) p).Within bound) :
    p.Within bound ∧ ∀ h ∈ hs, h.2.2.Within bound := by
  induction hs generalizing p with
  | nil => exact ⟨h, List.forall_mem_nil _⟩
  | cons header hs ih =>
    obtain ⟨hp, hrest⟩ := ih h
    obtain ⟨hp, hheader⟩ := hp.of_extend
    exact ⟨hp, List.forall_mem_cons.mpr ⟨hheader, hrest⟩⟩

theorem Endpoint.fromPreprocessed_traced {globalLoadPattern : Option v.LoadPattern}
    {globalHeaders : List (String × Template × RequiredProviders)} {configPath : String}
    {endpoint : EndpointPreProcessed} {endpointId : Nat} {e : Endpoint v}
    (hglobal : ∀ h ∈ globalHeaders, NotesHeader h)
    (h : fromPreprocessed x g depth v vars globalLoadPattern globalHeaders configPath endpoint
      endpointId = .ok e) : e.Traced := by
  simp only [fromPreprocessed, bind_ok, parsed_ok] at h
  obtain ⟨⟨added, p₁⟩, hadded, ⟨provides, p₃⟩, hprovides, loadPattern, -, peakLoad, -,
    ⟨url, p₄⟩, hurl, ⟨tags, p₅⟩, htags, ⟨body, p₆⟩, hbody, ⟨declare, q⟩, hdeclare,
    requestTimeout, -, h⟩ := h
  have hdeclares : declare.map Prod.fst = endpoint.declare.keys := by
    rw [noting_keys hdeclare, Std.ExtTreeMap.map_fst_toList_eq_keys]
  obtain ⟨hw₅, hbody⟩ :=
    (body_tracks configPath p₅ endpoint.body body p₆ hbody).2 RequiredProviders.within_refl
  obtain ⟨hw₄, htags⟩ :=
    (noting_tracks (keyed_tracks fun (t : PreTemplate) p =>
      asTemplate_tracks { t with noFail := true } p) _ p₄ tags p₅ htags).2 hw₅
  obtain ⟨hw₃, hurl⟩ := (asTemplate_tracks endpoint.url p₃ url p₄ hurl).2 hw₄
  obtain ⟨hw₂, hprovides⟩ :=
    (noting_tracks (keyed_tracks (provides_tracks endpoint.peakLoad.isSome)) _ _ provides p₃
      hprovides).2 hw₃
  obtain ⟨hw₁, hkept⟩ := within_extendAll hw₂
  obtain ⟨-, hadded⟩ := (templates_tracks _ _ added p₁ hadded).2 hw₁
  obtain ⟨-, hdeclare⟩ :=
    (noting_tracks (keyed_tracks declared_tracks) _ _ declare q hdeclare).2
      RequiredProviders.within_refl
  have hheaders : AllNoted p₆
      (templatesReads ((keptHeaders endpoint.headers globalHeaders).map (fun h => (h.1, h.2.1)) ++
        added)) := by
    rw [templatesReads, List.flatMap_append, noted_append]
    refine ⟨noted_flatMap.mpr fun t ht => ?_, hadded⟩
    obtain ⟨header, hheader, rfl⟩ := List.mem_map.mp ht
    exact hglobal header (List.mem_of_mem_filter hheader) p₆ (hkept header hheader)
  refine foldlM_keeps (P := Endpoint.Traced)
    (fun e log e' he => appendLogger_traced he) (traced_of_streamed ?_ ?_ ?_) h
  · intro pos
    rw [declares, hdeclares]
    cases pos with
    | request => exact covered_removed (noted_append.mpr ⟨hurl, noted_append.mpr ⟨hheaders, hbody⟩⟩)
    | tags => exact covered_removed (noted_flatMap.mpr htags)
    | provides => exact covered_removed (noted_flatMap.mpr hprovides)
    | logs => exact List.forall_mem_nil _
  · exact fun s hs => RequiredProviders.mem_extend.mpr (.inr hs)
  · exact (covered_of_noted (noted_flatMap.mpr hdeclare)).mono fun s hs =>
      RequiredProviders.mem_extend.mpr (.inl hs)

end Required

/-! ### What is checked in the end -/

section Checked

variable {v : Values} {x : Externals} {g : Grammar} {depth : Nat} {lt lt' : LoadTest v}

theorem verifyProviders_ok {providers : List (String × Marker)} :
    lt.verifyProviders providers = .ok () ↔ ∀ p ∈ providers, p.1 ∈ lt.providers := by
  rw [LoadTest.verifyProviders]
  cases hfind : providers.find? fun p => !lt.providers.contains p.1 with
  | some p =>
    have hp : lt.providers.contains p.1 = false := by simpa using List.find?_some hfind
    refine iff_of_false (by simp) fun h => ?_
    have hmem := h p (List.mem_of_find?_eq_some hfind)
    rw [Std.ExtTreeMap.mem_iff_contains, hp] at hmem
    exact Bool.false_ne_true hmem
  | none =>
    refine iff_of_true rfl fun p hp => ?_
    rw [Std.ExtTreeMap.mem_iff_contains]
    simpa using List.find?_eq_none.mp hfind p hp

theorem loggerFromPreProcessed_noted {vars : Object} {value : LoggerPreProcessed}
    {p q : RequiredProviders} {logger : Logger} {select : Select}
    (h : LoadTest.loggerFromPreProcessed x g depth vars value p = .ok ((logger, some select), q)) :
    AllNoted q select.reads := by
  rw [LoadTest.loggerFromPreProcessed.eq_def] at h
  cases hs : value.select with
  | none =>
    simp only [hs, bind_ok] at h
    obtain ⟨⟨s, q'⟩, hs, dest, -, h⟩ := h
    cases hs
    cases h
  | some s =>
    simp only [hs, bind_ok] at h
    obtain ⟨⟨s', q'⟩, hs', dest, -, h⟩ := h
    cases h
    cases hnew : Select.new x g vars true depth ⟨value.forEach, s, value.whereClause⟩ p with
    | error f =>
      rw [hnew] at hs'
      cases hs'
    | ok r =>
      rw [hnew] at hs'
      cases hs'
      exact ((Select.new_tracks _ p _ _ hnew).2 RequiredProviders.within_refl).2

theorem addLogger_traced {key : String} {value : LoggerPreProcessed}
    (he : ∀ e ∈ lt.endpoints, e.Traced) (h : lt.addLogger x g depth key value = .ok lt') :
    (∀ e ∈ lt'.endpoints, e.Traced) ∧ lt'.endpoints.length = lt.endpoints.length := by
  simp only [LoadTest.addLogger, bind_ok, parsed_ok] at h
  obtain ⟨⟨⟨logger, select⟩, p⟩, hlogger, -, -, h⟩ := h
  cases select with
  | none =>
    cases h
    exact ⟨he, rfl⟩
  | some select =>
    cases h
    refine ⟨fun e hmem => ?_, List.length_map ..⟩
    obtain ⟨e₀, he₀, rfl⟩ := List.mem_map.mp hmem
    exact (he e₀ he₀).appendProcessedLogger key (loggerFromPreProcessed_noted hlogger)

theorem asTemplate_notes {vars : Object} {t : PreTemplate} {template : Template}
    {p : RequiredProviders} {name : String}
    (h : t.asTemplate x g depth vars .new = .ok (template, p)) : NotesHeader (name, template, p) :=
  fun _ hp => ((asTemplate_tracks t .new template p h).2 hp).2

theorem verifyEndpoint_ok {e : Endpoint v} {marker : Marker}
    (h : lt.verifyEndpoint e marker = .ok ()) :
    ∀ s ∈ e.requiredProviders.inner, s ∈ lt.providers := by
  rw [LoadTest.verifyEndpoint, bind_ok] at h
  obtain ⟨-, -, h⟩ := h
  intro s hs
  have hpair : (s, e.requiredProviders.inner[s]) ∈ e.requiredProviders.inner.toList :=
    Std.ExtTreeMap.mem_toList_iff_getElem?_eq_some.mpr (Std.ExtTreeMap.getElem?_eq_some_getElem hs)
  exact verifyProviders_ok.mp h _ (List.mem_append_left _ hpair)

/-- What the endpoints of an accepted config are known to meet. -/
theorem fromConfig_traced {configPath : String} {envVars : Object} {c : LoadTestPreProcessed}
    (h : LoadTest.fromConfig x g depth v configPath envVars c = .ok lt) :
    ∀ e ∈ lt.endpoints, e.Traced ∧ ∀ s ∈ e.requiredProviders.inner, s ∈ lt.providers := by
  simp only [LoadTest.fromConfig, bind_ok] at h
  obtain ⟨vars, -, globalLoadPattern, -, globalHeaders, hheaders, keepalive, -, requestTimeout, -,
    bucketSize, -, watchTransitionTime, -, endpoints, hendpoints, providers, -, lt', hloggers, u,
    hverify, h⟩ := h
  cases h
  have hheaders : ∀ h ∈ globalHeaders, NotesHeader h := by
    refine mapM_forall (fun a b hb => ?_) hheaders
    obtain ⟨⟨t, p⟩, ht, hb⟩ := bind_ok.mp hb
    cases hb
    exact asTemplate_notes (parsed_ok.mp ht)
  have htraced : ∀ e ∈ endpoints, e.Traced :=
    mapM_forall (fun a e he => Endpoint.fromPreprocessed_traced hheaders he) hendpoints
  have hlength : endpoints.length = (c.endpoints.map (·.marker)).length := by
    rw [← (mapM_ok_iff.mp hendpoints).length_eq, List.length_zipIdx, List.length_map]
  obtain ⟨htraced, hlength⟩ := foldlM_keeps
    (P := fun lt : LoadTest v => (∀ e ∈ lt.endpoints, e.Traced) ∧
      lt.endpoints.length = (c.endpoints.map (·.marker)).length)
    (fun lt logger lt' hlt h => by
      obtain ⟨htraced, hlength⟩ := addLogger_traced hlt.1 h
      exact ⟨htraced, hlength.trans hlt.2⟩)
    ⟨htraced, hlength⟩ hloggers
  intro e he
  rw [← List.map_fst_zip hlength.le] at he
  obtain ⟨⟨e, marker⟩, hmem, rfl⟩ := List.mem_map.mp he
  exact ⟨htraced e (List.of_mem_zip hmem).1, verifyEndpoint_ok (forM_ok hverify _ hmem)⟩

namespace Endpoint

variable {e : Endpoint v} {roots : String → List String}

/-- A name is in the data of a position where it has a stream, is declared or is put there. -/
theorem present_iff {pos : Position} {name : String} :
    (∀ timed items, List.Forall₂ Source.Gives (e.streamCollection timed lt) items →
      ∀ request response rtt body error,
        ((pos.data (Prepared.ofItems e.noAutoReturns items).values
          (.complete request response rtt body) (some error)).field name).isSome) ↔
      name ∈ e.providersToStream.inner ∧ name ∈ lt.providers ∨ name ∈ e.declares ∨
        name ∈ pos.special := by
  simp only [Position.data_complete]
  constructor
  · intro h
    have hitems := gives_items (e.streamCollection true lt)
    rcases h true _ hitems .null [] 0 none .timeout with hspecial | hvalue
    · exact .inr (.inr hspecial)
    · rw [ofItems_isSome hitems, mem_streamCollection, declare_mem_streamCollection] at hvalue
      exact hvalue.imp_right .inl
  · intro h timed items hitems _ _ _ _ _
    rw [ofItems_isSome hitems, mem_streamCollection, declare_mem_streamCollection]
    tauto

theorem Complete.proper (h : e.Complete roots x lt) : e.Proper roots lt where
  declared read hread := ⟨fun _ => (h.declared read hread).1, (h.declared read hread).2⟩
  special pos read hread name hname hs := by
    rcases present_iff.mp (h.present pos read hread name hname) with hstream | hrest
    · exact absurd (e.providersToStream.plain name hstream.1) hs
    · exact hrest
  selected pos read hread name hname hs _ := by
    rcases present_iff.mp (h.present pos read hread name hname) with hstream | hdeclared | hspecial
    · exact .inr hstream
    · exact .inl hdeclared
    · exact absurd (Position.isSpecial hspecial) hs
  logs read hread hname hs := by
    rcases h.known .logs read hread _ hname with hprovider | hdeclared | hadds
    · exact .inl hprovider
    · exact .inr hdeclared
    · exact absurd (Position.isSpecial (Position.adds_iff.mp hadds)) hs

/-- What an endpoint refers to is in the data, where what is not checked is so as well. -/
theorem Proper.complete (ht : e.Traced) (hv : ∀ s ∈ e.requiredProviders.inner, s ∈ lt.providers)
    (h : e.Proper roots lt) : e.Complete roots x lt := by
  have hplaced : ∀ pos read, (read, false) ∈ e.lookups pos → ∀ name ∈ read.names roots,
      name ∈ e.providersToStream.inner ∧ name ∈ lt.providers ∨ name ∈ e.declares ∨
        name ∈ pos.special := by
    intro pos read hlookup name hname
    have hread := read_of_lookup hlookup
    by_cases hs : IsSpecial name
    · exact .inr (h.special pos read hlookup name hname hs)
    by_cases hkey : name = read.key
    · subst hkey
      rcases ht.streamed pos read hread hs with hstream | hdeclared
      · by_cases hlogs : pos = .logs
        · subst hlogs
          rcases h.logs read hlookup hname hs with hprovider | hdeclared
          · exact .inl ⟨hstream, hprovider⟩
          · exact .inr (.inl hdeclared)
        · rcases ht.required pos hlogs read hread hs with hrequired | hdeclared
          · exact .inl ⟨hstream, hv _ hrequired⟩
          · exact .inr (.inl hdeclared)
      · exact .inr (.inl hdeclared)
    · rcases h.selected pos read hlookup name hname hs hkey with hdeclared | hstream
      · exact .inr (.inl hdeclared)
      · exact .inl hstream
  have hdeclared : ∀ read ∈ e.declareReads, read.key ∈ lt.providers := by
    intro read hread
    by_cases hs : IsSpecial read.key
    · exact (h.declared read hread).1 hs
    · rcases ht.declared read hread hs with hrequired | hnone
      · exact hv _ hrequired
      · cases hnone
  refine ⟨fun pos read hread name hname => ?_,
    fun read hread => ⟨hdeclared read hread, (h.declared read hread).2⟩,
    fun d hd Ar z draws streams hstreams => ?_,
    fun pos read hread name hname => present_iff.mpr (hplaced pos read hread name hname)⟩
  · rw [Position.adds_iff]
    exact (hplaced pos read hread name hname).imp_left fun hstream => hstream.2
  · refine (d.2.intoStream_isSome false).mpr fun s hs => hstreams s ?_
    obtain ⟨read, hread, rfl⟩ := List.mem_map.mp (d.2.sources_subset hs)
    exact hdeclared read (List.mem_flatMap.mpr ⟨d, hd, hread⟩)

end Endpoint

end Checked

/-! ### An endpoint that declares a name and logs it -/

section Declaring

/-- Every expression is one name, and no template has one. -/
def onlyNames : Grammar where
  parse rule text :=
    if rule = .entryPoint then
      some [.mk .expression text [.mk .value text [.mk .jsonPath text [.mk .jsonIdent text []]]],
        .mk .eoi "" []]
    else some [.mk rule text [.mk .templateNotExpression text []]]
  number _ := none

def nameExpression (s : String) : Expression :=
  .mk none (.value (.path (.mk (.ident s) [] ⟨1, 1⟩))) none

theorem parseText_name (noErr : Bool) (s : String) (p : RequiredProviders) :
    parseText .plain onlyNames [] noErr ⟨1, 1⟩ 1 s p =
      .ok (nameExpression s, p.extend (RequiredProviders.new.insert s ⟨1, 1⟩)) := by
  rw [parseText]
  simp [onlyNames, parseExpression, Pieces.expression, parseExpressionPieces, parseExpressionPiece,
    parseValue, parseValuePair, parsePathPairs, parsePathPair, PathPieces.path, providerName,
    Object.get, Except.bind, Except.map, notOf, Expression.setNot, mergeNot,
    expressionHelper_single, nameExpression]

theorem asTemplate_text (t : PreTemplate) (p : RequiredProviders) :
    t.asTemplate .plain onlyNames 1 [] p = .ok (.mk [.notExpression t.text.inner] t.noFail, p) := by
  simp [PreTemplate.asTemplate, Template.new, onlyNames, Template.newPieces, Template.newPiece,
    Except.bind, Except.map]

def Values.plain : Values where
  LoadPattern := Unit
  HitsPer := Unit
  var _ _ := .ok .null
  loadPattern _ _ := .ok ()
  hitsPer _ _ := .ok ()
  duration _ _ := .ok 0

/-- An endpoint that declares `a` and logs it. -/
def logsDeclared (text : String) : EndpointPreProcessed where
  declare := Std.ExtTreeMap.insert ∅ "a" ⟨text, ⟨1, 1⟩⟩
  headers := []
  body := none
  loadPattern := none
  method := .get
  onDemand := false
  peakLoad := none
  tags := ∅
  url := .new ⟨"http://localhost", ⟨1, 1⟩⟩
  provides := []
  logs := [("l", ⟨⟨.string "a", ⟨1, 1⟩⟩, [], none⟩)]
  maxParallelRequests := none
  noAutoReturns := false
  requestTimeout := none
  marker := ⟨1, 1⟩

def declaringConfig (text : String) : LoadTestPreProcessed where
  config := ⟨.default ⟨1, 1⟩, .default ⟨1, 1⟩⟩
  endpoints := [logsDeclared text]
  loadPattern := none
  providers := Std.ExtTreeMap.insert ∅ "a" (.response {})
  loggers := Std.ExtTreeMap.insert ∅ "l"
    ⟨none, [], none, .new ⟨"out", ⟨1, 1⟩⟩, false, none, false⟩
  vars := ∅

def logSelect : Select where
  join := []
  referencesForEach := false
  whereReferencesForEach := false
  select := .expression (.fromExpression (nameExpression "a"))
  whereClause := none
  noRecoverableError := true

/-- What `logsDeclared` comes to, without its logs and with them. -/
def declaringEndpoint (text : String) : Endpoint .plain where
  body := .none
  declare := [("a", .fromExpression (nameExpression text))]
  headers := []
  loadPattern := none
  logs := []
  maxParallelRequests := none
  method := .get
  noAutoReturns := false
  onDemand := false
  peakLoad := none
  provides := []
  providersToStream := RequiredProviders.new.remove "a"
  requiredProviders :=
    (RequiredProviders.new.extend (RequiredProviders.new.insert text ⟨1, 1⟩)).extend
      (RequiredProviders.new.remove "a")
  requestTimeout := none
  tags := (allTags (logsDeclared text) 0 (.mk [.notExpression "http://localhost"] false)).toList.map
    fun t => (t.1, .mk [.notExpression t.2.text.inner] true)
  url := .mk [.notExpression "http://localhost"] false

def loggingEndpoint (text : String) : Endpoint .plain :=
  { declaringEndpoint text with
    logs := [("l", logSelect)]
    providersToStream := (RequiredProviders.new.remove "a").extend
      (RequiredProviders.new.extend (RequiredProviders.new.insert "a" ⟨1, 1⟩)) }

theorem noting_ok {α β : Type}
    {f : α → RequiredProviders → Except SelectParser.Failure (β × RequiredProviders)} {b : α → β}
    (hf : ∀ a p, f a p = .ok (b a, p)) (l : List α) (p : RequiredProviders) :
    noting f l p = .ok (l.map b, p) := by
  induction l with
  | nil => rfl
  | cons a l ih => simp [noting, hf, ih, Except.bind, Except.map]

theorem tags_text (ts : List (String × PreTemplate)) (p : RequiredProviders) :
    noting (keyed fun (t : PreTemplate) => PreTemplate.asTemplate .plain onlyNames 1 []
      { t with noFail := true }) ts p =
      .ok (ts.map fun t => (t.1, .mk [.notExpression t.2.text.inner] true), p) :=
  noting_ok (fun t p => by simp [keyed, asTemplate_text, Except.map]) ts p

theorem declared_name (text : String) (p : RequiredProviders) :
    noting (keyed (declared .plain onlyNames 1 []))
      (Std.ExtTreeMap.toList (logsDeclared text).declare) p =
      .ok ([("a", .fromExpression (nameExpression text))],
        p.extend (RequiredProviders.new.insert text ⟨1, 1⟩)) := by
  have hlist : Std.ExtTreeMap.toList (logsDeclared text).declare = [("a", ⟨text, ⟨1, 1⟩⟩)] := rfl
  rw [hlist]
  simp [noting, keyed, declared, ValueOrExpression.new, parseText_name, Except.bind, Except.map]

theorem logSelect_new (p : RequiredProviders) :
    Select.new .plain onlyNames [] true 1 ⟨[], ⟨.string "a", ⟨1, 1⟩⟩, none⟩ p =
      .ok (logSelect,
        p.extend (RequiredProviders.new.extend (RequiredProviders.new.insert "a" ⟨1, 1⟩))) := by
  have hs : (RequiredProviders.new.insert "a" ⟨1, 1⟩).special = 0 := by
    rw [(RequiredProviders.insert_of_plain rfl).2, RequiredProviders.new_special]
  simp [Select.new, Select.newJoins, Select.newWhere, parseSelect, ValueOrExpression.new,
    parseText_name, Except.bind, Except.map, RequiredProviders.refersToForEach, logSelect, hs]

theorem logsDeclared_loads (text : String) :
    Endpoint.fromPreprocessed .plain onlyNames 1 .plain [] none [] "" (logsDeclared text) 0 =
      .ok (loggingEndpoint text) := by
  have hlog : (declaringEndpoint text).appendLogger .plain onlyNames 1 .plain [] "l"
      ⟨⟨.string "a", ⟨1, 1⟩⟩, [], none⟩ = .ok (loggingEndpoint text) := by
    simp only [Endpoint.appendLogger, logSelect_new, parsed_ok, bind_ok]
    exact ⟨_, rfl, rfl⟩
  have hlogs : (logsDeclared text).logs.foldlM
      (fun e log => e.appendLogger .plain onlyNames 1 .plain [] log.1 log.2)
      (declaringEndpoint text) = .ok (loggingEndpoint text) := by
    rw [logsDeclared, List.foldlM_cons, hlog]
    rfl
  simp only [Endpoint.fromPreprocessed, bind_ok, parsed_ok]
  exact ⟨_, rfl, _, rfl, _, rfl, _, rfl, _, asTemplate_text _ _, _, tags_text _ _, _, rfl,
    _, declared_name text _, _, rfl, hlogs⟩

/-- What `declaringConfig` comes to, without its logger and with it. -/
def loadTestOf (text : String) (loggers : BTreeMap Logger) : LoadTest .plain where
  client := ⟨0, 0⟩
  general := ⟨5, 0, true, none, none⟩
  endpoints := [loggingEndpoint text]
  providers := .ofList [("a", Provider.response {})]
  loggers := loggers
  vars := []
  loadTestErrors := [(loggingEndpoint text, ⟨1, 1⟩)].flatMap fun (e, marker) =>
    loadTestErrorsOf (declaringConfig text).providers e marker

def declaringLoadTest (text : String) : LoadTest .plain :=
  loadTestOf text (Std.ExtTreeMap.insert ∅ "l" ⟨"out", false, none, false⟩)

theorem mem_providers {text s : String} : s ∈ (declaringLoadTest text).providers ↔ s = "a" := by
  simpa [declaringLoadTest, loadTestOf] using eq_comm

theorem logger_adds (text : String) :
    (loadTestOf text ∅).addLogger .plain onlyNames 1 "l"
      ⟨none, [], none, .new ⟨"out", ⟨1, 1⟩⟩, false, none, false⟩ =
      .ok (declaringLoadTest text) := by
  have hlogger : LoadTest.loggerFromPreProcessed .plain onlyNames 1 []
      ⟨none, [], none, .new ⟨"out", ⟨1, 1⟩⟩, false, none, false⟩ .new =
      .ok ((⟨"out", false, none, false⟩, none), .new) := by
    have hdest : PreTemplate.evaluate .plain onlyNames 1 [] (.new ⟨"out", ⟨1, 1⟩⟩) = .ok "out" := by
      simp only [PreTemplate.evaluate, asTemplate_text]
      rfl
    simp only [LoadTest.loggerFromPreProcessed, bind_ok]
    exact ⟨_, rfl, _, hdest, rfl⟩
  simp only [LoadTest.addLogger, bind_ok, parsed_ok]
  exact ⟨_, hlogger, _, rfl, rfl⟩

theorem endpoint_verifies {text : String} (h : IsSpecial text ∨ text = "a") :
    (declaringLoadTest text).verifyEndpoint (loggingEndpoint text) ⟨1, 1⟩ = .ok () := by
  simp only [LoadTest.verifyEndpoint, bind_ok]
  refine ⟨(), ?_, verifyProviders_ok.mpr ?_⟩
  · simp [LoadTest.verifyLoggers, loggingEndpoint, declaringLoadTest, loadTestOf]
  · intro p hp
    rw [mem_providers]
    have hs : p.1 ∈ (loggingEndpoint text).requiredProviders.inner := by
      rcases List.mem_append.mp hp with hp | hp
      · exact RequiredProviders.mem_of_mem_toList hp
      · cases hp
    rcases RequiredProviders.mem_extend.mp hs with hs | hs
    · rcases RequiredProviders.mem_extend.mp hs with hs | hs
      · exact absurd hs Std.ExtTreeMap.not_mem_empty
      · rcases RequiredProviders.mem_insert.mp hs with hs | ⟨hspecial, rfl⟩
        · exact absurd hs Std.ExtTreeMap.not_mem_empty
        · exact h.resolve_left fun hspecial' => hspecial' hspecial
    · exact absurd (Std.ExtTreeMap.mem_of_mem_erase hs) Std.ExtTreeMap.not_mem_empty

theorem declaringConfig_loads {text : String} (h : IsSpecial text ∨ text = "a") :
    LoadTest.fromConfig .plain onlyNames 1 .plain "" [] (declaringConfig text) =
      .ok (declaringLoadTest text) := by
  have hendpoints : (declaringConfig text).endpoints.zipIdx.mapM (fun e =>
      Endpoint.fromPreprocessed .plain onlyNames 1 .plain [] none [] "" e.1 e.2) =
      .ok [loggingEndpoint text] :=
    mapM_ok_iff.mpr (.cons (logsDeclared_loads text) .nil)
  simp only [LoadTest.fromConfig, bind_ok]
  refine ⟨_, rfl, _, rfl, _, rfl, _, rfl, _, rfl, _, rfl, _, rfl, _, hendpoints, _, rfl, _, ?_,
    (), ?_, rfl⟩
  · exact bind_ok.mpr ⟨_, logger_adds text, rfl⟩
  · exact bind_ok.mpr ⟨(), endpoint_verifies h, rfl⟩

end Declaring

/-- The plain key that a JSON path begins with. -/
def plainRoots (selector : String) : List String :=
  [String.ofList ((selector.toList.drop 2).takeWhile fun c => c ≠ '.' ∧ c ≠ '[')]

variable {v : Values} {x : Externals} {g : Grammar} {depth : Nat} {lt : LoadTest v}
  {roots : String → List String}

/-- Exactly what the checks leave out keeps an accepted config from being complete. -/
theorem complete_iff {configPath : String} {envVars : Object} {c : LoadTestPreProcessed}
    (h : LoadTest.fromConfig x g depth v configPath envVars c = .ok lt) :
    (∀ e ∈ lt.endpoints, e.Complete roots x lt) ↔ ∀ e ∈ lt.endpoints, e.Proper roots lt := by
  constructor
  · exact fun hall e he => (hall e he).proper
  · intro hall e he
    obtain ⟨ht, hv⟩ := fromConfig_traced h e he
    exact (hall e he).complete ht hv

theorem complete_iff_declaring :
    (∀ e ∈ (declaringLoadTest "a").endpoints,
        e.Complete plainRoots .plain (declaringLoadTest "a")) ↔
      ∀ e ∈ (declaringLoadTest "a").endpoints, e.Proper plainRoots (declaringLoadTest "a") :=
  complete_iff (declaringConfig_loads (.inr rfl))

/-- A special name in `declare` is not looked for among the providers. -/
theorem not_complete :
    ¬ ∀ (roots : String → List String) (x : Externals) (g : Grammar) (depth : Nat) (v : Values)
      (configPath : String) (envVars : Object) (c : LoadTestPreProcessed) (lt : LoadTest v),
      LoadTest.fromConfig x g depth v configPath envVars c = .ok lt →
        ∀ e ∈ lt.endpoints, e.Complete roots x lt := by
  intro h
  have hcomplete := h plainRoots _ _ _ _ _ _ _ _ (declaringConfig_loads (.inl isSpecial_request)) _
    (List.mem_singleton_self _)
  have hread : Read.path "request" none ∈ (loggingEndpoint "request").declareReads :=
    List.mem_singleton_self _
  have hname := mem_providers.mp (hcomplete.declared _ hread).1
  exact absurd hname (by decide)

end Pewpew.Config
