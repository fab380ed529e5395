import Pewpew.Config.Names
import Pewpew.Expression.Growth

/-! The streams that an endpoint consumes, and the names that it declares. -/
namespace Pewpew.Config

open SelectParser Fallible Extending
open Request (BodyTemplate StreamItem Prepared)

/-! ### The parsers of the parts -/

section Appends

variable {α β : Type} {x : Externals} {g : Grammar} {depth : Nat} {vars : Object}
  {f : α → RequiredProviders → Except SelectParser.Failure (β × RequiredProviders)}

theorem keyed_appends (hf : ∀ a, Appends (f a)) (a : String × α) :
    Appends fun p => keyed f a p := by
  refine (hf a.2).map fun b => ?_
  exact ⟨(a.1, b), fun _ => rfl⟩

theorem noting_appends (hf : ∀ a, Appends (f a)) (l : List α) : Appends fun p => noting f l p := by
  induction l with
  | nil => exact extends_ok []
  | cons a l ih =>
    refine (hf a).bind fun b => ?_
    exact ih.map fun bs => ⟨b :: bs, fun _ => rfl⟩

theorem asTemplate_appends (t : PreTemplate) : Appends (t.asTemplate x g depth vars) :=
  Template.new_appends depth t.text.inner

theorem piece_appends (name : String) (piece : BodyMultipartPiece) :
    Appends fun p => piece.process x g depth vars name p := by
  refine (asTemplate_appends piece.body.template).bind fun template => ?_
  refine (noting_appends (keyed_appends asTemplate_appends) piece.headers).map fun headers => ?_
  exact ⟨⟨name, headers, piece.body.isFile, template⟩, fun _ => rfl⟩

theorem body_appends (configPath : String) (body : Option Body) :
    Appends fun p => Body.process x g depth vars configPath p body := by
  cases body with
  | none => exact extends_ok BodyTemplate.none
  | some body =>
    cases body with
    | file t => exact (asTemplate_appends t).map fun t => ⟨.file configPath t, fun _ => rfl⟩
    | string t => exact (asTemplate_appends t).map fun t => ⟨.string t, fun _ => rfl⟩
    | multipart pieces =>
      refine (noting_appends (f := fun e => e.2.process x g depth vars e.1)
        (fun e => piece_appends e.1 e.2) pieces).map fun pieces => ?_
      exact ⟨.multipart ⟨configPath, pieces⟩, fun _ => rfl⟩

theorem provides_appends (hasPeakLoad : Bool) (e : EndpointProvidesPreProcessed) :
    Appends fun p => e.process x g depth vars hasPeakLoad p := by
  refine (Select.new_appends e.toEndpointProvidesPreProcessed).map fun select => ?_
  exact ⟨_, fun _ => rfl⟩

/-- The names of a list of parts are those of each part on its own. -/
theorem mem_noting {l : List α} {bs : List β} {p q : RequiredProviders} {s : String}
    (hf : ∀ a, Appends (f a)) (h : noting f l p = .ok (bs, q)) :
    s ∈ q.inner ↔ s ∈ p.inner ∨ ∃ a ∈ l, Notes (f a) s := by
  induction l generalizing p bs with
  | nil =>
    cases h
    simp
  | cons a l ih =>
    rw [noting, except_bind_ok] at h
    obtain ⟨⟨b, p'⟩, ha, h⟩ := h
    obtain ⟨⟨bs', q'⟩, hl, h⟩ := map_ok.mp h
    cases h
    rw [ih hl, mem_of_appends (hf a) ha, List.exists_mem_cons_iff, or_assoc]

theorem notes_keyed {a : String × α} {s : String} : Notes (keyed f a) s ↔ Notes (f a.2) s := by
  constructor
  · rintro ⟨b, q, h, hs⟩
    obtain ⟨⟨b', q'⟩, ha, h⟩ := map_ok.mp h
    cases h
    exact ⟨b', q, ha, hs⟩
  · rintro ⟨b, q, h, hs⟩
    exact ⟨(a.1, b), q, map_ok.mpr ⟨(b, q), h, rfl⟩, hs⟩

theorem mem_noting_keyed {l : List (String × α)} {bs : List (String × β)}
    {p q : RequiredProviders} {s : String} (hf : ∀ a, Appends (f a))
    (h : noting (keyed f) l p = .ok (bs, q)) :
    s ∈ q.inner ↔ s ∈ p.inner ∨ ∃ a ∈ l, Notes (f a.2) s := by
  rw [mem_noting (keyed_appends hf) h]
  simp only [notes_keyed]

end Appends

/-! ### The streams of an endpoint -/

namespace Endpoint

variable {v : Values}

/-- The endpoint takes values of exactly the providers that are referred to and not declared, and
wherever a name that it declares is read, that is the declared value. -/
structure Shadows (roots : String → List String) (timed : Bool) (lt : LoadTest v)
    (refers : String → Prop) (e : Endpoint v) : Prop where
  consumed : ∀ s, .provider s ∈ e.streamCollection timed lt ↔
    refers s ∧ s ∈ lt.providers ∧ s ∉ e.declares
  read : ∀ pos read tuple, (read, tuple) ∈ e.lookups pos → ∀ name ∈ read.names roots,
    name ∈ e.declares → tuple = false ∧
      ∀ items, List.Forall₂ Source.Gives (e.streamCollection timed lt) items →
        ∀ progress error, ∃ value returns arrived, .declare name value returns arrived ∈ items ∧
          (pos.data (Prepared.ofItems e.noAutoReturns items).values progress error).field name =
            some value
  untouched : ∀ items, List.Forall₂ Source.Gives (e.streamCollection timed lt) items →
    ∀ s value autoReturn arrived, .templateValue s value autoReturn arrived ∈ items →
      s ∉ e.declares

/-- Where a declared name is read, neither the program's own value of that name nor a tuple is. -/
def ReadsDeclared (roots : String → List String) (e : Endpoint v) : Prop :=
  ∀ pos read tuple, (read, tuple) ∈ e.lookups pos → ∀ name ∈ read.names roots,
    name ∈ e.declares → tuple = false ∧ name ∉ pos.special

theorem Shadows.readsDeclared {roots : String → List String} {timed : Bool} {lt : LoadTest v}
    {refers : String → Prop} {e : Endpoint v} (h : e.Shadows roots timed lt refers) :
    e.ReadsDeclared roots := by
  intro pos read tuple hlookup name hname hdeclared
  obtain ⟨htuple, hvalue⟩ := h.read pos read tuple hlookup name hname hdeclared
  refine ⟨htuple, fun hspecial => ?_⟩
  obtain ⟨value, returns, arrived, hitem, hfield⟩ :=
    hvalue _ (gives_items _) (.complete (.bool true) [] 0 none) (some .timeout)
  obtain ⟨source, -, hsource⟩ := List.mem_map.mp hitem
  obtain rfl : value = .null := by
    rcases source with ⟨_ | _⟩ | s | s
    all_goals cases hsource
    rfl
  exact Position.data_overwritten hspecial _ hfield

theorem ReadsDeclared.read {roots : String → List String} {timed : Bool} {lt : LoadTest v}
    {e : Endpoint v} (h : e.ReadsDeclared roots) (hnodup : e.declares.Nodup)
    {pos : Position} {read : Read} {tuple : Bool} (hlookup : (read, tuple) ∈ e.lookups pos)
    {name : String} (hname : name ∈ read.names roots) (hdeclared : name ∈ e.declares) :
    tuple = false ∧ ∀ items, List.Forall₂ Source.Gives (e.streamCollection timed lt) items →
      ∀ progress error, ∃ value returns arrived, .declare name value returns arrived ∈ items ∧
        (pos.data (Prepared.ofItems e.noAutoReturns items).values progress error).field name =
          some value := by
  obtain ⟨htuple, hspecial⟩ := h pos read tuple hlookup name hname hdeclared
  refine ⟨htuple, fun items hitems progress error => ?_⟩
  obtain ⟨value, returns, arrived, hmem, hget⟩ := declared_read hnodup hitems hdeclared
  exact ⟨value, returns, arrived, hmem, (Position.data_kept hspecial progress error).trans hget⟩

end Endpoint

/-! ### The names that an endpoint refers to -/

/-- Where an endpoint refers to providers. -/
inductive Place where
  | url | headers | body | tags | provides | logs | globalLoggers

/-- What is parsed before the declared names are removed. -/
def Place.early : Place → Prop
  | logs | globalLoggers => False
  | _ => True

section Refers

variable (x : Externals) (g : Grammar) (depth : Nat) (vars : Object) (configPath : String)

def LogsPreProcessed.NotesName (log : LogsPreProcessed) (s : String) : Prop :=
  Notes (Select.new x g vars true depth ⟨log.forEach, log.select, log.whereClause⟩) s

/-- A global logger without a `select` logs nothing of an endpoint. -/
def LoggerPreProcessed.NotesName (logger : LoggerPreProcessed) (s : String) : Prop :=
  ∃ select, logger.select = some select ∧
    Notes (Select.new x g vars true depth ⟨logger.forEach, select, logger.whereClause⟩) s

/-- The endpoint of a config refers to a name at a place: the text there, parsed on its own, notes
the name. Headers are those of the endpoint and the global ones that it keeps. -/
def EndpointPreProcessed.RefersAt (c : LoadTestPreProcessed) (endpoint : EndpointPreProcessed)
    (endpointId : Nat) (s : String) : Place → Prop
  | .url => Notes (endpoint.url.asTemplate x g depth vars) s
  | .headers =>
    (∃ h ∈ headersToAdd endpoint.headers, Notes (h.2.asTemplate x g depth vars) s) ∨
      ∃ h ∈ c.config.client.headers,
        (endpoint.headers.any fun (k, t) => k = h.1 && t.isNone) = false ∧
          Notes (h.2.asTemplate x g depth vars) s
  | .body => Notes (fun p => Body.process x g depth vars configPath p endpoint.body) s
  | .tags =>
    ∃ url q, endpoint.url.asTemplate x g depth vars .new = .ok (url, q) ∧
      ∃ t ∈ (allTags endpoint endpointId url).toList,
        Notes (PreTemplate.asTemplate x g depth vars { t.2 with noFail := true }) s
  | .provides =>
    ∃ e ∈ endpoint.provides, Notes (e.2.process x g depth vars endpoint.peakLoad.isSome) s
  | .logs => ∃ log ∈ endpoint.logs, log.2.NotesName x g depth vars s
  | .globalLoggers => ∃ logger ∈ c.loggers.toList, logger.2.NotesName x g depth vars s

def EndpointPreProcessed.Refers (c : LoadTestPreProcessed) (endpoint : EndpointPreProcessed)
    (endpointId : Nat) (s : String) : Prop :=
  ∃ place, endpoint.RefersAt x g depth vars configPath c endpointId s place

end Refers

section Gains

variable {v : Values} {x : Externals} {g : Grammar} {depth : Nat} {vars : Object}
  {e e' e'' : Endpoint v} {names names' : String → Prop} {lt lt' : LoadTest v}

/-- The endpoint consumes the same and the given names, and declares the same. -/
structure Endpoint.Gains (names : String → Prop) (e e' : Endpoint v) : Prop where
  declare : e'.declare = e.declare
  streamed : ∀ s, s ∈ e'.providersToStream.inner ↔ s ∈ e.providersToStream.inner ∨ names s

theorem Endpoint.Gains.trans (h : e.Gains names e') (h' : e'.Gains names' e'') :
    e.Gains (fun s => names s ∨ names' s) e'' := by
  refine ⟨h'.declare.trans h.declare, fun s => ?_⟩
  rw [h'.streamed, h.streamed, or_assoc]

theorem Endpoint.Gains.congr (h : e.Gains names e') (heq : ∀ s, names s ↔ names' s) :
    e.Gains names' e' :=
  ⟨h.declare, fun s => (h.streamed s).trans (or_congr_right (heq s))⟩

theorem Endpoint.gains_self : e.Gains (fun _ => False) e := ⟨rfl, fun _ => by simp⟩

theorem Endpoint.appendLogger_gains {key : String} {log : LogsPreProcessed}
    (h : e.appendLogger x g depth v vars key log = .ok e') :
    e.Gains (log.NotesName x g depth vars) e' := by
  rw [appendLogger, bind_ok] at h
  obtain ⟨⟨select, p⟩, hselect, h⟩ := h
  cases h
  exact ⟨rfl, fun s => mem_of_appends (Select.new_appends _) (parsed_ok.mp hselect)⟩

/-- All logs of an endpoint, by induction on them. -/
theorem Endpoint.appendLoggers_gains {logs : List (String × LogsPreProcessed)}
    (h : logs.foldlM (fun e log => e.appendLogger x g depth v vars log.1 log.2) e = .ok e') :
    e.Gains (fun s => ∃ log ∈ logs, log.2.NotesName x g depth vars s) e' := by
  induction logs generalizing e with
  | nil =>
    cases h
    exact gains_self.congr fun s => by simp
  | cons log logs ih =>
    rw [List.foldlM_cons, bind_ok] at h
    obtain ⟨e₁, hlog, h⟩ := h
    exact ((appendLogger_gains hlog).trans (ih h)).congr fun s => by
      rw [List.exists_mem_cons_iff]

/-- All endpoints alike gain the names of a global logger. -/
structure LoadTest.AllGain (names : String → Prop) (lt lt' : LoadTest v) : Prop where
  providers : lt'.providers = lt.providers
  vars : lt'.vars = lt.vars
  endpoints : ∃ f, lt'.endpoints = lt.endpoints.map f ∧ ∀ e, Endpoint.Gains names e (f e)

theorem addLogger_gains {key : String} {logger : LoggerPreProcessed}
    (h : lt.addLogger x g depth key logger = .ok lt') :
    lt.AllGain (logger.NotesName x g depth lt.vars) lt' := by
  simp only [LoadTest.addLogger, bind_ok, parsed_ok] at h
  obtain ⟨⟨⟨parsedLogger, select⟩, p⟩, hlogger, -, -, h⟩ := h
  rw [LoadTest.loggerFromPreProcessed.eq_def] at hlogger
  cases hs : logger.select with
  | none =>
    simp only [hs, bind_ok] at hlogger
    obtain ⟨⟨select', q⟩, hselect, dest, -, hlogger⟩ := hlogger
    cases hselect
    cases hlogger
    cases h
    refine ⟨rfl, rfl, id, (List.map_id _).symm, fun e => ?_⟩
    exact Endpoint.gains_self.congr fun s => by simp [LoggerPreProcessed.NotesName, hs]
  | some preSelect =>
    simp only [hs, bind_ok] at hlogger
    obtain ⟨⟨select', q⟩, hselect, dest, -, hlogger⟩ := hlogger
    obtain ⟨⟨select'', q'⟩, hnew, hselect⟩ := map_ok.mp hselect
    cases hselect
    cases hlogger
    cases h
    refine ⟨rfl, rfl, _, rfl, fun e => ⟨rfl, fun s => ?_⟩⟩
    have hnotes : logger.NotesName x g depth lt.vars s ↔ s ∈ q'.inner := by
      simp only [LoggerPreProcessed.NotesName, hs, Option.some.injEq, exists_eq_left']
      exact notes_iff hnew
    exact RequiredProviders.mem_extend.trans (or_congr_right hnotes.symm)

theorem addLoggers_gains {loggers : List (String × LoggerPreProcessed)}
    (h : loggers.foldlM (fun lt logger => lt.addLogger x g depth logger.1 logger.2) lt =
      .ok lt') :
    lt.AllGain (fun s => ∃ logger ∈ loggers, logger.2.NotesName x g depth lt.vars s) lt' := by
  induction loggers generalizing lt with
  | nil =>
    cases h
    refine ⟨rfl, rfl, id, (List.map_id _).symm, fun e => ?_⟩
    exact Endpoint.gains_self.congr fun s => by simp
  | cons logger loggers ih =>
    rw [List.foldlM_cons, bind_ok] at h
    obtain ⟨lt₁, hlogger, h⟩ := h
    obtain ⟨hproviders, hvars, f, hf, hgains⟩ := addLogger_gains hlogger
    obtain ⟨hproviders', hvars', f', hf', hgains'⟩ := ih h
    refine ⟨hproviders'.trans hproviders, hvars'.trans hvars, f' ∘ f, ?_, fun e => ?_⟩
    · rw [hf', hf, List.map_map]
    · rw [hvars] at hgains'
      exact ((hgains e).trans (hgains' (f e))).congr fun s => by
        rw [List.exists_mem_cons_iff]

end Gains

section Streamed

variable {v : Values} {x : Externals} {g : Grammar} {depth : Nat} {vars : Object}
  {configPath : String} {c : LoadTestPreProcessed} {endpoint : EndpointPreProcessed}
  {endpointId : Nat} {globalHeaders : List (String × Template × RequiredProviders)}
  {globalLoadPattern : Option v.LoadPattern} {e : Endpoint v} {s : String}

/-- A global header of the config, and what has been parsed of it. -/
def HeaderParsed (x : Externals) (g : Grammar) (depth : Nat) (vars : Object)
    (h : String × PreTemplate) (h' : String × Template × RequiredProviders) : Prop :=
  h'.1 = h.1 ∧ h.2.asTemplate x g depth vars .new = .ok h'.2

theorem globalHeaders_parsed {hs : List (String × PreTemplate)}
    (h : hs.mapM (fun (k, t) => do
      let (t, p) ← parsed <| t.asTemplate x g depth vars .new
      return (k, t, p)) = .ok globalHeaders) :
    List.Forall₂ (HeaderParsed x g depth vars) hs globalHeaders := by
  refine (mapM_ok_iff.mp h).imp fun header header' hparsed => ?_
  obtain ⟨⟨t, p⟩, ht, hparsed⟩ := bind_ok.mp hparsed
  cases hparsed
  exact ⟨rfl, parsed_ok.mp ht⟩

theorem mem_extendHeaders {hs : List (String × Template × RequiredProviders)}
    {p : RequiredProviders} :
    s ∈ (hs.foldl (fun p h => p.extend h.2.2) p).inner ↔
      s ∈ p.inner ∨ ∃ h ∈ hs, s ∈ h.2.2.inner := by
  induction hs generalizing p with
  | nil => simp
  | cons h hs ih =>
    rw [List.foldl_cons, ih, RequiredProviders.mem_extend, List.exists_mem_cons_iff, or_assoc]

theorem mem_keptHeaders {headers : List (String × Option PreTemplate)}
    {hs : List (String × PreTemplate)}
    (hglobal : List.Forall₂ (HeaderParsed x g depth vars) hs globalHeaders) :
    (∃ h ∈ keptHeaders headers globalHeaders, s ∈ h.2.2.inner) ↔
      ∃ h ∈ hs, (headers.any fun (k, t) => k = h.1 && t.isNone) = false ∧
        Notes (h.2.asTemplate x g depth vars) s := by
  simp only [keptHeaders, List.mem_filter, Bool.not_eq_true', and_assoc]
  induction hglobal with
  | nil => simp
  | cons hparsed _ ih =>
    obtain ⟨hkey, hparsed⟩ := hparsed
    rw [List.exists_mem_cons_iff, List.exists_mem_cons_iff, ih, hkey, notes_iff hparsed]

/-- The accumulated names before the declared ones are removed. -/
theorem mem_early {added : List (String × Template)}
    {provides : List (String × Request.EndpointProvidesSendOptions × Select)} {url : Template}
    {tags : List (String × Template)} {body : BodyTemplate} {p₁ p₃ p₄ p₅ p₆ : RequiredProviders}
    (hglobal : List.Forall₂ (HeaderParsed x g depth vars) c.config.client.headers globalHeaders)
    (hadded : noting (keyed (PreTemplate.asTemplate x g depth vars))
      (headersToAdd endpoint.headers) .new = .ok (added, p₁))
    (hprovides : noting
      (keyed (EndpointProvidesPreProcessed.process x g depth vars endpoint.peakLoad.isSome))
      endpoint.provides
      ((keptHeaders endpoint.headers globalHeaders).foldl (fun p h => p.extend h.2.2) p₁) =
        .ok (provides, p₃))
    (hurl : endpoint.url.asTemplate x g depth vars p₃ = .ok (url, p₄))
    (htags : noting
      (keyed fun t => PreTemplate.asTemplate x g depth vars { t with noFail := true })
      (allTags endpoint endpointId url).toList p₄ = .ok (tags, p₅))
    (hbody : Body.process x g depth vars configPath p₅ endpoint.body = .ok (body, p₆)) :
    s ∈ p₆.inner ↔ ∃ place : Place, place.early ∧
      endpoint.RefersAt x g depth vars configPath c endpointId s place := by
  have hnew : s ∉ RequiredProviders.new.inner := Std.ExtTreeMap.not_mem_empty
  obtain ⟨url', _, hurl', hnewUrl⟩ := (asTemplate_appends endpoint.url).of_ok hurl
  obtain rfl : url = url' := (Prod.mk.inj hurl').1
  rw [mem_of_appends (body_appends configPath endpoint.body) hbody,
    mem_noting_keyed (fun t : PreTemplate => asTemplate_appends { t with noFail := true }) htags,
    mem_of_appends (asTemplate_appends endpoint.url) hurl,
    mem_noting_keyed (provides_appends endpoint.peakLoad.isSome) hprovides, mem_extendHeaders,
    mem_keptHeaders hglobal, mem_noting_keyed asTemplate_appends hadded]
  constructor
  · rintro ((((((hs | hs) | hs) | hs) | hs) | hs) | hs)
    · exact absurd hs hnew
    · exact ⟨.headers, trivial, .inl hs⟩
    · exact ⟨.headers, trivial, .inr hs⟩
    · exact ⟨.provides, trivial, hs⟩
    · exact ⟨.url, trivial, hs⟩
    · exact ⟨.tags, trivial, url, _, hnewUrl .new, hs⟩
    · exact ⟨.body, trivial, hs⟩
  · rintro ⟨place, hearly, hs⟩
    cases place with
    | body => exact .inr hs
    | tags =>
      obtain ⟨url', q, hurl', hs⟩ := hs
      rw [hnewUrl] at hurl'
      cases hurl'
      exact .inl (.inr hs)
    | url => exact .inl (.inl (.inr hs))
    | provides => exact .inl (.inl (.inl (.inr hs)))
    | headers =>
      rcases hs with hs | hs
      · exact .inl (.inl (.inl (.inl (.inl (.inr hs)))))
      · exact .inl (.inl (.inl (.inl (.inr hs))))
    | logs | globalLoggers => exact hearly.elim

/-- What an endpoint consumes before the global loggers are added. -/
theorem fromPreprocessed_streamed
    (hglobal : List.Forall₂ (HeaderParsed x g depth vars) c.config.client.headers globalHeaders)
    (h : Endpoint.fromPreprocessed x g depth v vars globalLoadPattern globalHeaders configPath
      endpoint endpointId = .ok e) :
    e.declares = endpoint.declare.keys ∧ ∀ s, s ∈ e.providersToStream.inner ↔
      ((∃ place : Place, place.early ∧
        endpoint.RefersAt x g depth vars configPath c endpointId s place) ∧
          s ∉ endpoint.declare) ∨
        endpoint.RefersAt x g depth vars configPath c endpointId s .logs := by
  simp only [Endpoint.fromPreprocessed, bind_ok, parsed_ok] at h
  obtain ⟨⟨added, p₁⟩, hadded, ⟨provides, p₃⟩, hprovides, loadPattern, -, peakLoad, -,
    ⟨url, p₄⟩, hurl, ⟨tags, p₅⟩, htags, ⟨body, p₆⟩, hbody, ⟨declare, q⟩, hdeclare,
    requestTimeout, -, h⟩ := h
  obtain ⟨hsame, hlogs⟩ := Endpoint.appendLoggers_gains h
  constructor
  · rw [Endpoint.declares, hsame, noting_keys hdeclare, Std.ExtTreeMap.map_fst_toList_eq_keys]
  · intro s
    rw [hlogs, mem_removed, mem_early hglobal hadded hprovides hurl htags hbody,
      Std.ExtTreeMap.mem_keys]
    rfl

end Streamed

section Loaded

variable {v : Values} {x : Externals} {g : Grammar} {depth : Nat} {configPath : String}
  {envVars : Object} {c : LoadTestPreProcessed} {lt : LoadTest v} {i : Nat} {e : Endpoint v}
  {s : String}

/-- What an endpoint of an accepted config declares and consumes, and the providers there are. -/
theorem fromConfig_streamed
    (h : LoadTest.fromConfig x g depth v configPath envVars c = .ok lt)
    (he : lt.endpoints[i]? = some e) :
    (∀ s, s ∈ lt.providers ↔ s ∈ c.providers) ∧ ∃ endpoint, c.endpoints[i]? = some endpoint ∧
      e.declares = endpoint.declare.keys ∧ ∀ s, s ∈ e.providersToStream.inner ↔
        (((∃ place : Place, place.early ∧
          endpoint.RefersAt x g depth lt.vars configPath c i s place) ∧ s ∉ endpoint.declare) ∨
            endpoint.RefersAt x g depth lt.vars configPath c i s .logs) ∨
              endpoint.RefersAt x g depth lt.vars configPath c i s .globalLoggers := by
  simp only [LoadTest.fromConfig, bind_ok] at h
  obtain ⟨vars, -, globalLoadPattern, -, globalHeaders, hheaders, keepalive, -, requestTimeout, -,
    bucketSize, -, watchTransitionTime, -, endpoints, hendpoints, providers, hproviders, lt',
    hloggers, -, -, h⟩ := h
  cases h
  obtain ⟨hprovidersEq, hvars, f, hf, hgains⟩ := addLoggers_gains hloggers
  rw [hf, List.getElem?_map, Option.map_eq_some_iff] at he
  obtain ⟨e₀, he₀, rfl⟩ := he
  obtain ⟨⟨endpoint, j⟩, hendpoint, hload⟩ := mapM_getElem? hendpoints he₀
  rw [List.getElem?_zipIdx, Option.map_eq_some_iff, Nat.zero_add] at hendpoint
  obtain ⟨endpoint', hendpoint, hpair⟩ := hendpoint
  cases hpair
  have hkeys : providers.map Prod.fst = c.providers.keys := by
    rw [mapM_map_eq (k := Prod.fst) ?_ hproviders, Std.ExtTreeMap.map_fst_toList_eq_keys]
    intro p p' hp
    obtain ⟨q, -, hp⟩ := bind_ok.mp hp
    cases hp
    rfl
  obtain ⟨hdeclares, hstreamed⟩ :=
    fromPreprocessed_streamed (globalHeaders_parsed hheaders) hload
  constructor
  · intro s
    rw [hprovidersEq, Std.ExtTreeMap.mem_ofList, hkeys, List.contains_iff_mem,
      Std.ExtTreeMap.mem_keys]
  · refine ⟨endpoint, hendpoint, ?_, fun s => ?_⟩
    · rw [Endpoint.declares, (hgains e₀).declare]
      exact hdeclares
    · rw [(hgains e₀).streamed, hstreamed, hvars]
      rfl

end Loaded

end Pewpew.Config
