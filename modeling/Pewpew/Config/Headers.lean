import Pewpew.Config.Shadowing

/-! Global headers merged with those of an endpoint, up to the request that is sent. -/
namespace Pewpew.Config

open SelectParser Fallible
open Request (Http HeaderMap RequestMaker TestError header evaluateText)

/-- The name of a header in lower case, which HTTP does not distinguish from it. -/
def lowerName (name : String) : String := String.ofList (name.toList.map Char.toLower)

/-- Header names are made lower case as they are read. -/
def LowersNames (http : Http) : Prop := ∀ s name, http.headerName s = .ok name → name = lowerName s

/-- The values that a header has, in their order. -/
def valuesOf (headers : HeaderMap) (name : String) : List String :=
  (headers.filter (·.1 = name)).map Prod.snd

/-- Whether an endpoint unsets the global headers of the name. -/
def nulled (headers : List (String × Option PreTemplate)) (name : String) : Bool :=
  headers.any fun (k, t) => lowerName k = lowerName name && t.isNone

/-- The headers that an endpoint has to send: the global ones that it does not unset, and then its
own. -/
def headersToSend (global : List (String × PreTemplate))
    (headers : List (String × Option PreTemplate)) : List (String × PreTemplate) :=
  (global.filter fun h => !nulled headers h.1) ++ headersToAdd headers

section Merges

variable (x : Externals) (g : Grammar) (depth : Nat) (vars : Object)

/-- A header of an endpoint is made of one in the config file. -/
def HeaderMade (h : String × PreTemplate) (h' : String × Template) : Prop :=
  h'.1 = h.1 ∧ ∃ q, h.2.asTemplate x g depth vars .new = .ok (h'.2, q)

/-- A header of the config file is sent under a name, with the value that its template has. -/
def HeaderSent (http : Http) (d : Json) (name : String) (h : String × PreTemplate)
    (value : String) : Prop :=
  ∃ h', HeaderMade x g depth vars h h' ∧ header x http d h' = .ok (name, value)

/-- The endpoint `e` of a load test has the headers that it has to send, in their order, and takes
the providers that these require. Each name has the values of all headers of that name, also in the
request that is sent, where `host`, `content-length` and a multipart body's content type are set. -/
structure MergesHeaders {v : Values} (configPath : String) (c : LoadTestPreProcessed)
    (endpoint : EndpointPreProcessed) (endpointId : Nat) (e : Endpoint v) : Prop where
  headers : List.Forall₂ (HeaderMade x g depth vars)
    (headersToSend c.config.client.headers endpoint.headers) e.headers
  read : ∀ (http : Http) (m : RequestMaker) (d : Json) (sent : HeaderMap),
    LowersNames http → m.headers = e.headers → m.headersOf x http d = .ok sent → ∀ name,
      List.Forall₂ (HeaderSent x g depth vars http d name)
        ((headersToSend c.config.client.headers endpoint.headers).filter (lowerName ·.1 = name))
        (valuesOf sent name)
  sent : ∀ (http : Http) (m : RequestMaker) (d : Json) (headers : HeaderMap) (body : Request.Body)
    (host name : String),
    LowersNames http → m.headers = e.headers → m.headersOf x http d = .ok headers →
      m.bodyOf x http d headers = .ok body → name ≠ "host" → name ≠ "content-length" →
      (∀ mp, m.body = .multipart mp → name ≠ "content-type") →
        List.Forall₂ (HeaderSent x g depth vars http d name)
          ((headersToSend c.config.client.headers endpoint.headers).filter (lowerName ·.1 = name))
          (valuesOf (RequestMaker.finalHeaders body host) name)
  recorded : ∀ s, s ∈ e.providersToStream.inner ↔
    (((∃ h ∈ headersToSend c.config.client.headers endpoint.headers,
        Notes (h.2.asTemplate x g depth vars) s) ∨
      ∃ place : Place, place.early ∧ place ≠ .headers ∧
        endpoint.RefersAt x g depth vars configPath c endpointId s place) ∧
          s ∉ endpoint.declare) ∨
      endpoint.RefersAt x g depth vars configPath c endpointId s .logs ∨
        endpoint.RefersAt x g depth vars configPath c endpointId s .globalLoggers

end Merges

variable {v : Values} {x : Externals} {g : Grammar} {depth : Nat} {vars envVars : Object}
  {configPath : String} {c : LoadTestPreProcessed} {endpoint : EndpointPreProcessed}
  {endpointId : Nat} {e : Endpoint v} {lt : LoadTest v} {http : Http} {m : RequestMaker} {d : Json}
  {hs : List (String × PreTemplate)} {hs' : List (String × Template)} {name key value : String}

theorem valuesOf_insert {headers : HeaderMap} (h : name ≠ key) :
    valuesOf (headers.insert key value) name = valuesOf headers name := by
  have hadded : [(key, value)].filter (·.1 = name) = [] := by simp [h.symm]
  rw [valuesOf, HeaderMap.insert, List.filter_append, hadded, List.append_nil, List.filter_filter,
    valuesOf]
  congr 1
  refine List.filter_congr fun e _ => ?_
  by_cases he : e.1 = name
  · simp [he, h]
  · simp [he]

theorem valuesOf_assign {headers : HeaderMap} (h : name ≠ key) :
    valuesOf (headers.assign key value) name = valuesOf headers name := by
  induction headers with
  | nil => simp [HeaderMap.assign, valuesOf, h.symm]
  | cons header headers ih =>
    rw [HeaderMap.assign]
    split
    · next hkey => simp [valuesOf, hkey, h.symm]
    · by_cases hname : header.1 = name <;> simpa [valuesOf, hname] using ih

/-- Only a multipart body changes a header, its content type. -/
theorem valuesOf_body {headers : HeaderMap} {body : Request.Body}
    (h : m.bodyOf x http d headers = .ok body)
    (hname : ∀ mp, m.body = .multipart mp → name ≠ "content-type") :
    valuesOf body.headers name = valuesOf headers name := by
  rw [RequestMaker.bodyOf] at h
  cases hb : m.body with
  | file path t =>
    rw [hb] at h
    simp only [Request.bodyTemplateAsHyperBody, bind_ok] at h
    obtain ⟨file, -, ⟨length, stream⟩, -, h⟩ := h
    cases h
    rfl
  | multipart mp =>
    rw [hb] at h
    simp only [Request.bodyTemplateAsHyperBody, Request.multipartBodyAsHyperBody, bind_ok] at h
    obtain ⟨⟨value, isForm⟩, -, pieces, -, results, -, h⟩ := h
    cases h
    exact valuesOf_assign (hname mp hb)
  | none =>
    rw [hb] at h
    cases h
    rfl
  | string t =>
    rw [hb] at h
    simp only [Request.bodyTemplateAsHyperBody, bind_ok] at h
    obtain ⟨text, -, h⟩ := h
    cases h
    rfl

theorem valuesOf_final {body : Request.Body} {host : String} (hhost : name ≠ "host")
    (hlength : name ≠ "content-length") :
    valuesOf (RequestMaker.finalHeaders body host) name = valuesOf body.headers name := by
  rw [RequestMaker.finalHeaders]
  split
  · rw [valuesOf_insert hlength, valuesOf_insert hhost]
  · rw [valuesOf_insert hhost]

theorem forall₂_filter {α β : Type} {R : α → β → Prop} {p : α → Bool} {q : β → Bool} {l : List α}
    {l' : List β} (h : List.Forall₂ R l l') (hpq : ∀ a b, R a b → p a = q b) :
    List.Forall₂ (fun a b => R a b ∧ q b = true) (l.filter p) (l'.filter q) := by
  induction h with
  | nil => exact .nil
  | cons hab _ ih =>
    rw [List.filter_cons, List.filter_cons, hpq _ _ hab]
    split
    · next hb => exact .cons ⟨hab, hb⟩ ih
    · exact ih

theorem header_name (hlower : LowersNames http) {h : String × Template} {e : String × String}
    (he : header x http d h = .ok e) : e.1 = lowerName h.1 := by
  simp only [header, bind_ok] at he
  obtain ⟨k, hk, text, -, value, -, he⟩ := he
  cases he
  cases hn : http.headerName h.1 with
  | error err =>
    rw [hn] at hk
    cases hk
  | ok name =>
    rw [hn] at hk
    cases hk
    exact hlower _ _ hn

theorem forall₂_trans {α β γ : Type} {R : α → β → Prop} {S : β → γ → Prop} {l : List α}
    {l' : List β} {l'' : List γ} (h : List.Forall₂ R l l') (h' : List.Forall₂ S l' l'') :
    List.Forall₂ (fun a c => ∃ b, R a b ∧ S b c) l l'' := by
  induction h generalizing l'' with
  | nil =>
    cases h'
    exact .nil
  | cons hab _ ih =>
    cases h' with
    | cons hbc h' => exact .cons ⟨_, hab, hbc⟩ (ih h')

/-- Of each name, the headers that are read are those that the endpoint has. -/
theorem read_of_made {headers : HeaderMap} (hmade : List.Forall₂ (HeaderMade x g depth vars) hs hs')
    (hlower : LowersNames http) (h : hs'.mapM (header x http d) = .ok headers) (name : String) :
    List.Forall₂ (HeaderSent x g depth vars http d name) (hs.filter (lowerName ·.1 = name))
      (valuesOf headers name) := by
  have hall := forall₂_trans hmade (mapM_ok_iff.mp h)
  have hname : ∀ h (e : String × String),
      (∃ h', HeaderMade x g depth vars h h' ∧ header x http d h' = .ok e) →
        e.1 = lowerName h.1 := by
    rintro h e ⟨h', ⟨hkey, -⟩, he⟩
    rw [header_name hlower he, hkey]
  rw [valuesOf, List.forall₂_map_right_iff]
  refine (forall₂_filter (q := (·.1 = name)) hall fun h e he => ?_).imp ?_
  · rw [hname h e he]
  · rintro h ⟨k, value⟩ ⟨⟨h', hh', he⟩, hk⟩
    obtain rfl : k = name := of_decide_eq_true hk
    exact ⟨h', hh', he⟩

theorem appendLogger_headers {log : String × LogsPreProcessed} {e' : Endpoint v}
    (h : e.appendLogger x g depth v vars log.1 log.2 = .ok e') : e'.headers = e.headers := by
  rw [Endpoint.appendLogger, bind_ok] at h
  obtain ⟨⟨select, p⟩, -, h⟩ := h
  cases h
  rfl

theorem added_made {p q : RequiredProviders}
    (h : noting (keyed (PreTemplate.asTemplate x g depth vars)) hs p = .ok (hs', q)) :
    List.Forall₂ (HeaderMade x g depth vars) hs hs' := by
  induction hs generalizing p hs' with
  | nil =>
    cases h
    exact .nil
  | cons header hs ih =>
    rw [noting, except_bind_ok] at h
    obtain ⟨⟨made, p'⟩, hheader, h⟩ := h
    obtain ⟨⟨hs'', q'⟩, hrest, h⟩ := map_ok.mp h
    cases h
    obtain ⟨⟨t, p''⟩, ht, hheader⟩ := map_ok.mp hheader
    cases hheader
    obtain ⟨t', others, heq, hall⟩ := (asTemplate_appends header.2).of_ok ht
    cases heq
    exact .cons ⟨rfl, _, hall .new⟩ (ih hrest)

/-- The endpoint has its own headers and the global ones whose spelling it does not unset. -/
theorem fromPreprocessed_headers {globalLoadPattern : Option v.LoadPattern}
    {globalHeaders : List (String × Template × RequiredProviders)}
    (hglobal : List.Forall₂ (HeaderParsed x g depth vars) hs globalHeaders)
    (h : Endpoint.fromPreprocessed x g depth v vars globalLoadPattern globalHeaders configPath
      endpoint endpointId = .ok e) :
    List.Forall₂ (HeaderMade x g depth vars)
      ((hs.filter fun h => !endpoint.headers.any fun (k, t) => k = h.1 && t.isNone) ++
        headersToAdd endpoint.headers) e.headers := by
  simp only [Endpoint.fromPreprocessed, bind_ok, parsed_ok] at h
  obtain ⟨⟨added, p₁⟩, hadded, ⟨provides, p₃⟩, -, loadPattern, -, peakLoad, -, ⟨url, p₄⟩, -,
    ⟨tags, p₅⟩, -, ⟨body, p₆⟩, -, ⟨declare, q⟩, -, requestTimeout, -, h⟩ := h
  have hlogs := foldlM_keeps (P := fun e' => e'.headers =
    (keptHeaders endpoint.headers globalHeaders).map (fun h => (h.1, h.2.1)) ++ added)
    (fun _ _ _ he' hlog => (appendLogger_headers hlog).trans he') rfl h
  rw [hlogs]
  refine List.rel_append ?_ (added_made hadded)
  rw [List.forall₂_map_right_iff]
  refine (forall₂_filter hglobal ?_).imp ?_
  · rintro ⟨k, t⟩ ⟨k', t', p⟩ ⟨rfl, -⟩
    rfl
  · rintro h h' ⟨⟨hkey, hparsed⟩, -⟩
    exact ⟨hkey, h'.2.2, hparsed⟩

/-- Loggers change no headers. -/
theorem addLogger_headers {logger : String × LoggerPreProcessed} {lt' : LoadTest v}
    (h : lt.addLogger x g depth logger.1 logger.2 = .ok lt') :
    lt'.endpoints.map Endpoint.headers = lt.endpoints.map Endpoint.headers := by
  simp only [LoadTest.addLogger, bind_ok, parsed_ok] at h
  obtain ⟨⟨⟨parsedLogger, select⟩, p⟩, -, -, -, h⟩ := h
  cases select with
  | none =>
    cases h
    rfl
  | some select =>
    cases h
    exact List.map_map.trans rfl

/-- An endpoint of an accepted config has its own headers and the global ones whose spelling it does
not unset. -/
theorem fromConfig_headers {i : Nat}
    (h : LoadTest.fromConfig x g depth v configPath envVars c = .ok lt)
    (he : lt.endpoints[i]? = some e) :
    ∃ endpoint, c.endpoints[i]? = some endpoint ∧
      List.Forall₂ (HeaderMade x g depth lt.vars)
        ((c.config.client.headers.filter fun h =>
          !endpoint.headers.any fun (k, t) => k = h.1 && t.isNone) ++
          headersToAdd endpoint.headers) e.headers := by
  simp only [LoadTest.fromConfig, bind_ok] at h
  obtain ⟨vars, -, globalLoadPattern, -, globalHeaders, hheaders, keepalive, -, requestTimeout, -,
    bucketSize, -, watchTransitionTime, -, endpoints, hendpoints, providers, -, lt', hloggers, -, -,
    h⟩ := h
  cases h
  obtain ⟨-, hvars, -⟩ := addLoggers_gains hloggers
  have hsame := foldlM_keeps (P := fun lt' : LoadTest v =>
    lt'.endpoints.map Endpoint.headers = endpoints.map Endpoint.headers)
    (fun _ _ _ hlt h => (addLogger_headers h).trans hlt) rfl hloggers
  have hat := congrArg (·[i]?) hsame
  simp only [List.getElem?_map, he, Option.map_some] at hat
  obtain ⟨e₀, he₀, hhead⟩ := Option.map_eq_some_iff.mp hat.symm
  obtain ⟨⟨endpoint, j⟩, hendpoint, hload⟩ := mapM_getElem? hendpoints he₀
  rw [List.getElem?_zipIdx, Option.map_eq_some_iff] at hendpoint
  obtain ⟨endpoint', hendpoint, hpair⟩ := hendpoint
  cases hpair
  refine ⟨endpoint, hendpoint, ?_⟩
  rw [← hhead, hvars]
  exact fromPreprocessed_headers (globalHeaders_parsed hheaders) hload

/-- An endpoint unsets the spelling of each global header that it unsets. -/
def UnsetsAsSpelled (global : List (String × PreTemplate))
    (headers : List (String × Option PreTemplate)) : Prop :=
  ∀ h ∈ global, ∀ k, (k, none) ∈ headers → lowerName k = lowerName h.1 → (h.1, none) ∈ headers

section Spelled

variable {headers : List (String × Option PreTemplate)} {global : List (String × PreTemplate)}

theorem nulled_iff : nulled headers name = true ↔
    ∃ k, (k, none) ∈ headers ∧ lowerName k = lowerName name := by
  rw [nulled, List.any_eq_true]
  constructor
  · rintro ⟨⟨k, t⟩, hmem, hk⟩
    obtain ⟨hname, hnone⟩ := Bool.and_eq_true_iff.mp hk
    obtain rfl : t = none := Option.isNone_iff_eq_none.mp hnone
    exact ⟨k, hmem, of_decide_eq_true hname⟩
  · rintro ⟨k, hmem, hk⟩
    exact ⟨(k, none), hmem, by simp [hk]⟩

theorem spelled_iff :
    (headers.any fun (k, t) => k = name && t.isNone) = true ↔ (name, none) ∈ headers := by
  rw [List.any_eq_true]
  constructor
  · rintro ⟨⟨k, t⟩, hmem, hk⟩
    obtain ⟨hname, hnone⟩ := Bool.and_eq_true_iff.mp hk
    obtain rfl : t = none := Option.isNone_iff_eq_none.mp hnone
    obtain rfl : k = name := of_decide_eq_true hname
    exact hmem
  · exact fun hmem => ⟨(name, none), hmem, by simp⟩

theorem toSend_sublist :
    (global.filter fun h => !nulled headers h.1).Sublist
      (global.filter fun h => !headers.any fun (k, t) => k = h.1 && t.isNone) := by
  refine List.monotone_filter_right _ fun h hkept => ?_
  rw [Bool.not_eq_true', Bool.eq_false_iff, ne_eq, nulled_iff] at hkept
  rw [Bool.not_eq_true', Bool.eq_false_iff, ne_eq, spelled_iff]
  exact fun hmem => hkept ⟨h.1, hmem, rfl⟩

/-- The global headers that are kept are those that are to be kept. -/
theorem kept_eq_iff :
    ((global.filter fun h => !nulled headers h.1) =
      global.filter fun h => !headers.any fun (k, t) => k = h.1 && t.isNone) ↔
      UnsetsAsSpelled global headers := by
  constructor
  · intro heq h hh k hk hname
    by_contra hnot
    have hkept : h ∈ global.filter fun h => !headers.any fun (k, t) => k = h.1 && t.isNone := by
      refine List.mem_filter.mpr ⟨hh, ?_⟩
      rw [Bool.not_eq_true', Bool.eq_false_iff, ne_eq, spelled_iff]
      exact hnot
    have hsend := (List.mem_filter.mp (heq ▸ hkept)).2
    rw [Bool.not_eq_true', Bool.eq_false_iff, ne_eq, nulled_iff] at hsend
    exact hsend ⟨k, hk, hname⟩
  · intro hspelled
    refine List.filter_congr fun h hh => congrArg (! ·) (Bool.eq_iff_iff.mpr ?_)
    rw [nulled_iff, spelled_iff]
    constructor
    · rintro ⟨k, hk, hname⟩
      exact hspelled h hh k hk hname
    · exact fun hmem => ⟨h.1, hmem, rfl⟩

end Spelled

/-- An endpoint's headers are merged with the global ones as HTTP names them exactly if it unsets
each global header, where it does, as this is spelled. -/
theorem mergesHeaders_iff {i : Nat}
    (h : LoadTest.fromConfig x g depth v configPath envVars c = .ok lt)
    (he : lt.endpoints[i]? = some e) :
    ∃ endpoint, c.endpoints[i]? = some endpoint ∧
      (MergesHeaders x g depth lt.vars configPath c endpoint i e ↔
        UnsetsAsSpelled c.config.client.headers endpoint.headers) := by
  obtain ⟨endpoint, hendpoint, hmade⟩ := fromConfig_headers h he
  obtain ⟨-, endpoint', hendpoint', -, hstreamed⟩ := fromConfig_streamed h he
  obtain rfl : endpoint = endpoint' := Option.some.inj (hendpoint.symm.trans hendpoint')
  refine ⟨endpoint, hendpoint, fun hmerges => ?_, fun hspelled => ?_⟩
  · have hlength := hmerges.headers.length_eq.trans hmade.length_eq.symm
    rw [headersToSend, List.length_append, List.length_append, Nat.add_right_cancel_iff] at hlength
    exact kept_eq_iff.mp (toSend_sublist.eq_of_length hlength)
  · have hsend : headersToSend c.config.client.headers endpoint.headers =
        (c.config.client.headers.filter fun h =>
          !endpoint.headers.any fun (k, t) => k = h.1 && t.isNone) ++
            headersToAdd endpoint.headers := by
      rw [headersToSend, kept_eq_iff.mpr hspelled]
    rw [← hsend] at hmade
    refine ⟨hmade, ?_, ?_, ?_⟩
    · intro http m d headers hlower hm hread name
      rw [RequestMaker.headersOf, hm] at hread
      exact read_of_made hmade hlower hread name
    · intro http m d headers body host name hlower hm hread hbody hhost hlength htype
      rw [valuesOf_final hhost hlength, valuesOf_body hbody htype]
      rw [RequestMaker.headersOf, hm] at hread
      exact read_of_made hmade hlower hread name
    · intro s
      rw [hstreamed, or_assoc]
      refine or_congr_left (and_congr_left' ?_)
      have hplace : endpoint.RefersAt x g depth lt.vars configPath c i s .headers ↔
          ∃ h ∈ headersToSend c.config.client.headers endpoint.headers,
            Notes (h.2.asTemplate x g depth lt.vars) s := by
        rw [hsend]
        simp only [EndpointPreProcessed.RefersAt, List.mem_append, List.mem_filter, or_and_right,
          exists_or, and_assoc, Bool.not_eq_true']
        exact or_comm
      rw [← hplace]
      constructor
      · rintro ⟨place, hearly, hrefers⟩
        by_cases hp : place = .headers
        · exact .inl (hp ▸ hrefers)
        · exact .inr ⟨place, hearly, hp, hrefers⟩
      · rintro (hrefers | ⟨place, hearly, -, hrefers⟩)
        · exact ⟨.headers, trivial, hrefers⟩
        · exact ⟨place, hearly, hrefers⟩

/-! ### A global header that an endpoint unsets -/

section Unset

def unsetting (unset : String) : EndpointPreProcessed :=
  { logsDeclared "" with declare := ∅, headers := [(unset, none)], logs := [] }

def unsettingConfig (unset : String) : LoadTestPreProcessed where
  config := ⟨{ ClientConfigPreProcessed.default ⟨1, 1⟩ with
    headers := [("X-A", .new ⟨"1", ⟨1, 1⟩⟩)] }, .default ⟨1, 1⟩⟩
  endpoints := [unsetting unset]
  loadPattern := none
  providers := ∅
  loggers := ∅
  vars := ∅

def globalHeader : String × Template × RequiredProviders :=
  ("X-A", .mk [.notExpression "1"] false, .new)

/-- What `unsetting` comes to. -/
def unsettingEndpoint (unset : String) : Endpoint .plain where
  body := .none
  declare := []
  headers :=
    (keptHeaders (unsetting unset).headers [globalHeader]).map (fun h => (h.1, h.2.1)) ++ []
  loadPattern := none
  logs := []
  maxParallelRequests := none
  method := .get
  noAutoReturns := false
  onDemand := false
  peakLoad := none
  provides := []
  providersToStream :=
    (keptHeaders (unsetting unset).headers [globalHeader]).foldl (fun p h => p.extend h.2.2) .new
  requiredProviders := RequiredProviders.new.extend
    ((keptHeaders (unsetting unset).headers [globalHeader]).foldl (fun p h => p.extend h.2.2) .new)
  requestTimeout := none
  tags := (allTags (unsetting unset) 0 (.mk [.notExpression "http://localhost"] false)).toList.map
    fun t => (t.1, .mk [.notExpression t.2.text.inner] true)
  url := .mk [.notExpression "http://localhost"] false

theorem unsetting_loads (unset : String) :
    Endpoint.fromPreprocessed .plain onlyNames 1 .plain [] none [globalHeader] "" (unsetting unset)
      0 = .ok (unsettingEndpoint unset) := by
  simp only [Endpoint.fromPreprocessed, bind_ok, parsed_ok]
  exact ⟨_, rfl, _, rfl, _, rfl, _, rfl, _, asTemplate_text _ _, _, tags_text _ _, _, rfl, _, rfl,
    _, rfl, rfl⟩

theorem unsetting_requires (unset s : String) :
    s ∉ (unsettingEndpoint unset).requiredProviders.inner := by
  intro hs
  rcases RequiredProviders.mem_extend.mp hs with hs | hs
  · exact Std.ExtTreeMap.not_mem_empty hs
  · rcases mem_extendHeaders.mp hs with hs | ⟨h, hh, hs⟩
    · exact Std.ExtTreeMap.not_mem_empty hs
    · obtain rfl := List.mem_singleton.mp (List.mem_of_mem_filter hh)
      exact Std.ExtTreeMap.not_mem_empty hs

theorem unsettingConfig_loads (unset : String) :
    ∃ lt, LoadTest.fromConfig .plain onlyNames 1 .plain "" [] (unsettingConfig unset) = .ok lt ∧
      lt.endpoints[0]? = some (unsettingEndpoint unset) := by
  have hheaders : (unsettingConfig unset).config.client.headers.mapM (fun h =>
      parsed (PreTemplate.asTemplate .plain onlyNames 1 [] h.2 .new) >>= fun r =>
        pure (h.1, r.1, r.2)) = .ok [globalHeader] := by
    refine mapM_ok_iff.mpr (.cons (bind_ok.mpr ⟨_, parsed_ok.mpr (asTemplate_text _ _), ?_⟩) .nil)
    rfl
  have hendpoints : (unsettingConfig unset).endpoints.zipIdx.mapM (fun e =>
      Endpoint.fromPreprocessed .plain onlyNames 1 .plain [] none [globalHeader] "" e.1 e.2) =
      .ok [unsettingEndpoint unset] :=
    mapM_ok_iff.mpr (.cons (unsetting_loads unset) .nil)
  simp only [LoadTest.fromConfig, bind_ok]
  refine ⟨_, ⟨_, rfl, _, rfl, _, hheaders, _, rfl, _, rfl, _, rfl, _, rfl, _, hendpoints, _, rfl,
    _, rfl, (), ?_, rfl⟩, rfl⟩
  refine bind_ok.mpr ⟨(), ?_, rfl⟩
  simp only [LoadTest.verifyEndpoint, bind_ok]
  refine ⟨(), rfl, verifyProviders_ok.mpr fun p hp => ?_⟩
  rcases List.mem_append.mp hp with hp | hp
  · exact absurd (RequiredProviders.mem_of_mem_toList hp) (unsetting_requires unset p.1)
  · cases hp

end Unset

/-- The endpoint spells the header that it unsets as it is. -/
theorem mergesHeaders_iff_unset :
    ∃ lt e endpoint,
      LoadTest.fromConfig .plain onlyNames 1 .plain "" [] (unsettingConfig "X-A") = .ok lt ∧
        lt.endpoints[0]? = some e ∧
        MergesHeaders .plain onlyNames 1 lt.vars "" (unsettingConfig "X-A") endpoint 0 e := by
  obtain ⟨lt, hload, he⟩ := unsettingConfig_loads "X-A"
  obtain ⟨endpoint, hendpoint, hiff⟩ := mergesHeaders_iff hload he
  cases hendpoint
  refine ⟨lt, _, _, hload, he, hiff.mpr fun h hh k hk hname => ?_⟩
  rw [List.mem_singleton.mp hh]
  exact List.mem_singleton_self _

/-- An endpoint that unsets `x-a` sends the global header `X-A`. -/
theorem not_mergesHeaders :
    ¬ ∀ (x : Externals) (g : Grammar) (depth : Nat) (v : Values) (configPath : String)
      (envVars : Object) (c : LoadTestPreProcessed) (lt : LoadTest v),
      LoadTest.fromConfig x g depth v configPath envVars c = .ok lt →
        ∀ (i : Nat) (e : Endpoint v) (endpoint : EndpointPreProcessed),
          lt.endpoints[i]? = some e → c.endpoints[i]? = some endpoint →
            MergesHeaders x g depth lt.vars configPath c endpoint i e := by
  intro h
  obtain ⟨lt, hload, he⟩ := unsettingConfig_loads "x-a"
  have hmerges := h _ _ _ _ _ _ _ _ hload 0 _ (unsetting "x-a") he rfl
  have hlength := hmerges.headers.length_eq
  have hnone : headersToSend (unsettingConfig "x-a").config.client.headers
      (unsetting "x-a").headers = [] := by
    rfl
  have hone : (unsettingEndpoint "x-a").headers = [("X-A", .mk [.notExpression "1"] false)] := by
    rfl
  rw [hnone, hone] at hlength
  cases hlength

end Pewpew.Config
