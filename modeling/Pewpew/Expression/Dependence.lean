import Pewpew.Expression.SameReads
import Pewpew.Expression.Tracking

/-! Template data that agree on what an expression has noted give it the same value. -/
namespace Pewpew.SelectParser

/-- The orders in which an endpoint adds the components of its requests and responses. -/
structure Layout where
  request : List String
  response : List String
  request_perm : request.Perm ["start-line", "headers", "headers_all", "body", "url", "method"]
  response_perm : response.Perm ["start-line", "headers", "headers_all", "body", "status"]

/-- Some of the components, in their order. -/
def Lists (components : List String) (v : Json) : Prop :=
  ∃ m : Object, v = .object m ∧ (m.map Prod.fst).Sublist components

/-- The template values: the names of the program's own providers are not those of other entries,
and what is bound to `for_each` is not among them. -/
structure TemplateData (l : Layout) where
  entries : Object
  request : ∀ v, entries.get "request" = some v → Lists l.request v
  response : ∀ v, entries.get "response" = some v → Lists l.response v
  component : ∀ s bits, Special.ofName s = some bits →
    s ∉ ["request", "response", "stats", "error"] → entries.get s = none

def Json.member (v : Json) (c : String) : Option Json :=
  match v with
  | .object m => Object.get m c
  | _ => none

/-- Neither has the object, or both have the same component. -/
def SameComponent (o o' : Object) (s c : String) : Prop :=
  (o.get s).map (·.member c) = (o'.get s).map (·.member c)

/-- The same goes by the name, and by its parts where it is that of a component. -/
def SameAt (o o' : Object) (name : String) : Prop :=
  o.get name = o'.get name ∧
    ∀ s c, s = "request" ∨ s = "response" → name = s ++ "." ++ c → SameComponent o o' s c

/-- The data agree on all that is noted. -/
structure Agree (p : RequiredProviders) (o o' : Object) : Prop where
  names : ∀ name ∈ p.inner, SameAt o o' name
  components : ∀ s c bits, s = "request" ∨ s = "response" →
    Special.ofName (s ++ "." ++ c) = some bits → p.special &&& bits ≠ 0 → SameComponent o o' s c
  stats : p.special &&& Special.stats ≠ 0 → o.get "stats" = o'.get "stats"
  error : p.special &&& Special.error ≠ 0 → o.get "error" = o'.get "error"

section Objects

variable {o o' m m' : Object} {s c : String}

theorem get_eq_none {m : Object} (h : c ∉ m.map Prod.fst) : m.get c = none := by
  rw [Object.get, List.lookup_eq_none_iff]
  rintro ⟨k, v⟩ he
  have hne : k ≠ c := fun heq => h (List.mem_map.mpr ⟨(k, v), he, heq⟩)
  simpa using hne.symm

/-- The first of the components comes first or is missing. -/
theorem sublist_cons_cases {components : List String}
    (h : (m.map Prod.fst).Sublist (c :: components)) :
    (m.map Prod.fst).Sublist components ∨
      ∃ v r, m = (c, v) :: r ∧ (r.map Prod.fst).Sublist components := by
  obtain h | ⟨keys, hkeys, hr⟩ := List.sublist_cons_iff.mp h
  · exact .inl h
  · obtain ⟨⟨k, v⟩, r, rfl, rfl, rfl⟩ := List.map_eq_cons_iff.mp hkeys
    exact .inr ⟨v, r, rfl, hr⟩

/-- Two objects that list some of the same components are equal if each component is. -/
theorem object_ext {components : List String} (hn : components.Nodup)
    (h : (m.map Prod.fst).Sublist components) (h' : (m'.map Prod.fst).Sublist components)
    (hget : ∀ c ∈ components, m.get c = m'.get c) : m = m' := by
  induction components generalizing m m' with
  | nil =>
    rw [List.map_eq_nil_iff.mp (List.sublist_nil.mp h),
      List.map_eq_nil_iff.mp (List.sublist_nil.mp h')]
  | cons c components ih =>
    obtain ⟨hc, hn⟩ := List.nodup_cons.mp hn
    have hfirst := hget c (List.mem_cons_self ..)
    have hrest {r r' : Object} (hr : ∀ k ∈ components, r.get k = m.get k)
        (hr' : ∀ k ∈ components, r'.get k = m'.get k) :
        ∀ k ∈ components, r.get k = r'.get k := fun k hk => by
      rw [hr k hk, hr' k hk, hget k (List.mem_cons_of_mem _ hk)]
    have hskip {v : Json} {r : Object} :
        ∀ k ∈ components, r.get k = Object.get ((c, v) :: r) k := by
      intro k hk
      have hne : k ≠ c := fun heq => hc (heq ▸ hk)
      rw [Object.get, Object.get, List.lookup_cons, beq_eq_false_iff_ne.mpr hne]
    have habsent {r : Object} (hr : (r.map Prod.fst).Sublist components) : r.get c = none :=
      get_eq_none fun hmem => hc (hr.subset hmem)
    rcases sublist_cons_cases h with h | ⟨v, r, rfl, hr⟩ <;>
      rcases sublist_cons_cases h' with h' | ⟨v', r', rfl, hr'⟩
    · exact ih hn h h' (hrest (fun _ _ => rfl) fun _ _ => rfl)
    · rw [habsent h] at hfirst
      simp [Object.get] at hfirst
    · rw [habsent h'] at hfirst
      simp [Object.get] at hfirst
    · obtain rfl : v = v' := by simpa [Object.get] using hfirst
      rw [ih hn hr hr' (hrest hskip hskip)]

/-- With all components the whole is the same. -/
theorem get_eq_of_components {components : List String} (hn : components.Nodup)
    (h : ∀ v, o.get s = some v → Lists components v)
    (h' : ∀ v, o'.get s = some v → Lists components v)
    (hc : ∀ c ∈ components, SameComponent o o' s c) (hne : components ≠ []) :
    o.get s = o'.get s := by
  have hsame : (o.get s).isSome = (o'.get s).isSome := by
    obtain ⟨c, hmem⟩ := List.exists_mem_of_ne_nil _ hne
    simpa using congrArg Option.isSome (hc c hmem)
  cases hv : o.get s with
  | none =>
    cases hv' : o'.get s with
    | none => rfl
    | some v' => simp [hv, hv'] at hsame
  | some v =>
    cases hv' : o'.get s with
    | none => simp [hv, hv'] at hsame
    | some v' =>
      obtain ⟨m, rfl, hm⟩ := h v hv
      obtain ⟨m', rfl, hm'⟩ := h' v' hv'
      have hget : ∀ c ∈ components, m.get c = m'.get c := fun c hmem => by
        simpa [SameComponent, hv, hv', Json.member] using hc c hmem
      rw [object_ext hn hm hm' hget]

end Objects

section Names

variable {p : RequiredProviders} {bits : BitVec 16} {s : String}

/-- The names that do not stand for a provider of the config file. -/
def Special.names : List (String × BitVec 16) :=
  [ ("request.start-line", requestStartline), ("request.headers", requestHeaders),
    ("request.headers_all", requestHeadersAll), ("request.body", requestBody),
    ("request.method", requestMethod), ("request.url", requestUrl), ("request", requestAll),
    ("response.start-line", responseStartline), ("response.headers", responseHeaders),
    ("response.headers_all", responseHeadersAll), ("response.body", responseBody),
    ("response", responseAll), ("response.status", responseStatus), ("stats", stats),
    ("for_each", forEach), ("error", error) ]

theorem ite_some_cases {α : Type} {c : Prop} [Decidable c] {a b : α} {r : Option α}
    (h : (if c then some a else r) = some b) : c ∧ a = b ∨ r = some b := by
  by_cases hc : c
  · rw [if_pos hc] at h
    exact .inl ⟨hc, Option.some.inj h⟩
  · rw [if_neg hc] at h
    exact .inr h

theorem Special.mem_names (h : ofName s = some bits) : (s, bits) ∈ names := by
  rw [ofName] at h
  iterate 16
    obtain ⟨rfl, rfl⟩ | h := ite_some_cases h
    · decide
  simp at h

theorem Special.ofName_ne_zero (h : ofName s = some bits) : bits ≠ 0 := by
  have hall : ∀ e ∈ names, e.2 ≠ 0 := by decide
  exact hall _ (mem_names h)

/-- The bits of a set of bits are among what includes the set. -/
theorem and_ne_zero {part all : BitVec 16} (h : all ||| p.special = p.special)
    (hp : part ||| all = all) (hn : part ≠ 0) : p.special &&& part ≠ 0 := by
  intro hz
  rw [← h, ← hp] at hz
  have hpart := (or_and_eq_zero.mp (or_and_eq_zero.mp hz).1).1
  exact hn (by simpa using hpart)

theorem has_bits (h : p.Has s) (hs : Special.ofName s = some bits) :
    p.special &&& bits ≠ 0 := by
  rw [RequiredProviders.Has, hs] at h
  exact and_ne_zero h BitVec.or_self (Special.ofName_ne_zero hs)

theorem has_inner (h : p.Has s) (hs : Special.ofName s = none) : s ∈ p.inner := by
  rwa [RequiredProviders.Has, hs] at h

/-- All of the request and response comes with each of their components. -/
theorem has_component {c : String} {components : List String} (hall : p.Has s)
    (hs : s = "request" ∧
        components.Perm ["start-line", "headers", "headers_all", "body", "url", "method"] ∨
      s = "response" ∧
        components.Perm ["start-line", "headers", "headers_all", "body", "status"])
    (hc : c ∈ components) :
    ∃ bits, Special.ofName (s ++ "." ++ c) = some bits ∧ p.special &&& bits ≠ 0 := by
  rcases hs with ⟨rfl, hperm⟩ | ⟨rfl, hperm⟩
  · have hbits : ∀ c ∈ ["start-line", "headers", "headers_all", "body", "url", "method"],
        (Special.ofName ("request" ++ "." ++ c)).any fun bits =>
          bits ||| Special.requestAll = Special.requestAll := by decide
    obtain ⟨bits, hname, hle⟩ := (Option.any_eq_true _ _).mp (hbits c (hperm.mem_iff.mp hc))
    exact ⟨bits, hname, and_ne_zero hall (by simpa using hle) (Special.ofName_ne_zero hname)⟩
  · have hbits : ∀ c ∈ ["start-line", "headers", "headers_all", "body", "status"],
        (Special.ofName ("response" ++ "." ++ c)).any fun bits =>
          bits ||| Special.responseAll = Special.responseAll := by decide
    obtain ⟨bits, hname, hle⟩ := (Option.any_eq_true _ _).mp (hbits c (hperm.mem_iff.mp hc))
    exact ⟨bits, hname, and_ne_zero hall (by simpa using hle) (Special.ofName_ne_zero hname)⟩

end Names

section Data

variable {l : Layout} {p : RequiredProviders} {d d' : TemplateData l} {s c : String}

/-- All of the request or response is noted. -/
theorem Agree.whole (h : Agree p d.entries d'.entries) (hs : s = "request" ∨ s = "response")
    (hp : p.Has s) : d.entries.get s = d'.entries.get s := by
  have hsame {components : List String}
      (hc : s = "request" ∧
          components.Perm ["start-line", "headers", "headers_all", "body", "url", "method"] ∨
        s = "response" ∧
          components.Perm ["start-line", "headers", "headers_all", "body", "status"]) :
      ∀ c ∈ components, SameComponent d.entries d'.entries s c := fun c hmem => by
    obtain ⟨bits, hname, hbits⟩ := has_component hp hc hmem
    exact h.components s c bits hs hname hbits
  rcases hs with rfl | rfl
  · have hn : l.request.Nodup := l.request_perm.nodup_iff.mpr (by decide)
    refine get_eq_of_components hn d.request d'.request (hsame (.inl ⟨rfl, l.request_perm⟩)) ?_
    exact fun hnil => by simpa [hnil] using l.request_perm.length_eq
  · have hn : l.response.Nodup := l.response_perm.nodup_iff.mpr (by decide)
    refine get_eq_of_components hn d.response d'.response (hsame (.inr ⟨rfl, l.response_perm⟩)) ?_
    exact fun hnil => by simpa [hnil] using l.response_perm.length_eq

/-- What has been noted by its whole name is the same. -/
theorem Agree.get_eq (h : Agree p d.entries d'.entries) (hp : p.Has s) :
    d.entries.get s = d'.entries.get s := by
  by_cases hs : s = "request" ∨ s = "response"
  · exact h.whole hs hp
  · cases hname : Special.ofName s with
    | none => exact (h.names s (has_inner hp hname)).1
    | some bits =>
      have hbits := has_bits hp hname
      by_cases hstats : s = "stats"
      · subst hstats
        obtain rfl := Option.some.inj (hname.symm.trans (by decide : _ = some Special.stats))
        exact h.stats hbits
      by_cases herror : s = "error"
      · subst herror
        obtain rfl := Option.some.inj (hname.symm.trans (by decide : _ = some Special.error))
        exact h.error hbits
      have hother : s ∉ ["request", "response", "stats", "error"] := by
        simpa [not_or] using ⟨fun h => hs (.inl h), fun h => hs (.inr h), hstats, herror⟩
      rw [d.component s bits hname hother, d'.component s bits hname hother]

/-- A component that has been noted is the same. -/
theorem Agree.component_eq (h : Agree p d.entries d'.entries)
    (hs : s = "request" ∨ s = "response") (hp : p.Has (s ++ "." ++ c)) :
    SameComponent d.entries d'.entries s c := by
  cases hname : Special.ofName (s ++ "." ++ c) with
  | none => exact (h.names _ (has_inner hp hname)).2 s c hs rfl
  | some bits => exact h.components s c bits hs hname (has_bits hp hname)

/-- The request and the response are objects. -/
theorem TemplateData.object (d : TemplateData l) (hs : s = "request" ∨ s = "response") {v : Json}
    (hv : d.entries.get s = some v) : ∃ m, v = .object m := by
  rcases hs with rfl | rfl
  · exact (d.request v hv).imp fun _ => And.left
  · exact (d.response v hv).imp fun _ => And.left

/-- Neither data has the object, or both have it with the same component. -/
theorem component_cases (hs : s = "request" ∨ s = "response")
    (h : SameComponent d.entries d'.entries s c) :
    (d.entries.get s = none ∧ d'.entries.get s = none) ∨
      ∃ m m' : Object, d.entries.get s = some (.object m) ∧
        d'.entries.get s = some (.object m') ∧ m.get c = m'.get c := by
  cases hv : d.entries.get s with
  | none =>
    cases hv' : d'.entries.get s with
    | none => exact .inl ⟨rfl, rfl⟩
    | some v' => simp [SameComponent, hv, hv'] at h
  | some v =>
    cases hv' : d'.entries.get s with
    | none => simp [SameComponent, hv, hv'] at h
    | some v' =>
      obtain ⟨m, rfl⟩ := d.object hs hv
      obtain ⟨m', rfl⟩ := d'.object hs hv'
      exact .inr ⟨m, m', rfl, rfl, by simpa [SameComponent, hv, hv', Json.member] using h⟩

end Data

/-- What a path finds in data. -/
theorem find_object {o : Object} {s : String} {next : Option String} {noErr : Bool}
    {marker : Marker} :
    find s next (.borrowed (.object o)) noErr marker =
      match next with
      | some next =>
        indexStep (((o.get s).map .borrowed).getD (.owned .null)) (.key next) noErr marker
      | none => .ok (((o.get s).map .borrowed).getD (.owned .null)) := by
  rw [find, indexStep]
  cases next <;> rfl

namespace JsonPath

/-- The characters of JSON paths that are not part of a key. -/
def syntaxChars : List Char := "$.*@?[]():,'\"&|=<>! \t\n\r".toList

/-- A key that a path spells as it is. -/
def PlainKey (k : String) : Prop := k ≠ "" ∧ ∀ c ∈ k.toList, c ∉ syntaxChars

instance (k : String) : Decidable (PlainKey k) :=
  decidable_of_iff ((k != "" && k.toList.all fun c => !syntaxChars.contains c) = true)
    (by simp [PlainKey])

/-- What follows a key. -/
def Ends (rest : String) : Prop := ∀ c ∈ rest.toList.head?, c = '[' ∨ c = '.'

/-- The key that a path starts with, after `request.` or `response.`. -/
def key (path : String) : String :=
  let name (cs : List Char) := cs.takeWhile fun c => c ≠ '[' ∧ c ≠ '.'
  let path := path.toList
  if "request.".toList.isPrefixOf path then String.ofList (name (path.drop "request.".length))
  else if "response.".toList.isPrefixOf path then
    String.ofList (name (path.drop "response.".length))
  else String.ofList (name path)

/-- The path starts with a key that it spells as it is. -/
def Named (path : String) : Prop := PlainKey (key path)

instance (path : String) : Decidable (Named path) := inferInstanceAs (Decidable (PlainKey _))

/-- The part of the path after its first key. -/
theorem exists_rest (cs : List Char) :
    ∃ rest, Ends rest ∧
      String.ofList cs = String.ofList (cs.takeWhile fun c => c ≠ '[' ∧ c ≠ '.') ++ rest := by
  refine ⟨String.ofList (cs.dropWhile fun c => c ≠ '[' ∧ c ≠ '.'), ?_, ?_⟩
  · intro c hc
    rw [String.toList_ofList] at hc
    have hnot := List.head?_dropWhile_not (fun c => decide (c ≠ '[' ∧ c ≠ '.')) cs
    rw [Option.mem_def.mp hc] at hnot
    by_cases h : c = '['
    · exact .inl h
    · exact .inr (by simpa [h] using hnot)
  · rw [← String.ofList_append, List.takeWhile_append_dropWhile]

/-- A path that starts with a name and a dot. -/
theorem of_prefix {path s : String} (hp : (s ++ ".").toList.isPrefixOf path.toList) :
    ∃ t, path = s ++ "." ++ String.ofList t ∧ path.toList.drop (s ++ ".").length = t := by
  obtain ⟨t, ht⟩ := List.isPrefixOf_iff_prefix.mp hp
  refine ⟨t, String.toList_injective ?_, ?_⟩
  · simp only [← ht, String.toList_append, String.toList_ofList]
  · rw [← ht, ← String.length_toList, List.drop_left]

/-- A path is selected after `$.`, unless it starts with a bracket. -/
theorem selector_eq {path : String} (h : ∀ c ∈ path.toList.head?, c ≠ '[') :
    selector path = "$." ++ path := by
  have hbracket : ¬"[".toList.isPrefixOf path.toList := by
    intro hp
    obtain ⟨t, ht⟩ := List.isPrefixOf_iff_prefix.mp hp
    exact h '[' (by rw [← ht]; rfl) rfl
  rw [selector, if_neg hbracket]

/-- A plain key does not start with a bracket. -/
theorem PlainKey.head {k rest : String} (hk : PlainKey k) :
    ∀ c ∈ (k ++ rest).toList.head?, c ≠ '[' := by
  intro c hc
  have hne : k.toList ≠ [] := fun h => hk.1 (String.toList_eq_nil_iff.mp h)
  rw [String.toList_append, List.head?_append_of_ne_nil _ hne] at hc
  rintro rfl
  exact hk.2 '[' (List.mem_of_mem_head? hc) (by decide)

/-- How a path with a plain key is spelled, and the provider it refers to. -/
theorem named_cases {path : String} (h : Named path) :
    ∃ k rest, PlainKey k ∧ Ends rest ∧
      ((provider path = k ∧ selector path = "$." ++ k ++ rest) ∨
        ∃ s, (s = "request" ∨ s = "response") ∧ provider path = s ++ "." ++ k ∧
          selector path = "$." ++ s ++ "." ++ k ++ rest) := by
  have hmember {s : String} (hs : PlainKey s) (hp : (s ++ ".").toList.isPrefixOf path.toList) :
      ∃ rest, Ends rest ∧ selector path = "$." ++ s ++ "." ++
        String.ofList ((path.toList.drop (s ++ ".").length).takeWhile
          fun c => c ≠ '[' ∧ c ≠ '.') ++ rest := by
    obtain ⟨t, hpath, ht⟩ := of_prefix hp
    obtain ⟨rest, hrest, heq⟩ := exists_rest t
    refine ⟨rest, hrest, ?_⟩
    rw [ht, selector_eq (by rw [hpath, String.append_assoc]; exact hs.head), hpath, heq]
    simp only [String.append_assoc]
  rw [Named, key] at h
  rw [provider]
  dsimp only at h ⊢
  split at h
  · next hp =>
    obtain ⟨rest, hrest, hselector⟩ := hmember (s := "request") (by decide) hp
    rw [if_pos hp]
    exact ⟨_, rest, h, hrest, .inr ⟨"request", .inl rfl, rfl, hselector⟩⟩
  · next hp =>
    rw [if_neg hp]
    split at h
    · next hp =>
      obtain ⟨rest, hrest, hselector⟩ := hmember (s := "response") (by decide) hp
      rw [if_pos hp]
      exact ⟨_, rest, h, hrest, .inr ⟨"response", .inr rfl, rfl, hselector⟩⟩
    · next hp =>
      rw [if_neg hp]
      obtain ⟨rest, hrest, heq⟩ := exists_rest path.toList
      rw [String.ofList_toList] at heq
      refine ⟨_, rest, h, hrest, .inl ⟨rfl, ?_⟩⟩
      rw [selector_eq (by rw [heq]; exact h.head)]
      rw [String.append_assoc, ← heq]

end JsonPath

/-- A compiled path reads only below the keys that it starts with. -/
structure SelectsBelow (x : Externals) : Prop where
  key : ∀ k rest o o', JsonPath.PlainKey k → JsonPath.Ends rest →
    Object.get o k = Object.get o' k →
    x.pathSelect ("$." ++ k ++ rest) (.object o) = x.pathSelect ("$." ++ k ++ rest) (.object o')
  member : ∀ s k rest o o' m m', JsonPath.PlainKey s → JsonPath.PlainKey k → JsonPath.Ends rest →
    Object.get o s = some (.object m) → Object.get o' s = some (.object m') →
    Object.get m k = Object.get m' k →
    x.pathSelect ("$." ++ s ++ "." ++ k ++ rest) (.object o) =
      x.pathSelect ("$." ++ s ++ "." ++ k ++ rest) (.object o')

section Found

variable {x : Externals} {l : Layout} {p : RequiredProviders} {d d' : TemplateData l}
  {s : String} {next : Option String}

/-- A path that has been noted finds the same. -/
theorem path_foundSame (h : Agree p d.entries d'.entries)
    (hp : p.Has (Read.path s next).name) :
    (Read.path s next).FoundSame x (.borrowed (.object d.entries))
      (.borrowed (.object d'.entries)) := by
  intro noErr marker
  have hsame : find s next (.borrowed (.object d.entries)) noErr marker =
      find s next (.borrowed (.object d'.entries)) noErr marker := by
    rw [find_object, find_object]
    cases next with
    | none =>
      rw [Read.name] at hp
      rw [h.get_eq hp]
    | some next =>
      rw [Read.name] at hp
      by_cases hs : s = "request" ∨ s = "response"
      · rw [if_pos hs] at hp
        obtain ⟨hv, hv'⟩ | ⟨m, m', hv, hv', hget⟩ := component_cases hs (h.component_eq hs hp)
        · rw [hv, hv']
        · simp [indexStep, hv, hv', hget]
      · rw [if_neg hs] at hp
        rw [h.get_eq hp]
  exact ⟨hsame, hsame⟩

/-- A selector of a plain key that has been noted selects the same. -/
theorem selector_foundSame (crate : SelectsBelow x) (h : Agree p d.entries d'.entries)
    {path : String} (hn : JsonPath.Named path) (hp : p.Has (JsonPath.provider path)) :
    x.pathSelect (JsonPath.selector path) (.object d.entries) =
      x.pathSelect (JsonPath.selector path) (.object d'.entries) := by
  obtain ⟨k, rest, hk, hrest, ⟨rfl, hselector⟩ | ⟨s, hs, hprovider, hselector⟩⟩ :=
    JsonPath.named_cases hn
  · rw [hselector]
    exact crate.key _ _ _ _ hk hrest (h.get_eq hp)
  · rw [hprovider] at hp
    rw [hselector]
    have hcomponent := h.component_eq hs hp
    have hplain : JsonPath.PlainKey s := by rcases hs with rfl | rfl <;> decide
    obtain ⟨hv, hv'⟩ | ⟨m, m', hv, hv', hget⟩ := component_cases hs hcomponent
    · have hkey := crate.key s ("." ++ k ++ rest) d.entries d'.entries hplain
        (by simp [JsonPath.Ends]) (hv.trans hv'.symm)
      simpa only [String.append_assoc] using hkey
    · exact crate.member s k rest _ _ m m' hplain hk hrest hv hv' hget

end Found

/-- Every selector is that of a path that starts with a plain key. -/
def NamesKeys (rs : List Read) : Prop :=
  ∀ path, .selector (JsonPath.provider path) (JsonPath.selector path) ∈ rs → JsonPath.Named path

section Complete

variable {x : Externals} {g : Grammar} {vars : Object} {noErr : Bool} {marker : Marker}
  {depth : Nat} {text : String} {p q : RequiredProviders} {e : ValueOrExpression} {l : Layout}
  {d d' : TemplateData l} {rs : List Read}

/-- What is noted means the same in data that agree on what is noted. -/
theorem sameReads_of_agree (crate : SelectsBelow x) (ha : Agree q d.entries d'.entries)
    (hr : AllNoted q rs) (hn : NamesKeys rs) (forEach : Option (List Cow)) :
    SameReads x (.borrowed (.object d.entries)) (.borrowed (.object d'.entries)) forEach forEach
      rs := by
  intro r hmem
  refine ⟨fun _ => rfl, ?_⟩
  obtain ⟨hhas, hbuilt⟩ := hr r hmem
  cases r with
  | path s next => exact path_foundSame ha hhas
  | selector provider s =>
    obtain ⟨path, rfl, rfl⟩ := hbuilt
    exact selector_foundSame crate ha (hn path hmem) hhas

/-- An expression evaluates alike on template data that agree on what it has noted, if all its JSON
paths start with a plain key. -/
theorem evaluate_eq_of_agree (crate : SelectsBelow x)
    (h : ValueOrExpression.new x g vars noErr marker depth text p = .ok (e, q))
    (hn : NamesKeys e.reads) (ha : Agree q d.entries d'.entries) (noErr' : Bool)
    (forEach : Option (List Cow)) :
    e.evaluate x (.borrowed (.object d.entries)) noErr' forEach =
      e.evaluate x (.borrowed (.object d'.entries)) noErr' forEach := by
  have hreads := ((valueOrExpression_tracks depth text p e q h).2 RequiredProviders.within_refl).2
  exact e.evaluate_reads (sameReads_of_agree crate ha hreads hn forEach) noErr'

end Complete

/-- The member `b` of the member `a`. -/
def selectAB : Json → List Json
  | .object o => match Object.get o "a" with
    | some (.object m) => (Object.get m "b").toList
    | _ => []
  | _ => []

/-- A crate that compiles the two spellings of one path. -/
def abCrate : Externals :=
  { Externals.plain with
    pathSelect := fun s v => if s = "$.a.b" ∨ s = "$['a'].b" then selectAB v else [] }

/-- The call of `json_path` on a path. -/
def callText (path : String) : String := "json_path(\"" ++ path ++ "\")"

/-- The crates on that call. -/
def callGrammar (path : String) : Grammar where
  parse rule text :=
    if rule = .entryPoint ∧ text = callText path then
      some [.mk .expression text [.mk .value text [.mk .jsonPath text [.mk .functionCall text
        [.mk .functionIdent "json_path" [],
          .mk .functionArg path [.mk .expression path [.mk .value path [.mk .string path []]]]]]]],
        .mk .eoi "" []]
    else if rule = .templateEntryPoint ∧ text = path then
      some [.mk .templateEntryPoint path [.mk .templateNotExpression path []]]
    else none
  number _ := none

/-- What the call is parsed to. -/
def parsedCall (path : String) : ValueOrExpression :=
  .expression (.mk none (.value (.path (.mk (.functionCall
    (.jsonPath (JsonPath.provider path) (JsonPath.selector path) ⟨1, 1⟩)) [] ⟨1, 1⟩))) none)

/-- What the call notes. -/
def notedCall (path : String) : RequiredProviders :=
  .extend .new (.insert .new (JsonPath.provider path) ⟨1, 1⟩)

theorem new_call (path : String) :
    ValueOrExpression.new abCrate (callGrammar path) [] false ⟨1, 1⟩ 1 (callText path) .new =
      .ok (parsedCall path, notedCall path) := by
  rw [ValueOrExpression.new, parseText]
  simp [callGrammar, parseExpression, Pieces.expression, parseExpressionPieces,
    parseExpressionPiece, parseValue, parseValuePair, parsePathPairs, parsePathPair,
    parseFunctionCallPairs, parseFunctionCallPair, CallPieces.call, FunctionCall.new,
    JsonPath.new, Template.new, Template.newPieces, Template.newPiece, Template.simplifyToString,
    ValueOrExpression.fromExpression, Expression.simplifyToJson, applyNot,
    PathPieces.path, Object.get, Except.bind, Except.map, notOf, Expression.setNot,
    mergeNot, expressionHelper_single, abCrate, Externals.plain, parsedCall, notedCall,
    JsonPath.selector]

/-- The data with `b` below `a`, and `c`. -/
def abData (b c : Json) : Object := [("a", .object [("b", b)]), ("c", c)]

def abLayout : Layout where
  request := ["start-line", "headers", "headers_all", "body", "url", "method"]
  response := ["start-line", "headers", "headers_all", "body", "status"]
  request_perm := .refl _
  response_perm := .refl _

def abTemplate (b c : Json) : TemplateData abLayout where
  entries := abData b c
  request _ h := absurd h (by simp [abData, Object.get, List.lookup_cons])
  response _ h := absurd h (by simp [abData, Object.get, List.lookup_cons])
  component s bits h _ := by
    refine get_eq_none fun hmem => ?_
    obtain rfl | rfl : s = "a" ∨ s = "c" := by simpa [abData] using hmem
    · rw [show Special.ofName "a" = none by decide] at h
      simp at h
    · rw [show Special.ofName "c" = none by decide] at h
      simp at h

theorem JsonPath.selector_injective {path path' : String} (h : selector path = selector path') :
    path = path' := by
  have hstart {p : String} (hp : "[".toList.isPrefixOf p.toList) : p.toList.head? = some '[' := by
    obtain ⟨t, ht⟩ := List.isPrefixOf_iff_prefix.mp hp
    rw [← ht]
    rfl
  have hne {p p' : String} (hp : "[".toList.isPrefixOf p.toList) : "$" ++ p ≠ "$." ++ p' := by
    intro heq
    have hhead := congrArg (fun s => (s.toList.drop 1).head?) heq
    simp [hstart hp] at hhead
  rw [selector, selector] at h
  split at h <;> split at h
  · exact String.append_right_inj "$" |>.mp h
  · next hp _ => exact absurd h (hne hp)
  · next _ hp => exact absurd h.symm (hne hp)
  · exact String.append_right_inj "$." |>.mp h

/-- A plain key is the text up to a bracket or a dot. -/
theorem JsonPath.takeWhile_key {k rest : String} (hk : PlainKey k) (hrest : Ends rest) :
    (k ++ rest).toList.takeWhile (fun c => c ≠ '[' ∧ c ≠ '.') = k.toList := by
  have hkeep : ∀ c ∈ k.toList, decide (c ≠ '[' ∧ c ≠ '.') = true := by
    intro c hc
    have hnot := hk.2 c hc
    refine decide_eq_true ⟨?_, ?_⟩ <;> rintro rfl <;> exact hnot (by decide)
  have hstop : rest.toList.takeWhile (fun c => c ≠ '[' ∧ c ≠ '.') = [] := by
    cases hr : rest.toList with
    | nil => rfl
    | cons c cs =>
      have hc := hrest c (by rw [hr]; rfl)
      rw [List.takeWhile_cons_of_neg]
      rcases hc with rfl | rfl <;> simp
  rw [String.toList_append, List.takeWhile_append_of_pos hkeep, hstop, List.append_nil]

/-- A text starts with one plain key only. -/
theorem JsonPath.key_inj {k k' rest rest' : String} (hk : PlainKey k) (hk' : PlainKey k')
    (hrest : Ends rest) (hrest' : Ends rest') (h : k ++ rest = k' ++ rest') :
    k = k' ∧ rest = rest' := by
  have hkey : k = k' := String.toList_injective (by
    rw [← takeWhile_key hk hrest, h, takeWhile_key hk' hrest'])
  subst hkey
  exact ⟨rfl, by simpa using h⟩

/-- Below a plain key, the crate selects by the spelling with dots only. -/
theorem abCrate_select {k rest : String} (v : Json) (hk : JsonPath.PlainKey k)
    (hrest : JsonPath.Ends rest) :
    abCrate.pathSelect ("$." ++ k ++ rest) v =
      if k = "a" ∧ rest = ".b" then selectAB v else [] := by
  have hbracket : "$." ++ k ++ rest ≠ "$['a'].b" := by
    intro h
    simpa using congrArg String.toList h
  have hdotted : "$." ++ k ++ rest = "$.a.b" ↔ k = "a" ∧ rest = ".b" := by
    constructor
    · intro h
      refine JsonPath.key_inj hk (by decide) hrest (by simp [JsonPath.Ends]) ?_
      rw [String.append_assoc] at h
      exact String.append_right_inj "$." |>.mp h
    · rintro ⟨rfl, rfl⟩
      rfl
  simp only [abCrate, hdotted, hbracket, or_false]

theorem abCrate_below : SelectsBelow abCrate where
  key k rest o o' hk hrest hget := by
    rw [abCrate_select _ hk hrest, abCrate_select _ hk hrest]
    by_cases h : k = "a" ∧ rest = ".b"
    · obtain ⟨rfl, rfl⟩ := h
      simp only [selectAB, hget]
    · rw [if_neg h, if_neg h]
  member s k rest o o' m m' hs hk hrest hm hm' hget := by
    have hends : JsonPath.Ends ("." ++ k ++ rest) := by simp [JsonPath.Ends]
    have hsplit : "$." ++ s ++ "." ++ k ++ rest = "$." ++ s ++ ("." ++ k ++ rest) := by
      simp only [String.append_assoc]
    rw [hsplit, abCrate_select _ hs hends, abCrate_select _ hs hends]
    by_cases h : s = "a" ∧ "." ++ k ++ rest = ".b"
    · obtain ⟨rfl, hrest'⟩ := h
      have hkey : k = "b" := by
        refine (JsonPath.key_inj hk (by decide : JsonPath.PlainKey "b") hrest
          (by simp [JsonPath.Ends] : JsonPath.Ends "") ?_).1
        rw [String.append_assoc] at hrest'
        exact String.append_right_inj "." |>.mp hrest'
      subst hkey
      simp only [selectAB, hm, hm', hget]
    · rw [if_neg h, if_neg h]

theorem parsedCall_reads (path : String) :
    (parsedCall path).reads =
      [.selector (JsonPath.provider path) (JsonPath.selector path)] := by
  simp [parsedCall, ValueOrExpression.reads, Expression.reads, ExpressionLhs.reads, Value.reads,
    Path.reads, PathStart.reads, FunctionCall.reads, segmentsReads]

theorem parsedCall_evaluate {path : String} {v : Json} {noErr : Bool}
    {forEach : Option (List Cow)} :
    (parsedCall path).evaluate abCrate (.borrowed v) noErr forEach =
      .ok (.owned (.array (abCrate.pathSelect (JsonPath.selector path) v))) := by
  simp [parsedCall, ValueOrExpression.evaluate, Expression.evaluate, ExpressionLhs.evaluate,
    Value.evaluate, Path.evaluate, FunctionCall.evaluate, indexJson2, applyNot, Except.map,
    Except.bind]

/-- The call notes one name. -/
theorem notedCall_agree {path : String} {o o' : Object}
    (hp : Special.ofName (JsonPath.provider path) = none)
    (h : SameAt o o' (JsonPath.provider path)) : Agree (notedCall path) o o' := by
  have hspecial : (notedCall path).special = 0 := by
    simp [notedCall, (RequiredProviders.insert_of_plain hp).2]
  refine ⟨fun name hname => ?_, ?_, ?_, ?_⟩
  · rw [notedCall, RequiredProviders.mem_extend, RequiredProviders.mem_insert] at hname
    obtain rfl : name = JsonPath.provider path := by simpa [RequiredProviders.new, hp] using hname
    exact h
  all_goals simp [hspecial]

/-- A name without a dot is not that of a component. -/
theorem sameAt_of_short {o o' : Object} {name : String} (hlen : name.length < 8)
    (h : o.get name = o'.get name) : SameAt o o' name := by
  refine ⟨h, fun s c hs hname => ?_⟩
  have hlength := congrArg String.length hname
  rw [String.length_append, String.length_append] at hlength
  have hdot : ".".length = 1 := by decide
  rcases hs with rfl | rfl
  · have hs : "request".length = 7 := by decide
    omega
  · have hs : "response".length = 8 := by decide
    omega

theorem evaluate_eq_of_agree_dotted :
    (parsedCall "a.b").evaluate abCrate (.borrowed (.object (abData .null (.ofNat 1)))) false none =
      (parsedCall "a.b").evaluate abCrate (.borrowed (.object (abData .null (.ofNat 2)))) false
        none := by
  have hn : NamesKeys (parsedCall "a.b").reads := by
    intro path hmem
    rw [parsedCall_reads, List.mem_singleton, Read.selector.injEq] at hmem
    obtain rfl := JsonPath.selector_injective hmem.2
    decide
  have ha : Agree (notedCall "a.b") (abTemplate .null (.ofNat 1)).entries
      (abTemplate .null (.ofNat 2)).entries :=
    notedCall_agree (by decide) (sameAt_of_short (by decide) rfl)
  exact evaluate_eq_of_agree abCrate_below (new_call "a.b") hn ha false none

/-- Every expression evaluates alike on template data that agree on what it has noted. -/
def NotesAllReads : Prop :=
  ∀ (x : Externals) (g : Grammar) (vars : Object) (noErr : Bool) (marker : Marker) (depth : Nat)
    (text : String) (p q : RequiredProviders) (e : ValueOrExpression) (l : Layout)
    (d d' : TemplateData l) (noErr' : Bool) (forEach : Option (List Cow)),
    SelectsBelow x → ValueOrExpression.new x g vars noErr marker depth text p = .ok (e, q) →
    Agree q d.entries d'.entries →
      e.evaluate x (.borrowed (.object d.entries)) noErr' forEach =
        e.evaluate x (.borrowed (.object d'.entries)) noErr' forEach

/-- The path `['a'].b` is noted under the empty name. -/
theorem not_notesAllReads : ¬ NotesAllReads := by
  intro h
  have heq := h abCrate (callGrammar "['a'].b") [] false ⟨1, 1⟩ 1 (callText "['a'].b") .new
    (notedCall "['a'].b") (parsedCall "['a'].b") abLayout (abTemplate (.ofNat 1) .null)
    (abTemplate (.ofNat 2) .null) false none abCrate_below (new_call _)
    (notedCall_agree (by decide) (sameAt_of_short (by decide) rfl))
  have hselector : JsonPath.selector "['a'].b" = "$['a'].b" := by decide
  rw [parsedCall_evaluate, parsedCall_evaluate, hselector] at heq
  simp [abCrate, abTemplate, abData, selectAB, Object.get, Json.ofNat] at heq

end Pewpew.SelectParser
