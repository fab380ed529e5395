import Pewpew.TryRun.Endpoints
import Mathlib.Data.List.Induction

/-! The endpoints that a try run makes are the least set that the filter and the required providers
ask for. -/
namespace Pewpew.TryRun

open Polling SelectParser Request

variable {Tags Builder ε P : Type} {config : List (ConfigEndpoint Tags Builder)}
  {filterFn : Tags → Bool} {buildWith : Builder → Endpoint ε P} {response : Std.ExtTreeSet String}
  {s : Search ε P} {i j : Nat} {p : String} {e : ConfigEndpoint Tags Builder}

/-! ### What is asked for -/

/-- The endpoint at an index is registered as providing a name. -/
def Registered (config : List (ConfigEndpoint Tags Builder)) (p : String) (i : Nat) : Prop :=
  ∃ e, config[i]? = some e ∧ p ∈ e.providesSet

/-- A response provider that an endpoint requires. -/
def Requires (response : Std.ExtTreeSet String) (e : ConfigEndpoint Tags Builder) (p : String) :
    Prop :=
  p ∈ e.requiredProviders.inner ∧ p ∈ response

/-- The least set of indices with the endpoints that match the filter and, for every response
provider required by one of the set, the endpoints registered as providing it. -/
inductive Selected (config : List (ConfigEndpoint Tags Builder)) (filterFn : Tags → Bool)
    (response : Std.ExtTreeSet String) : Nat → Prop where
  | filter {i : Nat} {e : ConfigEndpoint Tags Builder} : config[i]? = some e →
      filterFn e.tags = true → Selected config filterFn response i
  | required {i j : Nat} {e : ConfigEndpoint Tags Builder} {p : String} :
      Selected config filterFn response j → config[j]? = some e → Requires response e p →
        Registered config p i → Selected config filterFn response i

/-- The endpoint is registered for a response provider that a selected endpoint requires. -/
def Needed (config : List (ConfigEndpoint Tags Builder)) (filterFn : Tags → Bool)
    (response : Std.ExtTreeSet String) (i : Nat) : Prop :=
  ∃ j e p, Selected config filterFn response j ∧ config[j]? = some e ∧ Requires response e p ∧
    Registered config p i

theorem Needed.selected (h : Needed config filterFn response i) :
    Selected config filterFn response i := by
  obtain ⟨j, e, p, hj, he, hp, hi⟩ := h
  exact .required hj he hp hi

theorem requires_iff : Requires response e p ↔
    p ∈ e.requiredProviders.inner.keys.filter fun p => response.contains p := by
  rw [List.mem_filter, Std.ExtTreeMap.mem_keys, Std.ExtTreeSet.contains_iff_mem, Requires]

/-! ### The registered endpoints -/

/-- A map from names to indices lists the index under the name. -/
abbrev Lists (providers : Std.ExtTreeMap String (List Nat)) (p : String) (i : Nat) : Prop :=
  i ∈ providers[p]?.getD []

theorem lists_pushIndex {providers : Std.ExtTreeMap String (List Nat)} {q : String} {n : Nat} :
    Lists (pushIndex providers q n) p i ↔ Lists providers p i ∨ i = n ∧ p = q := by
  rw [Lists, pushIndex, Std.ExtTreeMap.getElem?_insert]
  by_cases h : q = p
  · simp [h]
  · simp [h, Ne.symm h, Std.LawfulEqCmp.compare_eq_iff_eq]

theorem lists_pushAll {providers : Std.ExtTreeMap String (List Nat)} {names : List String}
    {n : Nat} : Lists (names.foldl (fun ps p => pushIndex ps p n) providers) p i ↔
      Lists providers p i ∨ i = n ∧ p ∈ names := by
  induction names generalizing providers with
  | nil => simp
  | cons q names ih =>
    rw [List.foldl_cons, ih, lists_pushIndex, List.mem_cons, or_assoc, ← and_or_left]

theorem createEndpoints_append (config : List (ConfigEndpoint Tags Builder))
    (e : ConfigEndpoint Tags Builder) : createEndpoints (config ++ [e]) =
      (createEndpoints config).append e.tags e.builder e.providesSet e.requiredProviders := by
  rw [createEndpoints, List.foldl_append]
  rfl

theorem createEndpoints_inner (config : List (ConfigEndpoint Tags Builder)) :
    (createEndpoints config).inner =
      config.map fun e => (e.tags, e.builder, e.requiredProviders.inner.keys) := by
  induction config using List.reverseRecOn with
  | nil => rfl
  | append_singleton config e ih =>
    rw [createEndpoints_append, Endpoints.append, ih, List.map_append]
    rfl

theorem registered_append : Registered (config ++ [e]) p i ↔
    Registered config p i ∨ i = config.length ∧ p ∈ e.providesSet := by
  simp only [Registered]
  rcases lt_trichotomy i config.length with h | rfl | h
  · rw [List.getElem?_append_left h]
    simp [h.ne]
  · simp
  · rw [List.getElem?_append_right h.le, List.getElem?_eq_none (l := config) h.le,
      List.getElem?_eq_none (by simp; omega)]
    simp [h.ne']

/-- The indices listed under a name are those of the endpoints registered for it. -/
theorem lists_createEndpoints :
    Lists (createEndpoints config).providers p i ↔ Registered config p i := by
  induction config using List.reverseRecOn with
  | nil => simp [Lists, createEndpoints, Endpoints.new, Registered]
  | append_singleton config e ih =>
    rw [createEndpoints_append, registered_append, ← ih, Endpoints.append, lists_pushAll,
      createEndpoints_inner, List.length_map]

/-! ### One round -/

theorem takeProviders_providers (names : List String) :
    (s.takeProviders names).providers[p]? = if p ∈ names then none else s.providers[p]? := by
  induction names generalizing s with
  | nil => rfl
  | cons q names ih =>
    rw [Search.takeProviders]
    by_cases hq : p = q
    · subst hq
      split <;> simp_all
    · split <;>
        simp_all [Std.ExtTreeMap.getElem?_erase, Std.LawfulEqCmp.compare_eq_iff_eq, Ne.symm hq]

theorem mem_takeProviders_required (names : List String) :
    i ∈ (s.takeProviders names).required ↔
      i ∈ s.required ∨ ∃ p ∈ names, Lists s.providers p i := by
  induction names generalizing s with
  | nil => simp [Search.takeProviders]
  | cons q names ih =>
    rw [Search.takeProviders]
    split
    · next indices h =>
      rw [ih]
      have herase (p : String) :
          Lists (s.providers.erase q) p i ↔ p ≠ q ∧ Lists s.providers p i := by
        by_cases hp : q = p
        · simp [Lists, hp]
        · simp [Lists, Std.ExtTreeMap.getElem?_erase, Std.LawfulEqCmp.compare_eq_iff_eq, hp,
            Ne.symm hp]
      have hq : Lists s.providers q i ↔ i ∈ indices := by rw [Lists, h, Option.getD_some]
      simp only [herase, List.mem_append, List.mem_cons]
      constructor
      · rintro ((h | h) | ⟨p, hp, -, hl⟩)
        · exact .inl h
        · exact .inr ⟨q, .inl rfl, hq.mpr h⟩
        · exact .inr ⟨p, .inr hp, hl⟩
      · rintro (h | ⟨p, hp, hl⟩)
        · exact .inl (.inl h)
        · by_cases hpq : p = q
          · exact .inl (.inr (hq.mp (hpq ▸ hl)))
          · exact .inr ⟨p, hp.resolve_left hpq, hpq, hl⟩
    · next h =>
      rw [ih]
      have hq : ¬ Lists s.providers q i := by simp [Lists, h]
      simp [hq]

/-- What holds before every round; an index that was just taken from the queue is `late`. -/
structure Invariant (config : List (ConfigEndpoint Tags Builder)) (filterFn : Tags → Bool)
    (buildWith : Builder → Endpoint ε P) (response : Std.ExtTreeSet String) (late : Option Nat)
    (s : Search ε P) : Prop where
  endpoints : ∀ (i : Nat) x, s.endpoints[i]? = some x → ∃ e : ConfigEndpoint Tags Builder,
    config[i]? = some e ∧ x = (filterFn e.tags, buildWith e.builder, e.requiredProviders.inner.keys)
  covered : ∀ i < config.length, i ∈ s.endpoints ∨ i ∈ s.needed
  apart : ∀ i ∈ s.endpoints, i ∉ s.needed
  needed : ∀ (i : Nat) ep b, s.needed[i]? = some (ep, b) → Selected config filterFn response i ∧
    (∃ e : ConfigEndpoint Tags Builder, config[i]? = some e ∧ ep = buildWith e.builder) ∧
      (b = true → Needed config filterFn response i)
  queued : ∀ i ∈ s.required, Needed config filterFn response i
  registered : ∀ p i, Lists s.providers p i → Registered config p i
  taken : ∀ p (i : Nat), Registered config p i → Lists s.providers p i ∨ i ∈ s.required ∨
    late = some i ∨ ∃ ep, s.needed[i]? = some (ep, true)
  closed : ∀ (j : Nat) (e : ConfigEndpoint Tags Builder) p, j ∈ s.needed →
    config[j]? = some e → Requires response e p → s.providers[p]? = none

section Round

variable {late : Option Nat} {bypass : Bool}

theorem mem_of_getElem? {V : Type} {m : Std.ExtTreeMap Nat V} {v : V} (h : m[i]? = some v) :
    i ∈ m := Std.ExtTreeMap.mem_iff_isSome_getElem?.mpr (by rw [h]; rfl)

theorem getElem?_insert_ne {V : Type} {m : Std.ExtTreeMap Nat V} {v : V} (h : j ≠ i) :
    (m.insert i v)[j]? = m[j]? := by
  rw [Std.ExtTreeMap.getElem?_insert, if_neg (by simpa using Ne.symm h)]

/-- An endpoint joins the chosen ones, the endpoints of what it requires join the queue. -/
theorem Invariant.choose (h : Invariant config filterFn buildWith response late s)
    (hlate : ∀ j, late = some j → j = i ∧ bypass = true) {included : Bool} {ep : Endpoint ε P}
    {required : List String} (hi : s.endpoints[i]? = some (included, ep, required))
    (hb : bypass = true → Needed config filterFn response i) (hin : (included || bypass) = true) :
    Invariant config filterFn buildWith response none (s.visit response bypass i) := by
  obtain ⟨e, he, hx⟩ := h.endpoints i _ hi
  simp only [Prod.mk.injEq] at hx
  obtain ⟨rfl, rfl, rfl⟩ := hx
  have hsel : Selected config filterFn response i := by
    rcases Bool.or_eq_true_iff.mp hin with hf | hf
    · exact .filter he hf
    · exact (hb hf).selected
  have hnot := h.apart i (mem_of_getElem? hi)
  rw [Search.visit, hi]
  simp only [hin, if_true]
  constructor
  · intro j x hj
    rw [takeProviders_endpoints, Std.ExtTreeMap.getElem?_erase] at hj
    split at hj
    · cases hj
    · exact h.endpoints j x hj
  · intro j hj
    rw [Std.ExtTreeMap.mem_erase, Std.ExtTreeMap.mem_insert, takeProviders_endpoints,
      takeProviders_needed]
    have := h.covered j hj
    by_cases hij : compare i j = .eq <;> simp_all
  · intro j hj hn
    rw [takeProviders_endpoints, Std.ExtTreeMap.mem_erase] at hj
    rw [takeProviders_needed, Std.ExtTreeMap.mem_insert] at hn
    exact h.apart j hj.2 (hn.resolve_left hj.1)
  · intro j ep b hj
    rw [takeProviders_needed] at hj
    by_cases hij : j = i
    · subst hij
      rw [Std.ExtTreeMap.getElem?_insert_self, Option.some.injEq, Prod.mk.injEq] at hj
      exact ⟨hsel, ⟨e, he, hj.1.symm⟩, fun hb' => hb (hj.2.trans hb')⟩
    · rw [getElem?_insert_ne hij] at hj
      exact h.needed j ep b hj
  · intro j hj
    rcases (mem_takeProviders_required _).mp hj with hj | ⟨p, hp, hl⟩
    · exact h.queued j hj
    · exact ⟨i, e, p, hsel, he, requires_iff.mpr hp, h.registered p j hl⟩
  · intro p j hl
    rw [Lists, takeProviders_providers] at hl
    split at hl
    · cases hl
    · exact h.registered p j hl
  · intro p j hr
    rw [mem_takeProviders_required, takeProviders_needed, Lists, takeProviders_providers]
    rcases h.taken p j hr with hl | hq | hlt | ⟨ep', hn⟩
    · by_cases hp : p ∈ e.requiredProviders.inner.keys.filter fun p => response.contains p
      · exact .inr (.inl (.inr ⟨p, hp, hl⟩))
      · rw [if_neg hp]
        exact .inl hl
    · exact .inr (.inl (.inl hq))
    · obtain ⟨rfl, rfl⟩ := hlate j hlt
      exact .inr (.inr (.inr ⟨_, Std.ExtTreeMap.getElem?_insert_self⟩))
    · have hij : j ≠ i := by
        rintro rfl
        exact hnot (mem_of_getElem? hn)
      exact .inr (.inr (.inr ⟨ep', by rw [getElem?_insert_ne hij, hn]⟩))
  · intro j e' p hj he' hp
    rw [takeProviders_needed, Std.ExtTreeMap.mem_insert, Std.LawfulEqCmp.compare_eq_iff_eq] at hj
    rw [takeProviders_providers]
    rcases hj with rfl | hj
    · obtain rfl := Option.some.inj (he.symm.trans he')
      rw [if_pos (requires_iff.mp hp)]
    · rw [h.closed j e' p hj he' hp, ite_self]

/-- A chosen endpoint is asked for again. -/
theorem Invariant.again (h : Invariant config filterFn buildWith response late s)
    (hlate : ∀ j, late = some j → j = i) {ep : Endpoint ε P} {b : Bool}
    (hi : s.needed[i]? = some (ep, b)) (hn : Needed config filterFn response i) :
    Invariant config filterFn buildWith response none
      { s with needed := s.needed.insert i (ep, true) } := by
  have hmem (j : Nat) : j ∈ s.needed.insert i (ep, true) ↔ j ∈ s.needed := by
    rw [Std.ExtTreeMap.mem_insert, Std.LawfulEqCmp.compare_eq_iff_eq, or_iff_right_iff_imp]
    rintro rfl
    exact mem_of_getElem? hi
  refine ⟨h.endpoints, fun j hj => ?_, fun j hj => ?_, fun j ep' b' hj => ?_, h.queued,
    h.registered, fun p j hr => ?_, fun j e p hj => h.closed j e p ((hmem j).mp hj)⟩
  · rw [hmem]
    exact h.covered j hj
  · rw [hmem]
    exact h.apart j hj
  · by_cases hij : j = i
    · subst hij
      simp only [Std.ExtTreeMap.getElem?_insert_self, Option.some.injEq, Prod.mk.injEq] at hj
      obtain ⟨hsel, he, -⟩ := h.needed j ep b hi
      exact ⟨hsel, hj.1 ▸ he, fun _ => hn⟩
    · exact h.needed j ep' b' ((getElem?_insert_ne hij).symm.trans hj)
  · by_cases hij : j = i
    · subst hij
      exact .inr (.inr (.inr ⟨ep, Std.ExtTreeMap.getElem?_insert_self⟩))
    · rcases h.taken p j hr with hl | hq | hlt | ⟨ep', hn'⟩
      · exact .inl hl
      · exact .inr (.inl hq)
      · exact (hij (hlate j hlt)).elim
      · exact .inr (.inr (.inr ⟨ep', (getElem?_insert_ne hij).trans hn'⟩))

/-- A round of the first loop. -/
theorem invariant_visit (h : Invariant config filterFn buildWith response none s)
    (hi : i ∈ s.endpoints) :
    Invariant config filterFn buildWith response none (s.visit response false i) := by
  obtain ⟨⟨included, ep, required⟩, hx⟩ :=
    Option.isSome_iff_exists.mp (Std.ExtTreeMap.mem_iff_isSome_getElem?.mp hi)
  cases included with
  | true => exact h.choose nofun hx nofun rfl
  | false =>
    rw [Search.visit, hx]
    exact h

/-- A round for an index from the queue. -/
theorem invariant_bypass {required : List Nat}
    (h : Invariant config filterFn buildWith response none s) (hq : s.required = i :: required) :
    Invariant config filterFn buildWith response none
      ({ s with required }.visit response true i) := by
  have hneeded := h.queued i (hq ▸ List.mem_cons_self)
  have hlate : Invariant config filterFn buildWith response (some i) { s with required } :=
    { h with
      queued := fun j hj => h.queued j (hq ▸ List.mem_cons_of_mem _ hj)
      taken := fun p j hr => by
        rcases h.taken p j hr with hl | hj | hlt | hn
        · exact .inl hl
        · rw [hq, List.mem_cons] at hj
          rcases hj with rfl | hj
          · exact .inr (.inr (.inl rfl))
          · exact .inr (.inl hj)
        · cases hlt
        · exact .inr (.inr (.inr hn)) }
  have hlt : i < config.length := by
    obtain ⟨-, -, p, -, -, -, e, he, -⟩ := hneeded
    exact (List.getElem?_eq_some_iff.mp he).1
  cases hx : s.endpoints[i]? with
  | some x =>
    exact hlate.choose (fun j hj => ⟨(Option.some.inj hj).symm, rfl⟩) hx (fun _ => hneeded)
      (Bool.or_true _)
  | none =>
    have hmem : i ∈ s.needed := (h.covered i hlt).resolve_left fun hm => by
      simp [Std.ExtTreeMap.mem_iff_isSome_getElem?, hx] at hm
    obtain ⟨⟨ep, b⟩, hn⟩ :=
      Option.isSome_iff_exists.mp (Std.ExtTreeMap.mem_iff_isSome_getElem?.mp hmem)
    simp only [Search.visit, hx, hn]
    exact hlate.again (fun j hj => (Option.some.inj hj).symm) hn hneeded

end Round

/-! ### The loop -/

/-- A round keeps what is chosen. -/
theorem mem_visit_needed {bypass : Bool} (hj : j ∈ s.needed) :
    j ∈ (s.visit response bypass i).needed := by
  unfold Search.visit
  split
  · split
    · exact Std.ExtTreeMap.mem_insert.mpr (.inr (by rwa [takeProviders_needed]))
    · exact hj
  · split
    · exact Std.ExtTreeMap.mem_insert.mpr (.inr hj)
    · exact hj

/-- A round takes no endpoint but its own. -/
theorem mem_visit_endpoints {bypass : Bool} (hj : j ∈ s.endpoints) (hij : j ≠ i) :
    j ∈ (s.visit response bypass i).endpoints := by
  unfold Search.visit
  split
  · split
    · exact Std.ExtTreeMap.mem_erase.mpr
        ⟨by simpa using Ne.symm hij, by rwa [takeProviders_endpoints]⟩
    · exact hj
  · split <;> exact hj

/-- An endpoint that matches the filter is chosen in its round. -/
theorem mem_visit_included {bypass : Bool} {x : Endpoint ε P × List String}
    (hx : s.endpoints[i]? = some (true, x)) : i ∈ (s.visit response bypass i).needed := by
  rw [Search.visit, hx]
  exact Std.ExtTreeMap.mem_insert_self

theorem start_endpoints (es : Endpoints Tags Builder) (i : Nat) :
    (es.start filterFn buildWith).endpoints[i]? =
      es.inner[i]?.map fun x => (filterFn x.1, buildWith x.2.1, x.2.2) := by
  rw [Endpoints.start]
  cases hx : es.inner[i]? with
  | none =>
    refine Std.ExtTreeMap.getElem?_ofList_of_contains_eq_false ?_
    simp only [List.map_map, List.contains_eq_mem, List.mem_map, List.mem_zipIdx_iff_getElem?,
      decide_eq_false_iff_not]
    rintro ⟨⟨x, j⟩, hj, rfl⟩
    exact absurd (hx.symm.trans hj) nofun
  | some x =>
    refine Std.ExtTreeMap.getElem?_ofList_of_mem (k := i) Std.ReflCmp.compare_self ?_ ?_
    · rw [List.pairwise_map, List.pairwise_iff_getElem]
      intro a b ha hb hab
      simp [hab.ne]
    · exact List.mem_map.mpr ⟨(x, i), List.mem_zipIdx_iff_getElem?.mpr hx, rfl⟩

/-- The state before the loop. -/
theorem invariant_start : Invariant config filterFn buildWith response none
    ((createEndpoints config).start filterFn buildWith) := by
  have hnone (i : Nat) : i ∉ ((createEndpoints config).start filterFn buildWith).needed :=
    Std.ExtTreeMap.not_mem_empty
  constructor
  · intro i x hx
    rw [start_endpoints, createEndpoints_inner, List.getElem?_map, Option.map_map] at hx
    obtain ⟨e, he, rfl⟩ := Option.map_eq_some_iff.mp hx
    exact ⟨e, he, rfl⟩
  · intro i hi
    left
    rw [Std.ExtTreeMap.mem_iff_isSome_getElem?, start_endpoints, createEndpoints_inner]
    simp [hi]
  · exact fun i _ => hnone i
  · exact fun i ep b h => (hnone i (mem_of_getElem? h)).elim
  · nofun
  · exact fun p i h => lists_createEndpoints.mp h
  · exact fun p i h => .inl (lists_createEndpoints.mpr h)
  · exact fun j e p hj => (hnone j hj).elim

/-- The first loop chooses all endpoints that match the filter. -/
theorem invariant_filter (config : List (ConfigEndpoint Tags Builder)) (filterFn : Tags → Bool)
    (buildWith : Builder → Endpoint ε P) (response : Std.ExtTreeSet String) {n : Nat}
    (hn : n ≤ config.length) :
    let s := (List.range n).foldl (fun s i => s.visit response false i)
      ((createEndpoints config).start filterFn buildWith)
    Invariant config filterFn buildWith response none s ∧
      (∀ j < config.length, n ≤ j → j ∈ s.endpoints) ∧
        ∀ j < n, ∀ e, config[j]? = some e → filterFn e.tags = true → j ∈ s.needed := by
  induction n with
  | zero =>
    have hstart : Invariant config filterFn buildWith response none _ := invariant_start
    refine ⟨hstart, fun j hj _ => ?_, nofun⟩
    exact (hstart.covered j hj).resolve_right Std.ExtTreeMap.not_mem_empty
  | succ n ih =>
    obtain ⟨hinv, hleft, hdone⟩ := ih (Nat.le_of_succ_le hn)
    rw [List.range_succ, List.foldl_append]
    have hmem := hleft n hn le_rfl
    refine ⟨invariant_visit hinv hmem, fun j hj hnj => ?_, fun j hj e he hf => ?_⟩
    · exact mem_visit_endpoints (hleft j hj (Nat.le_of_succ_le hnj)) (Nat.ne_of_gt hnj)
    · rcases Nat.lt_succ_iff_lt_or_eq.mp hj with hj | rfl
      · exact mem_visit_needed (hdone j hj e he hf)
      · obtain ⟨x, hx⟩ :=
          Option.isSome_iff_exists.mp (Std.ExtTreeMap.mem_iff_isSome_getElem?.mp hmem)
        obtain ⟨e', he', rfl⟩ := hinv.endpoints _ _ hx
        obtain rfl := Option.some.inj (he.symm.trans he')
        rw [hf] at hx
        exact mem_visit_included hx

/-- The second loop empties the queue. -/
theorem invariant_drain (s : Search ε P)
    (h : Invariant config filterFn buildWith response none s) :
    Invariant config filterFn buildWith response none (s.drain response) ∧
      (s.drain response).required = [] ∧ ∀ j ∈ s.needed, j ∈ (s.drain response).needed := by
  induction s using Search.drain.induct response with
  | case1 s hq =>
    rw [Search.drain, hq]
    exact ⟨h, hq, fun _ hj => hj⟩
  | case2 s i required hq ih =>
    obtain ⟨hinv, hnil, hmem⟩ := ih (invariant_bypass h hq)
    rw [Search.drain, hq]
    exact ⟨hinv, hnil, fun j hj => hmem j (mem_visit_needed hj)⟩

/-- An invariant state with an empty queue has chosen what is asked for. -/
theorem Invariant.complete (h : Invariant config filterFn buildWith response none s)
    (hq : s.required = [])
    (hf : ∀ j < config.length, ∀ e, config[j]? = some e → filterFn e.tags = true → j ∈ s.needed) :
    (∀ i, i ∈ s.needed ↔ Selected config filterFn response i) ∧
      ∀ i ep b, s.needed[i]? = some (ep, b) → (b = true ↔ Needed config filterFn response i) := by
  have htaken {j p : _} {e : ConfigEndpoint Tags Builder} (hj : j ∈ s.needed)
      (he : config[j]? = some e) (hp : Requires response e p) {i : Nat}
      (hr : Registered config p i) : ∃ ep, s.needed[i]? = some (ep, true) := by
    rcases h.taken p i hr with hl | hi | hlt | hn
    · rw [Lists, h.closed j e p hj he hp] at hl
      cases hl
    · rw [hq] at hi
      cases hi
    · cases hlt
    · exact hn
  have hall (i : Nat) (hi : Selected config filterFn response i) : i ∈ s.needed := by
    induction hi with
    | filter he hm => exact hf _ (List.getElem?_eq_some_iff.mp he).1 _ he hm
    | required _ he hp hr ih =>
      obtain ⟨ep, hn⟩ := htaken ih he hp hr
      exact mem_of_getElem? hn
  refine ⟨fun i => ⟨fun hi => ?_, hall i⟩, fun i ep b hn => ⟨(h.needed i ep b hn).2.2, ?_⟩⟩
  · obtain ⟨⟨ep, b⟩, hn⟩ :=
      Option.isSome_iff_exists.mp (Std.ExtTreeMap.mem_iff_isSome_getElem?.mp hi)
    exact (h.needed i ep b hn).1
  · rintro ⟨j, e, p, hj, he, hp, hr⟩
    obtain ⟨ep', hn'⟩ := htaken (hall j hj) he hp hr
    rw [hn', Option.some.injEq, Prod.mk.injEq] at hn
    exact hn.2.symm

/-! ### The endpoints that run -/

/-- The requests of an endpoint wait for one row of items each: it makes at most one. -/
def MakesOneRequest (ep : Endpoint ε P) : Prop :=
  ∀ m n, ZipAll.IsRow ((ZipAll.zipAll (ep.streamCollection.map Prod.snd)).get m) →
    ZipAll.IsRow ((ZipAll.zipAll (ep.streamCollection.map Prod.snd)).get n) → m = n

theorem addStartStream_mem (ep : Endpoint ε P) (stream : PollStream (Except ε StreamItem)) :
    (true, stream) ∈ (ep.addStartStream stream).streamCollection := by
  unfold Endpoint.addStartStream
  split
  · exact List.mem_cons_self
  · exact List.mem_append_right _ (List.mem_singleton_self _)

theorem makesOneRequest_finish (ep : Endpoint ε P) : MakesOneRequest (finish (ep, false)) := by
  have hmem := addStartStream_mem ep.clearProvides (ready (.ok .none))
  have hlast : ZipAll.Last (((finish (ep, false)).streamCollection.map Prod.snd).map
      fun s => (s, (none : Option StreamItem))) := by
    refine ⟨_, List.mem_map_of_mem (List.mem_map_of_mem hmem), .inl ⟨rfl, ⟨.none, rfl⟩, rfl⟩⟩
  exact fun m n => ZipAll.last_get hlast

theorem addStartStream_provides (ep : Endpoint ε P) (stream : PollStream (Except ε StreamItem)) :
    (ep.addStartStream stream).provides = ep.provides := by
  unfold Endpoint.addStartStream
  split <;> rfl

/-- A sorted list with the entries of a map is the list of the map. -/
theorem toList_eq_of_sorted {V : Type} {m : Std.ExtTreeMap Nat V} {l : List (Nat × V)}
    (hsorted : l.Pairwise fun a b => a.1 < b.1) (hmem : ∀ k v, m[k]? = some v ↔ (k, v) ∈ l) :
    m.toList = l := by
  have hm : m.toList.Pairwise fun a b => a.1 < b.1 :=
    Std.ExtTreeMap.ordered_keys_toList.imp fun h => Nat.compare_eq_lt.mp h
  have hnodup {xs : List (Nat × V)} (h : xs.Pairwise fun a b => a.1 < b.1) : xs.Nodup :=
    h.imp fun hlt heq => absurd (heq ▸ hlt) (Nat.lt_irrefl _)
  have hanti (a b : Nat × V) (hab : a.1 < b.1) (hba : b.1 < a.1) : a = b :=
    absurd hab (Nat.lt_asymm hba)
  refine List.Perm.eq_of_pairwise (fun a b _ _ => hanti a b) hm hsorted ?_
  refine (List.perm_ext_iff_of_nodup (hnodup hm) (hnodup hsorted)).mpr fun ⟨k, v⟩ => ?_
  rw [Std.ExtTreeMap.mem_toList_iff_getElem?_eq_some, hmem]

open Classical in
/-- `build` returns the endpoints of the closure in the order of the config: those that a selected
one needs as they are, the others without their provides and with one request. -/
theorem build_eq (config : List (ConfigEndpoint Tags Builder)) (filterFn : Tags → Bool)
    (buildWith : Builder → Endpoint ε P) (response : Std.ExtTreeSet String) :
    (createEndpoints config).build filterFn buildWith response =
      (config.zipIdx.filter fun x => Selected config filterFn response x.2).map (fun x =>
        finish (buildWith x.1.builder, decide (Needed config filterFn response x.2))) ∧
    ∀ ep : Endpoint ε P, finish (ep, true) = ep ∧ (finish (ep, false)).provides = [] ∧
      MakesOneRequest (finish (ep, false)) := by
  refine ⟨?_, fun ep => ⟨rfl, addStartStream_provides _ _, makesOneRequest_finish ep⟩⟩
  have hlen : (createEndpoints config).inner.length = config.length := by
    rw [createEndpoints_inner, List.length_map]
  obtain ⟨hinv, -, hdone⟩ := invariant_filter config filterFn buildWith response le_rfl
  obtain ⟨hinv, hnil, hkept⟩ := invariant_drain _ hinv
  obtain ⟨hsel, hneed⟩ := hinv.complete hnil fun j hj e he hf => hkept j (hdone j hj e he hf)
  rw [← hlen] at hsel hneed hinv
  rw [Endpoints.build, toList_eq_of_sorted (l := (config.zipIdx.filter fun x =>
    Selected config filterFn response x.2).map fun x =>
      (x.2, buildWith x.1.builder, decide (Needed config filterFn response x.2))), List.map_map]
  · rfl
  · rw [List.pairwise_map]
    refine List.Pairwise.filter _ (List.pairwise_iff_getElem.mpr fun a b ha hb hab => ?_)
    simpa using hab
  · rintro i ⟨ep, b⟩
    have hentry {ep : Endpoint ε P} {b : Bool}
        (hx : ((createEndpoints config).search filterFn buildWith response).needed[i]? =
          some (ep, b)) : ∃ e : ConfigEndpoint Tags Builder, config[i]? = some e ∧
            (ep, b) = (buildWith e.builder, decide (Needed config filterFn response i)) := by
      obtain ⟨-, ⟨e, he, rfl⟩, -⟩ := hinv.needed i ep b hx
      exact ⟨e, he, by rw [Bool.eq_iff_iff.mpr ((hneed i _ b hx).trans (decide_eq_true_iff).symm)]⟩
    simp only [List.mem_map, List.mem_filter, decide_eq_true_eq]
    constructor
    · intro hx
      obtain ⟨e, he, heq⟩ := hentry hx
      exact ⟨(e, i), ⟨List.mem_zipIdx_iff_getElem?.mpr he, (hsel i).mp (mem_of_getElem? hx)⟩,
        congrArg (Prod.mk i) heq.symm⟩
    · rintro ⟨⟨e, j⟩, ⟨hj, hs⟩, heq⟩
      obtain ⟨rfl, heq⟩ := Prod.mk.inj heq
      obtain ⟨⟨ep', b'⟩, hx⟩ :=
        Option.isSome_iff_exists.mp (Std.ExtTreeMap.mem_iff_isSome_getElem?.mp ((hsel j).mpr hs))
      obtain ⟨e', he', heq'⟩ := hentry hx
      obtain rfl := Option.some.inj ((List.mem_zipIdx_iff_getElem?.mp hj).symm.trans he')
      exact hx.trans (congrArg some (heq'.trans (Prod.mk.inj heq).2))

end Pewpew.TryRun
