import Pewpew.Expression.Providers
import Pewpew.Request.RequestMaker
import Pewpew.Stream.ZipAll
import Std.Data.ExtTreeSet

/-! `Endpoints`: which endpoints a try run makes, and which of them once only. -/
namespace Pewpew.TryRun

open Polling SelectParser Request

variable {Tags Builder ε P : Type}

/-- An endpoint of the config, as far as the selection looks at it: its static tags, the names
that it provides and the providers that it requires. -/
structure ConfigEndpoint (Tags Builder : Type) where
  tags : Tags
  builder : Builder
  provides : List String
  requiredProviders : RequiredProviders

/-- `request::Endpoint`: what it provides and the streams that its requests wait for, the start
stream with a mark. -/
structure Endpoint (ε P : Type) where
  provides : List P
  streamCollection : List (Bool × PollStream (Except ε StreamItem))

def Endpoint.clearProvides (ep : Endpoint ε P) : Endpoint ε P := { ep with provides := [] }

/-- If there is a start stream it is replaced. -/
def Endpoint.addStartStream (ep : Endpoint ε P) (stream : PollStream (Except ε StreamItem)) :
    Endpoint ε P :=
  match ep.streamCollection with
  | (true, _) :: streams => { ep with streamCollection := (true, stream) :: streams }
  | streams => { ep with streamCollection := streams ++ [(true, stream)] }

/-- `future::ready(item).into_stream()`. -/
def ready {α : Type} (item : α) : PollStream α :=
  Stream'.cons (.ready (some item)) (Stream'.const (.ready none))

/-- The endpoints so far, and the indices of those that provide a name. -/
structure Endpoints (Tags Builder : Type) where
  inner : List (Tags × Builder × List String)
  providers : Std.ExtTreeMap String (List Nat)

def Endpoints.new : Endpoints Tags Builder := ⟨[], ∅⟩

/-- `providers.entry(p).or_default().push(i)`. -/
def pushIndex (providers : Std.ExtTreeMap String (List Nat)) (p : String) (i : Nat) :
    Std.ExtTreeMap String (List Nat) :=
  providers.insert p (providers[p]?.getD [] ++ [i])

def Endpoints.append (es : Endpoints Tags Builder) (tags : Tags) (builder : Builder)
    (provides : List String) (required : RequiredProviders) : Endpoints Tags Builder where
  inner := es.inner ++ [(tags, builder, required.inner.keys)]
  providers := provides.foldl (fun ps p => pushIndex ps p es.inner.length) es.providers

/-- The names that an endpoint is registered for: those that it does not itself require. -/
def ConfigEndpoint.providesSet (e : ConfigEndpoint Tags Builder) : List String :=
  e.provides.filter fun k => !e.requiredProviders.inner.contains k

/-- The loop of `create_try_run_future` over the endpoints of the config. -/
def createEndpoints (config : List (ConfigEndpoint Tags Builder)) : Endpoints Tags Builder :=
  config.foldl (fun es e => es.append e.tags e.builder e.providesSet e.requiredProviders) .new

/-- The variables of the loop in `Endpoints::build`. `required` is the queue of indices, `needed`
has the chosen endpoints, each with whether its provides are needed. -/
structure Search (ε P : Type) where
  endpoints : Std.ExtTreeMap Nat (Bool × Endpoint ε P × List String)
  providers : Std.ExtTreeMap String (List Nat)
  required : List Nat
  needed : Std.ExtTreeMap Nat (Endpoint ε P × Bool)

/-- The providers among `names` are taken out, their endpoints are queued. -/
def Search.takeProviders (s : Search ε P) : List String → Search ε P
  | [] => s
  | p :: names =>
    match s.providers[p]? with
    | some indices =>
      { s with providers := s.providers.erase p, required := s.required ++ indices }.takeProviders
        names
    | none => s.takeProviders names

/-- One round of the loop. -/
def Search.visit (response : Std.ExtTreeSet String) (s : Search ε P) (bypassFilter : Bool)
    (i : Nat) : Search ε P :=
  match s.endpoints[i]? with
  | some (included, ep, required) =>
    if included || bypassFilter then
      let s := s.takeProviders (required.filter fun p => response.contains p)
      { s with endpoints := s.endpoints.erase i, needed := s.needed.insert i (ep, bypassFilter) }
    else s
  | none =>
    match s.needed[i]? with
    | some (ep, _) => { s with needed := s.needed.insert i (ep, true) }
    | none => s

@[simp] theorem takeProviders_endpoints (s : Search ε P) (names : List String) :
    (s.takeProviders names).endpoints = s.endpoints := by
  induction names generalizing s with
  | nil => rfl
  | cons p names ih =>
    rw [Search.takeProviders]
    split <;> rw [ih]

@[simp] theorem takeProviders_needed (s : Search ε P) (names : List String) :
    (s.takeProviders names).needed = s.needed := by
  induction names generalizing s with
  | nil => rfl
  | cons p names ih =>
    rw [Search.takeProviders]
    split <;> rw [ih]

/-- A round takes an endpoint out, or leaves the endpoints and the queue as they are. -/
theorem visit_progress (response : Std.ExtTreeSet String) (s : Search ε P) (i : Nat) :
    (s.visit response true i).endpoints.size < s.endpoints.size ∨
      (s.visit response true i).endpoints = s.endpoints ∧
        (s.visit response true i).required = s.required := by
  unfold Search.visit
  split
  · next h =>
    have hmem : i ∈ s.endpoints := Std.ExtTreeMap.mem_iff_isSome_getElem?.mpr (by rw [h]; rfl)
    have hpos : s.endpoints.size ≠ 0 := fun h0 =>
      absurd (Std.ExtTreeMap.eq_empty_iff_size_eq_zero.mpr h0 ▸ hmem) Std.ExtTreeMap.not_mem_empty
    simp only [Bool.or_true, if_true, takeProviders_endpoints]
    rw [Std.ExtTreeMap.size_erase, if_pos (Std.ExtTreeMap.contains_iff_mem.mpr hmem)]
    exact .inl (Nat.sub_lt (Nat.pos_of_ne_zero hpos) Nat.one_pos)
  · split <;> exact .inr ⟨rfl, rfl⟩

/-- The rounds for the queued indices, in which the filter is bypassed. -/
def Search.drain (response : Std.ExtTreeSet String) (s : Search ε P) : Search ε P :=
  match _hq : s.required with
  | [] => s
  | i :: required => ({ s with required }.visit response true i).drain response
termination_by (s.endpoints.size, s.required.length)
decreasing_by
  rcases visit_progress response { s with required } i with hlt | ⟨he, hq⟩
  · exact Prod.Lex.left _ _ hlt
  · rw [he, hq]
    refine Prod.Lex.right _ ?_
    rw [_hq, List.length_cons]
    exact Nat.lt_succ_self _

/-- The variables before the loop. -/
def Endpoints.start (es : Endpoints Tags Builder) (filterFn : Tags → Bool)
    (buildWith : Builder → Endpoint ε P) : Search ε P where
  endpoints := .ofList <| es.inner.zipIdx.map fun x =>
    (x.2, filterFn x.1.1, buildWith x.1.2.1, x.1.2.2)
  providers := es.providers
  required := []
  needed := ∅

/-- The loop: first over all endpoints, then over the queue. -/
def Endpoints.search (es : Endpoints Tags Builder) (filterFn : Tags → Bool)
    (buildWith : Builder → Endpoint ε P) (response : Std.ExtTreeSet String) : Search ε P :=
  ((List.range es.inner.length).foldl (fun s i => s.visit response false i)
    (es.start filterFn buildWith)).drain response

/-- An endpoint whose provides nobody needs makes one request only. -/
def finish : Endpoint ε P × Bool → Endpoint ε P
  | (ep, true) => ep
  | (ep, false) => ep.clearProvides.addStartStream (ready (.ok .none))

/-- `Endpoints::build`: the endpoints that run, in the order of the config. -/
def Endpoints.build (es : Endpoints Tags Builder) (filterFn : Tags → Bool)
    (buildWith : Builder → Endpoint ε P) (response : Std.ExtTreeSet String) :
    List (Endpoint ε P) :=
  (es.search filterFn buildWith response).needed.toList.map fun x => finish x.2

end Pewpew.TryRun
