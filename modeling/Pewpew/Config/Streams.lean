import Pewpew.Config.FromConfig
import Pewpew.Request.RequestMaker

/-! The streams of an endpoint, and the data on which its parts are evaluated in a request. -/
namespace Pewpew.SelectParser

/-- What an object has under a key. -/
def Json.field (key : String) : Json → Option Json
  | .object o => Object.get o key
  | _ => none

theorem Object.isSome_get_insert {o : Object} {key s : String} {v : Json} :
    ((o.insert key v).get s).isSome ↔ s = key ∨ (o.get s).isSome := by
  by_cases hs : s = key
  · subst hs
    simp [Object.get_insert_self]
  · simp [Object.get_insert_ne hs, hs]

end Pewpew.SelectParser

namespace Pewpew.Config

open SelectParser
open Request (StreamItem Prepared RecoverableError withResponse completeValues withError)

/-! ### The streams -/

/-- A stream of which a request takes an item: one that says when to start (at a time, or while a
provided value is wanted), a provider, or a declared expression. -/
inductive Source where
  | start (timed : Bool)
  | provider (name : String)
  | declare (name : String)

def Source.Gives : Source → StreamItem → Prop
  | start true, .instant _ => True
  | start false, .none => True
  | provider name, .templateValue name' _ _ _ => name' = name
  | declare name, .declare name' _ _ _ => name' = name
  | _, _ => False

/-- Something that a stream can give. -/
def Source.item : Source → StreamItem
  | start true => .instant none
  | start false => .none
  | provider name => .templateValue name .null none 0
  | declare name => .declare name .null [] 0

theorem gives_items (sources : List Source) :
    List.Forall₂ Source.Gives sources (sources.map Source.item) := by
  rw [List.forall₂_map_right_iff, List.forall₂_same]
  rintro (⟨_ | _⟩ | name | name) -
  · exact trivial
  · exact trivial
  · exact rfl
  · exact rfl

namespace Endpoint

variable {v : Values}

def declares (e : Endpoint v) : List String := e.declare.map Prod.fst

/-- `EndpointBuilder::build`: the `stream_collection`. -/
def streamCollection (timed : Bool) (lt : LoadTest v) (e : Endpoint v) : List Source :=
  (if timed then [.start true] else if e.provides.isEmpty then [] else [.start false]) ++
    ((e.providersToStream.inner.keys.filter fun name => lt.providers.contains name).map .provider ++
      e.declares.map .declare)

end Endpoint

section Items

variable {noAutoReturns : Bool} {names : List String} {items : List StreamItem} {p : Prepared}
  {sources : List Source} {s : String}

/-- An item adds the name of its stream. -/
theorem push_isSome {source : Source} {item : StreamItem} (h : source.Gives item) :
    ((p.push noAutoReturns item).values.get s).isSome ↔
      (source = .provider s ∨ source = .declare s) ∨ (p.values.get s).isSome := by
  cases item with
  | instant target =>
    cases source with
    | start timed => simp [Prepared.push]
    | provider name | declare name => exact h.elim
  | none =>
    cases source with
    | start timed => simp [Prepared.push]
    | provider name | declare name => exact h.elim
  | declare name value returns arrived =>
    cases source with
    | declare name' =>
      obtain rfl : name = name' := h
      rw [Prepared.push, Prepared.insert, Object.isSome_get_insert, eq_comm (a := s)]
      simp
    | start timed => cases timed <;> exact h.elim
    | provider name' => exact h.elim
  | templateValue name value autoReturn arrived =>
    cases source with
    | provider name' =>
      obtain rfl : name = name' := h
      have hvalues : (p.push noAutoReturns (.templateValue name value autoReturn arrived)).values =
          Object.insert p.values name value := by
        cases autoReturn <;> cases noAutoReturns <;> rfl
      rw [hvalues, Object.isSome_get_insert, eq_comm (a := s)]
      simp
    | start timed => cases timed <;> exact h.elim
    | declare name' => exact h.elim

/-- The values of a request have the names of its streams, by induction on them. -/
theorem ofItems_isSome (h : List.Forall₂ Source.Gives sources items) :
    ((Prepared.ofItems noAutoReturns items).values.get s).isSome ↔
      .provider s ∈ sources ∨ .declare s ∈ sources := by
  have hall (p : Prepared) : ((items.foldl (Prepared.push noAutoReturns) p).values.get s).isSome ↔
      (.provider s ∈ sources ∨ .declare s ∈ sources) ∨ (p.values.get s).isSome := by
    induction h generalizing p with
    | nil => simp
    | @cons source item sources items hgives _ ih =>
      rw [List.foldl_cons, ih, push_isSome hgives, List.mem_cons, List.mem_cons, eq_comm,
        eq_comm (b := source)]
      tauto
  rw [Prepared.ofItems, hall]
  simp [Prepared.start, Object.get]

/-- The items of declared expressions. -/
abbrev Declared (names : List String) (items : List StreamItem) : Prop :=
  List.Forall₂ Source.Gives (names.map .declare) items

theorem declared_cons {name : String} (h : Declared (name :: names) items) :
    ∃ value returns arrived rest, items = .declare name value returns arrived :: rest ∧
      Declared names rest := by
  cases h with
  | cons hitem hrest =>
    next item rest =>
    cases item with
    | declare name' value returns arrived =>
      obtain rfl : name' = name := hitem
      exact ⟨value, returns, arrived, rest, rfl, hrest⟩
    | instant _ | none | templateValue _ _ _ _ => exact hitem.elim

theorem get_other (h : Declared names items) (hs : s ∉ names) :
    (items.foldl (Prepared.push noAutoReturns) p).values.get s = p.values.get s := by
  induction names generalizing items p with
  | nil =>
    cases h
    rfl
  | cons name names ih =>
    obtain ⟨value, returns, arrived, rest, rfl, hrest⟩ := declared_cons h
    obtain ⟨hne, hs⟩ := List.ne_and_not_mem_of_not_mem_cons hs
    rw [List.foldl_cons, ih hrest hs, Prepared.push]
    exact Object.get_insert_ne hne _

/-- A declared value is read under its name, by induction on the names. -/
theorem get_declared (h : Declared names items) (hnodup : names.Nodup) (hs : s ∈ names) :
    ∃ value returns arrived, .declare s value returns arrived ∈ items ∧
      (items.foldl (Prepared.push noAutoReturns) p).values.get s = some value := by
  induction names generalizing items p with
  | nil => cases hs
  | cons name names ih =>
    obtain ⟨value, returns, arrived, rest, rfl, hrest⟩ := declared_cons h
    obtain ⟨hname, hnodup⟩ := List.nodup_cons.mp hnodup
    rcases List.mem_cons.mp hs with rfl | hs
    · refine ⟨value, returns, arrived, List.mem_cons_self, ?_⟩
      rw [List.foldl_cons, get_other hrest hname, Prepared.push]
      exact Object.get_insert_self _ _ _
    · obtain ⟨value', returns', arrived', hmem, hget⟩ := ih hrest hnodup hs
      exact ⟨value', returns', arrived', List.mem_cons_of_mem _ hmem, hget⟩

/-- The declared expressions are the last of the streams. -/
theorem declared_items {before : List Source}
    (h : List.Forall₂ Source.Gives (before ++ names.map .declare) items) :
    ∃ first last, items = first ++ last ∧ Declared names last := by
  have hlast := List.forall₂_drop_append items before (names.map .declare) h.flip
  exact ⟨_, _, (List.take_append_drop before.length items).symm, hlast.flip⟩

theorem provider_of_item {value : Json} {autoReturn : Option Request.AutoReturn} {arrived : Nat}
    (h : List.Forall₂ Source.Gives sources items)
    (hitem : .templateValue s value autoReturn arrived ∈ items) : .provider s ∈ sources := by
  induction h with
  | nil => cases hitem
  | @cons source item sources items hgives _ ih =>
    rcases List.mem_cons.mp hitem with rfl | hitem
    · cases source with
      | provider name =>
        obtain rfl : s = name := hgives
        exact List.mem_cons_self
      | start timed => cases timed <;> exact hgives.elim
      | declare name => exact hgives.elim
    · exact List.mem_cons_of_mem _ (ih hitem)

variable {v : Values} {e : Endpoint v} {lt : LoadTest v} {timed : Bool}

theorem mem_streamCollection :
    .provider s ∈ e.streamCollection timed lt ↔
      s ∈ e.providersToStream.inner ∧ s ∈ lt.providers := by
  have hstart : .provider s ∉ (if timed then [.start true] else
      if e.provides.isEmpty then [] else [Source.start false]) := by
    split
    · simp
    · split <;> simp
  rw [Endpoint.streamCollection, List.mem_append, or_iff_right hstart]
  simp

theorem declare_mem_streamCollection :
    .declare s ∈ e.streamCollection timed lt ↔ s ∈ e.declares := by
  have hstart : .declare s ∉ (if timed then [.start true] else
      if e.provides.isEmpty then [] else [Source.start false]) := by
    split
    · simp
    · split <;> simp
  rw [Endpoint.streamCollection, List.mem_append, or_iff_right hstart]
  simp

theorem declared_read (hnodup : e.declares.Nodup)
    (h : List.Forall₂ Source.Gives (e.streamCollection timed lt) items) (hs : s ∈ e.declares) :
    ∃ value returns arrived, .declare s value returns arrived ∈ items ∧
      (Prepared.ofItems noAutoReturns items).values.get s = some value := by
  rw [Endpoint.streamCollection, ← List.append_assoc] at h
  obtain ⟨first, last, rfl, hlast⟩ := declared_items h
  obtain ⟨value, returns, arrived, hmem, hget⟩ := get_declared hlast hnodup hs
  refine ⟨value, returns, arrived, List.mem_append_right first hmem, ?_⟩
  rw [Prepared.ofItems, List.foldl_append]
  exact hget

end Items

/-! ### The data -/

/-- The parts of an endpoint that are evaluated on the same data: its url, headers and body, its
tags, `provides` and `logs`. -/
inductive Position where
  | request | tags | provides | logs
  deriving DecidableEq

/-- How far a request has come: it has been sent, its response has come, or its body as well. -/
inductive Progress where
  | requested (request : Json)
  | responded (request : Json) (response : Object)
  | complete (request : Json) (response : Object) (rtt : Nat) (body : Option Json)

def Progress.data (values : Object) : Progress → Json
  | requested request => .object (Object.insert values "request" request)
  | responded request response =>
    .object (withResponse (Object.insert values "request" request) response)
  | complete request response rtt body =>
    completeValues (Object.insert values "request" request) response rtt body

namespace Position

/-- The data of a part: what is evaluated before the request is sent sees the values of the streams
only, and the loggers see the error that they log. -/
def data (values : Object) (progress : Progress) (error : Option RecoverableError) :
    Position → Json
  | request => .object values
  | tags | provides => progress.data values
  | logs =>
    match error with
    | some e => withError (progress.data values) e
    | none => progress.data values

/-- The names that the program itself puts into the data. -/
def special : Position → List String
  | request => []
  | tags | provides => ["request", "response", "stats"]
  | logs => ["request", "response", "stats", "error"]

variable {pos : Position} {values : Object} {s : String}

theorem data_complete (pos : Position) (values : Object) (request : Json) (response : Object)
    (rtt : Nat) (body : Option Json) (error : RecoverableError) :
    ((pos.data values (.complete request response rtt body) (some error)).field s).isSome ↔
      s ∈ pos.special ∨ (values.get s).isSome := by
  cases pos with
  | request => simp [data, special, Json.field]
  | tags | provides | logs =>
    simp only [data, special, Progress.data, completeValues, withError, withResponse, Json.field,
      Object.isSome_get_insert, List.mem_cons, List.not_mem_nil, or_false]
    tauto

/-- Any other name keeps the value of its stream. -/
theorem data_kept (hs : s ∉ pos.special) (progress : Progress) (error : Option RecoverableError) :
    (pos.data values progress error).field s = values.get s := by
  have hdata (hs : s ∉ ["request", "response", "stats"]) :
      (progress.data values).field s = values.get s := by
    simp only [List.mem_cons, List.not_mem_nil, or_false, not_or] at hs
    obtain ⟨hrequest, hresponse, hstats⟩ := hs
    cases progress with
    | requested request => exact Object.get_insert_ne hrequest _
    | responded request response =>
      exact (Object.get_insert_ne hresponse _).trans (Object.get_insert_ne hrequest _)
    | complete request response rtt body =>
      refine (Object.get_insert_ne hstats _).trans ?_
      exact (Object.get_insert_ne hresponse _).trans (Object.get_insert_ne hrequest _)
  cases pos with
  | request => rfl
  | tags | provides => exact hdata hs
  | logs =>
    obtain ⟨hs, herror⟩ : s ∉ ["request", "response", "stats"] ∧ s ≠ "error" := by
      simpa [special, and_assoc] using hs
    cases error with
    | none => exact hdata hs
    | some e =>
      refine Eq.trans ?_ (hdata hs)
      cases progress <;> exact Object.get_insert_ne herror _

/-- A name that the program puts into the data stands for what the program has. -/
theorem data_overwritten (hs : s ∈ pos.special) (values : Object) :
    (pos.data values (.complete (.bool true) [] 0 none) (some .timeout)).field s ≠ some .null := by
  have hinner (hs : s = "request" ∨ s = "response" ∨ s = "stats") :
      (Progress.data values (.complete (.bool true) [] 0 none)).field s ≠ some .null := by
    rcases hs with rfl | rfl | rfl <;>
      simp [Progress.data, completeValues, withResponse, Json.field, Object.get_insert_self,
        Object.get_insert_ne]
  cases pos with
  | request => cases hs
  | tags | provides => exact hinner (by simpa [special] using hs)
  | logs =>
    by_cases herror : s = "error"
    · subst herror
      simp [data, withError, Progress.data, completeValues, Json.field, Object.get_insert_self,
        RecoverableError.toJson]
    · have hkept : (logs.data values (.complete (.bool true) [] 0 none) (some .timeout)).field s =
          (Progress.data values (.complete (.bool true) [] 0 none)).field s :=
        Object.get_insert_ne herror _
      rw [hkept]
      exact hinner (by simpa [special, herror] using hs)

end Position

end Pewpew.Config
