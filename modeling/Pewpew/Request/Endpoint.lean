import Pewpew.Expression.Relational
import Pewpew.Expression.Growth

/-! The providers that the parts of an endpoint refer to. -/
namespace Pewpew.Request

open SelectParser

/-- What `Endpoint::from_preprocessed` and the loggers parse: the templates of the endpoint and of
the global headers, and the `Select`s of `provides`, `logs` and the global loggers. -/
inductive EndpointPart where
  | template (text : String) (noErr : Bool) (marker : Marker)
  | globalHeader (text : String) (marker : Marker)
  | outgoing (provides : EndpointProvidesPreProcessed) (noErr : Bool)
  | logger (provides : EndpointProvidesPreProcessed)

section Collect

variable (x : Externals) (g : Grammar) (vars : Object) (depth : Nat)

def EndpointPart.collect : EndpointPart → RequiredProviders →
    Except Failure (List Select × RequiredProviders)
  | .template text noErr marker, p =>
    (Template.new x g vars noErr marker depth text p).map fun (_, p) => ([], p)
  | .globalHeader text marker, p =>
    (Template.new x g vars false marker depth text .new).map fun (_, q) => ([], p.extend q)
  | .outgoing provides noErr, p =>
    (Select.new x g vars noErr depth provides p).map fun (s, p) => ([s], p)
  | .logger provides, p =>
    (Select.new x g vars true depth provides .new).map fun (s, q) => ([s], p.extend q)

/-- The `Select`s of the parts, and all that the parts refer to. -/
def collect : List EndpointPart → RequiredProviders →
    Except Failure (List Select × RequiredProviders)
  | [], p => .ok ([], p)
  | part :: parts, p =>
    (part.collect x g vars depth p).bind fun (selects, p) =>
      (collect parts p).map fun (more, p) => (selects ++ more, p)

end Collect

section Collected

variable {x : Externals} {g : Grammar} {vars : Object} {depth : Nat}

/-- A `Select` of an endpoint notes its references to `for_each`, and its `where` clause is free of
names that the endpoint does not refer to. -/
structure Noted (q : RequiredProviders) (s : Select) : Prop where
  notes : s.Notes
  free : ∀ name bits, Special.Names name bits → q.Lacks bits → ∀ clause,
    s.whereClause = some clause → Avoids name clause.references

theorem Noted.of_lacks {p q : RequiredProviders} {s : Select} (h : Noted p s)
    (hl : ∀ bits, q.Lacks bits → p.Lacks bits) : Noted q s :=
  ⟨h.notes, fun name bits hn hq => h.free name bits hn (hl bits hq)⟩

theorem noted_of_new {noErr : Bool} {provides : EndpointProvidesPreProcessed}
    {p q : RequiredProviders} {s : Select}
    (h : Select.new x g vars noErr depth provides p = .ok (s, q)) : Noted q s := by
  refine ⟨Select.new_notes h, fun name bits hn hq clause hclause => ?_⟩
  have hreads := ((Select.new_tracks provides p s q h).2 RequiredProviders.within_refl).2
  rw [Free, Select.reads, noted_append, noted_append, hclause] at hreads
  rw [clause.references_eq]
  exact avoids_of_noted hn hreads.2.1 hq

/-- What has been referred to is kept, of both kinds alike. -/
def Keeps (p q : RequiredProviders) : Prop :=
  (p.Balanced → q.Balanced) ∧ ∀ bits, q.Lacks bits → p.Lacks bits

theorem Keeps.trans {p q r : RequiredProviders} (h : Keeps p q) (h' : Keeps q r) : Keeps p r :=
  ⟨h'.1 ∘ h.1, fun bits => h.2 bits ∘ h'.2 bits⟩

theorem keeps_of_grown {α : Type} {p q : RequiredProviders} {r : Except Failure (α × _)} {a : α}
    (hr : Grown Prod.snd p r) (h : r = .ok (a, q)) : Keeps p q := by
  refine ⟨fun hp => hr.balanced hp h, fun bits hq => ?_⟩
  obtain ⟨more, hs, -⟩ := hr _ h
  rw [RequiredProviders.Lacks, hs] at hq
  exact (or_and_eq_zero.mp hq).1

theorem keeps_extend (p q : RequiredProviders) : Keeps p (p.extend q) :=
  keeps_of_grown (grown_extend (t := ((), p.extend q)) rfl) rfl

/-- What one part refers to is kept, and its `Select`s are noted. -/
theorem EndpointPart.collect_spec {part : EndpointPart} {p q : RequiredProviders}
    {selects : List Select} (h : part.collect x g vars depth p = .ok (selects, q)) :
    Keeps p q ∧ ∀ s ∈ selects, Noted q s := by
  cases part with
  | template text noErr marker =>
    rw [collect] at h
    cases ht : Template.new x g vars noErr marker depth text p with
    | error f => simp [ht, Except.map] at h
    | ok r =>
      obtain ⟨rfl, rfl⟩ := by simpa [ht, Except.map] using h
      exact ⟨keeps_of_grown (Template.new_grows depth text p) ht, by simp⟩
  | globalHeader text marker =>
    rw [collect] at h
    cases ht : Template.new x g vars false marker depth text .new with
    | error f => simp [ht, Except.map] at h
    | ok r =>
      obtain ⟨rfl, rfl⟩ := by simpa [ht, Except.map] using h
      exact ⟨keeps_extend p r.2, by simp⟩
  | outgoing provides noErr =>
    rw [collect] at h
    cases hs : Select.new x g vars noErr depth provides p with
    | error f => simp [hs, Except.map] at h
    | ok r =>
      obtain ⟨rfl, rfl⟩ := by simpa [hs, Except.map] using h
      refine ⟨keeps_of_grown (Select.new_grows provides p) hs, fun s hmem => ?_⟩
      exact List.mem_singleton.mp hmem ▸ noted_of_new hs
  | logger provides =>
    rw [collect] at h
    cases hs : Select.new x g vars true depth provides .new with
    | error f => simp [hs, Except.map] at h
    | ok r =>
      obtain ⟨rfl, rfl⟩ := by simpa [hs, Except.map] using h
      refine ⟨keeps_extend p r.2, fun s hmem => List.mem_singleton.mp hmem ▸ ?_⟩
      exact (noted_of_new hs).of_lacks fun bits hq => (RequiredProviders.extend_lacks.mp hq).2

/-- What all parts refer to is kept, and their `Select`s are noted, by induction on the parts. -/
theorem collect_spec {parts : List EndpointPart} {p q : RequiredProviders} {selects : List Select}
    (h : collect x g vars depth parts p = .ok (selects, q)) :
    Keeps p q ∧ ∀ s ∈ selects, Noted q s := by
  induction parts generalizing p selects with
  | nil =>
    obtain ⟨rfl, rfl⟩ := Prod.mk.inj (Except.ok.inj h)
    exact ⟨⟨id, fun _ => id⟩, by simp⟩
  | cons part parts ih =>
    rw [collect] at h
    cases hp : part.collect x g vars depth p with
    | error f => simp [hp, Except.bind] at h
    | ok r =>
      obtain ⟨first, p'⟩ := r
      cases hm : collect x g vars depth parts p' with
      | error f => simp [hp, hm, Except.bind, Except.map] at h
      | ok r =>
        obtain ⟨rfl, rfl⟩ := by simpa [hp, hm, Except.bind, Except.map] using h
        obtain ⟨hkeeps, hfirst⟩ := EndpointPart.collect_spec hp
        obtain ⟨hmore, hrest⟩ := ih hm
        refine ⟨hkeeps.trans hmore, fun s hmem => ?_⟩
        rcases List.mem_append.mp hmem with h | h
        · exact (hfirst s h).of_lacks hmore.2
        · exact hrest s h

end Collected

end Pewpew.Request
