import Pewpew.Request.Endpoint
import Pewpew.Request.ResponseHandler

/-! When the early `where` filter agrees with iterating every outgoing on the complete data. -/
namespace Pewpew.Request

open SelectParser SelectParser.Special

section Fields

variable {w bit other : BitVec 16} {set : Object → Object} {s : ResponseFields} {r : Response}

/-- Masked by one bit, a set of bits is empty or that bit. -/
theorem and_bit {i : Nat} (hbit : bit = .twoPow 16 i) : w &&& bit = 0 ∨ w &&& bit = bit := by
  rw [hbit, BitVec.and_twoPow]
  split
  · exact .inr rfl
  · exact .inl rfl

namespace ResponseFields

theorem require_settled (h : s.added &&& bit = w &&& bit) : s.require w bit set = s := by
  simp [require, h]

theorem require_settles {i : Nat} (hbit : bit = .twoPow 16 i) (hs : s.added &&& bit = 0) :
    (s.require w bit set).added &&& bit = w &&& bit := by
  rw [require, hs]
  rcases and_bit (w := w) hbit with h | h
  · simp [h, hs]
  · rw [h]
    split
    · simp [BitVec.and_or_distrib_right, hs]
    · next h0 => simp_all

theorem require_other (h : bit &&& other = 0) :
    (s.require w bit set).added &&& other = s.added &&& other := by
  rw [require]
  split
  · simp [BitVec.and_or_distrib_right, h]
  · rfl

/-- Exactly the needed fields are set. -/
structure Settled (w : BitVec 16) (s : ResponseFields) : Prop where
  startline : s.added &&& responseStartline = w &&& responseStartline
  headers : s.added &&& responseHeaders = w &&& responseHeaders
  headersAll : s.added &&& responseHeadersAll = w &&& responseHeadersAll
  body : s.added &&& responseBody = w &&& responseBody

end ResponseFields

open ResponseFields

theorem handleResponseRequirements_settled (h : s.Settled w) :
    handleResponseRequirements w r s = s := by
  simp only [handleResponseRequirements, require_settled h.startline, require_settled h.headers,
    require_settled h.headersAll, require_settled h.body]

theorem startline_bit : responseStartline = .twoPow 16 5 := by decide
theorem headers_bit : responseHeaders = .twoPow 16 4 := by decide
theorem headersAll_bit : responseHeadersAll = .twoPow 16 12 := by decide
theorem body_bit : responseBody = .twoPow 16 3 := by decide
theorem stats_bit : Special.stats = .twoPow 16 7 := by decide

theorem start_settles (w : BitVec 16) (r : Response) :
    Settled w (handleResponseRequirements w r (.start r)) := by
  have h0 : (ResponseFields.start r).added = 0b000111 := rfl
  constructor
  · rw [handleResponseRequirements, require_other (by decide), require_other (by decide),
      require_other (by decide)]
    exact require_settles startline_bit (by rw [h0]; decide)
  · rw [handleResponseRequirements, require_other (by decide), require_other (by decide)]
    refine require_settles headers_bit ?_
    rw [require_other (by decide), h0]
    decide
  · rw [handleResponseRequirements, require_other (by decide)]
    refine require_settles headersAll_bit ?_
    rw [require_other (by decide), require_other (by decide), h0]
    decide
  · refine require_settles body_bit ?_
    rw [require_other (by decide), require_other (by decide), require_other (by decide), h0]
    decide

end Fields

section Loops

variable {x : Externals} {values : Object} {w : BitVec 16} {r : Response} {d : Json}
  {fields : ResponseFields}

/-- The early decision about one outgoing. -/
def decision (x : Externals) (w : BitVec 16) (d : Json) (s : Select) : Except ExecutingError Bool :=
  if w &&& responseBody = responseBody ∨ w &&& stats = stats then .ok true else s.executeWhere x d

/-- An outgoing gets its items, or nothing. -/
def sendIf (x : Externals) (d : Json) (included : Bool) (s : Select) :
    List Json × Option ExecutingError :=
  if included then iterate x s d else ([], none)

theorem sendIncluded_eq {included : List Nat} {p : Select → Bool} (outgoing : List Select) (i : Nat)
    (h : ∀ k s, outgoing[k]? = some s → (i + k ∈ included ↔ p s = true)) :
    sendIncluded x included d outgoing i = outgoing.map fun s => sendIf x d (p s) s := by
  induction outgoing generalizing i with
  | nil => rfl
  | cons s outgoing ih =>
    have h0 : i ∈ included ↔ p s = true := h 0 s rfl
    rw [sendIncluded, List.map_cons, ih (i + 1) fun k s' hs => by
      have := h (k + 1) s' hs
      rwa [show i + (k + 1) = i + 1 + k by omega] at this]
    simp only [h0, sendIf]

/-- The filter fails with an outgoing's error, or includes exactly those whose decision is true. -/
theorem includedIndexes_ok (hf : fields.Settled w) {p : Select → Bool} (outgoing : List Select)
    (i : Nat)
    (h : ∀ s ∈ outgoing, decision x w (.object (withResponse values fields.object)) s = .ok (p s)) :
    ∃ included, includedIndexes x values w w r outgoing i fields = .ok (included, fields) ∧
      (∀ j ∈ included, i ≤ j) ∧
        ∀ k s, outgoing[k]? = some s → (i + k ∈ included ↔ p s = true) := by
  induction outgoing generalizing i with
  | nil => exact ⟨[], rfl, by simp, by simp⟩
  | cons s outgoing ih =>
    obtain ⟨included, hok, hle, hmem⟩ := ih (i + 1) fun s hs => h s (List.mem_cons_of_mem _ hs)
    have hs := h s List.mem_cons_self
    rw [decision] at hs
    rw [includedIndexes, hs, Except.bind]
    cases hp : p s
    · refine ⟨included, by simpa using hok, fun j hj => (Nat.le_succ i).trans (hle j hj),
        fun k s' hk => ?_⟩
      cases k with
      | zero =>
        obtain rfl := Option.some.inj hk
        simp only [Nat.add_zero, hp, Bool.false_eq_true, iff_false]
        exact fun hi => by have := hle i hi; omega
      | succ k =>
        rw [show i + (k + 1) = i + 1 + k by omega]
        exact hmem k s' hk
    · refine ⟨i :: included, ?_, ?_, fun k s' hk => ?_⟩
      · simp [handleResponseRequirements_settled hf, hok, Except.map]
      · simp only [List.mem_cons, forall_eq_or_imp, Nat.le_refl, true_and]
        exact fun j hj => by have := hle j hj; omega
      · cases k with
        | zero =>
          obtain rfl := Option.some.inj hk
          simp [hp]
        | succ k =>
          rw [show i + (k + 1) = i + 1 + k by omega, List.mem_cons, ← hmem k s' hk]
          have : i + 1 + k ≠ i := by omega
          simp [this]

theorem includedIndexes_error (hf : fields.Settled w) (outgoing : List Select) (i : Nat)
    (h : ∃ s ∈ outgoing, ∃ e,
      decision x w (.object (withResponse values fields.object)) s = .error e) :
    ∃ e, includedIndexes x values w w r outgoing i fields = .error e := by
  induction outgoing generalizing i with
  | nil => simp at h
  | cons s outgoing ih =>
    rw [includedIndexes]
    change ∃ e, (decision x w (.object (withResponse values fields.object)) s).bind _ = _
    cases hs : decision x w (.object (withResponse values fields.object)) s with
    | error e => exact ⟨e, rfl⟩
    | ok b =>
      obtain ⟨s', hmem, e, he⟩ := h
      rcases List.mem_cons.mp hmem with rfl | hmem
      · rw [hs] at he
        simp at he
      obtain ⟨e', he'⟩ := ih (i + 1) ⟨s', hmem, e, he⟩
      refine ⟨e', ?_⟩
      cases b
      · exact he'
      · simp [Except.bind, handleResponseRequirements_settled hf, he', Except.map]

end Loops

section Rejects

variable {x : Externals} {d : Json} {s : Select}

theorem sentOf_eq_nothing_iff {items : Items} : sentOf items = ([], none) ↔ items = [] := by
  cases items with
  | nil => simp [sentOf]
  | cons item items => cases item <;> simp [sentOf]

theorem iterate_eq_nothing_iff : iterate x s d = ([], none) ↔ s.asIter x d = .ok [] := by
  rw [iterate]
  cases s.asIter x d with
  | error e => simp
  | ok items => simpa using sentOf_eq_nothing_iff

/-- The `where` clause is false for every tuple that `as_iter` would bind, or there is no tuple. -/
def Rejects (x : Externals) (s : Select) (d : Json) : Prop :=
  if s.whereReferencesForEach then
    ∀ tuple ∈ s.tuples x d, ∃ forEach, s.binding tuple = .ok forEach ∧
      s.whereHolds x d forEach = .ok false
  else s.whereHolds x d none = .ok false ∨
    s.whereHolds x d none = .ok true ∧ s.join ≠ [] ∧ s.tuples x d = []

theorem filteredItem_eq_none_iff {tuple : Items} :
    s.filteredItem x d tuple = none ↔
      ∃ forEach, s.binding tuple = .ok forEach ∧ s.whereHolds x d forEach = .ok false := by
  rw [Select.filteredItem]
  cases s.binding tuple with
  | error e => simp
  | ok forEach =>
    cases hw : s.whereHolds x d forEach with
    | error e => simp [hw]
    | ok b => cases b <;> simp [hw]

theorem asIter_eq_nil_iff (hs : s.Notes) : s.asIter x d = .ok [] ↔ Rejects x s d := by
  rw [Select.asIter, Rejects]
  by_cases hj : s.join = []
  · rw [if_pos hj, hs.whereNeedsJoin hj]
    cases s.whereHolds x d none with
    | error e => simp [Except.map]
    | ok b => cases b <;> simp [Except.map, hj]
  · rw [if_neg hj]
    cases s.whereReferencesForEach with
    | true => simp [List.filterMap_eq_nil_iff, filteredItem_eq_none_iff]
    | false =>
      cases s.whereHolds x d none with
      | error e => simp [Except.map]
      | ok b => cases b <;> simp [Except.map, hj]

/-- A `where` clause without `for_each` that is false rejects every tuple. -/
theorem asIter_whereFalse (hw : s.whereReferencesForEach = false)
    (h : s.whereHolds x d none = .ok false) : s.asIter x d = .ok [] := by
  rw [Select.asIter, hw, h]
  split <;> rfl

end Rejects

section Agreement

variable {x : Externals} {o o' : Object} {key : String} {v : Json} {s : Select}

/-- The data agree on every reference but the name that only one of them has. -/
theorem foundSame_insert {r : Reference} (hr : r ≠ .ident key)
    (hsel : ∀ sel, r = .selector sel →
      x.pathSelect sel (.object o) = x.pathSelect sel (.object (Object.insert o key v))) :
    FoundSame x (.borrowed (.object o)) (.borrowed (.object (Object.insert o key v))) r := by
  cases r with
  | ident k =>
    have hk : k ≠ key := fun h => hr (h ▸ rfl)
    simp [FoundSame, indexStep, Cow.borrow, Object.get_insert_ne hk]
  | selector sel => exact hsel sel rfl

/-- The selectors of the `where` clause select the same from both data. -/
def PathsAgree (x : Externals) (s : Select) (d d' : Json) : Prop :=
  ∀ clause, s.whereClause = some clause → ∀ sel, .selector sel ∈ clause.references →
    x.pathSelect sel d = x.pathSelect sel d'

theorem whereHolds_insert
    (hs : ∀ clause, s.whereClause = some clause → Avoids key clause.references)
    (hp : PathsAgree x s (.object o) (.object (Object.insert o key v))) :
    s.whereHolds x (.object o) none = s.whereHolds x (.object (Object.insert o key v)) none := by
  rw [Select.whereHolds, Select.whereHolds]
  cases hc : s.whereClause with
  | none => rfl
  | some clause =>
    dsimp only
    have hsame : AllSame x (.borrowed (.object o)) (.borrowed (.object (Object.insert o key v)))
        none none clause.references := by
      refine fun r hr => ⟨fun _ => rfl, foundSame_insert (fun heq => hs clause hc (heq ▸ hr)) ?_⟩
      rintro sel rfl
      exact hp clause hc sel hr
    rw [Expression.evaluate_same hsame]

end Agreement

section Handler

variable {x : Externals} {g : Grammar} {vars : Object} {depth : Nat} {parts : List EndpointPart}
  {selects outgoing : List Select} {q : RequiredProviders} {values : Object} {r : Response}

/-- The data before the body is read. -/
def earlyData (values : Object) (w : BitVec 16) (r : Response) : Json :=
  .object (withResponse values (handleResponseRequirements w r (.start r)).object)

/-- The complete data, where the body is not needed. -/
def completeData (values : Object) (w : BitVec 16) (r : Response) : Json :=
  completeValues values (handleResponseRequirements w r (.start r)).object r.rtt none

/-- The early filter is harmless: the `where` clause evaluates on the early data; and if it is false
there, it is false on the complete data for each tuple, too, where it refers to `for_each` or
selects something else. -/
def FilterHarmless (x : Externals) (values : Object) (w : BitVec 16) (r : Response) (s : Select) :
    Prop :=
  ∃ b, s.executeWhere x (earlyData values w r) = .ok b ∧
    (r.arrived = .ok () → b = false →
      s.whereReferencesForEach = true ∨
        ¬PathsAgree x s (earlyData values w r) (completeData values w r) →
      Rejects x s (completeData values w r))

theorem executeWhere_eq (s : Select) (d : Json) : s.executeWhere x d = s.whereHolds x d none := rfl

/-- For one outgoing, the early decision agrees with iterating it exactly if it is harmless. -/
theorem filterHarmless_iff {w : BitVec 16} {s : Select} (hn : Noted q s)
    (hl : q.Lacks Special.stats) {b : Bool}
    (hb : s.executeWhere x (earlyData values w r) = .ok b) (ha : r.arrived = .ok ()) :
    sendIf x (completeData values w r) b s = iterate x s (completeData values w r) ↔
      FilterHarmless x values w r s := by
  simp only [FilterHarmless, hb, Except.ok.injEq, exists_eq_left', ha, true_imp_iff]
  cases b with
  | true => simp [sendIf]
  | false =>
    simp only [sendIf, Bool.false_eq_true, if_false, true_imp_iff]
    rw [eq_comm, iterate_eq_nothing_iff]
    by_cases hc : s.whereReferencesForEach = true ∨
        ¬PathsAgree x s (earlyData values w r) (completeData values w r)
    · simp only [hc, true_imp_iff]
      exact asIter_eq_nil_iff hn.notes
    · simp only [hc, false_imp_iff, iff_true]
      obtain ⟨hrefs, hpaths⟩ := not_or.mp hc
      refine asIter_whereFalse (by simpa using hrefs) ?_
      rw [← hb, executeWhere_eq]
      exact (whereHolds_insert (hn.free "stats" _ Special.names_stats hl)
        (Classical.not_not.mp hpaths)).symm

theorem readBody_unneeded {w : BitVec 16} {fields : ResponseFields} (hf : fields.Settled w)
    (hw : w &&& responseBody ≠ responseBody) :
    readBody r fields = r.arrived.map fun _ => none := by
  have hzero : fields.added &&& responseBody = 0 :=
    hf.body.trans ((and_bit body_bit).resolve_right hw)
  rw [readBody, if_neg (not_not.mpr hzero)]

/-- If all decisions evaluate, the filter sends what the decided outgoing yield. -/
theorem handle_decided {w : BitVec 16} {p : Select → Bool}
    (h : ∀ s ∈ outgoing, decision x w (earlyData values w r) s = .ok (p s)) :
    handle x values w w outgoing r =
      match readBody r (handleResponseRequirements w r (.start r)) with
      | .error e => .bodyFailed e
      | .ok body => .sent <| outgoing.map fun s =>
          sendIf x (completeValues values (handleResponseRequirements w r (.start r)).object
            r.rtt body) (p s) s := by
  obtain ⟨included, hok, -, hmem⟩ := includedIndexes_ok (r := r) (start_settles w r) outgoing 0 h
  simp only [handle, hok, handleBody]
  cases readBody r (handleResponseRequirements w r (.start r)) with
  | error e => rfl
  | ok body => exact congrArg _ (sendIncluded_eq outgoing 0 hmem)

theorem handlePlain_eq (w : BitVec 16) :
    handlePlain x values w outgoing r =
      match readBody r (handleResponseRequirements w r (.start r)) with
      | .error e => .bodyFailed e
      | .ok body => .sent <| outgoing.map fun s =>
          iterate x s (completeValues values (handleResponseRequirements w r (.start r)).object
            r.rtt body) := by
  simp only [handlePlain]
  cases readBody r (handleResponseRequirements w r (.start r)) with
  | error e => rfl
  | ok body =>
    simp only [handleBody]
    rw [sendIncluded_eq (p := fun _ => true) outgoing 0 fun k s hk => by
      simpa using (List.getElem?_eq_some_iff.mp hk).1]
    rfl

/-- A response without headers, whose body is not needed. -/
def okResponse : Response where
  version := "HTTP/1.1"
  status := 200
  statusText := "200 OK"
  headers := []
  arrived := .ok ()
  decoded := .ok none
  rtt := 1000

/-- `select: true`, `where: c`. -/
def onlyIfC : EndpointProvidesPreProcessed where
  forEach := []
  select := ⟨.bool true, ⟨2, 1⟩⟩
  whereClause := some ⟨"c", ⟨3, 1⟩⟩

def onlyIfCParsed : Select where
  join := []
  referencesForEach := false
  whereReferencesForEach := false
  select := .bool true
  whereClause := some (Select.pathExpression "c" [] ⟨3, 1⟩)
  noRecoverableError := false

theorem collect_single {provides : EndpointProvidesPreProcessed} {s : Select}
    (h : Select.new x g vars false depth provides .new = .ok (s, q)) :
    collect x g vars depth [.outgoing provides false] .new = .ok ([s], q) := by
  simp [collect, EndpointPart.collect, h, Except.bind, Except.map]

theorem new_onlyIfC : ∃ q, Select.new .plain Select.twoPaths [] false 0 onlyIfC .new =
    .ok (onlyIfCParsed, q) ∧ q.special = 0 := by
  have hc : (RequiredProviders.extend RequiredProviders.new.setIsWhere
    (.insert .new "c" ⟨3, 1⟩)).refersToForEach = false := rfl
  have hs : RequiredProviders.new.refersToForEach = false := rfl
  refine Select.exists_of_map ?_
  simp [Select.new, Select.newJoins, Select.newWhere, onlyIfC, Select.parseText_c, Except.bind,
    Except.map, hc, hs, parseSelect, onlyIfCParsed, Select.pathExpression]
  exact ⟨rfl, rfl⟩

/-- The early filter never changes what is sent. -/
def PrefilterAgrees : Prop :=
  ∀ (x : Externals) (g : Grammar) (vars : Object) (depth : Nat) (parts : List EndpointPart)
    (selects outgoing : List Select) (q : RequiredProviders) (values : Object) (r : Response),
    collect x g vars depth parts .new = .ok (selects, q) → outgoing ⊆ selects →
      handle x values q.whereSpecial q.special outgoing r =
        handlePlain x values q.special outgoing r

end Handler

end Pewpew.Request
