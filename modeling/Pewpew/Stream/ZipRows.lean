import Pewpew.Stream.ZipAll

/-! A zip yields exactly the rows of its streams' items. -/
namespace Pewpew.ZipAll

open Polling

variable {α ε : Type} {elems elems' : Elems ε α} {done : Bool}
  {s t : PollStream (Except ε α)} {ss : List (PollStream (Except ε α))} {a : α} {n m : Nat}

/-! ### One poll -/

/-- A round is done where each element has its item afterwards. -/
theorem pollElems_done (h : pollElems elems = .ok (done, elems')) :
    done = true ↔ ∀ e ∈ elems', e.2.isSome := by
  induction elems generalizing done elems' with
  | nil =>
    cases h
    simp
  | cons e elems ih =>
    obtain ⟨s, _ | v⟩ := e
    · rw [pollElems] at h
      split at h
      · obtain ⟨⟨b, rest⟩, hr, heq⟩ := of_map_ok h
        cases heq
        simp [ih hr]
      · cases h
      · cases h
      · obtain ⟨⟨b, rest⟩, hr, heq⟩ := of_map_ok h
        cases heq
        simp
    · obtain ⟨⟨b, rest⟩, hr, heq⟩ := of_map_ok h
      cases heq
      simp [ih hr]

/-- What ends a round early. -/
def Early.error : Early ε → Option ε
  | .failed e => some e
  | .ended => none

theorem of_map_error {β γ δ : Type} {x : Except β γ} {f : γ → δ} {e : β}
    (h : x.map f = .error e) : x = .error e := by
  cases x with
  | error _ =>
    cases h
    rfl
  | ok c => cases h

/-- Only a stream that ends or fails ends a round early. -/
theorem pollElems_early {early : Early ε} (h : pollElems elems = .error early) :
    ∃ e ∈ elems, e.2 = none ∧ e.1.head = .ready (early.error.map .error) := by
  induction elems with
  | nil => cases h
  | cons e elems ih =>
    obtain ⟨s, _ | v⟩ := e
    · rw [pollElems] at h
      split at h
      · exact List.exists_mem_cons_of_exists (ih (of_map_error h))
      · next e hs =>
        cases h
        exact ⟨_, List.mem_cons_self, rfl, hs⟩
      · next hs =>
        cases h
        exact ⟨_, List.mem_cons_self, rfl, hs⟩
      · exact List.exists_mem_cons_of_exists (ih (of_map_error h))
    · exact List.exists_mem_cons_of_exists (ih (of_map_error h))

/-! ### One row -/

/-- After at most `n` pending polls the element has its item, and its stream is the given one. -/
inductive Due : Nat → PollStream (Except ε α) × Option α → α × PollStream (Except ε α) → Prop where
  | here {n : Nat} {s : PollStream (Except ε α)} {a : α} : Due n (s, some a) (a, s)
  | ready {n : Nat} {s : PollStream (Except ε α)} {a : α} :
      s.head = .ready (some (.ok a)) → Due n (s, none) (a, s.tail)
  | pending {n : Nat} {s t : PollStream (Except ε α)} {a : α} :
      s.head = .pending → Due n (s.tail, none) (a, t) → Due (n + 1) (s, none) (a, t)

variable {e e' : PollStream (Except ε α) × Option α} {p : α × PollStream (Except ε α)}
  {targets : List (α × PollStream (Except ε α))}

theorem Due.mono (h : Due n e p) (hm : n ≤ m) : Due m e p := by
  induction h generalizing m with
  | here => exact .here
  | ready hs => exact .ready hs
  | pending hs _ ih =>
    obtain ⟨k, rfl⟩ : ∃ k, m = k + 1 := ⟨m - 1, by omega⟩
    exact .pending hs (ih (by omega))

theorem due_of_next (h : Next s (some (.ok a)) t) : ∃ n, Due n (s, none) (a, t) := by
  generalize hi : some (Except.ok a) = i at h
  induction h with
  | ready hs =>
    subst hi
    exact ⟨0, .ready hs⟩
  | pending hs _ ih =>
    obtain ⟨n, hn⟩ := ih hi
    exact ⟨n + 1, .pending hs hn⟩

theorem exists_due (h : List.Forall₂ (fun s p => Next s (some (.ok p.1)) p.2) ss targets) :
    ∃ n, List.Forall₂ (Due n) (ss.map fun s => (s, none)) targets := by
  induction h with
  | nil => exact ⟨0, .nil⟩
  | cons hs _ ih =>
    obtain ⟨n, hn⟩ := due_of_next hs
    obtain ⟨m, hm⟩ := ih
    exact ⟨max n m, .cons (hn.mono (le_max_left n m))
      (hm.imp fun _ _ h => h.mono (le_max_right n m))⟩

/-- A round brings the elements closer to their items, and is done with no pending poll left. -/
theorem pollElems_due (h : List.Forall₂ (Due n) elems targets) :
    ∃ done elems', pollElems elems = .ok (done, elems') ∧
      List.Forall₂ (Due (n - 1)) elems' targets ∧ (n = 0 → done = true) ∧
      (done = true → elems' = targets.map fun p => (p.2, some p.1)) := by
  induction h with
  | nil => exact ⟨true, [], rfl, .nil, fun _ => rfl, fun _ => rfl⟩
  | @cons e p elems targets he _ ih =>
    obtain ⟨done, elems', hpoll, hdue, hzero, hdone⟩ := ih
    cases he with
    | @here _ s a =>
      refine ⟨done, (s, some a) :: elems', ?_, .cons .here hdue, hzero, fun hd => ?_⟩
      · rw [pollElems, hpoll]
        rfl
      · rw [hdone hd]
        rfl
    | @ready _ s a hs =>
      refine ⟨done, (s.tail, some a) :: elems', ?_, .cons .here hdue, hzero, fun hd => ?_⟩
      · rw [pollElems, hs, hpoll]
        rfl
      · rw [hdone hd]
        rfl
    | @pending k s t a hs hrest =>
      refine ⟨false, (s.tail, none) :: elems', ?_, .cons hrest hdue, fun hk => ?_, fun hd => ?_⟩
      · rw [pollElems, hs, hpoll]
        rfl
      · omega
      · cases hd

theorem pollNext_due (hne : targets ≠ [])
    (h : pollElems elems = .ok (true, targets.map fun p => (p.2, some p.1))) :
    Next (run pollNext elems) (some (.ok (targets.map Prod.fst)))
      (zipAll (targets.map Prod.snd)) := by
  have hresult : (targets.map fun p => (p.2, some p.1)).filterMap (·.2) = targets.map Prod.fst := by
    rw [List.filterMap_map]
    exact congrFun List.filterMap_eq_map targets
  have hp : pollNext elems = (.ready (some (.ok (targets.map Prod.fst))),
      (targets.map Prod.snd).map fun s => (s, none)) := by
    rw [pollNext, h]
    dsimp only
    rw [hresult, List.isEmpty_map, if_neg (by simpa using hne), List.map_map, List.map_map]
    rfl
  exact next_run_ready hp

theorem run_due (hne : targets ≠ []) (h : List.Forall₂ (Due n) elems targets) :
    Next (run pollNext elems) (some (.ok (targets.map Prod.fst)))
      (zipAll (targets.map Prod.snd)) := by
  induction n generalizing elems with
  | zero =>
    obtain ⟨done, elems', hpoll, -, hzero, hdone⟩ := pollElems_due h
    rw [hzero rfl, hdone (hzero rfl)] at hpoll
    exact pollNext_due hne hpoll
  | succ n ih =>
    obtain ⟨done, elems', hpoll, hdue, -, hdone⟩ := pollElems_due h
    cases done with
    | false =>
      have hp : pollNext elems = (.pending, elems') := by rw [pollNext, hpoll]
      exact next_run_pending hp (ih hdue)
    | true =>
      rw [hdone rfl] at hpoll
      exact pollNext_due hne hpoll

/-- The streams' next items are the next row, after which the rest of the streams is zipped. -/
theorem zipAll_row (hne : ss ≠ [])
    (h : List.Forall₂ (fun s p => Next s (some (.ok p.1)) p.2) ss targets) :
    Next (zipAll ss) (some (.ok (targets.map Prod.fst))) (zipAll (targets.map Prod.snd)) := by
  obtain ⟨n, hn⟩ := exists_due h
  refine run_due ?_ hn
  rintro rfl
  exact hne (List.forall₂_nil_right_iff.mp h)

/-! ### Many rows -/

variable {columns : List (List α × PollStream (Except ε α))} {k : Nat}

/-- The streams have these items before them. -/
abbrev GiveColumns (ss : List (PollStream (Except ε α)))
    (columns : List (List α × PollStream (Except ε α))) : Prop :=
  List.Forall₂ (fun s c => Gives s (c.1.map .ok) c.2) ss columns

theorem giveColumns_zero (hlen : ∀ c ∈ columns, c.1.length = 0) (h : GiveColumns ss columns) :
    columns.map Prod.snd = ss := by
  induction h with
  | nil => rfl
  | @cons s c ss columns hs _ ih =>
    obtain ⟨l, t⟩ := c
    obtain ⟨hl, hrest⟩ := List.forall_mem_cons.mp hlen
    obtain rfl := List.length_eq_zero_iff.mp hl
    cases hs
    rw [List.map_cons, ih hrest]

/-- The first row, and the columns after it. -/
theorem giveColumns_succ (hlen : ∀ c ∈ columns, c.1.length = k + 1) (h : GiveColumns ss columns) :
    ∃ targets : List (α × PollStream (Except ε α)),
      List.Forall₂ (fun s p => Next s (some (.ok p.1)) p.2) ss targets ∧
      targets.map Prod.fst = columns.filterMap (fun c => c.1[0]?) ∧
      GiveColumns (targets.map Prod.snd) (columns.map fun c => (c.1.tail, c.2)) := by
  induction h with
  | nil => exact ⟨[], .nil, rfl, .nil⟩
  | @cons s c ss columns hs _ ih =>
    obtain ⟨l, t⟩ := c
    obtain ⟨hl, hrest⟩ := List.forall_mem_cons.mp hlen
    obtain ⟨targets, hnext, hrow, hcolumns⟩ := ih hrest
    cases l with
    | nil => cases hl
    | cons a l =>
      cases hs with
      | @cons _ s' _ _ _ hfirst hs =>
        refine ⟨(a, s') :: targets, .cons hfirst hnext, ?_, .cons hs hcolumns⟩
        rw [List.map_cons, hrow]
        rfl

/-- The rows of the streams' items, one after the other. -/
theorem zipAll_gives (hne : ss ≠ []) (hlen : ∀ c ∈ columns, c.1.length = k)
    (h : GiveColumns ss columns) :
    Gives (zipAll ss) ((List.range k).map fun j => .ok (columns.filterMap fun c => c.1[j]?))
      (zipAll (columns.map Prod.snd)) := by
  induction k generalizing ss columns with
  | zero =>
    rw [giveColumns_zero hlen h]
    exact .nil _
  | succ k ih =>
    obtain ⟨targets, hnext, hrow, hcolumns⟩ := giveColumns_succ hlen h
    have hne' : targets.map Prod.snd ≠ [] := by
      intro hnil
      rw [List.map_eq_nil_iff.mp hnil] at hnext
      exact hne (List.forall₂_nil_right_iff.mp hnext)
    have hlen' : ∀ c ∈ columns.map (fun c => (c.1.tail, c.2)), c.1.length = k := by
      intro c hc
      obtain ⟨c₀, hc₀, rfl⟩ := List.mem_map.mp hc
      rw [List.length_tail, hlen c₀ hc₀]
      rfl
    have hrest := ih hne' hlen' hcolumns
    rw [List.range_succ_eq_map, List.map_cons, ← hrow, List.map_map]
    refine .cons (zipAll_row hne hnext) ?_
    rw [List.map_map] at hrest
    simpa [List.filterMap_map, Function.comp_def, List.getElem?_tail] using hrest

/-! ### The end -/

/-- The stream ends, or fails with an error, before it gives another item. -/
def Stops {α : Type} (s : PollStream (Except ε α)) (o : Option ε) : Prop :=
  ∃ u, Next s (o.map .error) u

/-- The output has ended. -/
def exhausted : PollStream (Except ε (List α)) := run pollNext []

theorem exhausted_get (n : Nat) :
    (exhausted : PollStream (Except ε (List α))).get n = .ready none := by
  induction n with
  | zero => rfl
  | succ n ih =>
    rw [exhausted, Stream'.get_succ, tail_run]
    exact ih

theorem Stops.failsIn {o : Option ε} (h : Stops s o) : ∃ n, FailsIn n s := by
  obtain ⟨u, h⟩ := h
  generalize hi : Option.map Except.error o = i at h
  induction h with
  | ready hs =>
    subst hi
    cases o with
    | none => exact ⟨0, .ended hs⟩
    | some e => exact ⟨0, .failed e hs⟩
  | pending hs _ ih =>
    obtain ⟨n, hn⟩ := ih hi
    exact ⟨n + 1, .pending hs hn⟩

theorem pollNext_early {early : Early ε} (h : pollElems elems = .error early) :
    pollNext elems = (.ready (early.error.map .error), []) := by
  cases early with
  | failed e =>
    rw [pollNext, h]
    rfl
  | ended =>
    rw [pollNext, h]
    rfl

/-- An element that has no item yet stops as it would have before the poll. -/
theorem Polled.stops {o : Option ε} (hp : Polled e e') (hnone : e'.2 = none)
    (h : Stops e'.1 o) : e.2 = none ∧ Stops e.1 o := by
  rcases hp with ⟨v, hv, rfl⟩ | ⟨hwait, ⟨hs, rfl⟩ | ⟨v, -, rfl⟩⟩
  · cases hnone.symm.trans hv
  · obtain ⟨u, h⟩ := h
    exact ⟨hwait, u, .pending hs h⟩
  · cases hnone

/-- A zip in which a stream stops before the current row is full ends, or fails as one of its
streams does. -/
theorem run_stops (hmem : (s, none) ∈ elems) (h : FailsIn n s) :
    ∃ o : Option ε, Next (run pollNext elems) (o.map .error) exhausted ∧
      ∃ e ∈ elems, e.2 = none ∧ Stops e.1 o := by
  have hearly {elems : Elems ε α} {early : Early ε} (h : pollElems elems = .error early) :
      ∃ o : Option ε, Next (run pollNext elems) (o.map .error) exhausted ∧
        ∃ e ∈ elems, e.2 = none ∧ Stops e.1 o := by
    obtain ⟨e, he, hnone, hs⟩ := pollElems_early h
    exact ⟨early.error, next_run_ready (pollNext_early h), e, he, hnone, _, .ready hs⟩
  induction n generalizing elems s with
  | zero =>
    rcases pollElems_fails hmem h with ⟨early, he⟩ | ⟨k, _, _, hk, -⟩
    · exact hearly he
    · omega
  | succ n ih =>
    rcases pollElems_fails hmem h with ⟨early, he⟩ | ⟨k, elems', s', hk, he, hs', hf⟩
    · exact hearly he
    · obtain rfl : n = k := by omega
      obtain ⟨o, hn, e', he', hnone, hstops⟩ := ih hs' hf
      obtain ⟨e, hmem, hp⟩ : ∃ e ∈ elems, Polled e e' :=
        exists_right (List.Forall₂.flip (pollElems_forall he)) he'
      have hpending : pollNext elems = (.pending, elems') := by rw [pollNext, he]
      exact ⟨o, next_run_pending hpending hn, e, hmem, hp.stops hnone hstops⟩

theorem zipAll_stops {o : Option ε} (hmem : s ∈ ss) (h : Stops s o) :
    ∃ o : Option ε, Next (zipAll ss) (o.map .error) exhausted ∧ ∃ t ∈ ss, Stops t o := by
  obtain ⟨n, hn⟩ := h.failsIn
  obtain ⟨o, hnext, e, he, -, hstops⟩ :=
    run_stops (List.mem_map_of_mem (f := fun s => (s, none)) hmem) hn
  obtain ⟨t, ht, rfl⟩ := List.mem_map.mp he
  exact ⟨o, hnext, t, ht, hstops⟩

/-! ### What no poll loses -/

/-- The row that a poll answers. -/
def rowOf : Poll (Option (Except ε (List α))) → List (List α)
  | .ready (some (.ok row)) => [row]
  | _ => []

/-- The elements after some polls. -/
abbrev elemsAfter (ss : List (PollStream (Except ε α))) (n : Nat) : Elems ε α :=
  stateAfter pollNext (ss.map fun s => (s, none)) n

/-- The rows that some polls answer. -/
def rowsBefore (ss : List (PollStream (Except ε α))) : Nat → List (List α)
  | 0 => []
  | n + 1 => rowsBefore ss n ++ rowOf ((zipAll ss).get n)

/-- Each stream has given its items of the rows, in order, and the item that its element keeps. -/
structure Aligned (ss : List (PollStream (Except ε α))) (rows : List (List α))
    (elems : Elems ε α) : Prop where
  length : elems.length = ss.length
  widths : ∀ row ∈ rows, row.length = ss.length
  taken : ∀ (i : Nat) (s : PollStream (Except ε α)) (e : PollStream (Except ε α) × Option α),
    ss[i]? = some s → elems[i]? = some e →
    Taken s ((rows.filterMap (fun row => row[i]?) ++ e.2.toList).map .ok) e.1

variable {rows : List (List α)}

theorem Polled.taken {l : List α} (hp : Polled e e')
    (h : Taken s ((l ++ e.2.toList).map .ok) e.1) :
    Taken s ((l ++ e'.2.toList).map .ok) e'.1 := by
  rcases hp with ⟨v, -, rfl⟩ | ⟨hnone, ⟨hs, rfl⟩ | ⟨v, hs, rfl⟩⟩
  · exact h
  · rw [hnone] at h
    exact h.then_lacks (lacks_of_pending hs)
  · rw [hnone, Option.toList_none, List.append_nil] at h
    simpa using h.then_item hs

theorem getElem?_polled {i : Nat} (h : List.Forall₂ Polled elems elems')
    (he' : elems'[i]? = some e') : ∃ e, elems[i]? = some e ∧ Polled e e' := by
  induction h generalizing i with
  | nil => cases he'
  | cons hp _ ih =>
    cases i with
    | zero =>
      cases he'
      exact ⟨_, rfl, hp⟩
    | succ i => exact ih he'

theorem Aligned.polled (h : Aligned ss rows elems) (hp : List.Forall₂ Polled elems elems') :
    Aligned ss rows elems' where
  length := hp.length_eq.symm.trans h.length
  widths := h.widths
  taken i s e' hs he' := by
    obtain ⟨e, he, hpolled⟩ := getElem?_polled hp he'
    exact hpolled.taken (h.taken i s e hs he)

theorem filterMap_full {β γ : Type} {l : List (β × Option γ)} (h : ∀ e ∈ l, e.2.isSome) :
    l.map Prod.snd = (l.filterMap Prod.snd).map some := by
  induction l with
  | nil => rfl
  | cons e l ih =>
    obtain ⟨b, o⟩ := e
    obtain ⟨hsome, hrest⟩ := List.forall_mem_cons.mp h
    obtain ⟨c, rfl⟩ := Option.isSome_iff_exists.mp hsome
    rw [List.map_cons, ih hrest]
    rfl

theorem full_nil {β γ : Type} {l : List (β × Option γ)} (h : ∀ e ∈ l, e.2.isSome)
    (hempty : (l.filterMap Prod.snd).isEmpty) : l = [] := by
  have hitems := filterMap_full h
  rw [List.isEmpty_iff.mp hempty] at hitems
  simpa using hitems

/-- A full row is given, and the elements begin the next one. -/
theorem Aligned.emit (h : Aligned ss rows elems) (hfull : ∀ e ∈ elems, e.2.isSome) :
    Aligned ss (rows ++ [elems.filterMap Prod.snd]) (elems.map fun e => (e.1, none)) := by
  have hitems := filterMap_full hfull
  refine ⟨?_, ?_, ?_⟩
  · rw [List.length_map, h.length]
  · intro row hrow
    rcases List.mem_append.mp hrow with hrow | hrow
    · exact h.widths row hrow
    · obtain rfl := List.mem_singleton.mp hrow
      have := congrArg List.length hitems
      rw [List.length_map, List.length_map] at this
      rw [← this, h.length]
  · intro i s e hs he
    rw [List.getElem?_map] at he
    obtain ⟨e₀, he₀, rfl⟩ := Option.map_eq_some_iff.mp he
    have hitem : (elems.filterMap Prod.snd)[i]? = e₀.2 := by
      have hi := congrArg (fun l => l[i]?) hitems
      simp only [List.getElem?_map, he₀, Option.map_some] at hi
      cases hrow : (elems.filterMap Prod.snd)[i]? with
      | none =>
        rw [hrow] at hi
        cases hi
      | some a =>
        rw [hrow] at hi
        exact (Option.some.inj hi).symm
    have hlast : [elems.filterMap Prod.snd].filterMap (fun row => row[i]?) = e₀.2.toList := by
      rw [← hitem]
      cases hrow : (elems.filterMap Prod.snd)[i]? <;> simp [hrow]
    rw [List.filterMap_append, Option.toList_none, List.append_nil, hlast]
    exact h.taken i s e₀ hs he₀

/-- Each poll keeps the streams aligned, or the output has ended. -/
theorem Aligned.pollNext (h : Aligned ss rows elems) : (ZipAll.pollNext elems).2 = [] ∨
    Aligned ss (rows ++ rowOf (ZipAll.pollNext elems).1) (ZipAll.pollNext elems).2 := by
  cases hpoll : pollElems elems with
  | error early =>
    rw [pollNext_early hpoll]
    exact .inl rfl
  | ok r =>
    obtain ⟨done, elems'⟩ := r
    have hpolled := h.polled (pollElems_forall hpoll)
    cases done with
    | false =>
      rw [ZipAll.pollNext, hpoll]
      exact .inr (by simpa [rowOf] using hpolled)
    | true =>
      have hemit := hpolled.emit ((pollElems_done hpoll).mp rfl)
      cases hempty : (elems'.filterMap Prod.snd).isEmpty with
      | true =>
        left
        obtain rfl := full_nil ((pollElems_done hpoll).mp rfl) hempty
        rw [ZipAll.pollNext, hpoll]
        rfl
      | false =>
        rw [ZipAll.pollNext, hpoll]
        right
        simpa [rowOf, hempty] using hemit

theorem elemsAfter_over (h : elemsAfter ss n = []) : elemsAfter ss (n + 1) = [] := by
  rw [elemsAfter, stateAfter]
  change (pollNext (elemsAfter ss n)).2 = []
  rw [h]
  rfl

theorem aligned_after (ss : List (PollStream (Except ε α))) (n : Nat) :
    elemsAfter ss n = [] ∨ Aligned ss (rowsBefore ss n) (elemsAfter ss n) := by
  induction n with
  | zero =>
    right
    refine ⟨List.length_map .., List.forall_mem_nil _, fun i s e hs he => ?_⟩
    rw [elemsAfter, stateAfter, List.getElem?_map, hs] at he
    obtain rfl := Option.some.inj he
    exact .refl _
  | succ n ih =>
    rcases ih with hover | haligned
    · exact .inl (elemsAfter_over hover)
    · rw [rowsBefore, zipAll, get_run]
      exact haligned.pollNext

/-- A stream is not polled while its element has an item. -/
theorem pollNext_waits {i : Nat} (he : elems[i]? = some e) (hsome : e.2.isSome)
    (he' : (pollNext elems).2[i]? = some e') : e'.1 = e.1 := by
  have hsame {elems' : Elems ε α} {e' : PollStream (Except ε α) × Option α}
      (hpolled : List.Forall₂ Polled elems elems') (he' : elems'[i]? = some e') :
      e'.1 = e.1 := by
    obtain ⟨e₀, he₀, hp⟩ := getElem?_polled hpolled he'
    obtain rfl := Option.some.inj (he.symm.trans he₀)
    rcases hp with ⟨v, -, rfl⟩ | ⟨hnone, -⟩
    · rfl
    · rw [hnone] at hsome
      cases hsome
  cases hpoll : pollElems elems with
  | error early =>
    rw [pollNext_early hpoll] at he'
    cases he'
  | ok r =>
    obtain ⟨done, elems'⟩ := r
    rw [pollNext, hpoll] at he'
    cases done with
    | false => exact hsame (pollElems_forall hpoll) he'
    | true =>
      rw [List.getElem?_map] at he'
      obtain ⟨e₁, he₁, rfl⟩ := Option.map_eq_some_iff.mp he'
      have hstream := hsame (pollElems_forall hpoll) he₁
      exact hstream

/-- Only a stream that ends or fails makes the output do so. -/
theorem pollNext_answers {o : Option ε} (h : (pollNext elems).1 = .ready (o.map .error)) :
    (pollNext elems).2 = [] ∧
      (elems = [] ∨ ∃ e ∈ elems, e.2 = none ∧ e.1.head = .ready (o.map .error)) := by
  cases hpoll : pollElems elems with
  | error early =>
    rw [pollNext_early hpoll] at h ⊢
    obtain ⟨e, he, hnone, hs⟩ := pollElems_early hpoll
    have hinj : Function.Injective (Option.map (Except.error : ε → Except ε (List α))) :=
      Option.map_injective fun _ _ => Except.error.inj
    rw [← hinj (Poll.ready.inj h)]
    exact ⟨rfl, .inr ⟨e, he, hnone, hs⟩⟩
  | ok r =>
    obtain ⟨done, elems'⟩ := r
    rw [pollNext, hpoll] at h ⊢
    cases done with
    | false => cases h
    | true =>
      cases hempty : (elems'.filterMap (·.2)).isEmpty with
      | false =>
        simp only [hempty, Bool.false_eq_true, if_false] at h
        cases o <;> cases h
      | true =>
        obtain rfl := full_nil ((pollElems_done hpoll).mp rfl) hempty
        exact ⟨rfl, .inl (List.forall₂_nil_right_iff.mp (pollElems_forall hpoll))⟩

/-- The zip of streams, as it is meant. -/
structure ZipsExactly (ss : List (PollStream (Except ε α))) : Prop where
  rows : ∀ (k : Nat) (columns : List (List α × PollStream (Except ε α))),
    (∀ c ∈ columns, c.1.length = k) → GiveColumns ss columns →
      Gives (zipAll ss) ((List.range k).map fun j => .ok (columns.filterMap fun c => c.1[j]?))
        (zipAll (columns.map Prod.snd))
  stops : ∀ (k : Nat) (columns : List (List α × PollStream (Except ε α))) (o : Option ε),
    (∀ c ∈ columns, c.1.length = k) → GiveColumns ss columns → (∃ c ∈ columns, Stops c.2 o) →
      ∃ o : Option ε, Next (zipAll (columns.map Prod.snd)) (o.map .error) exhausted ∧
        ∃ c ∈ columns, Stops c.2 o
  exhausted : ∀ n, (exhausted : PollStream (Except ε (List α))).get n = .ready none
  conserved : ∀ n, elemsAfter ss n = [] ∨ Aligned ss (rowsBefore ss n) (elemsAfter ss n)
  waits : ∀ (n i : Nat) (e e' : PollStream (Except ε α) × Option α),
    (elemsAfter ss n)[i]? = some e → (elemsAfter ss (n + 1))[i]? = some e' → e.2.isSome →
      e'.1 = e.1
  answers : ∀ (n : Nat) (o : Option ε), (zipAll ss).get n = .ready (o.map .error) →
    elemsAfter ss (n + 1) = [] ∧
      (elemsAfter ss n = [] ∨ ∃ e ∈ elemsAfter ss n, e.2 = none ∧ e.1.head = .ready (o.map .error))

/-- Any list of at least one stream is zipped exactly. -/
theorem zipsExactly (hne : ss ≠ []) : ZipsExactly ss where
  rows _ _ hlen h := zipAll_gives hne hlen h
  stops k columns o _ _ hstops := by
    obtain ⟨c, hc, hstops⟩ := hstops
    obtain ⟨o, hnext, t, ht, hstops⟩ := zipAll_stops (List.mem_map_of_mem hc) hstops
    obtain ⟨c, hc, rfl⟩ := List.mem_map.mp ht
    exact ⟨o, hnext, c, hc, hstops⟩
  exhausted := exhausted_get
  conserved := aligned_after ss
  waits n i e e' he he' hsome := pollNext_waits he hsome he'
  answers n o h := by
    rw [zipAll, get_run] at h
    exact pollNext_answers h

/-- A stream that repeats an item. -/
theorem zipsExactly_always : ZipsExactly [(always (.ok 7) : PollStream (Except Unit Nat))] :=
  zipsExactly (List.cons_ne_nil _ _)

end Pewpew.ZipAll
