import Pewpew.Expression.FunctionCall
import Pewpew.Expression.IntoStream
import Pewpew.Expression.Iterate

/-! The groups into which `collect` gathers the items of its argument. -/
namespace Pewpew.SelectParser

open Polling

variable {Ar : Type}

/-- The items that are no errors. -/
def okItems {α : Type} (items : List (Item α Ar)) : List (α × List Ar) :=
  items.filterMap Except.toOption

/-- A group as one item: an array of the values, with all that they return. -/
def collected (group : List (Json × List Ar)) : Json × List Ar :=
  (.array (group.map Prod.fst), group.flatMap Prod.snd)

/-- The poll function of `collect` over an argument, with the sizes of the groups to come. -/
def CollectState.start (arg : PollStream (Item Json Ar)) (counts : Stream' Nat) :
    CollectState Ar :=
  ⟨none, arg, false, counts⟩

/-- After any number of polls, the arrays that have been emitted are the items of the argument so
far, group by group, each of the size that was chosen for it; an incomplete group is left. -/
def Grouped (arg : PollStream (Item Json Ar)) (counts : Stream' Nat) : Prop :=
  ∀ n, ∃ k, ∃ groups : List (List (Json × List Ar)), ∃ rest,
    (stateAfter CollectState.poll (.start arg counts) n).arg = arg.drop k ∧
      okItems (firstItems arg k) = groups.flatten ++ rest ∧
      okItems (firstItems (run CollectState.poll (.start arg counts)) n) =
        groups.map collected ∧
      groups.map List.length = counts.take groups.length ∧
      (rest = [] ∨ rest.length < counts.get groups.length)

/-- The size of a group, as it may be chosen for a `collect`. -/
def Chosen (min : Nat) (random : Option Nat) (count : Nat) : Prop :=
  match random with
  | none => count = min
  | some max => min ≤ count ∧ count < max

variable {arg : PollStream (Item Json Ar)} {counts : Stream' Nat} {s t : CollectState Ar}
  {g : Group Ar} {groups : List (List (Json × List Ar))} {rest : List (Json × List Ar)}

/-- A group that has been filled with the given items, and is not full. -/
structure Group.Holds (g : Group Ar) (rest : List (Json × List Ar)) : Prop where
  jsons : g.jsons = rest.map Prod.fst
  returns : g.returns = rest.flatMap Prod.snd
  notFull : g.jsons.length < g.capacity

/-- An answer without a value: the poll is pending, or the stream fails or ends. -/
def NoValue (p : Poll (Option (Item Json Ar))) : Prop := ∀ i, p ≠ .ready (some (.ok i))

/-- What a poll does from a group that holds the items `rest`: it emits an array of these and the
items that it takes, which fill the group; or it keeps them, and emits none. -/
structure Polls (s : CollectState Ar) (rest : List (Json × List Ar)) (capacity : Nat)
    (r : Poll (Option (Item Json Ar)) × CollectState Ar) (k : Nat) : Prop where
  arg : r.2.arg = s.arg.drop k
  counts : r.2.counts = s.counts
  emits : (r.2.value = none ∧
      r.1 = .ready (some (.ok (collected (rest ++ okItems (firstItems s.arg k))))) ∧
      (rest ++ okItems (firstItems s.arg k)).length = capacity) ∨
    (NoValue r.1 ∧ ∃ g, r.2.value = some g ∧ g.capacity = capacity ∧
      g.Holds (rest ++ okItems (firstItems s.arg k)))

theorem okItems_one {s : PollStream (Item Json Ar)} (h : NoValue s.head) :
    okItems (firstItems s 1) = [] := by
  rw [firstItems]
  rcases hp : s.head with _ | _ | e | i
  · rfl
  · rfl
  · rfl
  · exact absurd hp (h i)

/-- The poll ends after `k` polls of the argument that have given no value. -/
theorem polls_keep {p : Poll (Option (Item Json Ar))} {k : Nat} (h : g.Holds rest)
    (hp : NoValue p) (hvalue : t.value = some g) (harg : t.arg = s.arg.drop k)
    (hcounts : t.counts = s.counts) (hnone : okItems (firstItems s.arg k) = []) :
    Polls s rest g.capacity (p, t) k := by
  refine ⟨harg, hcounts, .inr ⟨hp, g, hvalue, rfl, ?_⟩⟩
  rw [hnone, List.append_nil]
  exact h

theorem Group.Holds.push (h : g.Holds rest) (v : Json) (returns : List Ar) :
    (g.push v returns).capacity = g.capacity ∧
      (g.push v returns).jsons = (rest ++ [(v, returns)]).map Prod.fst ∧
      (g.push v returns).returns = (rest ++ [(v, returns)]).flatMap Prod.snd := by
  refine ⟨if_pos h.notFull, ?_, ?_⟩
  · rw [Group.push, h.jsons, List.map_append]
    rfl
  · rw [Group.push, h.returns, List.flatMap_append]
    simp

/-- The loop of a poll, by induction on its rounds. -/
theorem polls_loop (rounds : Nat) (h : g.Holds rest) :
    ∃ k, Polls s rest g.capacity (CollectState.loop rounds g s) k := by
  induction rounds generalizing g s rest with
  | zero => exact ⟨0, polls_keep h (fun i hi => by cases hi) rfl rfl rfl rfl⟩
  | succ rounds ih =>
    rw [CollectState.loop]
    split
    · exact ⟨0, polls_keep h (fun i hi => by cases hi) rfl rfl rfl rfl⟩
    · rcases hhead : s.arg.head with _ | _ | e | ⟨v, returns⟩
      · exact ⟨1, polls_keep h (by simp [NoValue]) rfl rfl rfl
          (okItems_one (by simp [NoValue, hhead]))⟩
      · exact ⟨1, polls_keep h (by simp [NoValue]) rfl rfl rfl
          (okItems_one (by simp [NoValue, hhead]))⟩
      · exact ⟨1, polls_keep h (by simp [NoValue]) rfl rfl rfl
          (okItems_one (by simp [NoValue, hhead]))⟩
      · obtain ⟨hcapacity, hjsons, hreturns⟩ := h.push v returns
        have hitems (k : Nat) : rest ++ okItems (firstItems s.arg (k + 1)) =
            rest ++ [(v, returns)] ++ okItems (firstItems s.arg.tail k) := by
          rw [firstItems_item hhead, List.append_assoc]
          rfl
        have hlength : (g.push v returns).jsons.length = (rest ++ [(v, returns)]).length := by
          rw [hjsons, List.length_map]
        dsimp only
        split
        · next hfull =>
          refine ⟨1, rfl, rfl, .inl ⟨rfl, ?_, ?_⟩⟩
          · rw [hitems 0, hjsons, hreturns]
            simp [firstItems, okItems, collected]
          · rw [hitems 0, ← hcapacity, ← hfull, hlength]
            simp [firstItems, okItems]
        · next hopen =>
          have hlt : (g.push v returns).jsons.length < (g.push v returns).capacity := by
            have := h.notFull
            have hlen := congrArg List.length h.jsons
            rw [List.length_map] at hlen
            rw [hlength, hcapacity, List.length_append, List.length_singleton] at hopen ⊢
            omega
          obtain ⟨k, harg, hcounts, hemits⟩ :=
            ih (s := { s with arg := s.arg.tail }) ⟨hjsons, hreturns, hlt⟩
          rw [hcapacity] at hemits
          refine ⟨k + 1, harg, hcounts, ?_⟩
          rw [hitems k]
          exact hemits

/-! ### Polls -/

/-- The groups that have been emitted, and the items that are left in the next one. -/
structure Gathers (arg : PollStream (Item Json Ar)) (counts : Stream' Nat) (s : CollectState Ar)
    (k : Nat) (groups : List (List (Json × List Ar))) (rest : List (Json × List Ar)) : Prop where
  source : s.arg = arg.drop k
  items : okItems (firstItems arg k) = groups.flatten ++ rest
  sizes : groups.map List.length = counts.take groups.length
  value : (s.value = none ∧ rest = [] ∧ s.counts = counts.drop groups.length) ∨
    ∃ g, s.value = some g ∧ g.capacity = counts.get groups.length ∧ g.Holds rest ∧
      s.counts = counts.drop (groups.length + 1)

theorem okItems_append {α : Type} (items items' : List (Item α Ar)) :
    okItems (items ++ items') = okItems items ++ okItems items' := List.filterMap_append

/-- A poll goes on with the group that is left, or begins the next one. -/
theorem Gathers.poll_eq {k : Nat} (h : Gathers arg counts s k groups rest)
    (hpos : ∀ n, 0 < counts.get n) :
    ∃ rounds g, ∃ s' : CollectState Ar, CollectState.poll s = CollectState.loop rounds g s' ∧
      s'.arg = s.arg ∧ s'.counts = counts.drop (groups.length + 1) ∧
      g.capacity = counts.get groups.length ∧ g.Holds rest := by
  rcases h.value with ⟨hnone, rfl, hcounts⟩ | ⟨g, hsome, hcapacity, hholds, hcounts⟩
  · have hhead : s.counts.head = counts.get groups.length := by
      rw [hcounts, Stream'.head_drop]
    refine ⟨max s.counts.head 4, ⟨[], [], s.counts.head⟩, { s with counts := s.counts.tail }, ?_,
      rfl, ?_, hhead, rfl, rfl, ?_⟩
    · rw [CollectState.poll, hnone]
    · dsimp only
      rw [hcounts, Stream'.tail_drop']
    · dsimp only
      rw [hhead]
      exact hpos _
  · refine ⟨max g.capacity 4, g, s, ?_, rfl, hcounts, hcapacity, hholds⟩
    rw [CollectState.poll, hsome]

/-- What one poll preserves. -/
theorem gathers_poll {k : Nat} (h : Gathers arg counts s k groups rest)
    (hpos : ∀ n, 0 < counts.get n) :
    ∃ k', (NoValue (CollectState.poll s).1 ∧
        ∃ rest', Gathers arg counts (CollectState.poll s).2 k' groups rest') ∨
      ∃ group, (CollectState.poll s).1 = .ready (some (.ok (collected group))) ∧
        Gathers arg counts (CollectState.poll s).2 k' (groups ++ [group]) [] := by
  obtain ⟨rounds, g, s', heq, harg, hcounts, hcapacity, hholds⟩ := h.poll_eq hpos
  obtain ⟨j, hpoll⟩ := polls_loop (s := s') rounds hholds
  rw [← heq] at hpoll
  obtain ⟨harg', hcounts', hemits⟩ := hpoll
  have harg'' : (CollectState.poll s).2.arg = arg.drop (k + j) := by
    rw [harg', harg, h.source, Stream'.drop_drop, Nat.add_comm]
  have hitems : okItems (firstItems arg (k + j)) =
      groups.flatten ++ (rest ++ okItems (firstItems s'.arg j)) := by
    rw [firstItems_add, okItems_append, h.items, harg, h.source, List.append_assoc]
  refine ⟨k + j, ?_⟩
  rcases hemits with ⟨hvalue, hready, hfull⟩ | ⟨hno, g', hvalue, hcap, hholds'⟩
  · refine .inr ⟨_, hready, harg'', ?_, ?_, .inl ⟨hvalue, rfl, ?_⟩⟩
    · rw [hitems]
      simp
    · rw [List.map_append, h.sizes, List.length_append, List.map_singleton, hfull, hcapacity]
      exact (Stream'.take_succ' _).symm
    · rw [hcounts', hcounts, List.length_append]
      rfl
  · refine .inl ⟨hno, _, harg'', hitems, h.sizes, .inr ⟨g', hvalue, ?_, hholds', ?_⟩⟩
    · rw [hcap, hcapacity]
    · rw [hcounts', hcounts]

/-- What all polls preserve, by induction on their number. -/
theorem gathers_stateAfter (hpos : ∀ n, 0 < counts.get n) (n : Nat) :
    ∃ k groups rest, Gathers arg counts (stateAfter CollectState.poll (.start arg counts) n)
        k groups rest ∧
      okItems (firstItems (run CollectState.poll (.start arg counts)) n) =
        groups.map collected := by
  induction n with
  | zero => exact ⟨0, [], [], ⟨rfl, rfl, rfl, .inl ⟨rfl, rfl, rfl⟩⟩, rfl⟩
  | succ n ih =>
    obtain ⟨k, groups, rest, h, hout⟩ := ih
    have hsplit := firstItems_add (run CollectState.poll (.start arg counts)) n 1
    rw [drop_run] at hsplit
    obtain ⟨k', ⟨hno, rest', h'⟩ | ⟨group, hready, h'⟩⟩ := gathers_poll h hpos
    · refine ⟨k', groups, rest', h', ?_⟩
      rw [hsplit, okItems_append, hout, okItems_one (by rwa [head_run]), List.append_nil]
    · refine ⟨k', groups ++ [group], [], h', ?_⟩
      rw [hsplit, okItems_append, hout, firstItems_item (by rw [head_run, hready]),
        List.map_append]
      rfl

theorem grouped (hpos : ∀ n, 0 < counts.get n) : Grouped arg counts := by
  intro n
  obtain ⟨k, groups, rest, h, hout⟩ : ∃ k groups rest, Gathers arg counts _ k groups rest ∧ _ :=
    gathers_stateAfter hpos n
  refine ⟨k, groups, rest, h.source, h.items, hout, h.sizes, ?_⟩
  rcases h.value with ⟨-, hrest, -⟩ | ⟨g, -, hcapacity, hholds, -⟩
  · exact .inl hrest
  · right
    have hlt := hholds.notFull
    rwa [hholds.jsons, List.length_map, hcapacity] at hlt

/-! ### Calls -/

/-- Over any argument, in any run and whatever sizes are drawn, `collect` gathers groups. -/
def CollectsGroups (min : Nat) (random : Option Nat) : Prop :=
  ∀ (Ar : Type) (z : Zip) x draws (providers : String → Option (PollStream (Item Json Ar)))
    (arg : ValueOrExpression) noErr stream,
    (∀ n, Chosen min random (evaluateRandom (draws n) min random)) →
    arg.intoStream z x draws providers noErr = some stream →
    (FunctionCall.collect arg min random).intoStream z x draws providers noErr =
        some (run CollectState.poll
          (.start stream fun n => evaluateRandom (draws n) min random)) ∧
      Grouped stream fun n => evaluateRandom (draws n) min random

/-- `Uniform::new` accepts no empty range. -/
theorem randomBound_lt {marker : Marker} {function : String} {min : Nat}
    {last : Option ValueOrExpression} {random : Option Nat}
    (h : randomBound marker function min last = .ok random) :
    ∀ max, random = some max → min < max := by
  rintro max rfl
  cases last with
  | none => cases h
  | some arg =>
    rw [randomBound] at h
    split at h
    · next m _ =>
      rw [uniform] at h
      split at h
      · next hlt =>
        obtain rfl : m = max := by simpa [Except.map] using h
        exact hlt
      · cases h
    · cases h

/-- A random size is drawn from a range that is not empty. -/
theorem collect_new_lt {marker : Marker} {args : List ValueOrExpression} {arg : ValueOrExpression}
    {min : Nat} {random : Option Nat}
    (h : Collect.new marker args = .ok (.collect arg min random)) :
    ∀ max, random = some max → min < max := by
  match args with
  | [] | [_] => cases h
  | first :: second :: rest =>
    rw [Collect.new] at h
    split at h
    · split at h
      · next m _ =>
        rcases hbound : randomBound marker "collect" m rest.head? with e | r
        · rw [hbound] at h
          cases h
        · rw [hbound] at h
          cases h
          exact randomBound_lt hbound
      · cases h
    · cases h

/-- A group of size zero takes four items: the first push onto an empty `Vec` grows it to four. -/
theorem not_grouped_zero :
    ¬ Grouped (always (.ok (.null, [])) : PollStream (Item Json Unit)) (Stream'.const 0) := by
  intro h
  obtain ⟨k, groups, rest, -, -, hout, hsizes, -⟩ := h 1
  have hfour : okItems (firstItems (run CollectState.poll
      (.start (always (.ok (.null, [])) : PollStream (Item Json Unit)) (Stream'.const 0))) 1) =
      [(.array [.null, .null, .null, .null], [])] := rfl
  rw [hfour] at hout
  match groups with
  | [] => cases hout
  | group :: groups =>
    have hzero : group.length = 0 := (List.cons.inj hsizes).1
    rw [List.length_eq_zero_iff.mp hzero] at hout
    cases hout

/-- `collect` gathers groups of the chosen sizes exactly where none of these can be zero. -/
theorem collectsGroups_iff {marker : Marker} {args : List ValueOrExpression}
    {arg : ValueOrExpression} {min : Nat} {random : Option Nat}
    (h : Collect.new marker args = .ok (.collect arg min random)) :
    CollectsGroups min random ↔ 0 < min := by
  constructor
  · intro hgroups
    by_contra hmin
    obtain rfl : min = 0 := by omega
    have hzero : evaluateRandom { Externals.plain with sample := fun _ _ => 0 } 0 random = 0 := by
      cases random <;> rfl
    have hchosen : Chosen 0 random 0 := by
      cases random with
      | none => rfl
      | some max => exact ⟨le_rfl, collect_new_lt h max rfl⟩
    have hgrouped := (hgroups Unit queueZip .plain
      (fun _ => { Externals.plain with sample := fun _ _ => 0 }) (fun _ => none)
      (.value (.json .null)) false _ (fun n => by rw [hzero]; exact hchosen) rfl).2
    simp only [hzero] at hgrouped
    exact not_grouped_zero hgrouped
  · intro hmin Ar z x draws providers arg noErr stream hchosen hstream
    refine ⟨by rw [FunctionCall.intoStream, hstream]; rfl, grouped fun n => ?_⟩
    have hn := hchosen n
    change 0 < evaluateRandom (draws n) min random
    generalize evaluateRandom (draws n) min random = count at hn ⊢
    cases random with
    | none =>
      rw [show count = min from hn]
      exact hmin
    | some max => exact hmin.trans_le hn.1

theorem collectsGroups_two : CollectsGroups 2 (some 4) := by
  have hnew : Collect.new ⟨0, 0⟩ [.value (.json .null), .value (.json (.ofNat 2)),
      .value (.json (.ofNat 4))] = .ok (.collect (.value (.json .null)) 2 (some 4)) := rfl
  exact (collectsGroups_iff hnew).mpr (by decide)

/-- Groups of no items come in fours. -/
theorem not_collectsGroups : ¬ ∀ marker args arg min random,
    Collect.new marker args = .ok (.collect arg min random) → CollectsGroups min random := by
  intro h
  have hgroups := h ⟨0, 0⟩ [.value (.json .null), .value (.json (.ofNat 0))] _ 0 none rfl
  exact not_grouped_zero (hgroups Unit queueZip .plain (fun _ => .plain) (fun _ => none)
    (.value (.json .null)) false _ (fun _ => rfl) rfl).2

end Pewpew.SelectParser
