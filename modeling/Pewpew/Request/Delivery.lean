import Pewpew.Request.BlockSender
import Pewpew.Request.BodyHandler

/-! A sender whose receiver makes it wait for nothing sends what the body handler says. -/
namespace Pewpew.BlockSender

open Transition Request SelectParser

/-- What the iterator of an outgoing answers. -/
def answers (items : Items) (k : Nat) : Option (Except ExecutingError Json) :=
  items[k]?.map fun item => item.map Cow.val

/-- A receiver that takes so many values, or all; then it is closed. -/
def accepting (accepts : Option Nat) : Target ExecutingError Json where
  pollReady h := if accepts.all fun n => (handed h).length < n then .ready else .closed
  startSend _ _ := true
  pollFlush _ := false

/-- How many values it still takes. -/
def room (accepts : Option Nat) (h : List (Event ExecutingError Json)) : Option Nat :=
  accepts.map (· - (handed h).length)

variable {items rest : Items} {accepts n : Option Nat} {v : Cow} {k : Nat}
  {item : Except ExecutingError Cow} {s t : State ExecutingError Json}
  {h : List (Event ExecutingError Json)}

/-! ### The values that are taken -/

theorem drain_closed (items : Items) : (drain (some 0) (sentOf items)).1 = [] := by
  rw [drain]
  split
  · rfl
  · next hlen => exact List.length_eq_zero_iff.mp (by omega)

theorem drain_none (o : Option ExecutingError) : drain n ([], o) = ([], o) := by
  cases n with
  | none => rfl
  | some n =>
    rw [drain]
    exact if_neg (Nat.not_lt_zero n)

theorem drain_ok (hn : n ≠ some 0) (v : Cow) (items : Items) :
    drain n (sentOf (.ok v :: items)) =
      (v.val :: (drain (n.map (· - 1)) (sentOf items)).1,
        (drain (n.map (· - 1)) (sentOf items)).2) := by
  rcases n with _ | _ | m
  · rfl
  · exact absurd rfl hn
  · simp only [drain, sentOf, Option.map_some, Nat.add_sub_cancel, List.length_cons,
      Nat.add_lt_add_iff_right]
    split <;> rfl

theorem pollReady_accepting :
    (accepting accepts).pollReady h = if room accepts h = some 0 then .closed else .ready := by
  cases accepts with
  | none => rfl
  | some n =>
    simp only [accepting, room, Option.all_some, decide_eq_true_eq, Option.map_some,
      Option.some_inj]
    split <;> split <;> first | rfl | omega

theorem room_handed (v : Json) :
    room accepts (h ++ [.handed v]) = (room accepts h).map (· - 1) := by
  cases accepts with
  | none => rfl
  | some n => simp [room, handed, Nat.sub_sub]

theorem answers_of_drop (hrest : items.drop k = rest) :
    answers items k = rest.head?.map fun item => item.map Cow.val := by
  rw [answers, ← hrest, List.head?_drop]

theorem drop_succ (hrest : items.drop k = item :: rest) : items.drop (k + 1) = rest := by
  rw [← List.drop_drop, hrest]
  rfl

/-! ### A poll -/

/-- What a poll has done whose receiver has taken the given values and met the given error. -/
structure Polled (items : Items) (accepts : Option Nat) (s t : State ExecutingError Json)
    (it : List Json × Option ExecutingError) : Prop where
  handed : handed t.history = handed s.history ++ it.1
  nextValue : t.nextValue = none
  polling : t.polling = false
  dropped : t.dropped = s.dropped
  failed : it.2.isSome → items.drop t.taken = afterError (items.drop s.taken)
  done : it.2 = none → items.drop t.taken = [] ∨ room accepts t.history = some 0

/-- The state once the next item has been taken. -/
def State.took (s : State ExecutingError Json) (items : Items) : State ExecutingError Json :=
  { s.record (.next (answers items s.taken)) with taken := s.taken + 1 }

theorem handed_took : BlockSender.handed (s.took items).history = BlockSender.handed s.history :=
  handed_snoc fun v hv => by cases hv

theorem room_took : room accepts (s.took items).history = room accepts s.history := by
  rw [room, room, handed_took]

theorem handed_answer (r : Option (Except ExecutingError Unit)) :
    BlockSender.handed (s.answer r).history = BlockSender.handed s.history :=
  handed_snoc fun v hv => by cases hv

theorem handed_refused (v : Json) :
    BlockSender.handed (s.record (.refused v)).history = BlockSender.handed s.history :=
  handed_snoc fun w hw => by cases hw

theorem finish_accepting : s.finish (accepting accepts) = s.answer (some (.ok ())) := by
  simp [State.finish, accepting]

/-- A round begins with the next item where no value is stashed. -/
theorem step_round (accepts : Option Nat) (hnext : s.nextValue = none) (hpolling : s.polling = true)
    (hrest : items.drop s.taken = rest) :
    Step (answers items) (accepting accepts) s .round
      (match rest.head? with
      | some (.ok v) => (s.took items).offer (accepting accepts) v.val
      | some (.error e) => (s.took items).answer (some (.error e))
      | none => (s.took items).answer (some (.ok ()))) := by
  have hfetch : s.fetch (answers items) = (answers items s.taken, s.took items) := by
    rw [State.fetch, hnext]
    rfl
  rw [Step, next, if_pos hpolling, State.round, hfetch, answers_of_drop hrest]
  rcases rest.head? with _ | _ | _
  · rw [← finish_accepting]
    rfl
  · rfl
  · rfl

/-- A poll answers that hands nothing over. -/
theorem polled_answer {o : Option ExecutingError} (r : Option (Except ExecutingError Unit))
    (hhanded : handed t.history = handed s.history) (hnext : t.nextValue = none)
    (hdropped : t.dropped = s.dropped)
    (hfailed : o.isSome → items.drop t.taken = afterError (items.drop s.taken))
    (hdone : o = none → items.drop t.taken = [] ∨ room accepts s.history = some 0) :
    Polled items accepts s (t.answer r) ([], o) where
  handed := by rw [handed_answer, hhanded, List.append_nil]
  nextValue := hnext
  polling := rfl
  dropped := hdropped
  failed := hfailed
  done ho := by
    rw [room, handed_answer, hhanded]
    exact hdone ho

/-- The first value has been taken. -/
theorem Polled.cons {u : State ExecutingError Json} {it : List Json × Option ExecutingError}
    (hp : Polled items accepts u t it) (hrest : items.drop s.taken = .ok v :: rest)
    (hdrop : items.drop u.taken = rest) (hdropped : u.dropped = s.dropped)
    (hhanded : BlockSender.handed u.history = BlockSender.handed s.history ++ [v.val]) :
    Polled items accepts s t (v.val :: it.1, it.2) where
  handed := by rw [hp.handed, hhanded, List.append_assoc, List.singleton_append]
  nextValue := hp.nextValue
  polling := hp.polling
  dropped := hp.dropped.trans hdropped
  failed h := by
    rw [hp.failed h, hdrop, hrest]
    rfl
  done := hp.done

/-- One poll, by induction on the items that are left. -/
theorem exists_poll (accepts : Option Nat) (hnext : s.nextValue = none)
    (hpolling : s.polling = true) (hrest : items.drop s.taken = rest) :
    ∃ n t, Run (Step (answers items) (accepting accepts)) s (List.replicate n .round) t ∧
      Polled items accepts s t (drain (room accepts s.history) (sentOf rest)) := by
  have hround := step_round accepts hnext hpolling hrest
  induction rest generalizing s with
  | nil =>
    refine ⟨1, _, .stepL hround (.refl _), ?_⟩
    rw [sentOf, drain_none]
    refine polled_answer _ handed_took hnext rfl (fun h => by cases h) fun _ => .inl ?_
    rw [State.took, List.drop_eq_nil_iff]
    exact (List.drop_eq_nil_iff.mp hrest).trans (Nat.le_succ _)
  | cons item rest ih =>
    have hdrop : items.drop (s.took items).taken = rest := drop_succ hrest
    cases item with
    | error e =>
      refine ⟨1, _, .stepL hround (.refl _), ?_⟩
      rw [sentOf, drain_none]
      refine polled_answer _ handed_took hnext rfl (fun _ => ?_) fun h => by cases h
      rw [hdrop, hrest]
      rfl
    | ok v =>
      dsimp only [List.head?_cons] at hround
      rw [State.offer, pollReady_accepting, room_took] at hround
      by_cases hroom : room accepts s.history = some 0
      · rw [if_pos hroom] at hround
        dsimp only at hround
        rw [finish_accepting] at hround
        refine ⟨1, _, .stepL hround (.refl _), ?_⟩
        have hdrain : drain (room accepts s.history) (sentOf (.ok v :: rest)) = ([], none) := by
          rw [hroom]
          rfl
        rw [hdrain]
        exact polled_answer _ ((handed_refused _).trans handed_took) hnext rfl
          (fun h => by cases h) fun _ => .inr hroom
      · rw [if_neg hroom] at hround
        have hhanded : handed ((s.took items).record (.handed v.val)).history =
            handed s.history ++ [v.val] := by
          rw [State.record, handed_append, handed_took]
          rfl
        have hroom' : room accepts ((s.took items).record (.handed v.val)).history =
            (room accepts s.history).map (· - 1) := by
          rw [State.record, room_handed, room_took]
        obtain ⟨n, t, hrun, hpolled⟩ := ih (s := { (s.took items).record (.handed v.val) with
          valueAdded := true }) hnext hpolling hdrop (step_round accepts hnext hpolling hdrop)
        refine ⟨n + 1, t, .stepL hround hrun, ?_⟩
        rw [drain_ok hroom, ← hroom']
        exact hpolled.cons hrest hdrop rfl hhanded

/-- What is sent once an error has been answered. -/
theorem sent_after {it : List Json × Option ExecutingError}
    (hp : Polled items accepts s t it) (hs : s.taken = 0) :
    (drain (room accepts t.history) (sentOf (items.drop t.taken))).1 =
      if it.2.isSome then (drain (room accepts t.history) (sentOf (afterError items))).1
      else [] := by
  split
  · next hfailed => rw [hp.failed hfailed, hs, List.drop_zero]
  · next hnone =>
    rcases hp.done (by simpa using hnone) with hdrop | hroom
    · rw [hdrop, sentOf, drain_none]
    · rw [hroom, drain_closed]

theorem room_nil : room accepts [] = accepts := by
  cases accepts <;> rfl

/-- A poll and the drop hand over what the body handler sends. -/
theorem exists_delivery (w : World) (o : Origin) (items : Items) :
    ∃ n m t, Run (Step (answers items) (accepting (w.accepts o))) new
        (.poll :: (List.replicate n .round ++ .drop :: List.replicate m .round)) t ∧
      t.polling = false ∧ (handed t.history).map (.sent o) = (blockSender w o items).1 := by
  obtain ⟨n, t, hrun, hp⟩ := exists_poll (w.accepts o) (s := { new with polling := true }) rfl rfl
    (List.drop_zero (l := items))
  obtain ⟨m, u, hrun', hp'⟩ := exists_poll (w.accepts o)
    (s := { t with polling := true, dropped := true }) hp.nextValue rfl
    (Eq.refl (items.drop t.taken))
  have hpoll : Step (answers items) (accepting (w.accepts o)) new .poll
      { new with polling := true } := rfl
  have hdrop : Step (answers items) (accepting (w.accepts o)) t .drop
      { t with polling := true, dropped := true } := by
    simp [Step, next, hp.polling, hp.dropped, new]
  refine ⟨n, m, u, .stepL hpoll (hrun.append (.stepL hdrop hrun')), hp'.polling, ?_⟩
  rw [show room (w.accepts o) (new : State ExecutingError Json).history = w.accepts o from room_nil]
    at hp
  have hhanded : handed t.history = (drain (w.accepts o) (sentOf items)).1 := hp.handed
  have hroom : room (w.accepts o) t.history =
      (w.accepts o).map (· - (drain (w.accepts o) (sentOf items)).1.length) := by
    rw [room, hhanded]
  rw [hp'.handed, hhanded, sent_after hp rfl, hroom, List.map_append, blockSender]
  simp only [sender, List.length_map, Option.isSome_map, apply_ite (List.map (Event.sent o)),
    List.map_nil]

end Pewpew.BlockSender
