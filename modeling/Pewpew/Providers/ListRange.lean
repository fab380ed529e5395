import Pewpew.Config.Providers
import Pewpew.Providers.Primer

/-! The providers of lists and ranges. -/
namespace Pewpew.Providers

open SelectParser Transition ProviderChannel Iterator
open Config (ListProvider ListWithOptions RangeProviderPreProcessed)

/-! ### Lists -/

/-- What `into_iter` makes of a list. `samples` counts the values that are drawn. -/
inductive ListIter where
  | repeatRandom (values : List Json) (samples : Nat)
  | values (rest : List Json)
  | cycle (c : List Json × List Json)

def ListIter.next (pick : Nat → Nat) : ListIter → Option (Json × ListIter)
  | .repeatRandom vs n => vs[pick n % vs.length]?.map fun v => (v, .repeatRandom vs (n + 1))
  | .values rest => (vecNext rest).map fun r => (r.1, .values r.2)
  | .cycle c => (cycleNext vecNext c).map fun r => (r.1, .cycle r.2)

/-- `ListProvider::into_iter`; `none` is the panic of `Uniform::new` on an empty list. -/
def intoIter (shuffle : List Json → List Json) : ListProvider → Option ListIter
  | .withOptions e =>
    match e.repeats, e.random with
    | true, true => if e.values = [] then none else some (.repeatRandom e.values 0)
    | false, false => some (.values e.values)
    | false, true => some (.values (shuffle e.values))
    | true, false => some (.cycle (e.values, e.values))
  | .defaultOptions v => some (.cycle (v, v))

/-- `ListProvider::unique`. -/
def unique : ListProvider → Bool
  | .withOptions l => l.unique
  | .defaultOptions _ => false

/-- The options of a list, which has some by default. -/
def options : ListProvider → ListWithOptions
  | .withOptions l => l
  | .defaultOptions v => ⟨false, true, v, false⟩

variable {pick : Nat → Nat} {shuffle : List Json → List Json} {l : ListProvider} {iter : ListIter}
  {vs : List Json} {n i : Nat}

theorem itemAt_repeatRandom (vs : List Json) (n i : Nat) :
    itemAt (ListIter.next pick) (.repeatRandom vs n) i =
      if vs = [] then none else vs[pick (n + i) % vs.length]? := by
  by_cases hne : vs = []
  · subst hne
    cases i <;> rfl
  · rw [if_neg hne]
    have hpos := List.length_pos_iff.mpr hne
    induction i generalizing n with
    | zero => simp [itemAt, ListIter.next, Option.map_map, Function.comp_def]
    | succ i ih =>
      have hv := List.getElem?_eq_getElem (Nat.mod_lt (pick n) hpos)
      rw [itemAt, ListIter.next, hv, Option.map_some, Option.bind_some, ih,
        Nat.add_right_comm n 1 i]
      rfl

theorem list_inMode (hshuffle : ∀ vs, (shuffle vs).Perm vs) (h : intoIter shuffle l = some iter) :
    InMode (options l).repeats (options l).random (options l).values
      (itemAt (ListIter.next pick) iter) := by
  have hvalues (vs : List Json) (i : Nat) :
      itemAt (ListIter.next pick) (.values vs) i = vs[i]? := by
    rw [itemAt_map ListIter.values id (fun _ => rfl), itemAt_vec, Option.map_id, id]
  have hcycle (vs : List Json) (i : Nat) :
      itemAt (ListIter.next pick) (.cycle (vs, vs)) i = vs[i % vs.length]? := by
    have hvec : Has vecNext vs 0 vs := fun i => by rw [itemAt_vec, Nat.zero_add]
    have hi := itemAt_cycle hvec hvec (Nat.zero_le _) i
    rw [itemAt_map ListIter.cycle id (fun _ => rfl), hi, Nat.zero_add, Option.map_id, id]
  cases l with
  | defaultOptions v =>
    obtain rfl := Option.some.inj h
    exact hcycle v
  | withOptions e =>
    obtain ⟨random, repeats, vs, unique⟩ := e
    cases repeats <;> cases random
    · obtain rfl := Option.some.inj h
      exact hvalues vs
    · obtain rfl := Option.some.inj h
      exact ⟨shuffle vs, hshuffle vs, hvalues _⟩
    · obtain rfl := Option.some.inj h
      exact hcycle vs
    · simp only [intoIter, Option.ite_none_left_eq_some, Option.some.injEq] at h
      obtain ⟨hne, rfl⟩ := h
      intro i
      have hpos := List.length_pos_iff.mpr hne
      have hlt := Nat.mod_lt (pick (0 + i)) hpos
      refine ⟨vs[pick (0 + i) % vs.length], List.getElem_mem hlt, ?_⟩
      rw [itemAt_repeatRandom, if_neg hne]
      exact List.getElem?_eq_getElem hlt

/-- In every interleaving of the task that `list` starts and any number of receivers, the values of
the list come to the receivers in the order of its mode: none is lost, and none comes twice. -/
theorem list_delivers (hshuffle : ∀ vs, (shuffle vs).Perm vs) (hunique : unique l = false)
    (h : intoIter shuffle l = some iter) :
    InMode (options l).repeats (options l).random (options l).values
        (itemAt (ListIter.next pick) iter) ∧
      ∀ (hash : Json → Nat) (p : Nat) ms s,
        Run (Primer.Step (Primer.streamIter (ListIter.next pick)) hash p)
            (.start (.dynamic 5) (unique l) iter) ms s →
          Primer.Supplied p (itemAt (ListIter.next pick) iter) s := by
  refine ⟨list_inMode hshuffle h, fun hash p ms s hrun => ?_⟩
  rw [hunique] at hrun
  exact Primer.supplied_run hrun

/-- The first of some values that repeat is forwarded and received, the second one forwarded. -/
def forwardTrace : List (Primer.Move Unit Json) :=
  [.act (.callSender 0 .clone), .poll (), .give, .act (.sender 1 []), .act (.sender 1 []), .poll (),
    .give, .act (.callReceiver 0 .pollNext), .act (.receiver 0 [])]

theorem list_delivers_bools :
    ∃ s : Primer.Forward ListIter Empty Json,
      Run (Primer.Step (Primer.streamIter (ListIter.next id)) (fun _ => 0) 1)
        (.start (.dynamic 5) false (.cycle ([.bool true, .bool false], [.bool true, .bool false])))
        forwardTrace s ∧
      s.state.channel.popped.length = 1 ∧ (s.state.sending 1).length = 1 ∧
      Primer.Supplied 1 (itemAt (ListIter.next id)
        (.cycle ([.bool true, .bool false], [.bool true, .bool false]))) s := by
  obtain ⟨s, hrun, hs⟩ := run_of_exec_map
    (Primer.Forward.next (Primer.streamIter (ListIter.next id)) (fun _ => 0) 1)
    (.start (.dynamic 5) false (.cycle ([.bool true, .bool false], [.bool true, .bool false])))
    forwardTrace
    (fun s => s.state.channel.popped.length == 1 && (s.state.sending 1).length == 1) rfl
  obtain ⟨hpopped, hsending⟩ := Bool.and_eq_true_iff.mp hs
  have hall := (@list_delivers id id (.defaultOptions [.bool true, .bool false]) _
    (fun _ => .refl _) rfl rfl).2
  exact ⟨s, hrun, by simpa using hpopped, by simpa using hsending, hall _ _ _ _ hrun⟩

/-! ### Ranges -/

/-- A `RangeInclusive<i64>`. -/
structure RangeInclusive where
  start : Int
  stop : Int
  exhausted : Bool

/-- The largest `i64`. -/
def i64Max : Int := 2 ^ 63 - 1

/-- `RangeInclusive::nth`, whose sum is checked. -/
def RangeInclusive.nth (n : Nat) (r : RangeInclusive) : Option Int × RangeInclusive :=
  if r.exhausted || r.stop < r.start then (none, r)
  else if i64Max < r.start + n then (none, { r with start := r.stop, exhausted := true })
  else if r.start + n < r.stop then (some (r.start + n), { r with start := r.start + n + 1 })
  else if r.start + n = r.stop then
    (some (r.start + n), { r with start := r.start + n, exhausted := true })
  else (none, { r with start := r.stop, exhausted := true })

/-- `StepBy` of a range, which holds the step less one. -/
structure StepBy where
  iter : RangeInclusive
  stepMinusOne : Nat
  firstTake : Bool

def StepBy.stepSize (s : StepBy) : Nat := if s.firstTake then 0 else s.stepMinusOne

def StepBy.next (s : StepBy) : Option (Int × StepBy) :=
  let (item, iter) := s.iter.nth s.stepSize
  item.map fun v => (v, { s with iter, firstTake := false })

/-- The iterator of a `RangeProvider`. -/
inductive RangeIter where
  | once (s : StepBy)
  | cycle (c : StepBy × StepBy)

def RangeIter.next : RangeIter → Option (Json × RangeIter)
  | .once s => s.next.map fun r => (.number (.int r.1), .once r.2)
  | .cycle c => (cycleNext StepBy.next c).map fun r => (.number (.int r.1), .cycle r.2)

def stepBy (r : RangeProviderPreProcessed) : StepBy := ⟨⟨r.start, r.stop, false⟩, r.step - 1, true⟩

/-- `RangeProvider::from`. -/
def rangeIter (r : RangeProviderPreProcessed) : RangeIter :=
  if r.repeats then .cycle (stepBy r, stepBy r) else .once (stepBy r)

/-- The numbers of a range. -/
def rangeValues (r : RangeProviderPreProcessed) : List Int :=
  (List.range ((r.stop - r.start) / r.step + 1).toNat).map fun i : Nat => r.start + i * r.step

variable {r : RangeProviderPreProcessed} {s : StepBy} {u stop : Int} {step : Nat}

/-- The iterator is about to yield `u`, or has come to an end where that is past the range. -/
structure StepsFrom (stop : Int) (step : Nat) (u : Int) (s : StepBy) : Prop where
  step : s.stepMinusOne + 1 = step
  iter : s.iter.stop = stop ∧
    (s.iter.exhausted = true ∧ stop < u ∨ s.iter.exhausted = false ∧ s.iter.start + s.stepSize = u)

/-- What `nth` answers of a range that is not exhausted. -/
theorem nth_cases {n : Nat} {iter : RangeInclusive} (hmax : stop ≤ i64Max)
    (hstop : iter.stop = stop) (hgoing : iter.exhausted = false) (hu : iter.start + n = u) :
    (u < stop ∧ iter.nth n = (some u, ⟨u + 1, stop, false⟩)) ∨
      (u = stop ∧ iter.nth n = (some u, ⟨u, stop, true⟩)) ∨
      (stop < u ∧ (iter.nth n).1 = none) := by
  obtain ⟨start, stop, exhausted⟩ := iter
  simp only at hstop hgoing hu
  subst hstop hgoing
  simp only [RangeInclusive.nth, Bool.false_or, decide_eq_true_eq, hu]
  rcases Int.lt_trichotomy u stop with hlt | rfl | hgt
  · left
    rw [if_neg (by omega), if_neg (by omega), if_pos hlt]
    exact ⟨hlt, rfl⟩
  · right; left
    rw [if_neg (by omega), if_neg (by omega), if_neg (by omega), if_pos rfl]
    exact ⟨rfl, rfl⟩
  · right; right
    refine ⟨hgt, ?_⟩
    repeat' split
    all_goals first | rfl | omega

theorem next_steps (hmax : stop ≤ i64Max) (h : StepsFrom stop step u s) :
    (stop < u ∧ s.next = none) ∨
      (u ≤ stop ∧ ∃ s', s.next = some (u, s') ∧ StepsFrom stop step (u + step) s') := by
  obtain ⟨hstep, hstop, ⟨hexhausted, hlt⟩ | ⟨hgoing, hu⟩⟩ := h
  · exact .inl ⟨hlt, by simp [StepBy.next, RangeInclusive.nth, hexhausted]⟩
  · rcases nth_cases hmax hstop hgoing hu with ⟨hlt, hnth⟩ | ⟨rfl, hnth⟩ | ⟨hgt, hnth⟩
    · refine .inr ⟨hlt.le, ⟨⟨u + 1, stop, false⟩, s.stepMinusOne, false⟩,
        by simp [StepBy.next, hnth], hstep, rfl, .inr ⟨rfl, ?_⟩⟩
      simp only [StepBy.stepSize, Bool.false_eq_true, if_false]
      omega
    · refine .inr ⟨le_rfl, ⟨⟨u, u, true⟩, s.stepMinusOne, false⟩, by simp [StepBy.next, hnth],
        hstep, rfl, .inl ⟨rfl, by omega⟩⟩
    · refine .inl ⟨hgt, ?_⟩
      simp [StepBy.next, hnth]

theorem itemAt_stepBy (hmax : stop ≤ i64Max) (h : StepsFrom stop step u s) (i : Nat) :
    itemAt StepBy.next s i = if u + i * step ≤ stop then some (u + i * step) else none := by
  induction i generalizing u s with
  | zero =>
    rcases next_steps hmax h with ⟨hlt, hnext⟩ | ⟨hle, s', hnext, -⟩
    · rw [itemAt, hnext, if_neg (by simp; omega)]
      rfl
    · rw [itemAt, hnext, if_pos (by simpa using hle)]
      simp
  | succ i ih =>
    have hadd : u + ((i + 1 : Nat) : Int) * step = u + step + i * step := by
      rw [Nat.cast_succ]
      ring
    rcases next_steps hmax h with ⟨hlt, hnext⟩ | ⟨-, s', hnext, hs'⟩
    · have hnonneg : 0 ≤ ((i + 1 : Nat) : Int) * step := by positivity
      rw [itemAt, hnext, if_neg (by omega)]
      rfl
    · rw [itemAt, hnext, Option.bind_some, ih hs', hadd]

theorem has_stepBy (hstep : 0 < r.step) (hmax : r.stop ≤ i64Max) :
    Has StepBy.next (rangeValues r) 0 (stepBy r) := by
  intro i
  have hsteps : StepsFrom r.stop r.step r.start (stepBy r) :=
    ⟨Nat.sub_add_cancel hstep, rfl, .inr ⟨rfl, by simp [stepBy, StepBy.stepSize]⟩⟩
  have hpos : (0 : Int) < r.step := by omega
  have hiff : i < ((r.stop - r.start) / r.step + 1).toNat ↔ r.start + i * r.step ≤ r.stop := by
    have hdiv := Int.le_ediv_iff_mul_le (a := i) (b := r.stop - r.start) hpos
    constructor <;> intro h <;> omega
  rw [itemAt_stepBy hmax hsteps, Nat.zero_add, rangeValues, List.getElem?_map]
  by_cases hle : r.start + i * r.step ≤ r.stop
  · rw [if_pos hle, List.getElem?_range (hiff.mpr hle)]
    rfl
  · rw [if_neg hle, List.getElem?_eq_none (by rw [List.length_range]; omega)]
    rfl

theorem range_inMode (hstep : 0 < r.step) (hmax : r.stop ≤ i64Max) :
    InMode r.repeats false ((rangeValues r).map fun v => Json.number (.int v))
      (itemAt RangeIter.next (rangeIter r)) := by
  have hhas := has_stepBy hstep hmax
  unfold rangeIter
  cases r.repeats with
  | false =>
    have hmode : InMode false false (rangeValues r) (itemAt StepBy.next (stepBy r)) := fun i => by
      rw [hhas, Nat.zero_add]
    have hitem : itemAt RangeIter.next (.once (stepBy r)) = fun i =>
        (itemAt StepBy.next (stepBy r) i).map fun v => Json.number (.int v) :=
      funext (itemAt_map RangeIter.once _ (fun _ => rfl) _)
    rw [if_neg Bool.false_ne_true, hitem]
    exact hmode.map _
  | true =>
    have hmode : InMode true false (rangeValues r)
        (itemAt (cycleNext StepBy.next) (stepBy r, stepBy r)) := fun i => by
      rw [itemAt_cycle hhas hhas (Nat.zero_le _), Nat.zero_add]
    have hitem : itemAt RangeIter.next (.cycle (stepBy r, stepBy r)) = fun i =>
        (itemAt (cycleNext StepBy.next) (stepBy r, stepBy r) i).map fun v => Json.number (.int v) :=
      funext (itemAt_map RangeIter.cycle _ (fun _ => rfl) _)
    rw [if_pos rfl, hitem]
    exact hmode.map _

/-- In every interleaving of the task that `range` starts and any number of receivers, the numbers
from the start to the end, each a step from the one before, come to the receivers in order, over and
over where they repeat: none is lost, and no sum overflows. -/
theorem range_delivers (hstep : 0 < r.step) (hmax : r.stop ≤ i64Max) (hunique : r.unique = false) :
    InMode r.repeats false ((rangeValues r).map fun v => Json.number (.int v))
        (itemAt RangeIter.next (rangeIter r)) ∧
      ∀ (hash : Json → Nat) (p : Nat) ms s,
        Run (Primer.Step (Primer.streamIter RangeIter.next) hash p)
            (.start (.dynamic 5) r.unique (rangeIter r)) ms s →
          Primer.Supplied p (itemAt RangeIter.next (rangeIter r)) s := by
  refine ⟨range_inMode hstep hmax, fun hash p ms s hrun => ?_⟩
  rw [hunique] at hrun
  exact Primer.supplied_run hrun

/-- The range of 1, 4 and 7. -/
def threeStep : RangeProviderPreProcessed := { start := 1, stop := 8, step := 3, repeats := true }

theorem range_delivers_threeStep :
    ∃ s : Primer.Forward RangeIter Empty Json,
      Run (Primer.Step (Primer.streamIter RangeIter.next) (fun _ => 0) 1)
        (.start (.dynamic 5) false (rangeIter threeStep)) forwardTrace s ∧
      s.state.channel.popped.length = 1 ∧ (s.state.sending 1).length = 1 ∧
      Primer.Supplied 1 (itemAt RangeIter.next (rangeIter threeStep)) s := by
  obtain ⟨s, hrun, hs⟩ := run_of_exec_map
    (Primer.Forward.next (Primer.streamIter RangeIter.next) (fun _ => 0) 1)
    (.start (.dynamic 5) false (rangeIter threeStep)) forwardTrace
    (fun s => s.state.channel.popped.length == 1 && (s.state.sending 1).length == 1) rfl
  obtain ⟨hpopped, hsending⟩ := Bool.and_eq_true_iff.mp hs
  have hall := (range_delivers (r := threeStep) (by decide) (by decide) rfl).2
  exact ⟨s, hrun, by simpa using hpopped, by simpa using hsending, hall _ _ _ _ hrun⟩

end Pewpew.Providers
