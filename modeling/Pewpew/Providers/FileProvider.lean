import Mathlib.Data.List.Basic
import Mathlib.Data.List.Perm.Basic

/-! What the readers of `providers` share: a file, and values that are read from it in sequence or
at random. A panic is `none`. -/
namespace Pewpew.FileProvider

/-- An open file. `reads` counts the calls of `read`. -/
structure File where
  content : List UInt8
  offset : Nat
  reads : Nat

def File.open (content : List UInt8) : File := ⟨content, 0, 0⟩

def File.unread (f : File) : List UInt8 := f.content.drop f.offset

/-- `read` into a buffer: as many bytes as the call happens to give, one at least where there is
one, and no more than the buffer holds. -/
def File.read (chunk : Nat → Nat) (len : Nat) (f : File) : List UInt8 × File :=
  let bytes := f.unread.take (min (max 1 (chunk f.reads)) len)
  (bytes, { f with offset := f.offset + bytes.length, reads := f.reads + 1 })

inductive IoError where
  | unexpectedEof
  | invalidData
  deriving DecidableEq, Repr

def File.readExact (len : Nat) (f : File) : Except IoError (List UInt8 × File) :=
  if len ≤ f.unread.length then .ok (f.unread.take len, { f with offset := f.offset + len })
  else .error .unexpectedEof

/-- A value with its position and its length. -/
abbrev Got (V : Type) := Option (Except IoError (V × Nat × Nat))

abbrev Item (V : Type) := Option (Except IoError V)

/-- What the readers differ in: how they get the next value, with the hint of a size, and how they
seek. -/
structure Access (R V : Type) where
  getValue : Option Nat → R → Option (Got V × R)
  seek : Nat → R → R

/-- A reader with what it keeps besides its buffers. `random` is the number of positions to pick
from, and `samples` counts the picks. -/
structure Provider (R : Type) where
  reader : R
  positions : List (Nat × Nat)
  random : Option Nat
  repeats : Bool
  samples : Nat

variable {R V : Type}

/-- The loop that records the positions of all values; it is given fuel. -/
def scan (a : Access R V) : Nat → List (Nat × Nat) → R →
    Option (Except IoError (List (Nat × Nat) × R))
  | 0, _, _ => none
  | fuel + 1, positions, r => do
    match ← a.getValue none r with
    | (some (.ok (_, pos, length)), r) => scan a fuel (positions ++ [(pos, length)]) r
    | (some (.error e), _) => return .error e
    | (none, r) => return .ok (positions, r)

/-- The length of the buffer that `read` is given. -/
def kb8 : Nat := 8 * (1 <<< 10)

/-- `new`, for a file that has been opened. -/
def new (a : Access R V) (pick : Nat → Nat) (fuel : Nat) (r : R) (repeats random : Bool) :
    Option (Except IoError (Provider R)) := do
  if random then
    match ← scan a fuel [] r with
    | .error e => return .error e
    | .ok (positions, r) =>
      match positions[pick 0 % positions.length]? with
      | some (pos, _) =>
        return .ok ⟨a.seek pos r, positions, some positions.length, repeats, 1⟩
      | none => return .ok ⟨r, [], none, repeats, 0⟩
  else return .ok ⟨r, if repeats then [(0, 0)] else [], none, repeats, 0⟩

/-- The position that `next` picks, which it removes unless the values repeat. -/
def pickPosition (a : Access R V) (pick : Nat → Nat) (n : Nat) (p : Provider R) :
    Option (Nat × Provider R) := do
  let i := pick p.samples % n % p.positions.length
  let (pos, size) ← p.positions[i]?
  return (size, { p with
    reader := a.seek pos p.reader, samples := p.samples + 1,
    positions := if p.repeats then p.positions else p.positions.eraseIdx i })

/-- `get_value` from the place where the reader is, and from the first position where the values
have come to an end and repeat. -/
def getOrRewind (a : Access R V) (sizeHint : Option Nat) (p : Provider R) :
    Option (Item V × Provider R) := do
  match ← a.getValue sizeHint p.reader with
  | (some result, r) => return (some (result.map (·.1)), { p with reader := r })
  | (none, r) =>
    if p.repeats then
      match p.positions.head? with
      | some (pos, size) =>
        let (result, r) ← a.getValue (some size) (a.seek pos r)
        return (result.map (·.map (·.1)), { p with reader := r })
      | none => return (none, { p with reader := r })
    else return (none, { p with reader := r })

/-- `next`. -/
def next (a : Access R V) (pick : Nat → Nat) (p : Provider R) : Option (Item V × Provider R) :=
  match p.random with
  | some n =>
    if p.positions.isEmpty then some (none, p)
    else do
      let (size, p) ← pickPosition a pick n p
      getOrRewind a (some size) p
  | none => getOrRewind a none p

/-- The results of as many calls of `next`. -/
def results (a : Access R V) (pick : Nat → Nat) : Nat → Provider R → Option (List (Item V))
  | 0, _ => some []
  | k + 1, p => do
    let (item, p) ← next a pick p
    return item :: (← results a pick k p)

/-! ### Reads -/

theorem File.unread_read (chunk : Nat → Nat) (len : Nat) (f : File) :
    (f.read chunk len).1 ++ (f.read chunk len).2.unread = f.unread := by
  simp only [read, unread]
  generalize min (max 1 (chunk f.reads)) len = n
  rw [List.length_take, ← List.drop_drop]
  rcases Nat.le_total n (f.content.drop f.offset).length with hle | hle
  · rw [Nat.min_eq_left hle, List.take_append_drop]
  · rw [Nat.min_eq_right hle, List.take_of_length_le hle, List.drop_length, List.append_nil]

/-- A call of `read` gives nothing only at the end of the file. -/
theorem File.read_eq_nil_iff {chunk : Nat → Nat} {len : Nat} (hlen : 0 < len) (f : File) :
    (f.read chunk len).1 = [] ↔ f.unread = [] := by
  simp only [read, List.take_eq_nil_iff]
  constructor
  · intro h
    rcases h with h | h
    · omega
    · exact h
  · exact Or.inr

theorem File.read_ne_nil (chunk : Nat → Nat) {f : File} (hne : f.unread ≠ []) :
    (f.read chunk kb8).1 ≠ [] := by
  intro h
  exact hne ((File.read_eq_nil_iff (by decide) f).mp h)

/-! ### Readers that deliver a list of values -/

/-- A reader `At j` is about to give the value `j` with its position. -/
structure Delivers (a : Access R V) (vals : List V) (pos : Nat → Nat × Nat) (At : Nat → R → Prop) :
    Prop where
  value : ∀ j r v, At j r → vals[j]? = some v →
    ∃ r', a.getValue none r = some (some (.ok (v, pos j)), r') ∧ At (j + 1) r'
  done : ∀ r, At vals.length r → ∃ r', a.getValue none r = some (none, r') ∧ At vals.length r'

/-- From any state that is `Live` a reader gives a value again after a seek to its position, with
its length as the hint. -/
structure Seeks (a : Access R V) (vals : List V) (pos : Nat → Nat × Nat) (At : Nat → R → Prop)
    (Live : R → Prop) : Prop where
  live : ∀ j r, At j r → Live r
  seek : ∀ p r, Live r → Live (a.seek p r)
  revisit : ∀ j r v, Live r → vals[j]? = some v →
    ∃ q r', a.getValue (some (pos j).2) (a.seek (pos j).1 r) = some (some (.ok (v, q)), r') ∧
      Live r'
  rewind : ∀ r, Live r → ∃ result r', a.getValue (some 0) (a.seek 0 r) = some (result, r') ∧
    result.map (·.map (·.1)) = vals[0]?.map .ok ∧ At (min 1 vals.length) r'

variable {a : Access R V} {vals : List V} {pos : Nat → Nat × Nat} {At : Nat → R → Prop}
  {Live : R → Prop} {pick : Nat → Nat} {r : R} {s : Nat}

theorem results_cons {p : Provider R} (p' : Provider R) {f : Nat → Item V} {k : Nat}
    (hnext : next a pick p = some (f 0, p'))
    (hrest : results a pick k p' = some ((List.range k).map fun i => f (i + 1))) :
    results a pick (k + 1) p = some ((List.range (k + 1)).map f) := by
  rw [results, hnext, List.range_succ_eq_map, List.map_cons, List.map_map]
  simp only [Option.bind_eq_bind, Option.bind_some, hrest]
  rfl

theorem getOrRewind_value {sizeHint : Option Nat} {p : Provider R} {v : V} {q : Nat × Nat}
    (h : a.getValue sizeHint p.reader = some (some (.ok (v, q)), r)) :
    getOrRewind a sizeHint p = some (some (.ok v), { p with reader := r }) := by
  simp only [getOrRewind, h]
  rfl

/-- Before a value, a reader that is not at random gives it, and what comes after it. -/
theorem results_value (hd : Delivers a vals pos At) {j k : Nat} {v : V} {f : Nat → Item V}
    {positions : List (Nat × Nat)} {rep : Bool} (hr : At j r) (hv : vals[j]? = some v)
    (hf : f 0 = some (.ok v)) (hrest : ∀ r', At (j + 1) r' →
      results a pick k ⟨r', positions, none, rep, s⟩ =
        some ((List.range k).map fun i => f (i + 1))) :
    results a pick (k + 1) ⟨r, positions, none, rep, s⟩ = some ((List.range (k + 1)).map f) := by
  obtain ⟨r', hget, hr'⟩ := hd.value j r v hr hv
  refine results_cons ⟨r', positions, none, rep, s⟩ ?_ (hrest r' hr')
  rw [hf]
  exact getOrRewind_value hget

/-- In sequence, a reader gives the values and then nothing. -/
theorem results_sequential (hd : Delivers a vals pos At) {j : Nat} (hj : j ≤ vals.length)
    (hr : At j r) (k : Nat) : results a pick k ⟨r, [], none, false, s⟩ =
      some ((List.range k).map fun i => vals[j + i]?.map .ok) := by
  induction k generalizing j r with
  | zero => rfl
  | succ k ih =>
    cases hv : vals[j]? with
    | some v =>
      have hlt : j < vals.length := (List.getElem?_eq_some_iff.mp hv).1
      refine results_value hd hr hv ?_ fun r' hr' => ?_
      · rw [Nat.add_zero, hv, Option.map_some]
      · rw [ih hlt hr']
        refine congrArg some (List.map_congr_left fun i _ => ?_)
        rw [show j.succ + i = j + (i + 1) by omega]
    | none =>
      have hlen : j = vals.length := by
        have hge := List.getElem?_eq_none_iff.mp hv
        omega
      subst hlen
      obtain ⟨r', hget, hr'⟩ := hd.done r hr
      refine results_cons ⟨r', [], none, false, s⟩ ?_ ?_
      · rw [Nat.add_zero, hv]
        simp only [next, getOrRewind, hget]
        rfl
      · rw [ih (Nat.le_refl _) hr']
        refine congrArg some (List.map_congr_left fun i _ => ?_)
        rw [List.getElem?_eq_none (by omega), List.getElem?_eq_none (by omega)]

/-- With `repeat`, it gives the values over and over. -/
theorem results_repeat (hd : Delivers a vals pos At) (hs : Seeks a vals pos At Live) {j : Nat}
    (hj : j ≤ vals.length) (hr : At j r) (k : Nat) : results a pick k ⟨r, [(0, 0)], none, true, s⟩ =
      some ((List.range k).map fun i => vals[(j + i) % vals.length]?.map .ok) := by
  induction k generalizing j r with
  | zero => rfl
  | succ k ih =>
    cases hv : vals[j]? with
    | some v =>
      have hlt : j < vals.length := (List.getElem?_eq_some_iff.mp hv).1
      refine results_value hd hr hv ?_ fun r' hr' => ?_
      · rw [Nat.add_zero, Nat.mod_eq_of_lt hlt, hv, Option.map_some]
      · rw [ih hlt hr']
        refine congrArg some (List.map_congr_left fun i _ => ?_)
        rw [show j.succ + i = j + (i + 1) by omega]
    | none =>
      have hlen : j = vals.length := by
        have hge := List.getElem?_eq_none_iff.mp hv
        omega
      subst hlen
      obtain ⟨r₁, hget, hr₁⟩ := hd.done r hr
      obtain ⟨result, r', hrewind, hfirst, hr'⟩ := hs.rewind r₁ (hs.live _ _ hr₁)
      refine results_cons ⟨r', [(0, 0)], none, true, s⟩ ?_ ?_
      · simp only [next, getOrRewind, hget, List.head?_cons, Option.bind_eq_bind, Option.bind_some,
          if_true, hrewind, hfirst, Nat.add_zero, Nat.mod_self]
        rfl
      · rw [ih (Nat.min_le_right _ _) hr']
        refine congrArg some (List.map_congr_left fun i _ => ?_)
        rcases Nat.eq_zero_or_pos vals.length with hzero | hpos
        · rw [hzero]
          have hnil := List.length_eq_zero_iff.mp hzero
          simp [hnil]
        · rw [Nat.min_eq_left hpos, Nat.add_mod_left, show Nat.succ 0 + i = i + 1 by omega]

/-! ### Values at random -/

/-- A value that is got again by a seek to its position. -/
def Revisits (a : Access R V) (Live : R → Prop) (e : (Nat × Nat) × V) : Prop :=
  ∀ r, Live r → ∃ q r',
    a.getValue (some e.1.2) (a.seek e.1.1 r) = some (some (.ok (e.2, q)), r') ∧ Live r'

theorem next_random (pick : Nat → Nat) (s n : Nat) (rep : Bool) {es : List ((Nat × Nat) × V)}
    (hr : Live r) (hes : ∀ e ∈ es, Revisits a Live e) (hne : es ≠ []) :
    ∃ m, ∃ hm : m < es.length, ∃ r',
      next a pick ⟨r, es.map (·.1), some n, rep, s⟩ = some (some (.ok es[m].2),
        ⟨r', (if rep then es else es.eraseIdx m).map (·.1), some n, rep, s + 1⟩) ∧ Live r' := by
  have hpos : 0 < es.length := List.length_pos_iff.mpr hne
  have hm : pick s % n % es.length < es.length := Nat.mod_lt _ hpos
  obtain ⟨q, r', hget, hr'⟩ := hes _ (List.getElem_mem hm) r hr
  refine ⟨_, hm, r', ?_, hr'⟩
  have hpick : pickPosition a pick n ⟨r, es.map (·.1), some n, rep, s⟩ =
      some (es[pick s % n % es.length].1.2, ⟨a.seek es[pick s % n % es.length].1.1 r,
        (if rep then es else es.eraseIdx (pick s % n % es.length)).map (·.1), some n, rep,
        s + 1⟩) := by
    simp only [pickPosition, List.length_map, List.getElem?_map, List.getElem?_eq_getElem hm]
    cases rep <;> simp [List.eraseIdx_map]
  have hmap : (es.map (·.1)).isEmpty = false := by simpa using hne
  simp only [next, hmap, hpick, Bool.false_eq_true, if_false, Option.bind_eq_bind, Option.bind_some]
  exact getOrRewind_value hget

/-- At random, a reader gives each value once, in some order, and then nothing. -/
theorem results_random {es : List ((Nat × Nat) × V)} {n : Nat} (hr : Live r)
    (hes : ∀ e ∈ es, Revisits a Live e) : ∃ l : List V, l.Perm (es.map (·.2)) ∧ ∀ k,
      results a pick k ⟨r, es.map (·.1), some n, false, s⟩ =
        some ((List.range k).map fun i => l[i]?.map .ok) := by
  generalize hlen : es.length = len
  induction len generalizing es r s with
  | zero =>
    obtain rfl := List.length_eq_zero_iff.mp hlen
    refine ⟨[], .refl _, fun k => ?_⟩
    induction k with
    | zero => rfl
    | succ k ih => exact results_cons _ rfl ih
  | succ len ih =>
    have hne : es ≠ [] := by
      rintro rfl
      cases hlen
    obtain ⟨m, hm, r', hnext, hr'⟩ := next_random pick s n false hr hes hne
    have hrest : ∀ e ∈ es.eraseIdx m, Revisits a Live e := fun e he =>
      hes e (List.mem_of_mem_eraseIdx he)
    have hlen' : (es.eraseIdx m).length = len := by
      rw [List.length_eraseIdx_of_lt hm, hlen, Nat.add_sub_cancel]
    obtain ⟨l, hl, hresults⟩ := ih (s := s + 1) hr' hrest hlen'
    refine ⟨es[m].2 :: l, ?_, fun k => ?_⟩
    · exact (hl.cons _).trans ((List.getElem_cons_eraseIdx_perm hm).map Prod.snd)
    · cases k with
      | zero => rfl
      | succ k => exact results_cons _ hnext (hresults k)

/-- At random with `repeat`, all that a reader gives are values. -/
theorem results_randomRepeat {es : List ((Nat × Nat) × V)} {n : Nat} (hr : Live r)
    (hes : ∀ e ∈ es, Revisits a Live e) (hne : es ≠ []) (k : Nat) :
    ∃ items, results a pick k ⟨r, es.map (·.1), some n, true, s⟩ = some items ∧
      ∀ item ∈ items, ∃ v ∈ es.map (·.2), item = some (.ok v) := by
  induction k generalizing r s with
  | zero => exact ⟨[], rfl, by simp⟩
  | succ k ih =>
    obtain ⟨m, hm, r', hnext, hr'⟩ := next_random pick s n true hr hes hne
    obtain ⟨items, hresults, hall⟩ := ih (s := s + 1) hr'
    refine ⟨some (.ok es[m].2) :: items, ?_, ?_⟩
    · simp only [results, hnext, Option.bind_eq_bind, Option.bind_some, if_true] at hresults ⊢
      rw [hresults]
      rfl
    · rw [List.forall_mem_cons]
      exact ⟨⟨_, List.mem_map_of_mem (List.getElem_mem hm), rfl⟩, hall⟩

/-! ### The positions that are recorded -/

theorem scan_eq (hd : Delivers a vals pos At) {j fuel : Nat} (hj : j ≤ vals.length)
    (hfuel : vals.length < j + fuel) (hr : At j r) (positions : List (Nat × Nat)) :
    ∃ r', scan a fuel positions r =
      some (.ok (positions ++ (List.range' j (vals.length - j)).map pos, r')) ∧
      At vals.length r' := by
  induction fuel generalizing j r positions with
  | zero => omega
  | succ fuel ih =>
    cases hv : vals[j]? with
    | some v =>
      obtain ⟨r₁, hget, hr₁⟩ := hd.value j r v hr hv
      have hlt : j < vals.length := (List.getElem?_eq_some_iff.mp hv).1
      obtain ⟨r', hscan, hr'⟩ := ih hlt (by omega) hr₁ (positions ++ [pos j])
      refine ⟨r', ?_, hr'⟩
      have hrange : List.range' j (vals.length - j) =
          j :: List.range' (j + 1) (vals.length - (j + 1)) := by
        rw [show vals.length - j = vals.length - (j + 1) + 1 by omega, List.range'_succ]
      rw [hrange, List.map_cons]
      simp only [scan, hget, Option.bind_eq_bind, Option.bind_some]
      rw [List.append_assoc] at hscan
      exact hscan
    | none =>
      have hlen : j = vals.length := by
        have hge := List.getElem?_eq_none_iff.mp hv
        omega
      subst hlen
      obtain ⟨r', hget, hr'⟩ := hd.done r hr
      refine ⟨r', ?_, hr'⟩
      simp [scan, hget]

/-- The recorded positions, each with its value. -/
def recorded (vals : List V) (pos : Nat → Nat × Nat) : List ((Nat × Nat) × V) :=
  vals.mapIdx fun j v => (pos j, v)

theorem recorded_snd : (recorded vals pos).map (·.2) = vals := by
  refine List.ext_getElem? fun j => ?_
  simp only [recorded, List.getElem?_map, List.getElem?_mapIdx]
  cases vals[j]? <;> rfl

theorem recorded_fst : (recorded vals pos).map (·.1) = (List.range vals.length).map pos := by
  refine List.ext_getElem? fun j => ?_
  by_cases hj : j < vals.length
  · simp [recorded, hj]
  · simp [recorded, hj]

theorem revisits_recorded (hs : Seeks a vals pos At Live) :
    ∀ e ∈ recorded vals pos, Revisits a Live e := by
  intro e he r hr
  obtain ⟨j, hj, rfl⟩ := List.mem_iff_getElem.mp he
  have hlt : j < vals.length := by simpa [recorded] using hj
  obtain ⟨q, r', hget, hr'⟩ := hs.revisit j r vals[j] hr (List.getElem?_eq_getElem hlt)
  exact ⟨q, r', by simpa [recorded] using hget, hr'⟩

theorem scan_recorded (hd : Delivers a vals pos At) {fuel : Nat} (hfuel : vals.length < fuel)
    (hr : At 0 r) : ∃ r', scan a fuel [] r = some (.ok ((recorded vals pos).map (·.1), r')) ∧
      At vals.length r' := by
  obtain ⟨r', hscan, hr'⟩ := scan_eq hd (Nat.zero_le _) (by omega : vals.length < 0 + fuel) hr []
  refine ⟨r', ?_, hr'⟩
  rw [hscan, recorded_fst, List.range_eq_range']
  rfl

/-- `new` in random mode records the positions of all values and seeks to one of them. -/
theorem new_random (pick : Nat → Nat) (hd : Delivers a vals pos At) {fuel : Nat}
    (hfuel : vals.length < fuel) (hr : At 0 r) (hne : vals ≠ []) (rep : Bool) :
    ∃ j r', At vals.length r' ∧
      new a pick fuel r rep true = some (.ok
        ⟨a.seek (pos j).1 r', (recorded vals pos).map (·.1), some vals.length, rep, 1⟩) := by
  obtain ⟨r₁, hscan, hr₁⟩ := scan_recorded hd hfuel hr
  have hlen : ((recorded vals pos).map (·.1)).length = vals.length := by simp [recorded]
  have hpick : pick 0 % vals.length < vals.length := Nat.mod_lt _ (List.length_pos_iff.mpr hne)
  refine ⟨pick 0 % vals.length, r₁, hr₁, ?_⟩
  have hget : ((recorded vals pos).map (·.1))[pick 0 % vals.length]? =
      some (pos (pick 0 % vals.length)) := by
    rw [recorded_fst]
    simp [hpick]
  simp only [new, if_true, hscan, Option.bind_eq_bind, Option.bind_some, hlen, hget]
  rfl

theorem new_random_nil (pick : Nat → Nat) (hd : Delivers a vals pos At) {fuel : Nat}
    (hfuel : vals.length < fuel) (hr : At 0 r) (hnil : vals = []) (rep : Bool) :
    ∃ r', At vals.length r' ∧
      new a pick fuel r rep true = some (.ok ⟨r', [], none, rep, 0⟩) := by
  obtain ⟨r', hscan, hr'⟩ := scan_recorded hd hfuel hr
  refine ⟨r', hr', ?_⟩
  simp only [new, if_true, hscan, Option.bind_eq_bind, Option.bind_some]
  subst hnil
  rfl

/-- A reader without values and positions gives nothing, whether they are to repeat or not. -/
theorem results_nil (hd : Delivers a vals pos At) (hr : At vals.length r) (rep : Bool) (k : Nat) :
    results a pick k ⟨r, [], none, rep, s⟩ = some (List.replicate k none) := by
  induction k generalizing r with
  | zero => rfl
  | succ k ih =>
    obtain ⟨r', hget, hr'⟩ := hd.done r hr
    have hnext : next a pick ⟨r, [], none, rep, s⟩ = some (none, ⟨r', [], none, rep, s⟩) := by
      cases rep <;> simp [next, getOrRewind, hget]
    rw [results, hnext]
    simp only [Option.bind_eq_bind, Option.bind_some, ih hr']
    rfl

/-- In random mode the positions are those that the first pass over the file records. -/
theorem new_positions {fuel : Nat} {rep : Bool} {p : Provider R}
    (h : new a pick fuel r rep true = some (.ok p)) :
    ∃ r', scan a fuel [] r = some (.ok (p.positions, r')) := by
  rw [new, if_pos rfl] at h
  cases hscan : scan a fuel [] r with
  | none =>
    rw [hscan] at h
    cases h
  | some result =>
    rw [hscan] at h
    simp only [Option.bind_eq_bind, Option.bind_some] at h
    cases result with
    | error e => cases h
    | ok found =>
      obtain ⟨positions, r'⟩ := found
      refine ⟨r', ?_⟩
      simp only at h
      split at h
      · cases h
        rfl
      · rename_i hnone
        cases h
        rcases List.eq_nil_or_concat positions with rfl | ⟨init, last, rfl⟩
        · rfl
        · have hlt := Nat.mod_lt (pick 0) (show 0 < (init.concat last).length by simp)
          have hge := List.getElem?_eq_none_iff.mp hnone
          omega

theorem scan_prefix {r' : R} {fuel : Nat} {positions found : List (Nat × Nat)}
    (h : scan a fuel positions r = some (.ok (found, r'))) :
    positions <+: found := by
  induction fuel generalizing r positions with
  | zero => cases h
  | succ fuel ih =>
    rw [scan] at h
    cases hget : a.getValue none r with
    | none =>
      rw [hget] at h
      cases h
    | some answer =>
      obtain ⟨got, r₁⟩ := answer
      rw [hget] at h
      simp only [Option.bind_eq_bind, Option.bind_some] at h
      cases got with
      | none =>
        cases h
        exact List.prefix_refl _
      | some result =>
        cases result with
        | error e => cases h
        | ok value => exact (List.prefix_append _ _).trans (ih h)

/-- What the four kinds of providers give of a list of values. -/
structure GivesAll (a : Access R V) (pick : Nat → Nat) (fuel : Nat) (r : R) (vals : List V) :
    Prop where
  sequential : ∃ p, new a pick fuel r false false = some (.ok p) ∧
    ∀ k, results a pick k p = some ((List.range k).map fun i => vals[i]?.map .ok)
  repeated : ∃ p, new a pick fuel r true false = some (.ok p) ∧
    ∀ k, results a pick k p = some ((List.range k).map fun i => vals[i % vals.length]?.map .ok)
  random : ∃ p, new a pick fuel r false true = some (.ok p) ∧ ∃ l : List V, l.Perm vals ∧
    ∀ k, results a pick k p = some ((List.range k).map fun i => l[i]?.map .ok)
  randomRepeated : ∃ p, new a pick fuel r true true = some (.ok p) ∧
    ∀ k, ∃ items, results a pick k p = some items ∧ ∀ item ∈ items,
      if vals = [] then item = none else ∃ v ∈ vals, item = some (.ok v)

theorem Delivers.givesAll (hd : Delivers a vals pos At) (hs : Seeks a vals pos At Live)
    {fuel : Nat} (hfuel : vals.length < fuel) (hr : At 0 r) : GivesAll a pick fuel r vals where
  sequential := by
    refine ⟨⟨r, [], none, false, 0⟩, rfl, fun k => ?_⟩
    rw [results_sequential hd (Nat.zero_le _) hr]
    simp only [Nat.zero_add]
  repeated := by
    refine ⟨⟨r, [(0, 0)], none, true, 0⟩, rfl, fun k => ?_⟩
    rw [results_repeat hd hs (Nat.zero_le _) hr]
    simp only [Nat.zero_add]
  random := by
    by_cases hnil : vals = []
    · obtain ⟨r', hr', hnew⟩ := new_random_nil pick hd hfuel hr hnil false
      refine ⟨_, hnew, [], by simp [hnil], fun k => ?_⟩
      rw [results_nil hd hr']
      simp [List.map_const']
    · obtain ⟨j, r', hr', hnew⟩ := new_random pick hd hfuel hr hnil false
      obtain ⟨l, hl, hresults⟩ := results_random (hs.seek (pos j).1 r' (hs.live _ _ hr'))
        (revisits_recorded hs)
      rw [recorded_snd] at hl
      exact ⟨_, hnew, l, hl, hresults⟩
  randomRepeated := by
    by_cases hnil : vals = []
    · obtain ⟨r', hr', hnew⟩ := new_random_nil pick hd hfuel hr hnil true
      refine ⟨_, hnew, fun k => ⟨_, results_nil hd hr' true k, fun item hitem => ?_⟩⟩
      rw [if_pos hnil]
      exact List.eq_of_mem_replicate hitem
    · obtain ⟨j, r', hr', hnew⟩ := new_random pick hd hfuel hr hnil true
      have hne : recorded vals pos ≠ [] := by simpa [recorded] using hnil
      refine ⟨_, hnew, fun k => ?_⟩
      obtain ⟨items, hresults, hall⟩ := results_randomRepeat
        (hs.seek (pos j).1 r' (hs.live _ _ hr')) (revisits_recorded hs) hne k
      refine ⟨items, hresults, fun item hitem => ?_⟩
      rw [if_neg hnil]
      simpa only [recorded_snd] using hall item hitem

end Pewpew.FileProvider
