import Pewpew.Channel.Model
import Pewpew.ForEachParallel.Completion
import Mathlib.Data.List.Range

/-! The limit on an endpoint's requests in flight, adapted call by call from the channels that it
provides to. -/
namespace Pewpew.Request

open ForEachParallel Transition

variable {I E : Type}

/-- A product of the type `usize`, which wraps around. -/
def mulUsize (a b : Nat) : Nat := a * b % 2 ^ 64

/-- The counters of `limit_fn`. -/
structure Counters where
  multiplier : Nat
  allFullCount : Nat
  deriving DecidableEq, Repr

/-- What a call sees of the channels: the free slots of the emptiest one, whether one is empty, and
whether all are full. A channel shows its length and its limit. -/
def slots (txs : List (Nat × Nat)) : Nat × Bool × Bool :=
  txs.foldl (fun acc tx => (max acc.1 (tx.2 - tx.1), acc.2.1 || tx.1 == 0,
    acc.2.2 && tx.1 == tx.2)) (0, false, true)

/-- The calls in a row that saw all channels full. -/
def Counters.countFull (c : Counters) (allFull : Bool) : Nat :=
  if allFull then if c.allFullCount < c.multiplier then c.allFullCount + 1 else c.allFullCount
  else 0

/-- The requests in progress have used the slots up, and a channel has run empty. -/
def Counters.raises (c : Counters) (txs : List (Nat × Nat)) (inProgress : Nat) : Bool :=
  (slots txs).2.1 && c.multiplier < 10 && inProgress == mulUsize (slots txs).1 c.multiplier

/-- All channels have been full as often in a row as the multiplier says. -/
def Counters.drops (c : Counters) (txs : List (Nat × Nat)) : Bool :=
  c.countFull (slots txs).2.2 == c.multiplier && c.multiplier > 1

def Counters.adapt (c : Counters) (txs : List (Nat × Nat)) (inProgress : Nat) : Counters :=
  if c.raises txs inProgress then ⟨c.multiplier + 1, c.countFull (slots txs).2.2⟩
  else if c.drops txs then ⟨c.multiplier - 1, 0⟩
  else ⟨c.multiplier, c.countFull (slots txs).2.2⟩

/-- What an endpoint's `limit_fn` is made of: whether it has channels to block on, and its
`max_parallel_requests`, which is not zero. -/
structure Limiter where
  blocking : Bool
  max : Option {n : Nat // 0 < n}

/-- `limit_fn`; `none` where the endpoint has none. -/
def Limiter.limit (l : Limiter) (c : Counters) (txs : List (Nat × Nat)) (inProgress : Nat) :
    Option (Nat × Counters) :=
  let c' := c.adapt txs inProgress
  match l.blocking, l.max with
  | true, some n => some (min n.1 (mulUsize (Nat.max (slots txs).1 1) c'.multiplier), c')
  | true, none => some (mulUsize (Nat.max (slots txs).1 1) c'.multiplier, c')
  | false, some n => some (n.1, c)
  | false, none => none

/-- An endpoint: the counters of its limit and the future that runs its requests. -/
structure Running (I E : Type) where
  counters : Counters
  future : ForEachParallel.State I E

def Running.init : Running I E := ⟨⟨1, 0⟩, ForEachParallel.init⟩

/-- A poll, in which the channels show what the list says, or another step of the future. -/
inductive Move (I E : Type) where
  | poll (txs : List (Nat × Nat))
  | act (a : Act I E)

def Running.next (l : Limiter) (r : Running I E) : Move I E → Option (Running I E)
  | .poll txs =>
    match l.limit r.counters txs r.future.futures.length with
    | some (limit, c) => (ForEachParallel.next r.future (.poll limit)).map fun s => ⟨c, s⟩
    | none => (ForEachParallel.next r.future (.poll 0)).map fun s => ⟨r.counters, s⟩
  | .act (.poll _) => none
  | .act a => (ForEachParallel.next r.future a).map fun s => ⟨r.counters, s⟩

def Running.Step (l : Limiter) (r : Running I E) (m : Move I E) (r' : Running I E) : Prop :=
  r.next l m = some r'

/-! ### One call -/

/-- The counters stay in their bounds. -/
structure Counters.Sound (c : Counters) : Prop where
  pos : 1 ≤ c.multiplier
  le : c.multiplier ≤ 10
  full : c.allFullCount ≤ c.multiplier

/-- No product of the call overflows. -/
def Counters.Exact (c : Counters) (txs : List (Nat × Nat)) (inProgress : Nat) : Prop :=
  ((slots txs).2.1 = true → c.multiplier < 10 → (slots txs).1 * c.multiplier < 2 ^ 64) ∧
    Nat.max (slots txs).1 1 * (c.adapt txs inProgress).multiplier < 2 ^ 64

/-- The free slots are few enough: times the multiplier they are a `usize`, and also times the next
one where the call raises it. -/
def Counters.Fits (c : Counters) (txs : List (Nat × Nat)) (inProgress : Nat) : Prop :=
  (slots txs).1 * c.multiplier < 2 ^ 64 ∧
    ((slots txs).2.1 = true → c.multiplier < 10 → inProgress = (slots txs).1 * c.multiplier →
      (slots txs).1 * (c.multiplier + 1) < 2 ^ 64)

instance (c : Counters) (txs : List (Nat × Nat)) (inProgress : Nat) :
    Decidable (c.Fits txs inProgress) := inferInstanceAs (Decidable (_ ∧ _))

variable {c : Counters} {txs : List (Nat × Nat)} {inProgress : Nat} {l : Limiter}

theorem countFull_le (h : c.Sound) (allFull : Bool) : c.countFull allFull ≤ c.multiplier := by
  have := h.full
  unfold Counters.countFull
  split
  · split <;> omega
  · omega

theorem raises_iff : c.raises txs inProgress = true ↔
    (slots txs).2.1 = true ∧ c.multiplier < 10 ∧
      inProgress = mulUsize (slots txs).1 c.multiplier := by
  simp [Counters.raises, and_assoc]

theorem sound_adapt (h : c.Sound) (txs : List (Nat × Nat)) (inProgress : Nat) :
    (c.adapt txs inProgress).Sound := by
  have hpos := h.pos
  have hle := h.le
  have hfull := countFull_le h (slots txs).2.2
  unfold Counters.adapt
  split
  · next hraise =>
    have hlt := (raises_iff.mp hraise).2.1
    constructor <;> simp only <;> omega
  · split
    · next hdrop =>
      have hlt : c.multiplier > 1 := by simpa using (Bool.and_eq_true_iff.mp hdrop).2
      constructor <;> simp only <;> omega
    · constructor <;> simp only <;> omega

/-- Where all channels are full there are no free slots. -/
theorem slots_full (h : (slots txs).2.2 = true) : (slots txs).1 = 0 := by
  have hfold : ∀ (txs : List (Nat × Nat)) (acc : Nat × Bool × Bool),
      (acc.2.2 = true → acc.1 = 0) →
        let out := txs.foldl (fun acc tx => (max acc.1 (tx.2 - tx.1), acc.2.1 || tx.1 == 0,
          acc.2.2 && tx.1 == tx.2)) acc
        out.2.2 = true → out.1 = 0 := by
    intro txs
    induction txs with
    | nil => exact fun acc hacc => hacc
    | cons tx txs ih =>
      intro acc hacc
      apply ih
      intro hall
      obtain ⟨hall, heq⟩ : acc.2.2 = true ∧ tx.1 = tx.2 := by simpa using hall
      have hzero := hacc hall
      simp only
      omega
  exact hfold txs (0, false, true) (fun _ => rfl) h

/-- The multiplier drops only where there are no free slots. -/
theorem slots_of_drops (h : c.Sound) (hd : c.drops txs = true) : (slots txs).1 = 0 := by
  apply slots_full
  by_contra hfull
  have hzero : c.countFull (slots txs).2.2 = 0 := by simp [Counters.countFull, hfull]
  have hcount : c.countFull (slots txs).2.2 = c.multiplier := by
    simpa using (Bool.and_eq_true_iff.mp hd).1
  have := h.pos
  omega

/-- The last product of a call, by what becomes of the multiplier. -/
theorem lastProduct_lt_iff (h : c.Sound) :
    Nat.max (slots txs).1 1 * (c.adapt txs inProgress).multiplier < 2 ^ 64 ↔
      (slots txs).1 * (c.adapt txs inProgress).multiplier < 2 ^ 64 := by
  have hle := (sound_adapt h txs inProgress).le
  rcases Nat.eq_zero_or_pos (slots txs).1 with hzero | hpos
  · simp only [hzero, Nat.zero_mul]
    have hone : Nat.max 0 1 = 1 := rfl
    rw [hone]
    omega
  · have : Nat.max (slots txs).1 1 = (slots txs).1 := Nat.max_eq_left hpos
    rw [this]

/-- A call overflows nowhere exactly if the free slots fit. -/
theorem exact_iff_fits (h : c.Sound) : c.Exact txs inProgress ↔ c.Fits txs inProgress := by
  unfold Counters.Exact Counters.Fits
  rw [lastProduct_lt_iff h]
  by_cases hraise : c.raises txs inProgress = true
  · obtain ⟨hempty, hlt, hprogress⟩ := raises_iff.mp hraise
    have hadapt : (c.adapt txs inProgress).multiplier = c.multiplier + 1 := by
      simp [Counters.adapt, hraise]
    rw [hadapt]
    constructor
    · rintro ⟨hprod, hlast⟩
      exact ⟨hprod hempty hlt, fun _ _ _ => hlast⟩
    · rintro ⟨hprod, hlast⟩
      refine ⟨fun _ _ => hprod, hlast hempty hlt ?_⟩
      rw [hprogress, mulUsize, Nat.mod_eq_of_lt hprod]
  · by_cases hdrop : c.drops txs = true
    · simp [slots_of_drops h hdrop]
    · have hadapt : (c.adapt txs inProgress).multiplier = c.multiplier := by
        simp [Counters.adapt, hraise, hdrop]
      rw [hadapt]
      constructor
      · rintro ⟨-, hprod⟩
        refine ⟨hprod, fun hempty hlt hprogress => absurd ?_ hraise⟩
        rw [raises_iff, mulUsize, Nat.mod_eq_of_lt hprod]
        exact ⟨hempty, hlt, hprogress⟩
      · rintro ⟨hprod, -⟩
        exact ⟨fun _ _ => hprod, hprod⟩

/-- The product that a call answers where it fits. -/
theorem product_pos (h : c.Sound) (hf : c.Exact txs inProgress) :
    1 ≤ mulUsize (Nat.max (slots txs).1 1) (c.adapt txs inProgress).multiplier := by
  rw [mulUsize, Nat.mod_eq_of_lt hf.2]
  have hpos := (sound_adapt h txs inProgress).pos
  exact Nat.mul_pos (Nat.lt_of_lt_of_le Nat.one_pos (Nat.le_max_right _ _)) hpos

/-! ### All calls and polls -/

/-- The multiplications of a call, if it makes any, do not overflow. -/
def Limiter.Exact (l : Limiter) (c : Counters) (txs : List (Nat × Nat)) (inProgress : Nat) : Prop :=
  l.blocking = true → c.Exact txs inProgress

def Limiter.Fits (l : Limiter) (c : Counters) (txs : List (Nat × Nat)) (inProgress : Nat) : Prop :=
  l.blocking = true → c.Fits txs inProgress

instance (txs : List (Nat × Nat)) : Decidable (l.Fits c txs inProgress) :=
  inferInstanceAs (Decidable (_ → _))

/-- A call answers at least 1, and no more than `max_parallel_requests`. -/
def Limiter.Bounds (l : Limiter) (c : Counters) (txs : List (Nat × Nat)) (inProgress : Nat) :
    Prop :=
  ∀ limit c', l.limit c txs inProgress = some (limit, c') →
    1 ≤ limit ∧ ∀ n, l.max = some n → limit ≤ n.1

theorem sound_limit (h : c.Sound) {limit : Nat} {c' : Counters}
    (hl : l.limit c txs inProgress = some (limit, c')) : c'.Sound := by
  obtain ⟨_ | _, _ | n⟩ := l
  · cases hl
  · cases hl
    exact h
  · cases hl
    exact sound_adapt h txs inProgress
  · cases hl
    exact sound_adapt h txs inProgress

theorem bounds_of_exact (h : c.Sound) (he : l.Exact c txs inProgress) :
    l.Bounds c txs inProgress := by
  intro limit c' hl
  obtain ⟨_ | _, _ | n⟩ := l
  · cases hl
  · cases hl
    exact ⟨n.2, by rintro _ ⟨⟩; exact Nat.le_refl _⟩
  · cases hl
    exact ⟨product_pos h (he rfl), by simp⟩
  · cases hl
    refine ⟨Nat.le_min.mpr ⟨n.2, product_pos h (he rfl)⟩, ?_⟩
    rintro _ ⟨⟩
    exact Nat.min_le_left _ _

/-- Between two steps the counters are sound, and the limit of the current poll is not 0 where the
endpoint has a limit. -/
structure RunInvariant (l : Limiter) (r : Running I E) : Prop where
  counters : r.counters.Sound
  future : Invariant r.future
  limit : ∀ n, r.future.pc.limit? = some n → (l.blocking = true ∨ l.max.isSome) → 1 ≤ n

/-- The free slots fit at every poll. -/
def Polls (l : Limiter) (r : Running I E) : Move I E → Prop
  | .poll txs => l.Fits r.counters txs r.future.futures.length
  | .act _ => True

instance (l : Limiter) (r : Running I E) : (m : Move I E) → Decidable (Polls l r m)
  | .poll _ => inferInstanceAs (Decidable (Limiter.Fits _ _ _ _))
  | .act _ => inferInstanceAs (Decidable True)

variable {r r' : Running I E} {m : Move I E} {ms : List (Move I E)}

theorem runInvariant_init : RunInvariant l (Running.init : Running I E) where
  counters := by constructor <;> simp [Running.init]
  future := invariant_init
  limit := by simp [Running.init, ForEachParallel.init, PC.limit?]

theorem runInvariant_poll (h : RunInvariant l r)
    (hf : l.Fits r.counters txs r.future.futures.length) (hs : r.Step l (.poll txs) r') :
    RunInvariant l r' := by
  have hexact : l.Exact r.counters txs r.future.futures.length :=
    fun hb => (exact_iff_fits h.counters).mpr (hf hb)
  simp only [Running.Step, Running.next] at hs
  split at hs
  · next limit c' hl =>
    obtain ⟨s, hnext, rfl⟩ := Option.map_eq_some_iff.mp hs
    refine ⟨sound_limit h.counters hl, invariant_step h.future hnext, ?_⟩
    intro n hn _
    obtain ⟨-, rfl⟩ := step_poll hnext
    obtain rfl := Option.some.inj hn
    exact (bounds_of_exact h.counters hexact limit c' hl).1
  · next hl =>
    obtain ⟨s, hnext, rfl⟩ := Option.map_eq_some_iff.mp hs
    refine ⟨h.counters, invariant_step h.future hnext, ?_⟩
    intro n hn hlimited
    obtain ⟨_ | _, _ | _⟩ := l
    · simp at hlimited
    · cases hl
    · cases hl
    · cases hl

theorem runInvariant_step (h : RunInvariant l r)
    (hs : Guarded (Polls l) (Running.Step l) r m r') : RunInvariant l r' := by
  obtain ⟨hpolls, hs⟩ := hs
  cases m with
  | poll txs => exact runInvariant_poll h hpolls hs
  | act a =>
    have hpoll : ∀ n, a ≠ .poll n := by
      rintro n rfl
      cases hs
    obtain ⟨s, hnext, rfl⟩ :
        ∃ s, ForEachParallel.next r.future a = some s ∧ ⟨r.counters, s⟩ = r' := by
      cases a <;> first | exact absurd rfl (hpoll _) | exact Option.map_eq_some_iff.mp hs
    refine ⟨h.counters, invariant_step h.future hnext, ?_⟩
    intro n hn
    exact h.limit n (limit_step hnext hpoll hn)

/-! ### What memory holds -/

/-- Fewer values are queued, and fewer requests are in flight, than an address space of 64 bits has
room for. -/
def memory : Nat := 2 ^ 59

/-- What a channel shows, its length and its limit: a length that memory holds; a static limit is
the configured one, and a dynamic one has grown by one from lengths that the queue has had. -/
def Shows (limit : ProviderChannel.Limit) (tx : Nat × Nat) : Prop :=
  tx.1 < memory ∧ tx.2 < 2 ^ 64 ∧ match limit with
    | .statik n => tx.2 = n
    | .dynamic _ => tx.2 < 2 * memory

instance (tx : Nat × Nat) : ∀ limit, Decidable (Shows limit tx)
  | .statik _ => inferInstanceAs (Decidable (_ ∧ _ ∧ _ = _))
  | .dynamic _ => inferInstanceAs (Decidable (_ ∧ _ ∧ _ < _))

/-- Every poll sees what memory holds. -/
def Held (limits : List ProviderChannel.Limit) (r : Running I E) : Move I E → Prop
  | .poll txs => List.Forall₂ Shows limits txs ∧ r.future.futures.length < memory
  | .act _ => True

instance (limits : List ProviderChannel.Limit) (r : Running I E) :
    (m : Move I E) → Decidable (Held limits r m)
  | .poll txs => decidable_of_iff
      ((limits.length = txs.length ∧ ∀ shown ∈ limits.zip txs, Shows shown.1 shown.2) ∧
        r.future.futures.length < memory)
      (and_congr_left' (by simp [List.forall₂_iff_zip]))
  | .act _ => inferInstanceAs (Decidable True)

/-- The limiter of an endpoint with these channels to block on. -/
def Limiter.of (limits : List ProviderChannel.Limit) (max : Option {n : Nat // 0 < n}) : Limiter :=
  ⟨!limits.isEmpty, max⟩

/-- A multiplier that has been raised has seen that all static limits are small. -/
def SmallOnceRaised (limits : List ProviderChannel.Limit) (c : Counters) : Prop :=
  c.multiplier = 1 ∨ ∀ n, .statik n ∈ limits → n < 2 * memory

variable {limits : List ProviderChannel.Limit} {bound : Nat}

theorem slots_le_iff : (slots txs).1 ≤ bound ↔ ∀ tx ∈ txs, tx.2 - tx.1 ≤ bound := by
  have hfold : ∀ (txs : List (Nat × Nat)) (acc : Nat × Bool × Bool),
      (txs.foldl (fun acc tx => (max acc.1 (tx.2 - tx.1), acc.2.1 || tx.1 == 0,
        acc.2.2 && tx.1 == tx.2)) acc).1 ≤ bound ↔
          acc.1 ≤ bound ∧ ∀ tx ∈ txs, tx.2 - tx.1 ≤ bound := by
    intro txs
    induction txs with
    | nil => simp
    | cons tx txs ih =>
      intro acc
      rw [List.foldl_cons, ih, List.forall_mem_cons, Nat.max_le, and_assoc]
  exact (hfold txs (0, false, true)).trans (and_iff_right (Nat.zero_le _))

theorem Shows.limit_lt {limit : ProviderChannel.Limit} {tx : Nat × Nat} (h : Shows limit tx)
    (hsmall : ∀ n, limit = .statik n → n < 2 * memory) : tx.2 < 2 * memory := by
  obtain ⟨-, -, hlimit⟩ := h
  cases limit with
  | statik n => exact hlimit ▸ hsmall n rfl
  | dynamic n => exact hlimit

/-- What holds of every channel holds of all that is shown. -/
theorem slots_lt (h : List.Forall₂ Shows limits txs) (hpos : 0 < bound)
    (hlimit : ∀ limit ∈ limits, ∀ tx, Shows limit tx → tx.2 < bound) : (slots txs).1 < bound := by
  have hle : ∀ tx ∈ txs, tx.2 - tx.1 ≤ bound - 1 := by
    clear hpos
    induction h with
    | nil => simp
    | cons hshows _ ih =>
      obtain ⟨hfirst, hrest⟩ := List.forall_mem_cons.mp hlimit
      refine List.forall_mem_cons.mpr ⟨?_, ih hrest⟩
      have := hfirst _ hshows
      omega
  have := slots_le_iff.mpr hle
  omega

/-- Few free slots mean small limits, as the lengths are small. -/
theorem statik_lt (h : List.Forall₂ Shows limits txs) (hslots : (slots txs).1 < memory) :
    ∀ n, .statik n ∈ limits → n < 2 * memory := by
  have hle := slots_le_iff.mp (Nat.le_refl (slots txs).1)
  generalize (slots txs).1 = free at hslots hle
  induction h with
  | nil => simp
  | cons hshows _ ih =>
    obtain ⟨hfirst, hrest⟩ := List.forall_mem_cons.mp hle
    intro n hn
    rcases List.mem_cons.mp hn with rfl | hn
    · obtain ⟨hlen, -, hlimit⟩ := hshows
      simp only at hlimit
      omega
    · exact ih hrest n hn

/-- The free slots of every poll fit. -/
theorem fits_of_held {inProgress : Nat} (hc : c.Sound) (hs : SmallOnceRaised limits c)
    (h : List.Forall₂ Shows limits txs) (hflight : inProgress < memory) :
    c.Fits txs inProgress := by
  have hle := hc.le
  rcases hs with hone | hsmall
  · have hslots : (slots txs).1 < 2 ^ 64 := slots_lt h (by decide) fun _ _ _ hshows => hshows.2.1
    refine ⟨by rw [hone]; omega, fun _ _ hprogress => ?_⟩
    rw [hone] at hprogress ⊢
    unfold memory at hflight
    omega
  · have hslots : (slots txs).1 < 2 * memory :=
      slots_lt h (by decide) fun limit hmem tx hshows => hshows.limit_lt fun n hn =>
        hsmall n (hn ▸ hmem)
    have hprod (k : Nat) (hk : k ≤ 10) : (slots txs).1 * k < 2 ^ 64 := by
      have hmul := Nat.mul_le_mul (Nat.le_of_lt hslots) hk
      exact Nat.lt_of_le_of_lt hmul (by decide)
    exact ⟨hprod _ hle, fun _ hlt _ => hprod _ hlt⟩

/-- The multiplier rises only where the free slots are the requests in flight. -/
theorem smallOnceRaised_adapt {inProgress : Nat} (hc : c.Sound) (hs : SmallOnceRaised limits c)
    (h : List.Forall₂ Shows limits txs) (hflight : inProgress < memory) :
    SmallOnceRaised limits (c.adapt txs inProgress) := by
  rcases hs with hone | hsmall
  · by_cases hraise : c.raises txs inProgress = true
    · obtain ⟨-, -, hprogress⟩ := raises_iff.mp hraise
      have hfits := (fits_of_held hc (.inl hone) h hflight).1
      rw [mulUsize, Nat.mod_eq_of_lt hfits, hone, Nat.mul_one] at hprogress
      exact .inr (statik_lt h (hprogress ▸ hflight))
    · left
      have hdrop : c.drops txs = false := by simp [Counters.drops, hone]
      simp [Counters.adapt, hraise, hdrop, hone]
  · exact .inr hsmall

/-- What holds between two polls that see what memory holds. -/
structure HeldInvariant (limits : List ProviderChannel.Limit) (l : Limiter) (r : Running I E) :
    Prop where
  run : RunInvariant l r
  small : SmallOnceRaised limits r.counters

theorem polls_of_held (h : HeldInvariant limits l r) (hm : Held limits r m) : Polls l r m := by
  cases m with
  | poll txs => exact fun _ => fits_of_held h.run.counters h.small hm.1 hm.2
  | act a => trivial

theorem smallOnceRaised_limit {inProgress limit : Nat} {c' : Counters} (hc : c.Sound)
    (hs : SmallOnceRaised limits c) (h : List.Forall₂ Shows limits txs)
    (hflight : inProgress < memory) (hl : l.limit c txs inProgress = some (limit, c')) :
    SmallOnceRaised limits c' := by
  obtain ⟨_ | _, _ | n⟩ := l
  · cases hl
  · cases hl
    exact hs
  · cases hl
    exact smallOnceRaised_adapt hc hs h hflight
  · cases hl
    exact smallOnceRaised_adapt hc hs h hflight

theorem heldInvariant_step (h : HeldInvariant limits l r)
    (hs : Guarded (Held limits) (Running.Step l) r m r') : HeldInvariant limits l r' := by
  obtain ⟨hheld, hs⟩ := hs
  refine ⟨runInvariant_step h.run ⟨polls_of_held h hheld, hs⟩, ?_⟩
  cases m with
  | poll txs =>
    simp only [Running.Step, Running.next] at hs
    split at hs
    · next limit c' hl =>
      obtain ⟨s, -, rfl⟩ := Option.map_eq_some_iff.mp hs
      exact smallOnceRaised_limit h.run.counters h.small hheld.1 hheld.2 hl
    · obtain ⟨s, -, rfl⟩ := Option.map_eq_some_iff.mp hs
      exact h.small
  | act a =>
    cases a with
    | poll limit => cases hs
    | pull _ | skip | scan | decide | complete _ _ =>
      obtain ⟨s, -, rfl⟩ := Option.map_eq_some_iff.mp hs
      exact h.small

/-- The parallelism is bounded: the counters are in their bounds; a call overflows nowhere and
answers at least 1 and at most `max_parallel_requests`; and no request that is started brings the
number in flight above the limit of the poll. -/
structure Bounded (limits : List ProviderChannel.Limit) (l : Limiter) (r : Running I E) : Prop where
  counters : r.counters.Sound
  exact : ∀ txs, Held limits r (.poll txs) → l.Exact r.counters txs r.future.futures.length
  bounds : ∀ txs, Held limits r (.poll txs) → l.Bounds r.counters txs r.future.futures.length
  inFlight : (l.blocking = true ∨ l.max.isSome) → ∀ x r' limit, r.future.pc = .pull limit →
    r.Step l (.act (.pull (.item x))) r' → r'.future.inFlight ≤ limit

/-- Two polls of an endpoint with one channel of five slots, in which a request is started. -/
def pollTrace : List (Move Nat Nat) :=
  [.poll [(0, 5)], .act (.pull (.item 1)), .act .scan, .act .decide, .act (.pull .pending),
    .act .scan, .act .decide, .poll [(1, 5)]]

end Pewpew.Request
