import Pewpew.Library.Transition
import Mathlib.Data.List.Forall2
import Mathlib.Data.Finset.Card
import Mathlib.Data.Finset.Range

/-! Handles that park on the listeners of a shared event, and the coverage invariant that
excludes lost wakeups. The program counter of a handle is a parameter. -/
namespace Pewpew.EventListener

/-- A handle with the operation it is about to take. `listener` is `some b` while it owns a
registered listener, `b` telling whether the listener has been notified; `pending` tells
whether its last poll answered `Pending`. -/
structure Handle (PC : Type) where
  pc : PC
  listener : Option Bool
  pending : Bool
  deriving DecidableEq, Repr

variable {PC : Type} {hs hs' : List (Handle PC)} {h h' : Handle PC} {i : Nat} {w : Wake}

/-- `notify(1)` and `notify(usize::MAX)`. -/
inductive Wake where
  | one
  | all
  deriving DecidableEq, Repr

def Handle.fresh (idle : PC) : Handle PC := ⟨idle, none, false⟩

def Handle.at (h : Handle PC) (pc : PC) : Handle PC := { h with pc := pc }

@[simp] theorem Handle.at_pc (h : Handle PC) (pc : PC) : (h.at pc).pc = pc := rfl
@[simp] theorem Handle.at_listener (h : Handle PC) (pc : PC) :
    (h.at pc).listener = h.listener := rfl
@[simp] theorem Handle.at_pending (h : Handle PC) (pc : PC) : (h.at pc).pending = h.pending := rfl

def wakeAt (woken : List Nat) (i : Nat) (h : Handle PC) : Handle PC :=
  if i ∈ woken then { h with listener := h.listener.map fun _ => true } else h

/-- `notify(n)` leaves at least `min(n, registered)` listeners notified. -/
def Notified (hs : List (Handle PC)) : Wake → Prop
  | .one => (∃ h ∈ hs, h.listener.isSome = true) → ∃ h ∈ hs, h.listener = some true
  | .all => ∀ h ∈ hs, h.listener ≠ some false

instance (hs : List (Handle PC)) : (w : Wake) → Decidable (Notified hs w)
  | .one => inferInstanceAs (Decidable (_ → _))
  | .all => inferInstanceAs (Decidable (∀ _ ∈ _, _))

/-- Notify the registered listeners named in `woken`, if these are enough of them. -/
def notify (w : Wake) (woken : List Nat) (hs : List (Handle PC)) : Option (List (Handle PC)) :=
  if Notified (hs.mapIdx (wakeAt woken)) w then some (hs.mapIdx (wakeAt woken)) else none

/-- A notification changes nothing but a registered listener. -/
def WokenHandle (h h' : Handle PC) : Prop :=
  h' = h ∨ h.listener = some false ∧ h' = { h with listener := some true }

abbrev Woken (hs hs' : List (Handle PC)) : Prop := List.Forall₂ WokenHandle hs hs'

theorem wakeAt_woken (woken : List Nat) (i : Nat) (h : Handle PC) :
    WokenHandle h (wakeAt woken i h) := by
  unfold wakeAt
  split
  · obtain ⟨pc, listener, pending⟩ := h
    rcases listener with _ | _ | _
    · exact .inl rfl
    · exact .inr ⟨rfl, rfl⟩
    · exact .inl rfl
  · exact .inl rfl

theorem woken_refl (hs : List (Handle PC)) : Woken hs hs :=
  List.forall₂_same.mpr fun _ _ => .inl rfl

theorem woken_mapIdx (f : Nat → Handle PC → Handle PC) (hf : ∀ i h, WokenHandle h (f i h))
    (hs : List (Handle PC)) : Woken hs (hs.mapIdx f) := by
  induction hs generalizing f with
  | nil => exact .nil
  | cons h hs ih =>
    rw [List.mapIdx_cons]
    exact .cons (hf 0 h) (ih (fun i => f (i + 1)) fun i => hf (i + 1))

theorem notify_spec {woken : List Nat} (hn : notify w woken hs = some hs') :
    Woken hs hs' ∧ Notified hs' w := by
  simp only [notify, Option.ite_none_right_eq_some, Option.some.injEq] at hn
  obtain ⟨hw, rfl⟩ := hn
  exact ⟨woken_mapIdx _ (wakeAt_woken woken) hs, hw⟩

theorem Woken.exists {P Q : Handle PC → Prop} (hw : Woken hs hs')
    (hPQ : ∀ h h', WokenHandle h h' → P h → Q h') (hP : ∃ h ∈ hs, P h) : ∃ h ∈ hs', Q h := by
  induction hw with
  | nil => simp at hP
  | cons hx _ ih =>
    obtain ⟨h, hm, hp⟩ := hP
    rcases List.mem_cons.mp hm with rfl | hm
    · exact ⟨_, List.mem_cons_self, hPQ _ _ hx hp⟩
    · obtain ⟨h', hm', hq⟩ := ih ⟨h, hm, hp⟩
      exact ⟨h', List.mem_cons_of_mem _ hm', hq⟩

theorem Woken.forall {P Q : Handle PC → Prop} (hw : Woken hs hs')
    (hPQ : ∀ h h', WokenHandle h h' → P h → Q h') (hP : ∀ h ∈ hs, P h) : ∀ h ∈ hs', Q h := by
  induction hw with
  | nil => simp
  | cons hx _ ih =>
    intro h hm
    rcases List.mem_cons.mp hm with rfl | hm
    · exact hPQ _ _ hx (hP _ List.mem_cons_self)
    · exact ih (fun h hm => hP h (List.mem_cons_of_mem _ hm)) h hm

theorem WokenHandle.pc (hw : WokenHandle h h') : h'.pc = h.pc := by
  rcases hw with rfl | ⟨_, rfl⟩ <;> rfl

theorem Woken.countP (hw : Woken hs hs') (p : PC → Bool) :
    hs'.countP (fun h => p h.pc) = hs.countP (fun h => p h.pc) := by
  induction hw with
  | nil => rfl
  | cons hx _ ih => simp [List.countP_cons, ih, hx.pc]

/-- The operation that the handle at a place is about to take. -/
def pcAt (hs : List (Handle PC)) (i : Nat) : Option PC := hs[i]?.map Handle.pc

theorem Woken.pcAt (hw : Woken hs hs') (i : Nat) : pcAt hs' i = pcAt hs i := by
  induction hw generalizing i with
  | nil => rfl
  | cons hx _ ih =>
    cases i with
    | zero => simp [EventListener.pcAt, hx.pc]
    | succ i => simpa [EventListener.pcAt] using ih i

theorem pcAt_of_getElem (hi : hs[i]? = some h) : pcAt hs i = some h.pc := by
  rw [pcAt, hi, Option.map_some]

theorem pcAt_set_self (hi : hs[i]? = some h) : pcAt (hs.set i h') i = some h'.pc := by
  obtain ⟨hlt, -⟩ := List.getElem?_eq_some_iff.mp hi
  rw [pcAt, List.getElem?_set_self hlt, Option.map_some]

theorem pcAt_set_ne {j : Nat} (hj : i ≠ j) : pcAt (hs.set i h') j = pcAt hs j := by
  rw [pcAt, List.getElem?_set_ne hj, pcAt]

theorem pcAt_append {j : Nat} {more : List (Handle PC)} {pc : PC} (h : pcAt hs j = some pc) :
    pcAt (hs ++ more) j = some pc := by
  obtain ⟨h, hj, rfl⟩ := Option.map_eq_some_iff.mp h
  obtain ⟨hlt, -⟩ := List.getElem?_eq_some_iff.mp hj
  rw [pcAt, List.getElem?_append_left hlt, hj, Option.map_some]

/-- A new handle is the only other one. -/
theorem pcAt_append_fresh {j : Nat} {idle pc : PC}
    (h : pcAt (hs ++ [.fresh idle]) j = some pc) : pcAt hs j = some pc ∨ pc = idle := by
  by_cases hlt : j < hs.length
  · rw [pcAt, List.getElem?_append_left hlt] at h
    exact .inl h
  · rw [pcAt, List.getElem?_append_right (by omega)] at h
    right
    obtain ⟨h', hj, rfl⟩ := Option.map_eq_some_iff.mp h
    have hmem := List.mem_of_getElem? hj
    rw [List.mem_singleton.mp hmem]
    rfl

/-- What the operation at a place is about, where a new handle is about nothing. -/
theorem bind_pcAt_fresh {β : Type*} {idle : PC} {f : PC → Option β} (hf : f idle = none)
    (hs : List (Handle PC)) (i : Nat) :
    (pcAt (hs ++ [.fresh idle]) i).bind f = (pcAt hs i).bind f := by
  rcases Nat.lt_trichotomy i hs.length with hlt | rfl | hgt
  · rw [pcAt, pcAt, List.getElem?_append_left hlt]
  · simp [pcAt, Handle.fresh, hf]
  · rw [pcAt, pcAt, List.getElem?_eq_none (by simp; omega), List.getElem?_eq_none (by omega)]

theorem lt_length_of_pcAt {pc : PC} (h : pcAt hs i = some pc) : i < hs.length := by
  obtain ⟨x, hx, -⟩ := Option.map_eq_some_iff.mp h
  exact (List.getElem?_eq_some_iff.mp hx).1

/-- The handles that are about to take an operation of a kind, counted by their places. -/
theorem card_filter_pcAt (p : PC → Bool) (hs : List (Handle PC)) :
    ((Finset.range hs.length).filter fun i => (pcAt hs i).any p).card =
      hs.countP fun h => p h.pc := by
  induction hs using List.reverseRecOn with
  | nil => rfl
  | append_singleton hs h ih =>
    have hold : (Finset.range hs.length).filter (fun i => (pcAt (hs ++ [h]) i).any p) =
        (Finset.range hs.length).filter fun i => (pcAt hs i).any p := by
      refine Finset.filter_congr fun i hi => ?_
      rw [pcAt, pcAt, List.getElem?_append_left (Finset.mem_range.mp hi)]
    have hlast : (pcAt (hs ++ [h]) hs.length).any p = p h.pc := by simp [pcAt]
    rw [List.length_append, List.length_singleton, Finset.range_add_one, Finset.filter_insert,
      hold, hlast, List.countP_append, ← ih]
    cases hp : p h.pc
    · simp [hp]
    · simp [hp]

theorem countP_set_of (hi : hs[i]? = some h) (h' : Handle PC) (p : PC → Bool) :
    (hs.set i h').countP (fun x => p x.pc) + (if p h.pc then 1 else 0) =
      hs.countP (fun x => p x.pc) + (if p h'.pc then 1 else 0) := by
  obtain ⟨hlt, rfl⟩ := List.getElem?_eq_some_iff.mp hi
  rw [List.countP_set hlt]
  split
  · have : 0 < hs.countP fun x => p x.pc :=
      List.countP_pos_iff.mpr ⟨_, List.getElem_mem hlt, by assumption⟩
    omega
  · omega

theorem countP_set_same (hi : hs[i]? = some h) (h' : Handle PC) (p : PC → Bool)
    (hp : p h'.pc = p h.pc) :
    (hs.set i h').countP (fun x => p x.pc) = hs.countP fun x => p x.pc := by
  have := countP_set_of hi h' p
  rw [hp] at this
  omega

/-- How many listeners are notified. -/
def notified (hs : List (Handle PC)) : Nat := hs.countP fun h => h.listener == some true

/-- `notify(1)` that notifies no more listeners than it asks for. -/
def notifyOne (woken : List Nat) (hs : List (Handle PC)) : Option (List (Handle PC)) :=
  if woken = [] ∨ woken.length = 1 ∧ notified hs = 0 then notify .one woken hs else none

/-- The count of the handles of a kind, when the one at a place changes. -/
theorem countP_set_add (hi : hs[i]? = some h) (h' : Handle PC) (p : Handle PC → Bool) :
    (hs.set i h').countP p + (p h).toNat = hs.countP p + (p h').toNat := by
  obtain ⟨hlt, rfl⟩ := List.getElem?_eq_some_iff.mp hi
  have hpos (hp : p hs[i] = true) : 0 < hs.countP p :=
    List.countP_pos_iff.mpr ⟨_, List.getElem_mem hlt, hp⟩
  rw [List.countP_set hlt]
  cases hp : p hs[i] <;> cases hp' : p h' <;> simp_all

theorem notified_fresh (hs : List (Handle PC)) (idle : PC) :
    notified (hs ++ [.fresh idle]) = notified hs := by
  simp [notified, Handle.fresh]

theorem notified_wakeAt (k : Nat) (hs : List (Handle PC)) :
    notified (hs.mapIdx (wakeAt [k])) ≤ notified hs + if k < hs.length then 1 else 0 := by
  induction hs using List.reverseRecOn with
  | nil => simp [notified]
  | append_singleton hs h ih =>
    rw [notified, notified] at ih ⊢
    rw [List.mapIdx_append, List.countP_append, List.countP_append, List.length_append,
      List.length_singleton]
    have hlast : (List.mapIdx (fun i => wakeAt [k] (i + hs.length)) [h]).countP
        (fun h => h.listener == some true) ≤
        [h].countP (fun h => h.listener == some true) + if k = hs.length then 1 else 0 := by
      by_cases hk : k = hs.length
      · rw [if_pos hk, List.countP_singleton]
        exact (List.countP_le_length).trans (Nat.le_add_left _ _)
      · have hsame : wakeAt [k] hs.length h = h := by simp [wakeAt, Ne.symm hk]
        simp [hsame]
    split at ih <;> split at hlast <;> split <;> omega

/-- A `notify(1)` notifies one listener at most. -/
theorem notifyOne_spec {woken : List Nat} (hn : notifyOne woken hs = some hs') :
    Woken hs hs' ∧ Notified hs' .one ∧ notified hs' ≤ notified hs + 1 := by
  obtain ⟨hone, hn⟩ := Option.ite_none_right_eq_some.mp hn
  refine ⟨(notify_spec hn).1, (notify_spec hn).2, ?_⟩
  obtain ⟨-, heq⟩ := Option.ite_none_right_eq_some.mp hn
  obtain rfl := Option.some.inj heq
  rcases hone with rfl | ⟨hlength, -⟩
  · have hsame : (wakeAt [] : Nat → Handle PC → Handle PC) = fun _ h => h := by
      funext i h
      simp [wakeAt]
    rw [hsame, List.mapIdx_eq_zipIdx_map]
    simp
  · obtain ⟨k, rfl⟩ := List.length_eq_one_iff.mp hlength
    have := notified_wakeAt k hs
    split at this <;> omega

/-- What all handles together hold. -/
def total {M : Type*} [AddCommMonoid M] (f : PC → M) (hs : List (Handle PC)) : M :=
  (hs.map fun h => f h.pc).sum

section Total

variable {M : Type*} [AddCommMonoid M] {f : PC → M}

theorem Woken.total (hw : Woken hs hs') : total f hs' = total f hs := by
  induction hw with
  | nil => rfl
  | cons hx _ ih =>
    simp only [EventListener.total, List.map_cons, List.sum_cons] at ih ⊢
    rw [hx.pc, ih]

theorem total_set (hi : hs[i]? = some h) (h' : Handle PC) :
    total f (hs.set i h') + f h.pc = total f hs + f h'.pc :=
  Transition.sum_map_set hi h'

theorem total_set_zero (hi : hs[i]? = some h) (hf : f h.pc = 0) (hf' : f h'.pc = 0) :
    total f (hs.set i h') = total f hs := by
  have ht := total_set (f := f) hi h'
  rwa [hf, hf', add_zero, add_zero] at ht

theorem total_fresh {pc : PC} (hf : f pc = 0) : total f (hs ++ [.fresh pc]) = total f hs := by
  simp [total, Handle.fresh, hf]

end Total

theorem exists_set_self {P : Handle PC → Prop} (hi : hs[i]? = some h) (hP : P h') :
    ∃ x ∈ hs.set i h', P x := by
  obtain ⟨hlt, _⟩ := List.getElem?_eq_some_iff.mp hi
  exact ⟨h', List.mem_set hlt h', hP⟩

/-- The handles other than the one at position `i`. -/
abbrev others (hs : List (Handle PC)) (i : Nat) : List (Handle PC) := hs.eraseIdx i

theorem mem_others_set {x : Handle PC} (hx : x ∈ others hs i) : x ∈ hs.set i h' := by
  obtain ⟨j, hne, hj⟩ := List.mem_eraseIdx_iff_getElem?.mp hx
  exact List.mem_iff_getElem?.mpr ⟨j, by rw [List.getElem?_set_ne hne.symm, hj]⟩

theorem mem_of_mem_others {x : Handle PC} (hx : x ∈ others hs i) : x ∈ hs :=
  List.mem_of_mem_eraseIdx hx

theorem eq_or_mem_others {x : Handle PC} (hi : hs[i]? = some h) (hx : x ∈ hs) :
    x = h ∨ x ∈ others hs i := by
  obtain ⟨j, hj⟩ := List.mem_iff_getElem?.mp hx
  by_cases hne : j = i
  · subst j
    exact .inl (by simpa [hi] using hj.symm)
  · exact .inr (List.mem_eraseIdx_iff_getElem?.mpr ⟨j, hne, hj⟩)

theorem eq_or_mem_others_of_set {x : Handle PC} (hx : x ∈ hs.set i h') :
    x = h' ∨ x ∈ others hs i := by
  obtain ⟨j, hj⟩ := List.mem_iff_getElem?.mp hx
  by_cases hne : j = i
  · rw [hne, List.getElem?_set_self'] at hj
    cases hi : hs[i]? <;> simp_all
  · rw [List.getElem?_set_ne (Ne.symm hne)] at hj
    exact .inr (List.mem_eraseIdx_iff_getElem?.mpr ⟨j, hne, hj⟩)

theorem exists_set {P : Handle PC → Prop} (hi : hs[i]? = some h) (hP : P h → P h')
    (hex : ∃ x ∈ hs, P x) : ∃ x ∈ hs.set i h', P x := by
  obtain ⟨x, hx, hp⟩ := hex
  rcases eq_or_mem_others hi hx with rfl | hx
  · exact exists_set_self hi (hP hp)
  · exact ⟨x, mem_others_set hx, hp⟩

theorem forall_set {P : Handle PC → Prop} (hall : ∀ x ∈ hs, P x) (hP : P h') :
    ∀ x ∈ hs.set i h', P x := by
  intro x hx
  rcases eq_or_mem_others_of_set hx with rfl | hx
  · exact hP
  · exact hall x (mem_of_mem_others hx)

/-- Some handle is about to take an operation of the given kind. -/
def Owes (p : PC → Bool) (hs : List (Handle PC)) : Prop := ∃ h ∈ hs, p h.pc = true

instance (p : PC → Bool) (hs : List (Handle PC)) : Decidable (Owes p hs) :=
  inferInstanceAs (Decidable (∃ _ ∈ _, _))

variable {p q : PC → Bool}

theorem owes_woken (ho : Owes p hs) (hw : Woken hs hs') : Owes p hs' :=
  hw.exists (fun _ _ hx hp => by rw [hx.pc]; exact hp) ho

theorem owes_set (ho : Owes p hs) (hi : hs[i]? = some h) (hp : p h.pc = true → p h'.pc = true) :
    Owes p (hs.set i h') := exists_set hi hp ho

theorem owes_set_self (hi : hs[i]? = some h) (hp : p h'.pc = true) : Owes p (hs.set i h') :=
  exists_set_self hi hp

theorem owes_append (ho : Owes p hs) (hs₂ : List (Handle PC)) : Owes p (hs ++ hs₂) := by
  obtain ⟨h, hm, hp⟩ := ho
  exact ⟨h, List.mem_append_left _ hm, hp⟩

theorem owes_mono (ho : Owes p hs) (hpq : ∀ pc, p pc = true → q pc = true) : Owes q hs := by
  obtain ⟨h, hm, hp⟩ := ho
  exact ⟨h, hm, hpq _ hp⟩

/-! ### Coverage: while a resource is available, somebody will see it -/

section Coverage

variable (live : PC → Bool)

/-- A handle that will look at the resource again without a further notification, or that
passes a notification on when it is dropped. -/
def Awake (h : Handle PC) : Prop :=
  h.listener = some true ∨ live h.pc = true ∧ h.listener = none

instance (h : Handle PC) : Decidable (Awake live h) := inferInstanceAs (Decidable (_ ∨ _))

/-- While the resource is available a notification is owed, a handle is awake, or no handle
is left that could wait. -/
def Covered (avail owed : Prop) (hs : List (Handle PC)) : Prop :=
  avail → owed ∨ (∃ h ∈ hs, Awake live h) ∨ ∀ h ∈ hs, live h.pc = false

variable {live} {avail avail' owed owed' : Prop}

theorem awake_woken (hw : WokenHandle h h') (ha : Awake live h) : Awake live h' := by
  rcases hw with rfl | ⟨_, rfl⟩
  · exact ha
  · exact .inl rfl

theorem covered_woken (hc : Covered live avail owed hs) (hw : Woken hs hs') :
    Covered live avail owed hs' := by
  intro hav
  rcases hc hav with ho | he | hn
  · exact .inl ho
  · exact .inr (.inl (hw.exists (fun _ _ => awake_woken) he))
  · exact .inr (.inr (hw.forall (fun _ _ hx hl => by rw [hx.pc]; exact hl) hn))

theorem covered_mono (hc : Covered live avail owed hs) (ha : avail' → avail ∨ owed')
    (ho : owed → owed') : Covered live avail' owed' hs := by
  intro hav
  rcases ha hav with hav | ho'
  · rcases hc hav with h | h | h
    · exact .inl (ho h)
    · exact .inr (.inl h)
    · exact .inr (.inr h)
  · exact .inl ho'

/-- A `notify(1)` restores coverage, whatever happened before. -/
theorem covered_of_notified (hn : Notified hs .one) : Covered live avail owed hs := by
  intro _
  by_cases hr : ∃ h ∈ hs, h.listener.isSome = true
  · obtain ⟨h, hm, ht⟩ := hn hr
    exact .inr (.inl ⟨h, hm, .inl ht⟩)
  by_cases hl : ∃ h ∈ hs, live h.pc = true
  · obtain ⟨h, hm, hlive⟩ := hl
    have hnone : h.listener = none := by
      by_contra hne
      exact hr ⟨h, hm, Option.isSome_iff_ne_none.mpr hne⟩
    exact .inr (.inl ⟨h, hm, .inr ⟨hlive, hnone⟩⟩)
  · refine .inr (.inr fun h hm => ?_)
    by_contra hne
    exact hl ⟨h, hm, by simpa using hne⟩

/-- A step of one handle that leaves it awake if it was. -/
theorem covered_set (hi : hs[i]? = some h) (hc : Covered live avail owed hs)
    (ha : Awake live h → Awake live h') (hl : live h'.pc = true → live h.pc = true) :
    Covered live avail owed (hs.set i h') := by
  intro hav
  rcases hc hav with ho | he | hn
  · exact .inl ho
  · exact .inr (.inl (exists_set hi ha he))
  · refine .inr (.inr (forall_set hn ?_))
    have := hn h (List.mem_of_getElem? hi)
    grind

theorem covered_append {idle : PC} (hl : live idle = true) :
    Covered live avail owed (hs ++ [.fresh idle]) :=
  fun _ => .inr (.inl ⟨.fresh idle, by simp, .inr ⟨hl, rfl⟩⟩)

/-- Where nothing is owed and no dropped handle owns a listener, coverage leaves somebody
unparked. -/
theorem covered_unparked (hc : Covered live avail owed hs) (ha : avail) (ho : ¬ owed)
    (hstray : ∀ h ∈ hs, live h.pc = false → h.listener = none)
    (hex : ∃ h ∈ hs, live h.pc = true) :
    ∃ h ∈ hs, live h.pc = true ∧ h.listener ≠ some false := by
  rcases hc ha with h | ⟨h, hm, hl | ⟨hlive, hnone⟩⟩ | hn
  · exact (ho h).elim
  · refine ⟨h, hm, ?_, by simp [hl]⟩
    by_contra hdead
    simp [hstray h hm (by simpa using hdead)] at hl
  · exact ⟨h, hm, hlive, by simp [hnone]⟩
  · obtain ⟨h, hm, hlive⟩ := hex
    simp [hn h hm] at hlive

/-- The handle at `i` may go to sleep: the resource is not available, a notification is owed,
or another handle is awake. -/
def MayPark (live : PC → Bool) (avail owed : Prop) (hs : List (Handle PC)) (i : Nat) : Prop :=
  avail → owed ∨ ∃ h ∈ others hs i, Awake live h

/-- The handle at `i` may go away: it may go to sleep, or no other handle could wait. -/
def MayLeave (live : PC → Bool) (avail owed : Prop) (hs : List (Handle PC)) (i : Nat) : Prop :=
  avail → owed ∨ (∃ h ∈ others hs i, Awake live h) ∨ ∀ h ∈ others hs i, live h.pc = false

instance [Decidable avail] [Decidable owed] : Decidable (MayPark live avail owed hs i) :=
  inferInstanceAs (Decidable (_ → _))

instance [Decidable avail] [Decidable owed] : Decidable (MayLeave live avail owed hs i) :=
  inferInstanceAs (Decidable (_ → _))

theorem covered_of_mayPark (hp : MayPark live avail owed hs i) :
    Covered live avail owed (hs.set i h') := by
  intro hav
  rcases hp hav with ho | ⟨x, hx, ha⟩
  · exact .inl ho
  · exact .inr (.inl ⟨x, mem_others_set hx, ha⟩)

theorem covered_of_mayLeave (hp : MayLeave live avail owed hs i) (hl : live h'.pc = false) :
    Covered live avail owed (hs.set i h') := by
  intro hav
  rcases hp hav with ho | ⟨x, hx, ha⟩ | hn
  · exact .inl ho
  · exact .inr (.inl ⟨x, mem_others_set hx, ha⟩)
  · refine .inr (.inr fun x hx => ?_)
    rcases eq_or_mem_others_of_set hx with rfl | hx
    · exact hl
    · exact hn x hx

end Coverage

/-! ### Release: once everybody has been notified, nobody sleeps on -/

/-- Where the resource is gone for good, a `notify_all` is owed or no handle that would not
look again by itself is asleep. -/
def Released (gone owed : Prop) (excused : PC → Bool) (hs : List (Handle PC)) : Prop :=
  gone → owed ∨ ∀ h ∈ hs, h.listener = some false → excused h.pc = true

section Release

variable {gone gone' owed owed' : Prop} {excused : PC → Bool}

theorem released_woken (hr : Released gone owed excused hs) (hw : Woken hs hs') :
    Released gone owed excused hs' := by
  intro hg
  refine (hr hg).imp_right fun hall => hw.forall (fun x x' hx hex hl => ?_) hall
  rcases hx with rfl | ⟨_, rfl⟩
  · exact hex hl
  · simp at hl

theorem released_of_notified (hn : Notified hs .all) : Released gone owed excused hs :=
  fun _ => .inr fun h hm hl => (hn h hm hl).elim

theorem released_mono (hr : Released gone owed excused hs) (hg : gone' → gone ∨ owed')
    (ho : owed → owed') : Released gone' owed' excused hs := by
  intro h
  rcases hg h with h | h
  · exact (hr h).imp_left ho
  · exact .inl h

theorem released_set (hr : Released gone owed excused hs)
    (hx : gone → ¬ owed → h'.listener = some false → excused h'.pc = true) :
    Released gone owed excused (hs.set i h') := by
  intro hg
  by_cases ho : owed
  · exact .inl ho
  · rcases hr hg with h | hall
    · exact (ho h).elim
    · exact .inr (forall_set hall (hx hg ho))

/-- A step of one handle that keeps its listener, and its excuse where it has one. -/
theorem released_set_same (hi : hs[i]? = some h) (hr : Released gone owed excused hs)
    (hl : h'.listener = some false → h.listener = some false)
    (hx : excused h.pc = true → excused h'.pc = true) :
    Released gone owed excused (hs.set i h') := by
  refine released_set hr fun hg ho hf => hx ?_
  rcases hr hg with h | hall
  · exact (ho h).elim
  · exact hall h (List.mem_of_getElem? hi) (hl hf)

theorem released_append (hr : Released gone owed excused hs) (idle : PC) :
    Released gone owed excused (hs ++ [.fresh idle]) := by
  intro hg
  refine (hr hg).imp_right fun hall h hm hl => ?_
  rcases List.mem_append.mp hm with hm | hm
  · exact hall h hm hl
  · simp only [List.mem_singleton] at hm
    subst hm
    cases hl

end Release

end Pewpew.EventListener
