import Pewpew.Channel.Model
import Mathlib.Logic.Relation

/-! How the limit of a channel changes, when its operations run one at a time. -/
namespace Pewpew.ProviderChannel

open EventListener

variable {α : Type} {hash : α → Nat} {c : Channel α} {n : Nat}

/-! ### The operations run to their ends -/

namespace Alone

def push (c : Channel α) (item : α) : Channel α :=
  { c with queue := c.queue ++ [item], pushed := c.pushed ++ [item] }

/-- `Channel::send`. -/
def send (hash : α → Nat) (c : Channel α) (item : α) : Channel α :=
  match c.unique with
  | none => push c item
  | some set =>
    if hash item ∈ set then c else push { c with unique := some (insert (hash item) set) } item

/-- `Sender::try_send`. -/
def trySend (hash : α → Nat) (c : Channel α) (item : α) : Channel α :=
  if c.receiverCount = 0 then c
  else if c.queue.length < c.limit.get then send hash c item
  else c

/-- What `Channel::recv` does about the limit when `innerLen` items are left. -/
def settle (c : Channel α) (innerLen : Nat) : Channel α :=
  if innerLen = 0 then
    match c.limit with
    | .dynamic n =>
      if c.hasMaxed then { c with hasMaxed := false, limit := .dynamic (n + 1) } else c
    | .statik _ => c
  else if c.limit.get = innerLen + 1 then { c with hasMaxed := true }
  else c

/-- `Channel::recv`. -/
def recv (hash : α → Nat) (c : Channel α) : Channel α :=
  match c.queue with
  | [] => c
  | item :: rest =>
    settle
      { c with
        queue := rest
        popped := c.popped ++ [item]
        unique := c.unique.map fun set => set.erase (hash item) }
      rest.length

end Alone

/-- An operation of a sender or a receiver. -/
inductive Op (α : Type) where
  | send (item : α)
  | forceSend (item : α)
  | recv

def Op.run (hash : α → Nat) (c : Channel α) : Op α → Channel α
  | .send item => Alone.trySend hash c item
  | .forceSend item => Alone.send hash c item
  | .recv => Alone.recv hash c

/-! ### They are the atomic operations of one handle -/

/-- Atomic operations of a handle that nothing interrupts. -/
def Uninterrupted {PC : Type} (step : Channel α → Handle PC → Option (Outcome α PC)) :
    Channel α × Handle PC → Channel α × Handle PC → Prop :=
  Relation.ReflTransGen fun p q => ∃ o, step p.1 p.2 = some o ∧ q = (o.channel, o.handle)

section Atomic

variable {item : α}

theorem Uninterrupted.head {PC : Type} {step : Channel α → Handle PC → Option (Outcome α PC)}
    {h : Handle PC} {o : Outcome α PC} {q : Channel α × Handle PC} (hstep : step c h = some o)
    (hrest : Uninterrupted step (o.channel, o.handle) q) : Uninterrupted step (c, h) q :=
  Relation.ReflTransGen.head ⟨o, hstep, rfl⟩ hrest

theorem Uninterrupted.refl {PC : Type} {step : Channel α → Handle PC → Option (Outcome α PC)}
    (p : Channel α × Handle PC) : Uninterrupted step p p :=
  Relation.ReflTransGen.refl

theorem push_uninterrupted (h : Handle (SenderPC α)) :
    Uninterrupted (senderStep hash) (c, h.at (.sendPush item)) (Alone.push c item, h.at .idle) :=
  .head (o := ⟨_, h.at .sendNotify, .quiet, none⟩) rfl <| .head rfl <| .refl _

/-- What a sender does after `start_send` has begun. -/
theorem send_uninterrupted (h : Handle (SenderPC α)) :
    Uninterrupted (senderStep hash) (c, h.at (c.send item))
      (Alone.send hash c item, h.at .idle) := by
  rw [Channel.send, Alone.send]
  cases hu : c.unique with
  | none => exact push_uninterrupted h
  | some set =>
    dsimp only
    by_cases hmem : hash item ∈ set
    · rw [if_pos hmem]
      refine .head (o := ⟨c, h.at .idle, .quiet, some .success⟩) ?_ (.refl _)
      simp [senderStep, hu, hmem, Handle.at]
    · rw [if_neg hmem]
      refine .head (o := ⟨{ c with unique := some (insert (hash item) set) }, h.at (.sendPush item),
        .quiet, none⟩) ?_ (push_uninterrupted h)
      simp [senderStep, hu, hmem, Handle.at]

/-- What a sender does after `try_send` has begun. -/
theorem trySend_uninterrupted (h : Handle (SenderPC α)) :
    Uninterrupted (senderStep hash) (c, h.at (.tryReceivers item))
      (Alone.trySend hash c item, h.at .idle) := by
  rw [Alone.trySend]
  by_cases hreceivers : c.receiverCount = 0
  · rw [if_pos hreceivers]
    refine .head (o := ⟨c, h.at .idle, .quiet, some (.closed item)⟩) ?_ (.refl _)
    simp [senderStep, hreceivers, Handle.at]
  · rw [if_neg hreceivers]
    refine .head (o := ⟨c, h.at (.tryLen item), .quiet, none⟩) ?_ ?_
    · simp [senderStep, hreceivers, Handle.at]
    refine .head (o := ⟨c, h.at (.tryLimit item c.queue.length), .quiet, none⟩) rfl ?_
    by_cases hlen : c.queue.length < c.limit.get
    · rw [if_pos hlen]
      refine .head (o := ⟨c, h.at (c.send item), .quiet, none⟩) ?_ (send_uninterrupted h)
      simp [senderStep, hlen, Handle.at]
    · rw [if_neg hlen]
      refine .head (o := ⟨c, h.at (.tryReceiversAgain item), .quiet, none⟩) ?_ ?_
      · simp [senderStep, hlen, Handle.at]
      refine .head (o := ⟨c, h.at .idle, .quiet, some (.full item)⟩) ?_ (.refl _)
      simp [senderStep, hreceivers, Handle.at]

theorem afterMaxed_uninterrupted {h : Handle (ReceiverPC α)} {c' : Channel α} (item : α)
    (len limit : Nat) (hstep : receiverStep hash c h = some (afterMaxed c' h item len limit)) :
    Uninterrupted (receiverStep hash) (c, h) (c', ⟨.idle, none, false⟩) := by
  refine .head hstep ?_
  rw [afterMaxed]
  by_cases hlen : len < limit
  · rw [if_pos hlen]
    exact .head rfl (.refl _)
  · rw [if_neg hlen]
    exact .refl _

theorem settle_uninterrupted (h : Handle (ReceiverPC α)) :
    Uninterrupted (receiverStep hash) (c, h.at (.len item))
      (Alone.settle c c.queue.length, ⟨.idle, none, false⟩) := by
  refine .head (o := ⟨c, h.at (.limit item c.queue.length), .quiet, none⟩) rfl ?_
  rw [Alone.settle]
  by_cases hlen : c.queue.length = 0
  · rw [if_pos hlen]
    cases hlimit : c.limit with
    | statik n =>
      refine afterMaxed_uninterrupted item c.queue.length n ?_
      simp [receiverStep, hlen, hlimit]
    | dynamic n =>
      refine .head (o := ⟨c, h.at (.exchangeMaxed item c.queue.length n), .quiet, none⟩) ?_ ?_
      · simp [receiverStep, hlen, hlimit, Handle.at]
      dsimp only
      by_cases hmaxed : c.hasMaxed
      · rw [if_pos hmaxed]
        refine .head (o := ⟨{ c with hasMaxed := false },
          h.at (.growLimit item c.queue.length n), .quiet, none⟩) ?_ ?_
        · simp [receiverStep, hmaxed, Handle.at]
        · refine afterMaxed_uninterrupted item c.queue.length n ?_
          simp [receiverStep, hlimit]
      · rw [if_neg hmaxed]
        refine afterMaxed_uninterrupted item c.queue.length n ?_
        simp [receiverStep, hmaxed]
  · rw [if_neg hlen]
    by_cases hlimit : c.limit.get = c.queue.length + 1
    · rw [if_pos hlimit]
      refine .head
        (o := ⟨c, h.at (.storeMaxed item c.queue.length c.limit.get), .quiet, none⟩) ?_ ?_
      · simp [receiverStep, hlen, hlimit, Handle.at]
      · exact afterMaxed_uninterrupted item c.queue.length c.limit.get rfl
    · rw [if_neg hlimit]
      refine afterMaxed_uninterrupted item c.queue.length c.limit.get ?_
      simp [receiverStep, hlen, hlimit]

/-- What a receiver does after it has begun to take an item. -/
theorem recv_uninterrupted {rest : List α} (hq : c.queue = item :: rest)
    (h : Handle (ReceiverPC α)) :
    Uninterrupted (receiverStep hash) (c, h.at .pop)
      (Alone.recv hash c, ⟨.idle, none, false⟩) := by
  have hpop : receiverStep hash c (h.at .pop) = some
      { channel := { c with queue := rest, popped := c.popped ++ [item] },
        handle := h.at (if c.unique.isSome then .remove item else .len item) } := by
    simp [receiverStep, hq, Handle.at]
  have hrecv : Alone.recv hash c = Alone.settle { c with
      queue := rest
      popped := c.popped ++ [item]
      unique := c.unique.map fun set => set.erase (hash item) } rest.length := by
    rw [Alone.recv, hq]
  rw [hrecv]
  refine .head hpop ?_
  cases hu : c.unique with
  | none => exact settle_uninterrupted h
  | some set =>
    refine .head (h := h.at (.remove item)) rfl ?_
    exact settle_uninterrupted h

end Atomic

/-! ### Runs -/

section Runs

variable (hash : α → Nat) (limit : Limit) (unique : Bool) (ops : Nat → Op α)

/-- The channel after the first `k` operations. -/
def after : Nat → Channel α
  | 0 => .new limit unique
  | k + 1 => (ops k).run hash (after k)

/-- The length has reached the limit since the limit was last another one. -/
def Filled (k : Nat) : Prop :=
  ∃ j ≤ k, (∀ i, j ≤ i → i ≤ k →
      (after hash limit unique ops i).limit = (after hash limit unique ops k).limit) ∧
    (after hash limit unique ops k).limit.get ≤ (after hash limit unique ops j).queue.length

/-- The operation at `k` leaves nothing in the queue. -/
def Emptied (k : Nat) : Prop :=
  (after hash limit unique ops k).queue ≠ [] ∧ (after hash limit unique ops (k + 1)).queue = []

/-- A dynamic limit grows by one where the queue is emptied after it has been filled, and does
not change elsewhere; a static limit never changes. -/
structure GrowsAt (k : Nat) : Prop where
  grows : ∀ n, (after hash limit unique ops k).limit = .dynamic n →
    Emptied hash limit unique ops k → Filled hash limit unique ops k →
      (after hash limit unique ops (k + 1)).limit = .dynamic (n + 1)
  stays : ∀ n, (after hash limit unique ops k).limit = .dynamic n →
    ¬ (Emptied hash limit unique ops k ∧ Filled hash limit unique ops k) →
      (after hash limit unique ops (k + 1)).limit = .dynamic n
  statik : ∀ n, limit = .statik n → (after hash limit unique ops (k + 1)).limit = .statik n

end Runs

variable {limit : Limit} {unique : Bool} {ops : Nat → Op α} {k : Nat}

/-- What a receive that has left some items does about the limit. -/
inductive Settled : Channel α → Channel α → Prop where
  | grown {c t : Channel α} (n : Nat) (hempty : t.queue.length = 0) (hlimit : c.limit = .dynamic n)
      (hmaxed : c.hasMaxed = true) (hgrown : t.limit = .dynamic (n + 1))
      (hcleared : t.hasMaxed = false) : Settled c t
  | emptied {c t : Channel α} (hempty : t.queue.length = 0) (hlimit : t.limit = c.limit)
      (hmaxed : t.hasMaxed = c.hasMaxed) (hnot : ∀ n, c.limit = .dynamic n → c.hasMaxed = false) :
      Settled c t
  | maxed {c t : Channel α} (hleft : t.queue.length ≠ 0) (hlimit : t.limit = c.limit)
      (hfull : c.limit.get = t.queue.length + 1) (hmaxed : t.hasMaxed = true) : Settled c t
  | other {c t : Channel α} (hleft : t.queue.length ≠ 0) (hlimit : t.limit = c.limit)
      (hnot : c.limit.get ≠ t.queue.length + 1) (hmaxed : t.hasMaxed = c.hasMaxed) : Settled c t

theorem settle_queue (len : Nat) : (Alone.settle c len).queue = c.queue := by
  unfold Alone.settle
  split
  · split
    · split <;> rfl
    · rfl
  · split <;> rfl

theorem settle_settled {c₁ : Channel α} (hlimit : c₁.limit = c.limit)
    (hmaxed : c₁.hasMaxed = c.hasMaxed) : Settled c (Alone.settle c₁ c₁.queue.length) := by
  have hqueue : (Alone.settle c₁ c₁.queue.length).queue.length = c₁.queue.length := by
    rw [settle_queue]
  by_cases hempty : c₁.queue.length = 0
  · cases hl : c₁.limit with
    | statik n =>
      have heq : Alone.settle c₁ c₁.queue.length = c₁ := by simp [Alone.settle, hempty, hl]
      rw [heq]
      refine .emptied hempty hlimit hmaxed fun m hm => ?_
      rw [← hlimit, hl] at hm
      cases hm
    | dynamic n =>
      by_cases hm : c₁.hasMaxed = true
      · refine .grown n (hqueue.trans hempty) (hlimit ▸ hl) (hmaxed ▸ hm) ?_ ?_
        · simp [Alone.settle, hempty, hl, hm]
        · simp [Alone.settle, hempty, hl, hm]
      · have heq : Alone.settle c₁ c₁.queue.length = c₁ := by simp [Alone.settle, hempty, hl, hm]
        rw [heq]
        refine .emptied hempty hlimit hmaxed fun _ _ => ?_
        rw [← hmaxed]
        exact Bool.eq_false_of_not_eq_true hm
  · by_cases hfull : c₁.limit.get = c₁.queue.length + 1
    · have heq : Alone.settle c₁ c₁.queue.length = { c₁ with hasMaxed := true } := by
        rw [Alone.settle, if_neg hempty, if_pos hfull]
      rw [heq]
      exact .maxed hempty hlimit (hlimit ▸ hfull) rfl
    · have heq : Alone.settle c₁ c₁.queue.length = c₁ := by
        rw [Alone.settle, if_neg hempty, if_neg hfull]
      rw [heq]
      exact .other hempty hlimit (hlimit ▸ hfull) hmaxed

/-- The queue does not get shorter, and the limit stays. -/
structure Kept (c t : Channel α) : Prop where
  length : c.queue.length ≤ t.queue.length
  limit : t.limit = c.limit
  hasMaxed : t.hasMaxed = c.hasMaxed

theorem kept_refl (c : Channel α) : Kept c c := ⟨Nat.le_refl _, rfl, rfl⟩

theorem push_kept (c : Channel α) (item : α) : Kept c (Alone.push c item) where
  length := by simp [Alone.push]
  limit := rfl
  hasMaxed := rfl

theorem send_kept (hash : α → Nat) (c : Channel α) (item : α) :
    Kept c (Alone.send hash c item) := by
  unfold Alone.send
  split
  · exact push_kept c item
  · split
    · exact kept_refl c
    · obtain ⟨hlength, hlimit, hmaxed⟩ := push_kept { c with unique := some _ } item
      exact ⟨hlength, hlimit, hmaxed⟩

/-- An operation takes nothing from the queue and leaves the limit alone, or receives. -/
theorem run_cases (hash : α → Nat) (c : Channel α) (op : Op α) :
    (Kept c (op.run hash c) ∧ (op = .recv → c.queue = [])) ∨
    (op = .recv ∧ c.queue.length = (op.run hash c).queue.length + 1 ∧
      Settled c (op.run hash c)) := by
  cases op with
  | send item =>
    refine .inl ⟨?_, fun h => by cases h⟩
    change Kept c (Alone.trySend hash c item)
    unfold Alone.trySend
    split
    · exact kept_refl c
    · split
      · exact send_kept hash c item
      · exact kept_refl c
  | forceSend item => exact .inl ⟨send_kept hash c item, fun h => by cases h⟩
  | recv =>
    rw [Op.run, Alone.recv.eq_def]
    cases hq : c.queue with
    | nil => exact .inl ⟨kept_refl c, fun _ => rfl⟩
    | cons item rest =>
      refine .inr ⟨rfl, ?_, settle_settled rfl rfl⟩
      rw [settle_queue, List.length_cons]

section Filled

theorem filled_here (h : (after hash limit unique ops k).limit.get ≤
    (after hash limit unique ops k).queue.length) : Filled hash limit unique ops k := by
  refine ⟨k, Nat.le_refl k, fun i hi hk => ?_, h⟩
  rw [Nat.le_antisymm hk hi]

theorem filled_succ (hlimit : (after hash limit unique ops (k + 1)).limit =
    (after hash limit unique ops k).limit) (h : Filled hash limit unique ops k) :
    Filled hash limit unique ops (k + 1) := by
  obtain ⟨j, hj, hsame, hreached⟩ := h
  refine ⟨j, Nat.le_succ_of_le hj, fun i hji hik => ?_, hlimit ▸ hreached⟩
  rcases Nat.le_succ_iff.mp hik with hi | rfl
  · rw [hlimit, hsame i hji hi]
  · rfl

theorem filled_pred (h : Filled hash limit unique ops (k + 1)) :
    (after hash limit unique ops (k + 1)).limit.get ≤
      (after hash limit unique ops (k + 1)).queue.length ∨
    (after hash limit unique ops (k + 1)).limit = (after hash limit unique ops k).limit ∧
      Filled hash limit unique ops k := by
  obtain ⟨j, hj, hsame, hreached⟩ := h
  rcases Nat.le_succ_iff.mp hj with hj | rfl
  · have hlimit := hsame k hj (Nat.le_succ k)
    refine .inr ⟨hlimit.symm, j, hj, fun i hji hik => ?_, hlimit ▸ hreached⟩
    rw [hsame i hji (Nat.le_succ_of_le hik), hlimit]
  · exact .inl hreached

end Filled

/-! ### The flag -/

section Flag

/-- From two on, the flag `has_maxed` is there once the queue has been filled and is no longer. -/
structure Flagged (hash : α → Nat) (limit : Limit) (unique : Bool) (ops : Nat → Op α) (k : Nat) :
    Prop where
  two_le : 2 ≤ (after hash limit unique ops k).limit.get
  filled : (after hash limit unique ops k).hasMaxed = true → Filled hash limit unique ops k
  maxed : Filled hash limit unique ops k → (after hash limit unique ops k).hasMaxed = true ∨
    (after hash limit unique ops k).limit.get ≤ (after hash limit unique ops k).queue.length

/-- Where the limit stays and the flag is not lost, the flag is right afterwards. -/
theorem Flagged.of_same (h : Flagged hash limit unique ops k)
    (hlimit : (after hash limit unique ops (k + 1)).limit = (after hash limit unique ops k).limit)
    (hfilled : (after hash limit unique ops (k + 1)).hasMaxed = true →
      Filled hash limit unique ops k)
    (hmaxed : Filled hash limit unique ops k →
      (after hash limit unique ops (k + 1)).hasMaxed = true ∨
        (after hash limit unique ops (k + 1)).limit.get ≤
          (after hash limit unique ops (k + 1)).queue.length) :
    Flagged hash limit unique ops (k + 1) where
  two_le := hlimit ▸ h.two_le
  filled hm := filled_succ hlimit (hfilled hm)
  maxed hf := by
    rcases filled_pred hf with hhere | ⟨-, hf⟩
    · exact .inr hhere
    · exact hmaxed hf

theorem flagged_step (h : Flagged hash limit unique ops k) :
    Flagged hash limit unique ops (k + 1) := by
  rcases run_cases hash (after hash limit unique ops k) (ops k) with
    ⟨hkept, -⟩ | ⟨-, hlength, hsettled⟩
  · refine h.of_same hkept.limit (fun hm => h.filled (hkept.hasMaxed ▸ hm)) fun hf => ?_
    rcases h.maxed hf with hm | hlong
    · exact .inl (hkept.hasMaxed.trans hm)
    · right
      rw [after, hkept.limit]
      exact Nat.le_trans hlong hkept.length
  · cases hsettled with
    | grown n hempty hlimit hmaxed hgrown hcleared =>
      refine ⟨?_, fun hm => ?_, fun hf => ?_⟩
      · have := h.two_le
        rw [after, hgrown]
        rw [hlimit] at this
        simp only [Limit.get] at this ⊢
        omega
      · rw [after, hcleared] at hm
        cases hm
      · rcases filled_pred hf with hhere | ⟨hsame, -⟩
        · rw [after, hempty, hgrown] at hhere
          simp [Limit.get] at hhere
        · rw [after, hgrown, hlimit] at hsame
          simp at hsame
    | emptied hempty hlimit hmaxed hnot =>
      refine h.of_same hlimit (fun hm => h.filled (hmaxed ▸ hm)) fun hf => ?_
      rcases h.maxed hf with hm | hlong
      · exact .inl (hmaxed.trans hm)
      · have := h.two_le
        omega
    | maxed hleft hlimit hfull hmaxed =>
      refine h.of_same hlimit (fun _ => filled_here ?_) fun _ => .inl hmaxed
      omega
    | other hleft hlimit hnot hmaxed =>
      refine h.of_same hlimit (fun hm => h.filled (hmaxed ▸ hm)) fun hf => ?_
      rcases h.maxed hf with hm | hlong
      · exact .inl (hmaxed.trans hm)
      · right
        rw [after, hlimit]
        omega

theorem flagged_after (htwo : 2 ≤ limit.get) (k : Nat) : Flagged hash limit unique ops k := by
  induction k with
  | zero =>
    refine ⟨htwo, fun hm => absurd hm Bool.false_ne_true, fun hf => ?_⟩
    obtain ⟨j, hj, -, hreached⟩ := hf
    obtain rfl := Nat.le_zero.mp hj
    simp only [after, Channel.new, List.length_nil] at hreached
    omega
  | succ k ih => exact flagged_step ih

end Flag

/-! ### The limit -/

theorem statik_after (n k : Nat) : (after hash (.statik n) unique ops k).limit = .statik n := by
  induction k with
  | zero => rfl
  | succ k ih =>
    rcases run_cases hash (after hash (.statik n) unique ops k) (ops k) with
      ⟨hkept, -⟩ | ⟨-, -, hsettled⟩
    · exact hkept.limit.trans ih
    · cases hsettled with
      | grown m _ hlimit =>
        rw [ih] at hlimit
        cases hlimit
      | emptied _ hlimit | maxed _ hlimit | other _ hlimit => exact hlimit.trans ih

theorem dynamic_after (n k : Nat) :
    ∃ m, (after hash (.dynamic n) unique ops k).limit = .dynamic m := by
  induction k with
  | zero => exact ⟨n, rfl⟩
  | succ k ih =>
    obtain ⟨m, ih⟩ := ih
    rcases run_cases hash (after hash (.dynamic n) unique ops k) (ops k) with
      ⟨hkept, -⟩ | ⟨-, -, hsettled⟩
    · exact ⟨m, hkept.limit.trans ih⟩
    · cases hsettled with
      | grown m' _ _ _ hgrown => exact ⟨m' + 1, hgrown⟩
      | emptied _ hlimit | maxed _ hlimit | other _ hlimit => exact ⟨m, hlimit.trans ih⟩

/-- A limit of at most one never changes, and the flag is never set. -/
theorem low_after {n : Nat} (hn : n ≤ 1) (k : Nat) :
    (after hash (.dynamic n) unique ops k).limit = .dynamic n ∧
      (after hash (.dynamic n) unique ops k).hasMaxed = false := by
  induction k with
  | zero => exact ⟨rfl, rfl⟩
  | succ k ih =>
    obtain ⟨ihlimit, ihmaxed⟩ := ih
    rcases run_cases hash (after hash (.dynamic n) unique ops k) (ops k) with
      ⟨hkept, -⟩ | ⟨-, hlength, hsettled⟩
    · exact ⟨hkept.limit.trans ihlimit, hkept.hasMaxed.trans ihmaxed⟩
    · cases hsettled with
      | grown m _ _ hmaxed =>
        rw [ihmaxed] at hmaxed
        cases hmaxed
      | emptied _ hlimit hmaxed => exact ⟨hlimit.trans ihlimit, hmaxed.trans ihmaxed⟩
      | maxed hleft _ hfull =>
        rw [ihlimit] at hfull
        simp only [Limit.get] at hfull
        omega
      | other _ hlimit _ hmaxed => exact ⟨hlimit.trans ihlimit, hmaxed.trans ihmaxed⟩

/-- Only a receive of the last item empties the queue. -/
theorem emptied_iff : Emptied hash limit unique ops k ↔
    ops k = .recv ∧ (after hash limit unique ops k).queue.length = 1 := by
  rw [Emptied, Ne, ← List.length_eq_zero_iff, ← List.length_eq_zero_iff, after]
  rcases run_cases hash (after hash limit unique ops k) (ops k) with
    ⟨hkept, hrecv⟩ | ⟨hrecv, hlength, -⟩
  · have := hkept.length
    constructor
    · intro h
      omega
    · rintro ⟨hop, hone⟩
      rw [hrecv hop] at hone
      cases hone
  · constructor
    · exact fun h => ⟨hrecv, by omega⟩
    · exact fun h => by omega

theorem growsAt_statik (n k : Nat) : GrowsAt hash (.statik n) unique ops k := by
  have hlimit : (after hash (.statik n) unique ops k).limit = .statik n := statik_after n k
  refine ⟨fun m hm => ?_, fun m hm => ?_, fun m hm => ?_⟩
  · rw [hlimit] at hm
    cases hm
  · rw [hlimit] at hm
    cases hm
  · rw [← hm]
    exact statik_after n (k + 1)

/-- A limit that stays is right where the queue is not emptied. -/
theorem growsAt_of_same {n : Nat} (hlimit : limit = .dynamic n)
    (hsame : (after hash limit unique ops (k + 1)).limit = (after hash limit unique ops k).limit)
    (hnot : Emptied hash limit unique ops k → ¬ Filled hash limit unique ops k) :
    GrowsAt hash limit unique ops k where
  grows _ _ hempty hfilled := absurd hfilled (hnot hempty)
  stays _ hm _ := hsame.trans hm
  statik m hm := by
    rw [hlimit] at hm
    cases hm

/-- From two on, the flag tells whether the queue has been filled. -/
theorem growsAt_of_two_le {n : Nat} (hlimit : limit = .dynamic n) (htwo : 2 ≤ n) (k : Nat) :
    GrowsAt hash limit unique ops k := by
  have hflag : Flagged hash limit unique ops k := flagged_after (by rw [hlimit]; exact htwo) k
  have htwo := hflag.two_le
  rcases run_cases hash (after hash limit unique ops k) (ops k) with
    ⟨hkept, hrecv⟩ | ⟨hrecv, hlength, hsettled⟩
  · refine growsAt_of_same hlimit hkept.limit fun hempty => ?_
    obtain ⟨hop, hone⟩ := emptied_iff.mp hempty
    rw [hrecv hop] at hone
    cases hone
  · cases hsettled with
    | grown m hempty hm hmaxed hgrown =>
      have hemptied : Emptied hash limit unique ops k := emptied_iff.mpr ⟨hrecv, by omega⟩
      refine ⟨fun m' hm' _ _ => ?_, fun m' hm' hnot => ?_, fun m' hm' => ?_⟩
      · rw [hm'] at hm
        cases hm
        exact hgrown
      · exact absurd ⟨hemptied, hflag.filled hmaxed⟩ hnot
      · rw [hlimit] at hm'
        cases hm'
    | emptied hempty hsame _ hnot =>
      refine growsAt_of_same hlimit hsame fun _ hfilled => ?_
      rcases hflag.maxed hfilled with hmaxed | hlong
      · subst hlimit
        obtain ⟨m, hm⟩ : ∃ m, (after hash (.dynamic n) unique ops k).limit = .dynamic m :=
          dynamic_after n k
        rw [hnot m hm] at hmaxed
        cases hmaxed
      · omega
    | maxed hleft hsame | other hleft hsame =>
      refine growsAt_of_same hlimit hsame fun hempty => ?_
      obtain ⟨-, hone⟩ := emptied_iff.mp hempty
      omega

theorem not_growsAt_of_last {n : Nat} (hn : n ≤ 1) (hop : ops k = .recv)
    (hone : (after hash (.dynamic n) unique ops k).queue.length = 1) :
    ¬ GrowsAt hash (.dynamic n) unique ops k := by
  intro h
  have hlow : ∀ k, (after hash (.dynamic n) unique ops k).limit = .dynamic n :=
    fun k => (low_after hn k).1
  have hgrown := h.grows n (hlow k) (emptied_iff.mpr ⟨hop, hone⟩) (filled_here ?_)
  · rw [hlow (k + 1)] at hgrown
    simp at hgrown
  · rw [hlow k, Limit.get]
    omega

/-- The limit grows as said, unless it starts at one and the queue is emptied at all. -/
theorem growsAt_iff : (∀ k, GrowsAt hash limit unique ops k) ↔
    ∀ n ≤ 1, limit = .dynamic n → ∀ k, ops k = .recv →
      (after hash limit unique ops k).queue.length ≠ 1 := by
  constructor
  · rintro h n hn rfl k hop hone
    exact not_growsAt_of_last hn hop hone (h k)
  · intro h k
    cases hlimit : limit with
    | statik n => exact growsAt_statik n k
    | dynamic n =>
      by_cases hn : n ≤ 1
      · refine growsAt_of_same rfl ?_ fun hempty => ?_
        · rw [(low_after hn (k + 1)).1, (low_after hn k).1]
        · obtain ⟨hop, hone⟩ := emptied_iff.mp hempty
          exact absurd hone (hlimit ▸ h n hn hlimit k hop)
      · exact growsAt_of_two_le rfl (by omega) k

/-- One item goes in and out. -/
def onceThrough (k : Nat) : Op Nat := if k = 0 then .send 7 else .recv

/-- A dynamic limit of one never grows. -/
theorem not_growsAt_one : ¬ ∀ k, GrowsAt id (.dynamic 1) false onceThrough k := by
  intro h
  exact not_growsAt_of_last (Nat.le_refl 1) rfl rfl (h 1)

end Pewpew.ProviderChannel
