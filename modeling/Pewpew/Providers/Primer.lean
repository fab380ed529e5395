import Pewpew.Channel.Feed
import Pewpew.Library.Calls
import Pewpew.Library.Iterator

/-! The tasks that move the values of an iterator into the channel of a provider. -/
namespace Pewpew.Primer

open ProviderChannel Transition Calls Iterator

variable {S T L E α : Type}

/-- A task that forwards a stream to a sender: the stream, the item that the task has in hand, the
error that has ended it, and the channel with all its handles. -/
structure Forward (T E α : Type) where
  stream : T
  hand : Option α
  error : Option E
  state : State α

/-- What is behind the stream goes on, or the stream yields; the item in hand is given to the
sender; or something else happens to the channel. -/
inductive Move (L α : Type) where
  | poll (l : L)
  | give
  | act (a : Act α)

/-- The stream is polled only where no item is in hand. -/
def Forward.polled (s : Forward T E α) : Option (Except E α) × T → Option (Forward T E α)
  | (none, t) => some { s with stream := t }
  | (some (.ok v), t) =>
    if s.hand.isNone && s.error.isNone then some { s with stream := t, hand := some v } else none
  | (some (.error e), t) =>
    if s.hand.isNone && s.error.isNone then some { s with stream := t, error := some e } else none

/-- The sender `p` is given the values in hand, and no other one is given a value. -/
def Forward.next (poll : L → T → Option (Option (Except E α) × T)) (hash : α → Nat) (p : Nat)
    (s : Forward T E α) : Move L α → Option (Forward T E α)
  | .poll l => (poll l s.stream).bind s.polled
  | .give =>
    s.hand.bind fun v => (ProviderChannel.next hash s.state (.callSender p (.startSend v))).map
      fun t => { s with hand := none, state := t }
  | .act a =>
    if a.item.isSome then none
    else (ProviderChannel.next hash s.state a).map fun t => { s with state := t }

def Forward.start (limit : Limit) (unique : Bool) (stream : T) : Forward T E α where
  stream := stream
  hand := none
  error := none
  state := init limit unique

def Forward.yields (poll : L → T → Option (Option (Except E α) × T)) (s : Forward T E α) :
    Move L α → List (Except E α)
  | .poll l => ((poll l s.stream).bind (·.1)).toList
  | .give | .act _ => []

/-- What the stream yields in a run. -/
def yielded (poll : L → T → Option (Option (Except E α) × T)) (hash : α → Nat) (p : Nat)
    (s : Forward T E α) (ms : List (Move L α)) : List (Except E α) :=
  outputs (Forward.next poll hash p) (Forward.yields poll) s ms

def Step (poll : L → T → Option (Option (Except E α) × T)) (hash : α → Nat) (p : Nat)
    (s : Forward T E α) (m : Move L α) (t : Forward T E α) : Prop :=
  s.next poll hash p m = some t

variable {poll : L → T → Option (Option (Except E α) × T)} {hash : α → Nat} {p : Nat}
  {s s' : Forward T E α} {items : List (Except E α)} {m : Move L α} {ms : List (Move L α)}
  {limit : Limit} {t t' : T} {l : L} {item : Option (Except E α)}

/-- What the stream has yielded has been popped, is queued, or is on its way there, in order, up to
an error, which has ended the task. -/
structure Forwards (p : Nat) (items : List (Except E α)) (s : Forward T E α) : Prop where
  fed : ∃ vs, Fed p vs s.state ∧
    items = (vs ++ s.hand.toList).map .ok ++ s.error.toList.map .error
  stopped : s.error.isSome → s.hand = none

/-- What a poll does: it yields nothing, or what it yields is taken. -/
theorem polled_cases (h : s.polled (item, t) = some s') :
    item = none ∧ s' = { s with stream := t } ∨ s.hand = none ∧ s.error = none ∧
      ((∃ v, item = some (.ok v) ∧ s' = { s with stream := t, hand := some v }) ∨
        ∃ e, item = some (.error e) ∧ s' = { s with stream := t, error := some e }) := by
  rcases item with _ | e | v
  · cases h
    exact .inl ⟨rfl, rfl⟩
  · simp only [Forward.polled, Bool.and_eq_true, Option.isNone_iff_eq_none,
      Option.ite_none_right_eq_some] at h
    obtain ⟨⟨hhand, herror⟩, heq⟩ := h
    exact .inr ⟨hhand, herror, .inr ⟨e, rfl, (Option.some.inj heq).symm⟩⟩
  · simp only [Forward.polled, Bool.and_eq_true, Option.isNone_iff_eq_none,
      Option.ite_none_right_eq_some] at h
    obtain ⟨⟨hhand, herror⟩, heq⟩ := h
    exact .inr ⟨hhand, herror, .inl ⟨v, rfl, (Option.some.inj heq).symm⟩⟩

theorem forwards_polled (hf : Forwards p items s) (h : s.polled (item, t) = some s') :
    Forwards p (items ++ item.toList) s' := by
  obtain ⟨vs, hfed, hitems⟩ := hf.fed
  rcases polled_cases h with ⟨rfl, rfl⟩ | ⟨hhand, herror, ⟨v, rfl, rfl⟩ | ⟨e, rfl, rfl⟩⟩
  · exact ⟨⟨vs, hfed, by simpa using hitems⟩, hf.stopped⟩
  · refine ⟨⟨vs, hfed, ?_⟩, by simp [herror]⟩
    rw [hitems, hhand, herror]
    simp
  · refine ⟨⟨vs, hfed, ?_⟩, fun _ => hhand⟩
    rw [hitems, hhand, herror]
    simp

theorem forwards_step (hf : Forwards p items s) (h : Step poll hash p s m s') :
    Forwards p (items ++ s.yields poll m) s' := by
  cases m with
  | poll l =>
    obtain ⟨⟨item, t⟩, hpoll, htake⟩ := Option.bind_eq_some_iff.mp h
    rw [Forward.yields, hpoll]
    exact forwards_polled hf htake
  | give =>
    obtain ⟨v, hhand, h⟩ := Option.bind_eq_some_iff.mp h
    obtain ⟨t, hstep, rfl⟩ := Option.map_eq_some_iff.mp h
    obtain ⟨vs, hfed, hitems⟩ := hf.fed
    rw [Forward.yields, List.append_nil]
    refine ⟨⟨vs ++ [v], fed_startSend hfed hstep, ?_⟩, fun _ => rfl⟩
    rw [hitems, hhand]
    simp
  | act a =>
    simp only [Step, Forward.next, Option.ite_none_left_eq_some, Option.map_eq_some_iff] at h
    obtain ⟨hitem, t, hstep, rfl⟩ := h
    obtain ⟨vs, hfed, hitems⟩ := hf.fed
    rw [Forward.yields, List.append_nil]
    exact ⟨⟨vs, fed_step hfed (by simpa using hitem) hstep, hitems⟩, hf.stopped⟩

theorem forwards_start : Forwards p [] (Forward.start limit false t : Forward T E α) :=
  ⟨⟨[], fed_init, rfl⟩, fun _ => rfl⟩

/-- What a poll keeps of a stream and of all that it has yielded, a run keeps. -/
theorem stream_step {R : List (Except E α) → T → Prop}
    (hR : ∀ items l t item t', R items t → poll l t = some (item, t') →
      R (items ++ item.toList) t') (hr : R items s.stream) (h : Step poll hash p s m s') :
    R (items ++ s.yields poll m) s'.stream := by
  cases m with
  | poll l =>
    obtain ⟨⟨item, t⟩, hpoll, htake⟩ := Option.bind_eq_some_iff.mp h
    have hnext := hR _ _ _ _ _ hr hpoll
    rw [Forward.yields, hpoll]
    rcases polled_cases htake with ⟨-, rfl⟩ | ⟨-, -, ⟨v, -, rfl⟩ | ⟨e, -, rfl⟩⟩ <;> exact hnext
  | give =>
    obtain ⟨v, -, h⟩ := Option.bind_eq_some_iff.mp h
    obtain ⟨t, -, rfl⟩ := Option.map_eq_some_iff.mp h
    rwa [Forward.yields, List.append_nil]
  | act a =>
    simp only [Step, Forward.next, Option.ite_none_left_eq_some, Option.map_eq_some_iff] at h
    obtain ⟨-, t, -, rfl⟩ := h
    rwa [Forward.yields, List.append_nil]

theorem forwards_run {R : List (Except E α) → T → Prop}
    (hR : ∀ items l t item t', R items t → poll l t = some (item, t') →
      R (items ++ item.toList) t') (hr : R [] t)
    (h : Run (Step poll hash p) (.start limit false t) ms s) :
    Forwards p (yielded poll hash p (.start limit false t) ms) s ∧
      R (yielded poll hash p (.start limit false t) ms) s.stream := by
  have hrun := h.outputs (fun items s => Forwards p items s ∧ R items s.stream)
    (fun _ _ _ _ hs hstep => ⟨forwards_step hs.1 hstep, stream_step hR hs.2 hstep⟩)
    ⟨forwards_start, hr⟩
  exact hrun

/-! ### An iterator -/

/-- `stream::iter` of an iterator whose items are no errors. -/
def streamIter (next : S → Option (α × S)) (_ : Unit) (t : S) :
    Option (Option (Except Empty α) × S) :=
  (next t).map fun r => (some (.ok r.1), r.2)

/-- All that the iterator has yielded, which is `item`, has been popped by a receiver, is queued, or
is on its way there, in order. -/
def Supplied (p : Nat) (item : Nat → Option α) (s : Forward S Empty α) : Prop :=
  ∃ n, (List.range n).map item =
    (s.state.channel.popped ++ s.state.channel.queue ++ s.state.sending p ++ s.hand.toList).map some

/-- What the iterator has yielded, and what it will yield. -/
def Yielded (next : S → Option (α × S)) (t : S) (items : List (Except Empty α)) (u : S) : Prop :=
  ∃ vs : List α, items = vs.map .ok ∧ (List.range vs.length).map (itemAt next t) = vs.map some ∧
    ∀ i, itemAt next u i = itemAt next t (vs.length + i)

theorem yielded_poll {next : S → Option (α × S)} {t u u' : S} {items : List (Except Empty α)}
    {item : Option (Except Empty α)} (hy : Yielded next t items u)
    (h : streamIter next () u = some (item, u')) : Yielded next t (items ++ item.toList) u' := by
  obtain ⟨vs, rfl, hall, hmore⟩ := hy
  obtain ⟨⟨v, u'⟩, hnext, heq⟩ := Option.map_eq_some_iff.mp h
  obtain ⟨rfl, rfl⟩ := Prod.mk.inj heq
  refine ⟨vs ++ [v], by simp, ?_, fun i => ?_⟩
  · have hv := hmore 0
    rw [itemAt, hnext, Nat.add_zero] at hv
    rw [List.length_append, List.length_singleton, List.range_succ, List.map_append, hall,
      List.map_append, List.map_singleton, List.map_singleton, ← hv]
    rfl
  · have hv := hmore (i + 1)
    rw [itemAt, hnext, Option.bind_some] at hv
    rw [hv, List.length_append, List.length_singleton, Nat.add_assoc, Nat.add_comm 1 i]

theorem supplied_run {next : S → Option (α × S)} {iter : S} {ms : List (Move Unit α)}
    {s : Forward S Empty α}
    (h : Run (Step (streamIter next) hash p) (.start limit false iter) ms s) :
    Supplied p (itemAt next iter) s := by
  have hstart : Yielded next iter [] iter :=
    ⟨[], rfl, rfl, fun i => by rw [List.length_nil, Nat.zero_add]⟩
  obtain ⟨⟨⟨vs, hfed, hitems⟩, -⟩, ws, hws, hall, -⟩ :=
    forwards_run (R := Yielded next iter) (fun _ _ _ _ _ => yielded_poll) hstart h
  have herror : s.error = none := by
    cases herror : s.error with
    | none => rfl
    | some e => exact e.elim
  rw [hws, herror] at hitems
  have hvs : ws = vs ++ s.hand.toList := by
    have hinj : Function.Injective (Except.ok : α → Except Empty α) := fun _ _ => Except.ok.inj
    exact hinj.list_map (by simpa using hitems)
  refine ⟨ws.length, ?_⟩
  rw [hall, hvs, hfed.popped]

/-! ### An iterator behind a channel -/

/-- The stream of `into_stream`: the iterator, whether its task has stopped, and the items in the
channel between the tasks. -/
structure Piped (S E α : Type) where
  iter : S
  stopped : Bool
  buffer : List (Except E α)

/-- The blocking task calls the iterator, or the stream is received from. -/
inductive Side where
  | call (fuel : Nat)
  | receive

def Piped.called (t : Piped S E α) : Option (Except E α) × S → Piped S E α
  | (none, iter) => { t with iter, stopped := true }
  | (some item, iter) => { t with iter, buffer := t.buffer ++ [item] }

def Piped.next (f : Nat → S → Option (Option (Except E α) × S)) :
    Side → Piped S E α → Option (Option (Except E α) × Piped S E α)
  | .call fuel, t =>
    if t.stopped then none else (f fuel t.iter).map fun r => (none, t.called r)
  | .receive, t =>
    match t.buffer with
    | [] => none
    | item :: rest => some (some item, { t with buffer := rest })

def intoStream (iter : S) : Piped S E α := ⟨iter, false, []⟩

variable {f : Nat → S → Option (Option (Except E α) × S)} {iter : S}

/-- What has been yielded and what is in the channel is what the calls have returned. -/
def Receives (f : Nat → S → Option (Option (Except E α) × S)) (iter : S)
    (items : List (Except E α)) (t : Piped S E α) : Prop :=
  Leads f ((items ++ t.buffer).map some ++ if t.stopped then [none] else []) iter t.iter

theorem receives_poll {l : Side} {t t' : Piped S E α} (hr : Receives f iter items t)
    (h : t.next f l = some (item, t')) : Receives f iter (items ++ item.toList) t' := by
  cases l with
  | call fuel =>
    simp only [Piped.next, Option.ite_none_left_eq_some, Option.map_eq_some_iff] at h
    obtain ⟨hgoing, ⟨result, iter'⟩, hcall, heq⟩ := h
    obtain ⟨rfl, rfl⟩ := Prod.mk.inj heq
    rw [Receives, if_neg hgoing, List.append_nil] at hr
    have hnext := hr.concat hcall
    cases result with
    | none => simpa [Receives, Piped.called] using hnext
    | some result => simpa [Receives, Piped.called, hgoing] using hnext
  | receive =>
    simp only [Piped.next] at h
    split at h
    · cases h
    · next result rest hbuffer =>
      obtain ⟨rfl, rfl⟩ := Prod.mk.inj (Option.some.inj h)
      simpa [Receives, hbuffer] using hr

/-- All that the iterator has returned, which is `item`, has been popped by a receiver, is queued,
or is on its way there, in order; but for what comes after an error, at which the task stops. -/
structure Delivered (p : Nat) (item : Nat → Option (Except E α)) (s : Forward (Piped S E α) E α) :
    Prop where
  items : ∃ n, (List.range n).map item = List.map some
      ((s.state.channel.popped ++ s.state.channel.queue ++ s.state.sending p ++
          s.hand.toList).map .ok ++
        s.error.toList.map .error ++ s.stream.buffer) ∧
    (s.stream.stopped = true → item n = none)
  stopped : s.error.isSome → s.hand = none

/-- What the calls have returned, where it is known what calls return. -/
theorem items_of_receives (hf : Steady f) {item : Nat → Option (Except E α)}
    (hr : ∀ k, Returns f ((List.range k).map item) iter) {t : Piped S E α}
    (h : Receives f iter items t) :
    (List.range (items ++ t.buffer).length).map item = (items ++ t.buffer).map some ∧
      (t.stopped = true → item (items ++ t.buffer).length = none) := by
  have hall := h.returns.unique hf (hr _) (by rw [List.length_map, List.length_range])
  generalize items ++ t.buffer = read at hall
  cases hstop : t.stopped with
  | false =>
    rw [hstop, if_neg (by simp), List.append_nil, List.length_map] at hall
    exact ⟨hall.symm, by simp⟩
  | true =>
    rw [hstop, if_pos rfl, List.length_append, List.length_map, List.length_singleton,
      List.range_succ, List.map_append] at hall
    obtain ⟨hinit, hlast⟩ := List.append_inj hall (by simp)
    exact ⟨hinit.symm, fun _ => (List.singleton_inj.mp hlast).symm⟩

theorem delivered_run (hf : Steady f) {item : Nat → Option (Except E α)}
    (hr : ∀ k, Returns f ((List.range k).map item) iter) {ms : List (Move Side α)}
    {s : Forward (Piped S E α) E α}
    (h : Run (Step (Piped.next f) hash p) (.start limit false (intoStream iter)) ms s) :
    Delivered p item s := by
  have hstart : Receives f iter [] (intoStream iter) := rfl
  obtain ⟨⟨⟨vs, hfed, hitems⟩, hstopped⟩, hreceives⟩ :=
    forwards_run (R := Receives f iter) (fun _ _ _ _ _ => receives_poll) hstart h
  obtain ⟨hread, hend⟩ := items_of_receives hf hr hreceives
  refine ⟨⟨_, ?_, hend⟩, hstopped⟩
  rw [hread, hitems, hfed.popped]

end Pewpew.Primer
