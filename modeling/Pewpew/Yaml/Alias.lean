import Pewpew.Yaml.Decoder
import Mathlib.Data.List.Forall2

/-! What the decoder delivers for aliases, and when that is what they stand for. -/
namespace Pewpew.Yaml

open SelectParser Generator

/-- A range of the buffer stands for events. -/
inductive Covers (buffer : List AliasOrEvent) : Range → List Delivered → Prop where
  | nil {r : Range} : r.stop ≤ r.start → Covers buffer r []
  | event {r : Range} {e : YamlEvent} {m : Marker} {es : List Delivered} : r.start < r.stop →
      buffer[r.start]? = some (.event e m) → Covers buffer ⟨r.start + 1, r.stop⟩ es →
      Covers buffer r ((e, m) :: es)
  | alias {r range : Range} {es fs : List Delivered} : r.start < r.stop →
      buffer[r.start]? = some (.alias range) → Covers buffer range es →
      Covers buffer ⟨r.start + 1, r.stop⟩ fs → Covers buffer r (es ++ fs)

section Covers

variable {buffer more : List AliasOrEvent} {r : Range} {es fs : List Delivered} {d : Decoder}

/-- What the buffer holds, it keeps. -/
theorem Covers.append (h : Covers buffer r es) (more : List AliasOrEvent) :
    Covers (buffer ++ more) r es := by
  have hkeep : ∀ {i : Nat} {x : AliasOrEvent},
      buffer[i]? = some x → (buffer ++ more)[i]? = some x := by
    intro i x hx
    rw [List.getElem?_append_left (List.getElem?_eq_some_iff.mp hx).1]
    exact hx
  induction h with
  | nil hr => exact .nil hr
  | event hr hx _ ih => exact .event hr (hkeep hx) ih
  | «alias» hr hx _ _ ih ih' => exact .alias hr (hkeep hx) ih ih'

/-- Ranges that follow each other stand for the events of both. -/
theorem Covers.join (h : Covers buffer r es) {stop : Nat} (hle : r.start ≤ r.stop)
    (h' : Covers buffer ⟨r.stop, stop⟩ fs) (hstop : r.stop ≤ stop) :
    Covers buffer ⟨r.start, stop⟩ (es ++ fs) := by
  induction h with
  | nil hr =>
    rw [Nat.le_antisymm hle hr]
    exact h'
  | event hr hx _ ih =>
    exact .event (by simp only; omega) hx (ih (by simp only; omega) h' hstop)
  | «alias» hr hx hsub _ _ ih =>
    rw [List.append_assoc]
    exact .alias (by simp only; omega) hx hsub (ih (by simp only; omega) h' hstop)

/-- The replay of a range emits the events that it stands for. -/
theorem Covers.emits (h : Covers d.aliasedEvents r es) (rs : List Range) :
    Emits Decoder.step { d with replayingAlias := r :: rs } es { d with replayingAlias := rs } := by
  induction h generalizing rs with
  | nil hr =>
    refine .again ?_ (.refl _)
    simp [Decoder.step, Nat.not_lt.mpr hr]
  | event hr hx _ ih =>
    refine .yield ?_ (ih rs)
    simp [Decoder.step, hr, hx]
  | «alias» hr hx _ _ ih ih' =>
    refine .again ?_ ((ih _).trans (ih' rs))
    simp [Decoder.step, hr, hx]

end Covers

/-- The copy that the decoder makes of a scalar: its range is empty. -/
def noCopy (_ : Delivered) : List Delivered := []

/-- The alias map of the decoder stands for the anchors. -/
def Knows (d : Decoder) (a : Anchors) : Prop :=
  ∀ id, a.lookup id = none ∧ d.aliasMap.lookup id = none ∨
    ∃ es r, a.lookup id = some es ∧ d.aliasMap.lookup id = some r ∧ Covers d.aliasedEvents r es

/-- A decoder that has read events of the parser: it remembers the anchors that are complete now
and, within a reference, all that it has delivered. -/
structure Read (d : Decoder) (es : List Delivered) (a : Anchors)
    (rest : List (Except String (YamlParseEvent × Marker))) (d' : Decoder) : Prop where
  emits : Emits Decoder.step d es d'
  parser : d'.parser = rest
  replaying : d'.replayingAlias = []
  stack : d'.referenceStack = d.referenceStack
  knows : Knows d' a
  grows : ∃ more, d'.aliasedEvents = d.aliasedEvents ++ more
  covers : d.referenceStack ≠ [] →
    Covers d'.aliasedEvents ⟨d.aliasedEvents.length, d'.aliasedEvents.length⟩ es

section Knows

variable {d d' : Decoder} {a : Anchors} {anchor : Nat} {es : List Delivered} {r : Range}

theorem knows_new (parser : List (Except String (YamlParseEvent × Marker))) :
    Knows (.new parser) [] := fun _ => .inl ⟨rfl, rfl⟩

/-- A longer buffer stands for the same. -/
theorem Knows.append (h : Knows d a) {more : List AliasOrEvent}
    (hmore : d'.aliasedEvents = d.aliasedEvents ++ more) (hmap : d'.aliasMap = d.aliasMap) :
    Knows d' a := by
  intro id
  rcases h id with ⟨ha, hd⟩ | ⟨es, r, ha, hd, hc⟩
  · exact .inl ⟨ha, hmap ▸ hd⟩
  · exact .inr ⟨es, r, ha, hmap ▸ hd, hmore ▸ hc.append more⟩

/-- A new anchor stands for the events of its range. -/
theorem Knows.bind (h : Knows d a) (hpos : 0 < anchor) (hc : Covers d.aliasedEvents r es)
    (hevents : d'.aliasedEvents = d.aliasedEvents)
    (hmap : d'.aliasMap = (anchor, r) :: d.aliasMap) : Knows d' (a.bind anchor es) := by
  intro id
  rw [Anchors.bind, if_pos hpos, hmap, hevents, List.lookup_cons, List.lookup_cons]
  by_cases hid : id = anchor
  · subst hid
    simp only [BEq.rfl]
    exact .inr ⟨es, r, rfl, rfl, hc⟩
  · rw [show (id == anchor) = false by simpa using hid]
    exact h id

end Knows

section Step

variable {d : Decoder} {e : YamlParseEvent} {m : Marker}
  {rest : List (Except String (YamlParseEvent × Marker))}

theorem step_parse (hr : d.replayingAlias = []) (hp : d.parser = .ok (e, m) :: rest) :
    Decoder.step d = Decoder.parse { d with parser := rest } e m := by
  simp [Decoder.step, hr, hp]

/-- Outside of references, an event without an anchor is not noted. -/
theorem note_outer {e : YamlEvent} (hs : d.referenceStack = []) : d.note 0 e m = d := by
  simp [Decoder.note, hs]

/-- A scalar within a reference. -/
theorem note_scalar {s : String} {style : TScalarStyle} {tag : Option (String × String)}
    (hs : d.referenceStack ≠ []) :
    d.note 0 (.scalar s style tag) m =
      { d with aliasedEvents := d.aliasedEvents ++ [.event (.scalar s style tag) m] } := by
  cases hstack : d.referenceStack with
  | nil => exact absurd hstack hs
  | cons top stack => simp [Decoder.note, hstack, YamlEvent.isNestedEnd, YamlEvent.isNestedStart]

/-- The range of a scalar with an anchor starts and ends before it. -/
theorem note_anchored_scalar {s : String} {style : TScalarStyle} {tag : Option (String × String)}
    {anchor : Nat} (hpos : 0 < anchor) :
    d.note anchor (.scalar s style tag) m =
      { d with aliasedEvents := d.aliasedEvents ++ [.event (.scalar s style tag) m]
               aliasMap := (anchor, ⟨d.aliasedEvents.length, d.aliasedEvents.length⟩) ::
                 d.aliasMap } := by
  simp [Decoder.note, hpos, YamlEvent.isScalar]

theorem note_anchored_start {isMapping : Bool} {anchor : Nat} (hpos : 0 < anchor) :
    d.note anchor (startEvent isMapping) m =
      { d with aliasedEvents := d.aliasedEvents ++ [.event (startEvent isMapping) m]
               referenceStack := some (anchor, d.aliasedEvents.length) :: d.referenceStack } := by
  cases isMapping <;> simp [Decoder.note, hpos, startEvent, YamlEvent.isScalar]

theorem note_inner_start {isMapping : Bool} (hs : d.referenceStack ≠ []) :
    d.note 0 (startEvent isMapping) m =
      { d with aliasedEvents := d.aliasedEvents ++ [.event (startEvent isMapping) m]
               referenceStack := none :: d.referenceStack } := by
  cases hstack : d.referenceStack with
  | nil => exact absurd hstack hs
  | cons top stack =>
    cases isMapping <;>
      simp [Decoder.note, hstack, startEvent, YamlEvent.isNestedEnd, YamlEvent.isNestedStart]

theorem note_anchored_stop {isMapping : Bool} {anchor i : Nat} {stack : List (Option (Nat × Nat))}
    (hs : d.referenceStack = some (anchor, i) :: stack) :
    d.note 0 (stopEvent isMapping) m =
      { d with aliasedEvents := d.aliasedEvents ++ [.event (stopEvent isMapping) m]
               referenceStack := stack
               aliasMap := (anchor, ⟨i, d.aliasedEvents.length + 1⟩) :: d.aliasMap } := by
  cases isMapping <;> simp [Decoder.note, hs, stopEvent, YamlEvent.isNestedEnd]

theorem note_inner_stop {isMapping : Bool} {stack : List (Option (Nat × Nat))}
    (hs : d.referenceStack = none :: stack) :
    d.note 0 (stopEvent isMapping) m =
      { d with aliasedEvents := d.aliasedEvents ++ [.event (stopEvent isMapping) m]
               referenceStack := stack } := by
  cases isMapping <;> simp [Decoder.note, hs, stopEvent, YamlEvent.isNestedEnd]

theorem covers_pushed (buffer : List AliasOrEvent) (e : YamlEvent) (m : Marker) :
    Covers (buffer ++ [.event e m]) ⟨buffer.length, buffer.length + 1⟩ [(e, m)] :=
  .event (by simp) (by simp) (.nil (by simp))

/-- An event of the parser that is one by itself is delivered. -/
theorem step_yield (anchor : Nat) (ev : YamlEvent) (hr : d.replayingAlias = [])
    (hp : d.parser = .ok (e, m) :: rest)
    (hparse : ∀ d : Decoder, Decoder.parse d e m = .yield (ev, m) (d.note anchor ev m)) :
    Decoder.step d = .yield (ev, m) (Decoder.note { d with parser := rest } anchor ev m) := by
  rw [step_parse hr hp, hparse]

theorem parse_start (isMapping : Bool) (anchor : Nat) (m : Marker) (d : Decoder) :
    Decoder.parse d (startParseEvent isMapping anchor) m =
      .yield (startEvent isMapping, m) (d.note anchor (startEvent isMapping) m) := by
  cases isMapping <;> rfl

theorem parse_stop (isMapping : Bool) (m : Marker) (d : Decoder) :
    Decoder.parse d (stopParseEvent isMapping) m =
      .yield (stopEvent isMapping, m) (d.note 0 (stopEvent isMapping) m) := by
  cases isMapping <;> rfl

end Step

section Reads

variable {d : Decoder} {a : Anchors} {rest : List (Except String (YamlParseEvent × Marker))}

theorem scalar_reads {anchor : Nat} {s : String} {style : TScalarStyle}
    {tag : Option (String × String)} {m : Marker} (hr : d.replayingAlias = [])
    (hp : d.parser = .ok (.scalar s style anchor tag, m) :: rest) (hk : Knows d a) :
    ∃ d', Read d [(.scalar s style tag, m)] (a.bind anchor []) rest d' := by
  have hstep := step_yield anchor (.scalar s style tag) hr hp fun _ => rfl
  rcases Nat.eq_zero_or_pos anchor with rfl | hpos
  · by_cases hs : d.referenceStack = []
    · rw [note_outer (by simpa using hs)] at hstep
      exact ⟨_, .single hstep, rfl, hr, rfl, hk, ⟨[], by simp⟩, fun h => absurd hs h⟩
    · rw [note_scalar (by simpa using hs)] at hstep
      refine ⟨_, .single hstep, rfl, hr, rfl, hk.append rfl rfl, ⟨_, rfl⟩, fun _ => ?_⟩
      simpa using covers_pushed d.aliasedEvents _ m
  · rw [note_anchored_scalar hpos] at hstep
    refine ⟨_, .single hstep, rfl, hr, rfl, ?_, ⟨_, rfl⟩, fun _ => ?_⟩
    · refine Knows.bind (d := { d with aliasedEvents := d.aliasedEvents ++ [_] })
        (hk.append rfl rfl) hpos (.nil (Nat.le_refl _)) rfl rfl
    · simpa using covers_pushed d.aliasedEvents _ m

theorem alias_reads {id : Nat} {m : Marker} (hr : d.replayingAlias = [])
    (hp : d.parser = .ok (.alias id, m) :: rest) (hk : Knows d a) :
    ∃ d', Read d ((a.lookup id).getD []) a rest d' := by
  have hstep : Decoder.step d = .again (Decoder.replay { d with parser := rest } id) :=
    step_parse hr hp
  rcases hk id with ⟨ha, hd⟩ | ⟨es, r, ha, hd, hc⟩
  · rw [ha]
    rw [Decoder.replay, hd] at hstep
    refine ⟨_, .again hstep (.refl _), rfl, hr, rfl, hk, ⟨[], by simp⟩, fun _ => ?_⟩
    exact .nil (Nat.le_refl _)
  · rw [ha, Option.getD_some]
    rw [Decoder.replay, hd] at hstep
    by_cases hs : d.referenceStack = []
    · simp only [hs, List.isEmpty_nil, if_true] at hstep
      refine ⟨{ d with parser := rest }, .again hstep ?_, rfl, hr, rfl, hk, ⟨[], by simp⟩,
        fun h => absurd hs h⟩
      simpa [hr, hs] using Covers.emits (d := { d with parser := rest }) hc []
    · have hempty : d.referenceStack.isEmpty = false := by simpa using hs
      simp only [hempty, Bool.false_eq_true, if_false] at hstep
      have hcovers := hc.append [.alias r]
      refine ⟨{ d with parser := rest, aliasedEvents := d.aliasedEvents ++ [.alias r] },
        .again hstep ?_, rfl, hr, rfl, hk.append rfl rfl, ⟨_, rfl⟩, fun _ => ?_⟩
      · simpa [hr] using Covers.emits (d := { d with
          parser := rest, aliasedEvents := d.aliasedEvents ++ [.alias r] }) hcovers []
      · have hnil : Covers (d.aliasedEvents ++ [.alias r])
            ⟨d.aliasedEvents.length + 1, d.aliasedEvents.length + 1⟩ [] := .nil (Nat.le_refl _)
        simpa using Covers.alias (r := ⟨d.aliasedEvents.length, d.aliasedEvents.length + 1⟩)
          (by simp) (by simp) hcovers hnil

/-- The start, the items and the end of a collection follow each other. -/
theorem covers_collection {buffer more : List AliasOrEvent} {inner : List Delivered}
    {e : YamlEvent} {m : Marker} (e' : YamlEvent) (m' : Marker)
    (h : Covers (buffer ++ [.event e m] ++ more)
      ⟨buffer.length + 1, buffer.length + 1 + more.length⟩ inner) :
    Covers (buffer ++ [.event e m] ++ more ++ [.event e' m'])
      ⟨buffer.length, buffer.length + 1 + more.length + 1⟩ ((e, m) :: (inner ++ [(e', m')])) := by
  have hstop := covers_pushed (buffer ++ [.event e m] ++ more) e' m'
  simp only [List.length_append, List.length_singleton] at hstop
  have hinner := (h.append [.event e' m']).join (by simp) hstop (Nat.le_succ _)
  refine .event (by simp only; omega) ?_ hinner
  rw [List.getElem?_append_left (by simp), List.getElem?_append_left (by simp)]
  simp

theorem collection_reads {anchor : Nat} {isMapping : Bool} {start stop : Marker}
    {items : List Node} (hr : d.replayingAlias = [])
    (hp : d.parser = .ok (startParseEvent isMapping anchor, start) ::
      ((itemEvents items).map .ok ++ .ok (stopParseEvent isMapping, stop) :: rest))
    (hk : Knows d a)
    (hitems : ∀ {d : Decoder} {a : Anchors} {rest : List (Except String (YamlParseEvent × Marker))},
      d.replayingAlias = [] → d.parser = (itemEvents items).map .ok ++ rest → Knows d a →
        ∃ d', Read d (expandItems noCopy a items).1 (expandItems noCopy a items).2 rest d') :
    ∃ d', Read d ((Node.collection anchor isMapping start items stop).expand noCopy a).1
      ((Node.collection anchor isMapping start items stop).expand noCopy a).2 rest d' := by
  have hfirst := step_yield anchor (startEvent isMapping) hr hp
    (parse_start isMapping anchor start)
  have hlast : ∀ {d : Decoder}, d.replayingAlias = [] →
      d.parser = .ok (stopParseEvent isMapping, stop) :: rest →
      Decoder.step d = .yield (stopEvent isMapping, stop)
        (Decoder.note { d with parser := rest } 0 (stopEvent isMapping) stop) :=
    fun hr hp => step_yield 0 _ hr hp (parse_stop isMapping stop)
  simp only [Node.expand]
  generalize hinner : (itemEvents items).map .ok ++ .ok (stopParseEvent isMapping, stop) :: rest =
    inner at *
  rcases Nat.eq_zero_or_pos anchor with rfl | hpos
  · by_cases hs : d.referenceStack = []
    · -- outside of references nothing is noted
      rw [note_outer (by simpa using hs)] at hfirst
      obtain ⟨d₂, h⟩ := hitems (d := { d with parser := inner }) hr hinner.symm hk
      have hstop := hlast h.replaying h.parser
      rw [note_outer (d := { d₂ with parser := rest }) (h.stack.trans hs)] at hstop
      refine ⟨_, .yield hfirst (h.emits.trans (.single hstop)), rfl, h.replaying, h.stack, h.knows,
        h.grows, fun h => absurd hs h⟩
    · rw [note_inner_start (by simpa using hs)] at hfirst
      obtain ⟨d₂, h⟩ := hitems (d :=
        { d with parser := inner
                 aliasedEvents := d.aliasedEvents ++ [.event (startEvent isMapping) start]
                 referenceStack := none :: d.referenceStack }) hr hinner.symm (hk.append rfl rfl)
      have hstop := hlast h.replaying h.parser
      rw [note_inner_stop (d := { d₂ with parser := rest }) h.stack] at hstop
      obtain ⟨more, hmore⟩ := h.grows
      have hcovers := h.covers (by simp)
      refine ⟨_, .yield hfirst (h.emits.trans (.single hstop)), rfl, h.replaying, rfl,
        h.knows.append rfl rfl, ⟨[.event (startEvent isMapping) start] ++ more ++
          [.event (stopEvent isMapping) stop], ?_⟩, fun _ => ?_⟩
      · simp only [hmore, List.append_assoc]
      · simp only [hmore, List.length_append, List.length_singleton] at hcovers ⊢
        exact covers_collection _ _ hcovers
  · rw [note_anchored_start hpos] at hfirst
    obtain ⟨d₂, h⟩ := hitems (d :=
      { d with parser := inner
               aliasedEvents := d.aliasedEvents ++ [.event (startEvent isMapping) start]
               referenceStack := some (anchor, d.aliasedEvents.length) :: d.referenceStack })
      hr hinner.symm (hk.append rfl rfl)
    have hstop := hlast h.replaying h.parser
    rw [note_anchored_stop (d := { d₂ with parser := rest }) h.stack] at hstop
    obtain ⟨more, hmore⟩ := h.grows
    have hcovers := h.covers (by simp)
    simp only [hmore, List.length_append, List.length_singleton] at hcovers
    have hall := covers_collection (stopEvent isMapping) stop hcovers
    refine ⟨_, .yield hfirst (h.emits.trans (.single hstop)), rfl, h.replaying, rfl, ?_,
      ⟨[.event (startEvent isMapping) start] ++ more ++ [.event (stopEvent isMapping) stop], ?_⟩,
      fun _ => ?_⟩
    · refine Knows.bind (d := { d₂ with aliasedEvents := d₂.aliasedEvents ++ [_] })
        (h.knows.append rfl rfl) hpos ?_ rfl rfl
      simpa only [hmore, List.length_append, List.length_singleton] using hall
    · simp only [hmore, List.append_assoc]
    · simpa only [hmore, List.length_append, List.length_singleton] using hall

mutual

/-- The decoder delivers a node with nothing in place of the scalars that aliases stand for. -/
theorem Node.reads : ∀ (n : Node) {d : Decoder} {a : Anchors}
    {rest : List (Except String (YamlParseEvent × Marker))}, d.replayingAlias = [] →
    d.parser = n.events.map .ok ++ rest → Knows d a →
      ∃ d', Read d (n.expand noCopy a).1 (n.expand noCopy a).2 rest d'
  | .scalar anchor s style tag m, d, a, rest, hr, hp, hk => by
    simp only [Node.expand]
    exact scalar_reads hr (by simpa [Node.events] using hp) hk
  | .alias id m, d, a, rest, hr, hp, hk => by
    simp only [Node.expand]
    exact alias_reads hr (by simpa [Node.events] using hp) hk
  | .collection anchor isMapping start items stop, d, a, rest, hr, hp, hk =>
    collection_reads hr (by simpa [Node.events] using hp) hk (itemsRead items)

theorem itemsRead : ∀ (ns : List Node) {d : Decoder} {a : Anchors}
    {rest : List (Except String (YamlParseEvent × Marker))}, d.replayingAlias = [] →
    d.parser = (itemEvents ns).map .ok ++ rest → Knows d a →
      ∃ d', Read d (expandItems noCopy a ns).1 (expandItems noCopy a ns).2 rest d'
  | [], d, a, rest, hr, hp, hk => by
    refine ⟨d, .refl d, by simpa [itemEvents] using hp, hr, rfl, hk, ⟨[], by simp⟩, fun _ => ?_⟩
    exact .nil (Nat.le_refl _)
  | n :: ns, d, a, rest, hr, hp, hk => by
    simp only [expandItems]
    have hp' : d.parser = n.events.map .ok ++ ((itemEvents ns).map .ok ++ rest) := by
      simpa [itemEvents] using hp
    obtain ⟨d₁, h₁⟩ := Node.reads n hr hp' hk
    obtain ⟨d₂, h₂⟩ := itemsRead ns h₁.replaying h₁.parser h₁.knows
    obtain ⟨more, hmore⟩ := h₁.grows
    obtain ⟨more', hmore'⟩ := h₂.grows
    refine ⟨d₂, h₁.emits.trans h₂.emits, h₂.parser, h₂.replaying, h₂.stack.trans h₁.stack, h₂.knows,
      ⟨more ++ more', by rw [hmore', hmore, List.append_assoc]⟩, fun hs => ?_⟩
    have hfirst := (h₁.covers hs).append more'
    have hrest := h₂.covers (by rwa [h₁.stack])
    rw [← hmore'] at hfirst
    exact hfirst.join (by simp [hmore]) hrest (by simp [hmore'])

end

/-- What the decoder emits up to the end of the document. -/
theorem stream_emits (n : Node) (start stop : Marker)
    (rest : List (Except String (YamlParseEvent × Marker))) :
    ∃ d, Emits Decoder.step (.new (n.stream start stop rest)) (n.expand noCopy []).1 d ∧
      d.replayingAlias = [] ∧ d.parser = .ok (.documentEnd, stop) :: rest := by
  obtain ⟨d, hd⟩ := Node.reads n (d := .new (n.events.map .ok ++ .ok (.documentEnd, stop) :: rest))
    rfl rfl (knows_new _)
  exact ⟨d, .again rfl (.again rfl hd.emits), hd.replaying, hd.parser⟩

theorem stream_delivers (n : Node) (start stop : Marker)
    (rest : List (Except String (YamlParseEvent × Marker))) :
    Delivers Decoder.step ⟨.new (n.stream start stop rest), none⟩ (n.expand noCopy []).1 := by
  obtain ⟨d, hd, hr, hp⟩ := stream_emits n start stop rest
  exact delivers_of_emits hd (step_parse hr hp)

end Reads

/-- A scalar is copied as it is. -/
def ownCopy (e : Delivered) : List Delivered := [e]

mutual

/-- No alias stands for a scalar, which is the only node of one event. -/
def Node.SparesScalars (a : Anchors) : Node → Prop
  | .scalar .. => True
  | .alias id _ => ∀ e, a.lookup id ≠ some [e]
  | .collection _ _ _ items _ => ItemsSpareScalars a items

def ItemsSpareScalars (a : Anchors) : List Node → Prop
  | [] => True
  | n :: ns => n.SparesScalars a ∧ ItemsSpareScalars (n.expand ownCopy a).2 ns

end

section Expand

variable {a b : Anchors}

/-- Two lists of anchors that are alike, and whose events are related. -/
def Anchors.Alike (r : List Delivered → List Delivered → Prop) (a b : Anchors) : Prop :=
  List.Forall₂ (fun p q => p.1 = q.1 ∧ r p.2 q.2) a b

theorem Anchors.Alike.lookup {r : List Delivered → List Delivered → Prop} (h : a.Alike r b)
    (id : Nat) : a.lookup id = none ∧ b.lookup id = none ∨
      ∃ es fs, a.lookup id = some es ∧ b.lookup id = some fs ∧ r es fs := by
  induction h with
  | nil => exact .inl ⟨rfl, rfl⟩
  | @cons p q a b hpq _ ih =>
    obtain ⟨i, es⟩ := p
    obtain ⟨j, fs⟩ := q
    obtain ⟨rfl, hr⟩ := hpq
    simp only [List.lookup_cons]
    cases id == i with
    | true => exact .inr ⟨es, fs, rfl, rfl, hr⟩
    | false => exact ih

theorem Anchors.Alike.bind {r : List Delivered → List Delivered → Prop} (h : a.Alike r b)
    (anchor : Nat) {es fs : List Delivered} (hr : r es fs) :
    (a.bind anchor es).Alike r (b.bind anchor fs) := by
  rw [Anchors.bind, Anchors.bind]
  split
  · exact .cons ⟨rfl, hr⟩ h
  · exact h

/-- The copies of the decoder are never longer, and those of scalars are empty. -/
def Loses (es fs : List Delivered) : Prop :=
  es.length ≤ fs.length ∧ ∀ e, fs = [e] → es = []

/-- The copies of the decoder are right, except for scalars. -/
def Keeps (es fs : List Delivered) : Prop := es = fs ∨ ∃ e, fs = [e]

mutual

/-- The decoder never delivers too much, and too little where an alias stands for a scalar. -/
theorem Node.expand_loses : ∀ (n : Node) {a b : Anchors}, a.Alike Loses b →
    (n.expand noCopy a).1.length ≤ (n.expand ownCopy b).1.length ∧
      (¬n.SparesScalars b → (n.expand noCopy a).1.length < (n.expand ownCopy b).1.length) ∧
      (n.expand noCopy a).2.Alike Loses (n.expand ownCopy b).2
  | .scalar anchor s style tag m, a, b, h => by
    refine ⟨le_rfl, fun hn => absurd trivial hn, ?_⟩
    exact h.bind anchor ⟨by simp [noCopy], fun _ _ => rfl⟩
  | .alias id m, a, b, h => by
    simp only [Node.expand, Node.SparesScalars, not_forall, not_not]
    rcases h.lookup id with ⟨ha, hb⟩ | ⟨es, fs, ha, hb, hle, hscalar⟩
    · exact ⟨by simp [ha, hb], by simp [hb], h⟩
    · refine ⟨by simpa [ha, hb] using hle, ?_, h⟩
      rintro ⟨e, he⟩
      obtain rfl := Option.some.inj (hb.symm.trans he)
      simp [ha, hb, hscalar e rfl]
  | .collection anchor isMapping start items stop, a, b, h => by
    obtain ⟨hle, hlt, henv⟩ := itemsExpand_loses items h
    simp only [Node.expand, Node.SparesScalars, List.length_cons, List.length_append]
    refine ⟨by omega, fun hn => ?_, henv.bind anchor ⟨?_, fun e he => ?_⟩⟩
    · have := hlt hn
      omega
    · simpa using hle
    · simp at he

theorem itemsExpand_loses : ∀ (ns : List Node) {a b : Anchors}, a.Alike Loses b →
    (expandItems noCopy a ns).1.length ≤ (expandItems ownCopy b ns).1.length ∧
      (¬ItemsSpareScalars b ns →
        (expandItems noCopy a ns).1.length < (expandItems ownCopy b ns).1.length) ∧
      (expandItems noCopy a ns).2.Alike Loses (expandItems ownCopy b ns).2
  | [], a, b, h => ⟨le_rfl, fun hn => absurd trivial hn, h⟩
  | n :: ns, a, b, h => by
    obtain ⟨hle, hlt, henv⟩ := Node.expand_loses n h
    obtain ⟨hle', hlt', henv'⟩ := itemsExpand_loses ns henv
    simp only [expandItems, ItemsSpareScalars, List.length_append]
    refine ⟨by omega, fun hn => ?_, henv'⟩
    rcases not_and_or.mp hn with hn | hn
    · have := hlt hn
      omega
    · have := hlt' hn
      omega

end

mutual

/-- If no alias stands for a scalar, the decoder delivers just what it should. -/
theorem Node.expand_keeps : ∀ (n : Node) {a b : Anchors}, a.Alike Keeps b → n.SparesScalars b →
    (n.expand noCopy a).1 = (n.expand ownCopy b).1 ∧
      (n.expand noCopy a).2.Alike Keeps (n.expand ownCopy b).2
  | .scalar anchor s style tag m, a, b, h, _ => ⟨rfl, h.bind anchor (.inr ⟨_, rfl⟩)⟩
  | .alias id m, a, b, h, hs => by
    simp only [Node.expand]
    rcases h.lookup id with ⟨ha, hb⟩ | ⟨es, fs, ha, hb, hk⟩
    · exact ⟨by rw [ha, hb], h⟩
    · rcases hk with rfl | ⟨e, rfl⟩
      · exact ⟨by rw [ha, hb], h⟩
      · exact absurd hb (hs e)
  | .collection anchor isMapping start items stop, a, b, h, hs => by
    obtain ⟨heq, henv⟩ := itemsExpand_keeps items h hs
    simp only [Node.expand, heq]
    exact ⟨trivial, henv.bind anchor (.inl rfl)⟩

theorem itemsExpand_keeps : ∀ (ns : List Node) {a b : Anchors}, a.Alike Keeps b →
    ItemsSpareScalars b ns → (expandItems noCopy a ns).1 = (expandItems ownCopy b ns).1 ∧
      (expandItems noCopy a ns).2.Alike Keeps (expandItems ownCopy b ns).2
  | [], a, b, h, _ => ⟨rfl, h⟩
  | n :: ns, a, b, h, hs => by
    obtain ⟨heq, henv⟩ := Node.expand_keeps n h hs.1
    obtain ⟨heq', henv'⟩ := itemsExpand_keeps ns henv hs.2
    simp only [expandItems, heq, heq']
    exact ⟨trivial, henv'⟩

end

/-- The copies of the decoder are right exactly if no alias stands for a scalar. -/
theorem expand_noCopy_iff (n : Node) :
    (n.expand noCopy []).1 = (n.expand ownCopy []).1 ↔ n.SparesScalars [] := by
  refine ⟨fun h => ?_, fun h => (Node.expand_keeps n .nil h).1⟩
  by_contra hn
  have hlt := (Node.expand_loses n .nil).2.1 hn
  rw [h] at hlt
  exact lt_irrefl _ hlt

/-- The decoder expands the aliases of a document exactly if none of them stands for a scalar. -/
theorem stream_expands_iff (n : Node) (start stop : Marker)
    (rest : List (Except String (YamlParseEvent × Marker))) :
    Delivers Decoder.step ⟨.new (n.stream start stop rest), none⟩ (n.expand ownCopy []).1 ↔
      n.SparesScalars [] := by
  have hdelivers := stream_delivers n start stop rest
  rw [← expand_noCopy_iff]
  constructor
  · intro h
    exact hdelivers.unique h
  · intro h
    rwa [← h]

/-- Every alias is expanded. -/
def AliasesExpand : Prop :=
  ∀ (n : Node) (start stop : Marker) (rest : List (Except String (YamlParseEvent × Marker))),
    Delivers Decoder.step ⟨.new (n.stream start stop rest), none⟩ (n.expand ownCopy []).1

/-- `[&a x, *a]` -/
def aliasOfScalar : Node :=
  .collection 0 false ⟨1, 1⟩ [.scalar 1 "x" .plain none ⟨1, 5⟩, .alias 1 ⟨1, 8⟩] ⟨1, 10⟩

/-- The second item of the list is missing. -/
theorem not_aliasesExpand : ¬AliasesExpand := by
  intro h
  have hfull := h aliasOfScalar ⟨1, 1⟩ ⟨2, 1⟩ []
  have hlossy := stream_delivers aliasOfScalar ⟨1, 1⟩ ⟨2, 1⟩ []
  have hlength := congrArg List.length (hfull.unique hlossy)
  have : (4 : Nat) = 3 := hlength
  omega

end Expand

end Pewpew.Yaml
