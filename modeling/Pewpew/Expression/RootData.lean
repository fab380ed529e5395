import Pewpew.Expression.Iterate

/-! What the templates among the segments of a path are evaluated on. -/
namespace Pewpew.SelectParser

/-- The indexes that the segments of a path give, in order, and what they lead to. `none` is a
segment that is passed over. -/
abbrev Trail := List (Option Index) × Except ExecutingError Cow

def Trail.cons (index : Option Index) (t : Trail) : Trail := (index :: t.1, t.2)

section Trail

variable (x : Externals) (noErr : Bool) (forEach : Option (List Cow)) (marker : Marker)

/-- The loop over the segments, where `on` chooses what a segment is evaluated on, of the value
reached so far. -/
def followSegments (on : Cow → Cow) : List PathSegment → Cow → Trail
  | [], json => ([], .ok json)
  | segment :: rest, json =>
    match segment.evaluate x (on json) forEach with
    | .error e => ([], .error e)
    | .ok index =>
      match indexStep json index noErr marker with
      | .error e => ([some index], .error e)
      | .ok v => .cons (some index) (followSegments on rest v)

/-- What an index selects of the tuple of `for_each`. -/
def tupleAt (tuple : List Cow) : Index → Cow
  | .position n => tuple[n]?.getD (.owned .null)
  | .key _ => .owned .null

/-- The trail of `Path::evaluate`: a template right after `for_each` is passed over. -/
def Path.trail : Path → Cow → Trail
  | .mk (.functionCall f) rest marker, d =>
    match f.evaluate x d noErr forEach with
    | .error e => ([], .error e)
    | .ok v => followSegments x noErr forEach marker Cow.borrow rest v
  | .mk (.ident s) rest marker, d =>
    match (if s = "for_each" then forEach else none) with
    | some tuple =>
      match rest with
      | [] => ([], .ok (.owned (.array (tuple.map Cow.val))))
      | .number n :: rest =>
        .cons (some (.position n)) (followSegments x noErr forEach marker Cow.borrow rest
          (tupleAt tuple (.position n)))
      | .string s :: rest =>
        .cons (some (.key s)) (followSegments x noErr forEach marker Cow.borrow rest
          (tupleAt tuple (.key s)))
      | .template _ :: rest =>
        .cons none (followSegments x noErr forEach marker Cow.borrow rest (.owned .null))
    | none =>
      match indexStep d (.key s) noErr marker with
      | .error e => ([], .error e)
      | .ok v => followSegments x noErr forEach marker Cow.borrow rest v
  | .mk (.value v) rest marker, _ =>
    followSegments x noErr forEach marker Cow.borrow rest (.borrowed v)

/-- The trail on which every segment is evaluated on the data that the path is evaluated on. -/
def Path.rootTrail : Path → Cow → Trail
  | .mk (.functionCall f) rest marker, d =>
    match f.evaluate x d noErr forEach with
    | .error e => ([], .error e)
    | .ok v => followSegments x noErr forEach marker (fun _ => d.borrow) rest v
  | .mk (.ident s) rest marker, d =>
    match (if s = "for_each" then forEach else none) with
    | some tuple =>
      match rest with
      | [] => ([], .ok (.owned (.array (tuple.map Cow.val))))
      | segment :: rest =>
        match segment.evaluate x d.borrow forEach with
        | .error e => ([], .error e)
        | .ok index =>
          .cons (some index) (followSegments x noErr forEach marker (fun _ => d.borrow) rest
            (tupleAt tuple index))
    | none =>
      match indexStep d (.key s) noErr marker with
      | .error e => ([], .error e)
      | .ok v => followSegments x noErr forEach marker (fun _ => d.borrow) rest v
  | .mk (.value v) rest marker, d =>
    followSegments x noErr forEach marker (fun _ => d.borrow) rest (.borrowed v)

/-- The segment gives on `v` what it gives on `d`: a number or a literal does, and a template where
the names that it reads have the same values. -/
def SameText (d v : Json) (segment : PathSegment) : Prop :=
  segment.evaluate x (.borrowed v) forEach = segment.evaluate x (.borrowed d) forEach

/-- Every segment gives, on the value that the segments before it select, what it gives on `d`. -/
def SegmentsAgree (d : Json) : List PathSegment → Cow → Prop
  | [], _ => True
  | segment :: rest, json => SameText x forEach d json.val segment ∧
    ∀ index v, segment.evaluate x (.borrowed d) forEach = .ok index →
      indexStep json index noErr marker = .ok v → SegmentsAgree d rest v

/-- The segments agree from the start value on, and no template follows a bound `for_each`. -/
def Path.Agrees : Path → Cow → Prop
  | .mk (.functionCall f) rest marker, d =>
    ∀ v, f.evaluate x d noErr forEach = .ok v → SegmentsAgree x noErr forEach marker d.val rest v
  | .mk (.ident s) rest marker, d =>
    match (if s = "for_each" then forEach else none) with
    | some tuple =>
      match rest with
      | [] => True
      | segment :: rest => (∀ t, segment ≠ .template t) ∧
        ∀ index, segment.evaluate x d.borrow forEach = .ok index →
          SegmentsAgree x noErr forEach marker d.val rest (tupleAt tuple index)
    | none => ∀ v, indexStep d (.key s) noErr marker = .ok v →
      SegmentsAgree x noErr forEach marker d.val rest v
  | .mk (.value v) rest marker, d => SegmentsAgree x noErr forEach marker d.val rest (.borrowed v)

end Trail

variable {x : Externals} {noErr : Bool} {forEach : Option (List Cow)} {marker : Marker}
  {d json : Cow} {segments : List PathSegment} {p : Path}

/-- The trail is that of the loop. -/
theorem followSegments_evaluate :
    (followSegments x noErr forEach marker Cow.borrow segments json).2 =
      indexJson2 x segments json noErr forEach marker := by
  induction segments generalizing json with
  | nil =>
    rw [followSegments, indexJson2]
  | cons segment rest ih =>
    rw [followSegments, indexJson2]
    cases segment.evaluate x json.borrow forEach with
    | error e => rfl
    | ok index =>
      change _ = (indexStep json index noErr marker).bind _
      cases hstep : indexStep json index noErr marker with
      | error e =>
        simp only [hstep]
        rfl
      | ok v =>
        simp only [hstep]
        exact ih

/-- The trail leads to the value of the path. -/
theorem trail_evaluate : (p.trail x noErr forEach d).2 = p.evaluate x d noErr forEach := by
  obtain ⟨start, rest, marker⟩ := p
  cases start with
  | functionCall f =>
    rw [Path.trail, Path.evaluate]
    cases f.evaluate x d noErr forEach with
    | error e => rfl
    | ok v => exact followSegments_evaluate
  | ident s =>
    rw [Path.trail, Path.evaluate]
    cases (if s = "for_each" then forEach else none) with
    | some tuple =>
      cases rest with
      | nil => rfl
      | cons segment rest => cases segment <;> exact followSegments_evaluate
    | none =>
      dsimp only
      cases indexStep d (.key s) noErr marker with
      | error e => rfl
      | ok v => exact followSegments_evaluate
  | value v =>
    rw [Path.trail, Path.evaluate]
    exact followSegments_evaluate

theorem cons_inj {index : Option Index} {t t' : Trail} : t.cons index = t'.cons index ↔ t = t' := by
  simp [Trail.cons, Prod.ext_iff]

/-- A trail tells what its first segment gave. -/
theorem followSegments_first {on on' : Cow → Cow} {segment : PathSegment} {rest : List PathSegment}
    (h : followSegments x noErr forEach marker on (segment :: rest) json =
      followSegments x noErr forEach marker on' (segment :: rest) json) :
    segment.evaluate x (on json) forEach = segment.evaluate x (on' json) forEach := by
  have hhead {on : Cow → Cow} {index : Index}
      (hi : segment.evaluate x (on json) forEach = .ok index) :
      (followSegments x noErr forEach marker on (segment :: rest) json).1.head? =
        some (some index) := by
    rw [followSegments, hi]
    dsimp only
    cases indexStep json index noErr marker <;> rfl
  have herror {on : Cow → Cow} {e : ExecutingError}
      (he : segment.evaluate x (on json) forEach = .error e) :
      followSegments x noErr forEach marker on (segment :: rest) json = ([], .error e) := by
    rw [followSegments, he]
  cases hj : segment.evaluate x (on json) forEach with
  | error e =>
    cases hd : segment.evaluate x (on' json) forEach with
    | error e' => simpa [herror hj, herror hd] using h
    | ok index =>
      have hi := hhead hd
      rw [← h, herror hj] at hi
      cases hi
  | ok index =>
    have hi := hhead hj
    cases hd : segment.evaluate x (on' json) forEach with
    | error e =>
      rw [h, herror hd] at hi
      cases hi
    | ok index' =>
      rw [h, hhead hd] at hi
      rw [Option.some.inj (Option.some.inj hi)]

/-- The loop goes the same way on its own values and on `d` exactly where the segments agree. -/
theorem followSegments_eq_iff :
    followSegments x noErr forEach marker Cow.borrow segments json =
        followSegments x noErr forEach marker (fun _ => d.borrow) segments json ↔
      SegmentsAgree x noErr forEach marker d.val segments json := by
  induction segments generalizing json with
  | nil => exact iff_of_true rfl trivial
  | cons segment rest ih =>
    by_cases hsame : segment.evaluate x json.borrow forEach = segment.evaluate x d.borrow forEach
    · rw [followSegments, followSegments, SegmentsAgree, SameText, ← Cow.borrow, ← Cow.borrow,
        hsame]
      cases hd : segment.evaluate x d.borrow forEach with
      | error e => exact iff_of_true rfl ⟨rfl, fun index v hi => by cases hi⟩
      | ok index =>
        dsimp only
        cases hstep : indexStep json index noErr marker with
        | error e =>
          refine iff_of_true rfl ⟨rfl, fun index' v hi hv => ?_⟩
          obtain rfl := Except.ok.inj hi
          cases hstep.symm.trans hv
        | ok v =>
          refine cons_inj.trans (ih.trans ⟨fun h => ⟨rfl, fun index' w hi hw => ?_⟩, fun h => ?_⟩)
          · obtain rfl := Except.ok.inj hi
            obtain rfl := Except.ok.inj (hstep.symm.trans hw)
            exact h
          · exact h.2 index v rfl hstep
    · exact iff_of_false (fun h => hsame (followSegments_first h)) fun h => hsame h.1

/-- A path reads its templated segments on the data exactly where they agree. -/
theorem trail_eq_rootTrail_iff : p.trail x noErr forEach d = p.rootTrail x noErr forEach d ↔
    p.Agrees x noErr forEach d := by
  obtain ⟨start, rest, marker⟩ := p
  cases start with
  | functionCall f =>
    rw [Path.trail, Path.rootTrail, Path.Agrees]
    cases f.evaluate x d noErr forEach with
    | error e => exact iff_of_true rfl fun v hv => by cases hv
    | ok v =>
      exact followSegments_eq_iff.trans
        ⟨fun h w hw => Except.ok.inj hw ▸ h, fun h => h v rfl⟩
  | ident s =>
    rw [Path.trail, Path.rootTrail, Path.Agrees]
    cases (if s = "for_each" then forEach else none) with
    | some tuple =>
      cases rest with
      | nil => exact iff_of_true rfl trivial
      | cons segment rest =>
        cases segment with
        | number n =>
          have hne (t : Template) : PathSegment.number n ≠ .template t := by simp
          refine cons_inj.trans (followSegments_eq_iff.trans ⟨fun h => ⟨hne, ?_⟩, fun h => ?_⟩)
          · exact fun index hi => Except.ok.inj hi ▸ h
          · exact h.2 _ rfl
        | string s =>
          have hne (t : Template) : PathSegment.string s ≠ .template t := by simp
          refine cons_inj.trans (followSegments_eq_iff.trans ⟨fun h => ⟨hne, ?_⟩, fun h => ?_⟩)
          · exact fun index hi => Except.ok.inj hi ▸ h
          · exact h.2 _ rfl
        | template t =>
          refine iff_of_false (fun h => ?_) fun h => h.1 t rfl
          dsimp only at h
          cases ht : (PathSegment.template t).evaluate x d.borrow forEach with
          | error e => simp [ht, Trail.cons] at h
          | ok index => simp [ht, Trail.cons] at h
    | none =>
      dsimp only
      cases indexStep d (.key s) noErr marker with
      | error e => exact iff_of_true rfl fun v hv => by cases hv
      | ok v =>
        exact followSegments_eq_iff.trans ⟨fun h w hw => Except.ok.inj hw ▸ h, fun h => h v rfl⟩
  | value v =>
    rw [Path.trail, Path.rootTrail, Path.Agrees]
    exact followSegments_eq_iff

/-- The path `a["${b}"]`. -/
def nestedPath : Path :=
  .mk (.ident "a")
    [.template (.mk [.expression (.value (.path (.mk (.ident "b") [] ⟨1, 1⟩)))] false)]
    ⟨1, 1⟩

/-- The name `b` is looked for in the value of `a`. -/
theorem not_trail_eq_rootTrail :
    ¬ ∀ (p : Path) (d : Cow) (noErr : Bool) (forEach : Option (List Cow)),
      p.trail .plain noErr forEach d = p.rootTrail .plain noErr forEach d := by
  intro h
  have hsame := congrArg Prod.fst (h nestedPath
    (.borrowed (.object [("a", .object [("x", .null)]), ("b", .string "x")])) false none)
  have hcode : (nestedPath.trail .plain false none
      (.borrowed (.object [("a", .object [("x", .null)]), ("b", .string "x")]))).1 =
        [some (.key "null")] := rfl
  have hroot : (nestedPath.rootTrail .plain false none
      (.borrowed (.object [("a", .object [("x", .null)]), ("b", .string "x")]))).1 =
        [some (.key "x")] := rfl
  rw [hcode, hroot] at hsame
  exact absurd hsame (by decide)

end Pewpew.SelectParser
