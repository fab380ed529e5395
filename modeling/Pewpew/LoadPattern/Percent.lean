import Pewpew.LoadPattern.Clock
import Pewpew.LoadPattern.Evaluate
import Pewpew.Stats.BucketSize

/-! The segments for a load pattern and a peak load, and when requests start by them. -/
namespace Pewpew.LoadPattern

open Config

/-- Hits per minute. -/
structure PerX where
  perMinute : ℚ

namespace PerX

def minute (min : ℚ) : PerX := ⟨min⟩

def second (sec : ℚ) : PerX := ⟨sec * 60⟩

def asPerSecond (p : PerX) : ℚ := p.perMinute / 60

end PerX

/-- A fraction of the peak load, in exact numbers; `none` is not finite. -/
def perX (peakLoad : HitsPer) (percent : F64) : Option PerX :=
  match peakLoad with
  | .minute m => percent.value.bind fun p => m.value.map fun n => .minute (p * n)
  | .second s => percent.value.bind fun p => s.value.map fun n => .second (p * n)

theorem secs_nonneg (secs : Nat) : (0 : ℚ) ≤ secs := Nat.cast_nonneg secs

variable (zeroX : ℚ → ℚ)

/-- The segment that `append_segment` makes. Where one of its ends is not finite, its line is `NaN`
or infinite, which `get_hps_at` takes for zero. -/
def segmentOf (start : Option PerX) (duration : Nat) (stop : Option PerX) : LinearSegment Linear :=
  match start, stop with
  | some start, some stop =>
    .new zeroX start.asPerSecond stop.asPerSecond duration (secs_nonneg duration)
  | _, _ => .new zeroX 0 0 duration (secs_nonneg duration)

/-- What the stream of an endpoint is made of. -/
def modInterval (peakLoad : HitsPer) : Config.LoadPattern → ModInterval Linear
  | .linear l =>
    l.pieces.foldl (fun m piece => m.appendSegment (segmentOf zeroX
      (perX peakLoad piece.startPercent) piece.duration (perX peakLoad piece.endPercent))) .new

/-- `get_hps_at`, as the stream reads it. -/
def hpsRate : Rate Linear := fun s x => (s.getHpsAt x).toNNRat

/-- The rate that the stream reads at a time of the pattern. -/
def ModInterval.hpsAt (m : ModInterval Linear) (t : ℚ) : ℚ :=
  ((Timeline.locate LinearSegment.duration m.segments t).map fun (s, x, _) => s.getHpsAt x).getD 0

/-! ### What a load pattern says -/

def hitsPerSecond : HitsPer → Option ℚ
  | .minute m => m.value.map (· / 60)
  | .second s => s.value

/-- The ramp that a time falls into, and the time since it began; an entry that does not say what it
starts from goes on from `last`. -/
def rampAt : (last : F64) → List Entry → ℚ → Option (LinearBuilderPiece × ℚ)
  | _, [], _ => none
  | last, e :: es, t =>
    if t < e.secs then some (⟨e.start.getD last, e.stop, e.secs⟩, t)
    else rampAt e.stop es (t - e.secs)

/-- The fraction of the peak load in hits per second. -/
def fractionOf (peakLoad : HitsPer) (percent : F64) : Option ℚ :=
  percent.value.bind fun p => (hitsPerSecond peakLoad).map (p * ·)

/-- Where a ramp starts and ends, in hits per second; with a number that is not finite it makes no
hits. -/
def rampEnds (peakLoad : HitsPer) (p : LinearBuilderPiece) : ℚ × ℚ :=
  match fractionOf peakLoad p.startPercent, fractionOf peakLoad p.endPercent with
  | some start, some stop => (start, stop)
  | _, _ => (0, 0)

/-- The rate on the line from the start of a ramp to its end. -/
def rampRate (peakLoad : HitsPer) (p : LinearBuilderPiece) (x : ℚ) : ℚ :=
  let (start, stop) := rampEnds peakLoad p
  start + (stop - start) * (x / p.duration)

def rampSlope (peakLoad : HitsPer) (p : LinearBuilderPiece) : ℚ :=
  ((rampEnds peakLoad p).2 - (rampEnds peakLoad p).1) / p.duration

/-- The rate of a ramp where its line makes less than one hit in its time. -/
def rampFloor (zeroX : ℚ → ℚ) (peakLoad : HitsPer) (p : LinearBuilderPiece) : ℚ :=
  if rampSlope peakLoad p = 0 then 0 else zeroX |rampSlope peakLoad p|

/-- The rate of the line, or the floor. -/
def floored (zeroX : ℚ → ℚ) (peakLoad : HitsPer) (p : LinearBuilderPiece) (x : ℚ) : ℚ :=
  if 1 ≤ rampRate peakLoad p x * p.duration then rampRate peakLoad p x
  else rampFloor zeroX peakLoad p

variable {zeroX} {peakLoad : HitsPer} {lb : LinearBuilder} {es : List Entry} {e : Entry}
  {last : F64} {t x : ℚ} {p : LinearBuilderPiece}

theorem asPerSecond_perX (peakLoad : HitsPer) (percent : F64) :
    (perX peakLoad percent).map PerX.asPerSecond = fractionOf peakLoad percent := by
  rw [fractionOf]
  cases hp : percent.value with
  | none => cases peakLoad <;> simp [perX, hp]
  | some p =>
    cases peakLoad with
    | minute m =>
      cases hm : m.value with
      | none => simp [perX, hitsPerSecond, hp, hm]
      | some n => simp [perX, hitsPerSecond, hp, hm, PerX.asPerSecond, PerX.minute, mul_div_assoc]
    | second s =>
      cases hs : s.value with
      | none => simp [perX, hitsPerSecond, hp, hs]
      | some n => simp [perX, hitsPerSecond, hp, hs, PerX.asPerSecond, PerX.second]

/-- The segment of a piece. -/
def pieceSegment (zeroX : ℚ → ℚ) (peakLoad : HitsPer) (piece : LinearBuilderPiece) :
    LinearSegment Linear :=
  segmentOf zeroX (perX peakLoad piece.startPercent) piece.duration
    (perX peakLoad piece.endPercent)

/-- The segment of a piece goes from the start of its ramp to the end. -/
theorem pieceSegment_eq : pieceSegment zeroX peakLoad p = .new zeroX (rampEnds peakLoad p).1
    (rampEnds peakLoad p).2 p.duration (secs_nonneg p.duration) := by
  rw [pieceSegment, rampEnds, ← asPerSecond_perX, ← asPerSecond_perX]
  cases perX peakLoad p.startPercent <;> cases perX peakLoad p.endPercent <;> rfl

@[simp] theorem duration_pieceSegment :
    (pieceSegment zeroX peakLoad p).duration = p.duration := by
  rw [pieceSegment_eq]
  rfl

theorem segments_foldl (pieces : List LinearBuilderPiece) (m : ModInterval Linear) :
    (pieces.foldl (fun m piece => m.appendSegment (pieceSegment zeroX peakLoad piece)) m).segments =
      m.segments ++ pieces.map (pieceSegment zeroX peakLoad) := by
  induction pieces generalizing m with
  | nil => exact (List.append_nil _).symm
  | cons piece pieces ih =>
    rw [List.foldl_cons, ih, List.map_cons]
    exact List.append_assoc ..

theorem segments_modInterval : (modInterval zeroX peakLoad (.linear lb)).segments =
    lb.pieces.map (pieceSegment zeroX peakLoad) :=
  segments_foldl lb.pieces .new

theorem total_pieces (zeroX : ℚ → ℚ) (peakLoad : HitsPer) (last : F64) (es : List Entry) :
    total ((piecesFrom last es).map (pieceSegment zeroX peakLoad)) = totalSecs es := by
  induction es generalizing last with
  | nil => rfl
  | cons e es ih =>
    rw [piecesFrom, List.map_cons, total, Timeline.total_cons, duration_pieceSegment,
      totalSecs_cons, Nat.cast_add]
    exact congrArg _ (ih e.stop)

theorem duration_modInterval (zeroX : ℚ → ℚ) (peakLoad : HitsPer)
    (hpieces : lb.pieces = piecesFrom (F64.ofInt 0) es) :
    (modInterval zeroX peakLoad (.linear lb)).duration = totalSecs es := by
  rw [ModInterval.duration_eq, segments_modInterval, hpieces, total_pieces]

/-- A piece runs in a line from its first fraction of the peak load to its last one. -/
theorem lineAt_piece : (pieceSegment zeroX peakLoad p).lineAt x = rampRate peakLoad p x := by
  simp only [pieceSegment_eq, LinearSegment.lineAt, LinearSegment.new, rampRate]
  ring

/-- From one hit in the time of the ramp on the floor leaves the rate alone. -/
theorem getHpsAt_piece (hpos : (0 : ℚ) < p.duration) (x : ℚ) :
    (pieceSegment zeroX peakLoad p).getHpsAt x = floored zeroX peakLoad p x := by
  have hfloor : (pieceSegment zeroX peakLoad p).line.minY.getD 0 = rampFloor zeroX peakLoad p := by
    simp only [pieceSegment_eq, LinearSegment.new, rampFloor, rampSlope]
    split <;> simp [*]
  have hlimit : (pieceSegment zeroX peakLoad p).line.yLimit = (p.duration : ℚ)⁻¹ := by
    rw [pieceSegment_eq]
    rfl
  rw [LinearSegment.getHpsAt, duration_pieceSegment, if_neg hpos.ne', lineAt_piece, hlimit, hfloor,
    floored]
  by_cases hone : 1 ≤ rampRate peakLoad p x * p.duration
  · rw [if_pos hone, if_neg]
    rwa [not_lt, inv_le_iff_one_le_mul₀ hpos]
  · rw [if_neg hone, if_pos]
    rwa [← not_le, inv_le_iff_one_le_mul₀ hpos]

/-- The segment that a time falls into is that of its ramp. -/
theorem locate_pieces (zeroX : ℚ → ℚ) (peakLoad : HitsPer) (last : F64) (es : List Entry) (t : ℚ) :
    (Timeline.locate LinearSegment.duration
      ((piecesFrom last es).map (pieceSegment zeroX peakLoad)) t).map (fun (s, x, _) => (s, x)) =
      (rampAt last es t).map fun (p, x) => (pieceSegment zeroX peakLoad p, x) := by
  induction es generalizing last t with
  | nil => rfl
  | cons e es ih =>
    rw [piecesFrom, List.map_cons, rampAt, Timeline.locate, duration_pieceSegment]
    split
    · rfl
    · exact ih e.stop (t - e.secs)

theorem locate_of_ramp (zeroX : ℚ → ℚ) (peakLoad : HitsPer) (h : rampAt last es t = some (p, x)) :
    ∃ rest, Timeline.locate LinearSegment.duration
      ((piecesFrom last es).map (pieceSegment zeroX peakLoad)) t =
        some (pieceSegment zeroX peakLoad p, x, rest) := by
  have hlocate := locate_pieces zeroX peakLoad last es t
  rw [h, Option.map_some] at hlocate
  obtain ⟨⟨s, y, rest⟩, hfound, heq⟩ := Option.map_eq_some_iff.mp hlocate
  obtain ⟨rfl, rfl⟩ := Prod.mk.inj heq
  exact ⟨rest, hfound⟩

theorem exists_ramp (last : F64) (ht : 0 ≤ t) (hlt : t < totalSecs es) :
    ∃ p x, rampAt last es t = some (p, x) := by
  induction es generalizing last t with
  | nil => exact absurd hlt (not_lt.mpr ht)
  | cons e es ih =>
    rw [rampAt]
    split
    · exact ⟨_, _, rfl⟩
    · next hin =>
      rw [totalSecs_cons, Nat.cast_add] at hlt
      exact ih e.stop (sub_nonneg.mpr (not_lt.mp hin)) (by linarith)

theorem ramp_bounds (ht : 0 ≤ t) (h : rampAt last es t = some (p, x)) :
    0 ≤ x ∧ x < p.duration := by
  induction es generalizing last t with
  | nil => cases h
  | cons e es ih =>
    rw [rampAt] at h
    split at h
    · next hin =>
      cases h
      exact ⟨ht, hin⟩
    · next hin => exact ih (sub_nonneg.mpr (not_lt.mp hin)) h

/-- At each time before its end the stream reads the rate of the ramp at that time. -/
theorem hpsAt_modInterval (zeroX : ℚ → ℚ) (peakLoad : HitsPer)
    (hpieces : lb.pieces = piecesFrom (F64.ofInt 0) es) (ht : 0 ≤ t)
    (h : rampAt (F64.ofInt 0) es t = some (p, x)) :
    (modInterval zeroX peakLoad (.linear lb)).hpsAt t = floored zeroX peakLoad p x := by
  obtain ⟨rest, hfound⟩ := locate_of_ramp zeroX peakLoad h
  obtain ⟨hx, hlt⟩ := ramp_bounds ht h
  rw [ModInterval.hpsAt, segments_modInterval, hpieces, hfound]
  exact getHpsAt_piece (hx.trans_lt hlt) _

/-- Where a call is made at a time of the pattern whose rate makes a hit at least in the time of the
ramp, the next request starts after the interval for that rate, unless that is after the end. -/
theorem expected_pattern {startAt now : ℚ} (hpieces : lb.pieces = piecesFrom (F64.ofInt 0) es)
    (ht : 0 ≤ t - (now - startAt))
    (h : rampAt (F64.ofInt 0) es (t - (now - startAt)) = some (p, x))
    (hone : 1 ≤ rampRate peakLoad p x * p.duration) :
    (modInterval zeroX peakLoad (.linear lb)).expected hpsRate startAt now t =
      (some (t + 1 / rampRate peakLoad p x)).filter (· ≤ now + totalSecs es) := by
  obtain ⟨rest, hfound⟩ := locate_of_ramp zeroX peakLoad h
  obtain ⟨hx, hlt⟩ := ramp_bounds ht h
  have hpos : 0 < rampRate peakLoad p x := by
    by_contra hle
    have := mul_nonpos_of_nonpos_of_nonneg (not_lt.mp hle) (secs_nonneg p.duration)
    linarith
  have hrate : ((hpsRate (pieceSegment zeroX peakLoad p) x : ℚ≥0) : ℚ) = rampRate peakLoad p x := by
    rw [hpsRate, getHpsAt_piece (hx.trans_lt hlt), floored, if_pos hone,
      Rat.coe_toNNRat _ hpos.le]
  have hrates : 0 < hpsRate (pieceSegment zeroX peakLoad p) x := by
    rw [← NNRat.coe_pos, hrate]
    exact hpos
  rw [ModInterval.expected, duration_modInterval zeroX peakLoad hpieces, segments_modInterval,
    hpieces, hfound, Option.bind_some, startAfter, if_pos hrates, hrate]

/-! ### The longest wait -/

theorem duration_le_total (h : p ∈ piecesFrom last es) : p.duration ≤ totalSecs es := by
  induction es generalizing last with
  | nil => cases h
  | cons e es ih =>
    rw [totalSecs_cons]
    rcases List.mem_cons.mp h with rfl | h
    · exact Nat.le_add_right _ _
    · exact (ih h).trans (Nat.le_add_left _ _)

/-- The clock has the ends of a pattern and, from each call on, a longest wait, which is that of the
whole pattern or of the floor of a ramp, and a `Duration`. -/
structure Fits (c : Clock) (zeroX : ℚ → ℚ) (peakLoad : HitsPer) (es : List Entry)
    (startAt now longest : ℚ) (ts : List ℚ) : Prop where
  first : c.first ≤ now - startAt
  last : now + totalSecs es ≤ c.last
  calls : ∀ t ∈ ts, t + longest ≤ c.last
  duration : longest < 2 ^ 64
  whole : totalSecs es ≤ longest
  floors : ∀ p ∈ piecesFrom (F64.ofInt 0) es, rampFloor zeroX peakLoad p ≠ 0 →
    (rampFloor zeroX peakLoad p)⁻¹ ≤ longest

theorem waitsAtMost_piece {longest : ℚ} (hwhole : (p.duration : ℚ) ≤ longest)
    (hfloor : rampFloor zeroX peakLoad p ≠ 0 → (rampFloor zeroX peakLoad p)⁻¹ ≤ longest) :
    (pieceSegment zeroX peakLoad p).WaitsAtMost hpsRate longest := by
  refine ⟨duration_pieceSegment.trans_le hwhole, fun x _ hne => ?_⟩
  have hrate : 0 < (pieceSegment zeroX peakLoad p).getHpsAt x :=
    Rat.toNNRat_pos.mp (pos_iff_ne_zero.mpr hne)
  have hpos : (0 : ℚ) < p.duration := by
    refine lt_of_le_of_ne (secs_nonneg p.duration) fun hzero => ?_
    rw [LinearSegment.getHpsAt, duration_pieceSegment, if_pos hzero.symm] at hrate
    exact lt_irrefl _ hrate
  rw [hpsRate, Rat.coe_toNNRat _ hrate.le]
  rw [getHpsAt_piece hpos, floored] at hrate ⊢
  split_ifs at hrate ⊢ with hone
  · refine le_trans ?_ hwhole
    rwa [inv_le_iff_one_le_mul₀' hrate]
  · exact hfloor hrate.ne'

/-- No segment of a stream that fits has a longer wait. -/
theorem Fits.waits {c : Clock} {startAt now longest : ℚ} {ts : List ℚ}
    {state : StreamState Linear} (hfits : Fits c zeroX peakLoad es startAt now longest ts)
    (hpieces : lb.pieces = piecesFrom (F64.ofInt 0) es)
    (hs : state ∈ (modInterval zeroX peakLoad (.linear lb)).setup startAt now) :
    ∀ segment ∈ state.left, segment.WaitsAtMost hpsRate longest := by
  rw [left_setup hs, segments_modInterval, hpieces]
  intro segment hmem
  obtain ⟨p, hp, rfl⟩ := List.mem_map.mp hmem
  refine waitsAtMost_piece (le_trans ?_ hfits.whole) (hfits.floors p hp)
  exact_mod_cast duration_le_total hp

section Evaluated

variable {D : DecimalDigits} {ext : SelectParser.Externals} {g : SelectParser.Grammar}
  {depth : Nat} {vars : SelectParser.Object} {b : Build} {l : PreLoadPattern}
  {pattern : Config.LoadPattern}

/-- What the templates of an entry evaluate to is one entry only. -/
theorem rightUnique_of :
    Relator.RightUnique (Entry.Of D ext g depth vars b) := by
  rintro ⟨pre⟩ ⟨start, stop, secs⟩ ⟨start', stop', secs'⟩ ⟨h₁, h₂, h₃⟩ ⟨h₁', h₂', h₃'⟩
  obtain rfl := Except.ok.inj (h₁.symm.trans h₁')
  obtain rfl := Except.ok.inj (h₂.symm.trans h₂')
  obtain rfl := Except.ok.inj (h₃.symm.trans h₃')
  rfl

/-- The pieces of a load pattern whose entries are known. -/
theorem evaluate_pieces (h : l.evaluate D ext g depth vars b = .ok (.linear lb))
    (hes : List.Forall₂ (Entry.Of D ext g depth vars b) l.inner es) :
    lb.pieces = piecesFrom (F64.ofInt 0) es ∧ lb.duration = totalSecs es := by
  obtain ⟨es', hes', hbuilt⟩ := evaluate_built h
  obtain rfl := Relator.RightUnique.forall₂ rightUnique_of hes' hes
  exact hbuilt

/-- What the stream is made of for a load pattern of the given entries. -/
structure Compiled (zeroX : ℚ → ℚ) (peakLoad : HitsPer) (pattern : Config.LoadPattern)
    (es : List Entry) : Prop where
  duration : pattern.duration = totalSecs es
  streamed : (modInterval zeroX peakLoad pattern).duration = totalSecs es
  rate : ∀ t : ℚ, 0 ≤ t → t < totalSecs es → ∃ p x, rampAt (F64.ofInt 0) es t = some (p, x) ∧
    (modInterval zeroX peakLoad pattern).hpsAt t = floored zeroX peakLoad p x

/-- A load pattern takes the time of its entries. At each time before its end its stream has,
exactly, the fraction of the peak load that the entry at that time says: on a line from its `from`,
or where it has none from the `to` of the entry before, to its `to`; and the floor, where the line
makes less than one hit in the time of the entry. -/
theorem evaluated_rates (h : l.evaluate D ext g depth vars b = .ok pattern)
    (hes : List.Forall₂ (Entry.Of D ext g depth vars b) l.inner es) (zeroX : ℚ → ℚ)
    (peakLoad : HitsPer) : Compiled zeroX peakLoad pattern es := by
  obtain ⟨lb⟩ := pattern
  obtain ⟨hpieces, hduration⟩ := evaluate_pieces h hes
  refine ⟨hduration, duration_modInterval zeroX peakLoad hpieces, fun t ht hlt => ?_⟩
  obtain ⟨p, x, hramp⟩ := exists_ramp (F64.ofInt 0) ht hlt
  exact ⟨p, x, hramp, hpsAt_modInterval zeroX peakLoad hpieces ht hramp⟩

section Ramp

open SelectParser StatsCollector Fallible

/-- From nothing to the whole peak load in a minute. -/
def rampPattern : PreLoadPattern :=
  ⟨[.linear ⟨none, .new ⟨"100%", ⟨1, 1⟩⟩, .new ⟨"60s", ⟨1, 1⟩⟩⟩], ⟨1, 1⟩⟩

def rampEntry : Entry := ⟨none, F64.ofInt 1, 60⟩

def ramp : Config.LoadPattern := .linear ⟨[⟨F64.ofInt 0, F64.ofInt 1, 60⟩], 60⟩

theorem rampPattern_whole :
    PrePercent.fraction arabicDigits .plain onlyNames 1 [] (.new ⟨"100%", ⟨1, 1⟩⟩) =
      .ok (F64.ofInt 1) := by
  have hwhole : IsPercent arabicDigits "100%" ⟨['1', '0', '0'], none⟩ :=
    ⟨⟨by decide, by simp [arabicDigits], by simp, by simp⟩, rfl⟩
  have hplain : Decimal.Plain ⟨['1', '0', '0'], none⟩ := by simp [Decimal.Plain, Decimal.text]
  have hvalue : Decimal.value arabicDigits ⟨['1', '0', '0'], none⟩ = 100 := by
    simp [Decimal.value, DecimalDigits.number, arabicDigits]
  refine map_ok.mpr ⟨F64.ofInt 100, bind_ok.mpr ⟨"100%", mapError_ok.mpr (evaluate_text _), ?_⟩, ?_⟩
  · rw [percentFromString_ok hwhole hplain, hvalue]
    rfl
  · decide +kernel

theorem rampPattern_secs :
    PreDuration.evaluate .plain onlyNames 1 [] arabicBuild (.new ⟨"60s", ⟨1, 1⟩⟩) = .ok 60 := by
  have htext : "60s".toList = "60".toList ++ ['s'] := rfl
  exact evaluate_seconds htext (by decide) (by decide) (by decide)

theorem rampPattern_entries :
    List.Forall₂ (Entry.Of arabicDigits .plain onlyNames 1 [] arabicBuild) rampPattern.inner
      [rampEntry] :=
  .cons ⟨rfl, rampPattern_whole, rampPattern_secs⟩ .nil

theorem rampPattern_evaluates :
    rampPattern.evaluate arabicDigits .plain onlyNames 1 [] arabicBuild = .ok ramp := by
  refine bind_ok.mpr ⟨(some ⟨[⟨F64.ofInt 0, F64.ofInt 1, 60⟩], 60⟩, F64.ofInt 1), ?_, rfl⟩
  refine bind_ok.mpr ⟨_, ?_, rfl⟩
  exact bind_ok.mpr ⟨F64.ofInt 0, rfl, bind_ok.mpr ⟨F64.ofInt 1, rampPattern_whole,
    bind_ok.mpr ⟨60, mapError_ok.mpr rampPattern_secs, bind_ok.mpr ⟨_, rfl, rfl⟩⟩⟩⟩

/-- The floor of the slope that the ramp has with 72 hits per minute: a tenth for a fiftieth. -/
def rampZeroX (m : ℚ) : ℚ := 5 * m

theorem evaluated_rates_ramp : Compiled rampZeroX (.minute (F64.ofInt 72)) ramp [rampEntry] :=
  evaluated_rates rampPattern_evaluates rampPattern_entries rampZeroX (.minute (F64.ofInt 72))

end Ramp

/-- Where the waits fit the clock and the calls of a stream skip no segment they do not panic. A
call at a time of the pattern whose rate makes at least one hit in the time of the entry answers
with the interval for that rate, unless that is after the end. -/
theorem evaluated_starts {startAt now longest : ℚ} {ts : List ℚ} {c : Clock}
    (h : l.evaluate D ext g depth vars b = .ok pattern)
    (hes : List.Forall₂ (Entry.Of D ext g depth vars b) l.inner es) (zeroX : ℚ → ℚ)
    (peakLoad : HitsPer) (hfits : Fits c zeroX peakLoad es startAt now longest ts)
    (hstart : 0 ≤ startAt)
    (hsorted : ts.Pairwise (· ≤ ·)) (hnow : ∀ t ∈ ts, now ≤ t)
    (hskip : (modInterval zeroX peakLoad pattern).NoneSkipped startAt now 0 ts) :
    ∃ state, (modInterval zeroX peakLoad pattern).setupOn c startAt now = some state ∧
      ∀ s ∈ state, ∃ answers, s.callsOn c hpsRate ts = some answers ∧
        List.Forall₂ (fun t answer => ∀ p x,
          rampAt (F64.ofInt 0) es (t - (now - startAt)) = some (p, x) →
            1 ≤ rampRate peakLoad p x * p.duration →
              answer = (some (t + 1 / rampRate peakLoad p x)).filter (· ≤ now + totalSecs es))
          ts answers := by
  obtain ⟨lb⟩ := pattern
  obtain ⟨hpieces, -⟩ := evaluate_pieces h hes
  have hduration := duration_modInterval zeroX peakLoad hpieces
  refine ⟨_, if_pos (.inr ⟨hduration ▸ hfits.last, hfits.first⟩), fun s hs => ?_⟩
  have hw : ∀ t ∈ ts, 0 ≤ s.waited t := by
    intro t ht
    have := hnow t ht
    rw [waited_setup hs]
    linarith
  refine ⟨_, (callsOn_eq hfits.duration hfits.calls (hfits.waits hpieces hs)).trans
    ((calls_iff hstart (aligned_setup hs) hw hsorted hnow).mpr hskip hpsRate), ?_⟩
  rw [List.forall₂_map_right_iff, List.forall₂_same]
  intro t ht p x hramp hone
  have := hnow t ht
  exact expected_pattern hpieces (by linarith) hramp hone

section Ramp

/-- A day of a clock, with waits of a minute at most. -/
theorem rampPattern_fits :
    Fits ⟨-86400, 86400⟩ rampZeroX (.minute (F64.ofInt 72)) [rampEntry] 0 0 60 [30, 45] where
  first := by decide +kernel
  last := by decide +kernel
  calls := by decide +kernel
  duration := by decide +kernel
  whole := by decide +kernel
  floors := by decide +kernel

/-- Called after half of a minute and a quarter of a minute later. -/
theorem evaluated_starts_ramp :
    ∃ state, (modInterval rampZeroX (.minute (F64.ofInt 72)) ramp).setupOn ⟨-86400, 86400⟩ 0 0 =
        some state ∧
      ∀ s ∈ state, ∃ answers, s.callsOn ⟨-86400, 86400⟩ hpsRate [30, 45] = some answers ∧
        List.Forall₂ (fun t answer => ∀ p x,
          rampAt (F64.ofInt 0) [rampEntry] (t - (0 - 0)) = some (p, x) →
            1 ≤ rampRate (.minute (F64.ofInt 72)) p x * p.duration →
              answer = (some (t + 1 / rampRate (.minute (F64.ofInt 72)) p x)).filter
                (· ≤ (0 : ℚ) + totalSecs [rampEntry])) [30, 45] answers :=
  evaluated_starts rampPattern_evaluates rampPattern_entries rampZeroX (.minute (F64.ofInt 72))
    rampPattern_fits le_rfl (by decide +kernel) (by decide +kernel) (by decide +kernel)

end Ramp

end Evaluated

end Pewpew.LoadPattern
