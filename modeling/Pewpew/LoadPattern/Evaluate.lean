import Pewpew.Config.Rates
import Pewpew.LoadPattern.TransitionFrom

/-! From the load pattern of a config file to its pieces, which are fractions of the peak load. -/
namespace Pewpew.Config

open SelectParser

structure LinearBuilderPiece where
  startPercent : F64
  endPercent : F64
  duration : Nat

/-- The pieces and the time that they take, in seconds. -/
structure LinearBuilder where
  pieces : List LinearBuilderPiece
  duration : Nat

inductive LoadPattern where
  | linear (builder : LinearBuilder)

/-- The sum of two `Duration`s panics where it does not fit. -/
def LinearBuilder.append (lb : LinearBuilder) (startPercent endPercent : F64) (duration : Nat) :
    Except RateError LinearBuilder :=
  if lb.duration + duration < 2 ^ 64 then
    .ok ⟨lb.pieces ++ [⟨startPercent, endPercent, duration⟩], lb.duration + duration⟩
  else .error (.panic "overflow when adding durations")

def LinearBuilder.new (startPercent endPercent : F64) (duration : Nat) :
    Except RateError LinearBuilder :=
  LinearBuilder.append ⟨[], 0⟩ startPercent endPercent duration

/-- The piece is appended, or it is the first one. -/
def LinearBuilder.appendTo (builder : Option LinearBuilder) (startPercent endPercent : F64)
    (duration : Nat) : Except RateError LinearBuilder :=
  match builder with
  | some lb => lb.append startPercent endPercent duration
  | none => LinearBuilder.new startPercent endPercent duration

def LoadPattern.duration : LoadPattern → Nat
  | linear lb => lb.duration

section Evaluate

variable (D : DecimalDigits) (x : Externals) (g : Grammar) (depth : Nat) (vars : Object) (b : Build)

/-- A percentage over 100. -/
def PrePercent.fraction (p : PrePercent) : Except RateError F64 :=
  (PrePercent.evaluate D x g depth vars p).map fun percent => percent.div (F64.ofInt 100)

/-- Where an entry starts: without a `from` it is where the last one has ended. -/
def startPercent (lastEnd : F64) : Option PrePercent → Except RateError F64
  | some p => PrePercent.fraction D x g depth vars p
  | none => .ok lastEnd

/-- What `evaluate` does with one entry, given the pieces so far and the end of the last one. -/
def LoadPatternPreProcessed.append (acc : Option LinearBuilder × F64) :
    LoadPatternPreProcessed → Except RateError (Option LinearBuilder × F64)
  | linear lbpp => do
    let start ← startPercent D x g depth vars acc.2 lbpp.start
    let stop ← PrePercent.fraction D x g depth vars lbpp.stop
    let duration ← (PreDuration.evaluate x g depth vars b lbpp.over).mapError .config
    let lb ← LinearBuilder.appendTo acc.1 start stop duration
    return (some lb, stop)

def PreLoadPattern.evaluate (p : PreLoadPattern) : Except RateError LoadPattern := do
  let (builder, _) ← p.inner.foldlM (LoadPatternPreProcessed.append D x g depth vars b)
    (none, F64.ofInt 0)
  match builder with
  | none => throw (.invalidLoadPattern p.marker)
  | some lb => return .linear lb

/-- An entry of a load pattern: its fractions of the peak load, and its seconds. -/
structure Entry where
  start : Option F64
  stop : F64
  secs : Nat

/-- What the templates of an entry evaluate to. -/
def Entry.Of : LoadPatternPreProcessed → Entry → Prop
  | .linear l, e => l.start.mapM (PrePercent.fraction D x g depth vars) = .ok e.start ∧
    PrePercent.fraction D x g depth vars l.stop = .ok e.stop ∧
      PreDuration.evaluate x g depth vars b l.over = .ok e.secs

end Evaluate

/-- The pieces for some entries, after a piece that ends at `last`: an entry without a start goes on
from there. -/
def piecesFrom : (last : F64) → List Entry → List LinearBuilderPiece
  | _, [] => []
  | last, e :: es => ⟨e.start.getD last, e.stop, e.secs⟩ :: piecesFrom e.stop es

def totalSecs (es : List Entry) : Nat := (es.map Entry.secs).sum

section Evaluated

open Fallible

variable {D : DecimalDigits} {x : Externals} {g : Grammar} {depth : Nat} {vars : Object} {b : Build}
  {lb lb' : LinearBuilder} {pre : LoadPatternPreProcessed} {l : List LoadPatternPreProcessed}
  {p : PreLoadPattern} {acc acc' : Option LinearBuilder × F64}

theorem append_ok {start stop : F64} {duration : Nat}
    (h : lb.append start stop duration = .ok lb') :
    lb'.pieces = lb.pieces ++ [⟨start, stop, duration⟩] ∧
      lb'.duration = lb.duration + duration := by
  rw [LinearBuilder.append] at h
  split at h
  · cases h
    exact ⟨rfl, rfl⟩
  · cases h

theorem mapError_ok {ε ε' α : Type} {r : Except ε α} {f : ε → ε'} {a : α} :
    r.mapError f = .ok a ↔ r = .ok a := by
  cases r <;> simp [Except.mapError]

theorem totalSecs_cons (e : Entry) (es : List Entry) :
    totalSecs (e :: es) = e.secs + totalSecs es :=
  List.sum_cons

/-- What the pieces are made of, where there is a builder for them. -/
structure Built (acc acc' : Option LinearBuilder × F64) (es : List Entry) : Prop where
  pieces : (acc'.1.getD ⟨[], 0⟩).pieces = (acc.1.getD ⟨[], 0⟩).pieces ++ piecesFrom acc.2 es
  duration : (acc'.1.getD ⟨[], 0⟩).duration = (acc.1.getD ⟨[], 0⟩).duration + totalSecs es

/-- One entry appends one piece. -/
theorem append_built (h : pre.append D x g depth vars b acc = .ok acc') :
    ∃ e, Entry.Of D x g depth vars b pre e ∧ acc'.2 = e.stop ∧ Built acc acc' [e] := by
  obtain ⟨lbpp⟩ := pre
  simp only [LoadPatternPreProcessed.append, bind_ok] at h
  obtain ⟨start, hstart, stop, hstop, duration, hduration, lb, hlb, h⟩ := h
  cases h
  have happend : (acc.1.getD ⟨[], 0⟩).append start stop duration = .ok lb := by
    cases hacc : acc.1 <;> simpa [hacc, LinearBuilder.appendTo, LinearBuilder.new] using hlb
  obtain ⟨hpieces, hsecs⟩ := append_ok happend
  have hfrom : ∃ from', lbpp.start.mapM (PrePercent.fraction D x g depth vars) = .ok from' ∧
      start = from'.getD acc.2 := by
    cases hpre : lbpp.start with
    | none =>
      rw [hpre] at hstart
      exact ⟨none, rfl, (Except.ok.inj hstart).symm⟩
    | some percent =>
      rw [hpre] at hstart
      have hfraction : PrePercent.fraction D x g depth vars percent = .ok start := hstart
      refine ⟨some start, ?_, rfl⟩
      rw [Option.mapM_some, hfraction]
      rfl
  obtain ⟨from', hfrom, rfl⟩ := hfrom
  exact ⟨⟨from', stop, duration⟩, ⟨hfrom, hstop, mapError_ok.mp hduration⟩, rfl, hpieces,
    by simpa [totalSecs] using hsecs⟩

theorem appends_built (h : l.foldlM (LoadPatternPreProcessed.append D x g depth vars b) acc =
    .ok acc') : ∃ es, List.Forall₂ (Entry.Of D x g depth vars b) l es ∧ Built acc acc' es := by
  induction l generalizing acc with
  | nil =>
    cases h
    exact ⟨[], .nil, (List.append_nil _).symm, rfl⟩
  | cons pre l ih =>
    rw [List.foldlM_cons, bind_ok] at h
    obtain ⟨acc₁, hacc₁, h⟩ := h
    obtain ⟨e, he, hlast, hone⟩ := append_built hacc₁
    obtain ⟨es, hes, hrest⟩ := ih h
    refine ⟨e :: es, .cons he hes, ?_, ?_⟩
    · rw [hrest.pieces, hone.pieces, hlast, List.append_assoc]
      rfl
    · rw [hrest.duration, hone.duration, totalSecs_cons, totalSecs_cons]
      simp only [totalSecs, List.map_nil, List.sum_nil]
      omega

/-- A load pattern has one piece for each entry, and the duration of all of them. -/
theorem evaluate_built (h : p.evaluate D x g depth vars b = .ok (.linear lb)) :
    ∃ es, List.Forall₂ (Entry.Of D x g depth vars b) p.inner es ∧
      lb.pieces = piecesFrom (F64.ofInt 0) es ∧ lb.duration = totalSecs es := by
  obtain ⟨⟨builder, last⟩, hfold, h⟩ := bind_ok.mp h
  obtain ⟨es, hes, hbuilt⟩ := appends_built hfold
  cases builder with
  | none => cases h
  | some builder =>
    cases h
    exact ⟨es, hes, hbuilt.pieces, hbuilt.duration.trans (Nat.zero_add _)⟩

end Evaluated

end Pewpew.Config
