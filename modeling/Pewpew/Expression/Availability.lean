import Pewpew.Expression.IntoStream
import Pewpew.Expression.Tracking

/-! The names that an expression reads, and that its stream is there where theirs are. -/
namespace Pewpew.SelectParser

open Polling

/-- The name in the data that a read begins with. -/
def Read.key : Read → String
  | .path s _ => s
  | .selector provider _ => provider

/-- A name that is kept as bits. -/
def IsSpecial (s : String) : Prop := Special.ofName s ≠ none

theorem isSpecial_request : IsSpecial "request" := by
  unfold IsSpecial
  decide

theorem isSpecial_response : IsSpecial "response" := by
  unfold IsSpecial
  decide

variable {r : RequiredProviders} {read : Read}

/-- A read that is noted is so as a provider, unless its name is special. -/
theorem Read.Noted.mem (h : read.Noted r) (hs : ¬ IsSpecial read.key) : read.key ∈ r.inner := by
  have hnone : Special.ofName read.key = none := not_not.mp hs
  have hname : read.name = read.key := by
    cases read with
    | selector provider s => rfl
    | path s next =>
      cases next with
      | none => rfl
      | some next =>
        refine if_neg ?_
        rintro (rfl | rfl)
        · exact hs isSpecial_request
        · exact hs isSpecial_response
  have hhas := h.has
  rw [hname, RequiredProviders.Has, hnone] at hhas
  exact hhas

mutual

/-- The names whose streams the stream of an expression is made of; the segments after the start of
a path add none. -/
def ValueOrExpression.sources : ValueOrExpression → List String
  | .value v => v.sources
  | .expression e => e.sources

def Value.sources : Value → List String
  | .path p => p.sources
  | .json _ => []
  | .template t => t.sources

def Path.sources : Path → List String
  | .mk (.functionCall f) _ _ => f.sources
  | .mk (.ident s) _ _ => [s]
  | .mk (.value _) _ _ => []

def Template.sources : Template → List String
  | .mk pieces _ => piecesSources pieces

def piecesSources : List TemplatePiece → List String
  | [] => []
  | piece :: pieces => piece.sources ++ piecesSources pieces

def TemplatePiece.sources : TemplatePiece → List String
  | .expression e => e.sources
  | .notExpression _ => []

def Expression.sources : Expression → List String
  | .mk _ lhs none => lhs.sources
  | .mk _ lhs (some (_, rhs)) => lhs.sources ++ rhs.sources

def ExpressionLhs.sources : ExpressionLhs → List String
  | .expression e => e.sources
  | .value v => v.sources

def FunctionCall.sources : FunctionCall → List String
  | .collect arg _ _ | .encode arg _ | .entries arg | .join arg _ _ | .matchRegex arg _ _
  | .pad _ arg _ _ => arg.sources
  | .jsonPath provider _ _ => [provider]
  | .epoch _ | .randomInteger _ _ | .randomFloat _ _ | .rangeConstant _ | .repeatNull _ _ => []
  | .ifElse a b c | .replace a b c => a.sources ++ b.sources ++ c.sources
  | .range a b _ => a.sources ++ b.sources
  | .minMax args _ => argsSources args

def argsSources : List ValueOrExpression → List String
  | [] => []
  | arg :: args => arg.sources ++ argsSources args

end

/-- The names that reads begin with. -/
def keys (rs : List Read) : List String := rs.map Read.key

theorem append_subset_keys {ss ss' : List String} {rs rs' : List Read} (h : ss ⊆ keys rs)
    (h' : ss' ⊆ keys rs') : ss ++ ss' ⊆ keys (rs ++ rs') := by
  rw [keys, List.map_append]
  exact List.append_subset.mpr
    ⟨fun s hs => List.mem_append_left _ (h hs), fun s hs => List.mem_append_right _ (h' hs)⟩

mutual

/-- An expression reads the names whose streams it takes. -/
theorem ValueOrExpression.sources_subset (e : ValueOrExpression) : e.sources ⊆ keys e.reads := by
  cases e with
  | value v => exact v.sources_subset
  | expression e => exact e.sources_subset

theorem Value.sources_subset (v : Value) : v.sources ⊆ keys v.reads := by
  cases v with
  | path p => exact p.sources_subset
  | json v => exact List.nil_subset _
  | template t => exact t.sources_subset

theorem Path.sources_subset (p : Path) : p.sources ⊆ keys p.reads := by
  obtain ⟨start, rest, marker⟩ := p
  rw [Path.reads, keys, List.map_append]
  cases start with
  | functionCall f =>
    rw [Path.sources, PathStart.reads]
    exact fun s hs => List.mem_append_left _ (f.sources_subset hs)
  | ident s =>
    rw [Path.sources, PathStart.reads]
    exact fun s hs => List.mem_append_left _ hs
  | value v =>
    rw [Path.sources]
    exact List.nil_subset _

theorem Template.sources_subset (t : Template) : t.sources ⊆ keys t.reads := by
  obtain ⟨pieces, noErr⟩ := t
  rw [Template.sources, Template.reads]
  exact piecesSources_subset pieces

theorem piecesSources_subset (pieces : List TemplatePiece) :
    piecesSources pieces ⊆ keys (piecesReads pieces) := by
  cases pieces with
  | nil => exact List.nil_subset _
  | cons piece pieces =>
    rw [piecesSources, piecesReads]
    exact append_subset_keys piece.sources_subset (piecesSources_subset pieces)

theorem TemplatePiece.sources_subset (piece : TemplatePiece) :
    piece.sources ⊆ keys piece.reads := by
  cases piece with
  | expression e => exact e.sources_subset
  | notExpression s => exact List.nil_subset _

theorem Expression.sources_subset (e : Expression) : e.sources ⊆ keys e.reads := by
  obtain ⟨not, lhs, _ | ⟨op, rhs⟩⟩ := e
  · exact lhs.sources_subset
  · rw [Expression.sources, Expression.reads]
    exact append_subset_keys lhs.sources_subset rhs.sources_subset

theorem ExpressionLhs.sources_subset (lhs : ExpressionLhs) : lhs.sources ⊆ keys lhs.reads := by
  cases lhs with
  | expression e => exact e.sources_subset
  | value v => exact v.sources_subset

theorem FunctionCall.sources_subset (f : FunctionCall) : f.sources ⊆ keys f.reads := by
  cases f with
  | collect arg _ _ | encode arg _ | entries arg | join arg _ _ | matchRegex arg _ _
  | pad _ arg _ _ => exact arg.sources_subset
  | jsonPath provider selector _ => exact List.Subset.refl _
  | epoch _ | randomInteger _ _ | randomFloat _ _ | rangeConstant _ | repeatNull _ _ =>
    exact List.nil_subset _
  | ifElse a b c | replace a b c =>
    rw [FunctionCall.sources, FunctionCall.reads]
    exact append_subset_keys (append_subset_keys a.sources_subset b.sources_subset)
      c.sources_subset
  | range a b _ =>
    rw [FunctionCall.sources, FunctionCall.reads]
    exact append_subset_keys a.sources_subset b.sources_subset
  | minMax args _ => exact argsSources_subset args

theorem argsSources_subset (args : List ValueOrExpression) :
    argsSources args ⊆ keys (argsReads args) := by
  cases args with
  | nil => exact List.nil_subset _
  | cons arg args =>
    rw [argsSources, argsReads]
    exact append_subset_keys arg.sources_subset (argsSources_subset args)

end

section IntoStream

variable {Ar : Type} {z : Zip} {x : Externals} {draws : Nat → Externals}
  {providers : String → Option (PollStream (Item Json Ar))}

/-- The streams of all names are there. -/
def Available (providers : String → Option (PollStream (Item Json Ar))) (ss : List String) : Prop :=
  ∀ s ∈ ss, (providers s).isSome

theorem available_append {ss ss' : List String} :
    Available providers (ss ++ ss') ↔ Available providers ss ∧ Available providers ss' :=
  List.forall_mem_append

theorem available_singleton {s : String} : Available providers [s] ↔ (providers s).isSome :=
  List.forall_mem_singleton

theorem isSome_bind_iff {α β : Type} {a : Option α} {f : α → Option β} {p : Prop}
    (hf : ∀ a, (f a).isSome ↔ p) : (a.bind f).isSome ↔ a.isSome ∧ p := by
  cases a with
  | none => simp
  | some a => simpa using hf a

mutual

/-- An expression has a stream exactly where the names that it is made of have theirs. -/
theorem ValueOrExpression.intoStream_isSome (e : ValueOrExpression) (noErr : Bool) :
    (e.intoStream z x draws providers noErr).isSome ↔ Available providers e.sources := by
  cases e with
  | value v =>
    rw [ValueOrExpression.intoStream]
    exact v.intoStream_isSome noErr
  | expression e =>
    rw [ValueOrExpression.intoStream]
    exact e.intoStream_isSome noErr

theorem Value.intoStream_isSome (v : Value) (noErr : Bool) :
    (v.intoStream z x draws providers noErr).isSome ↔ Available providers v.sources := by
  cases v with
  | path p =>
    rw [Value.intoStream]
    exact p.intoStream_isSome noErr
  | json v =>
    rw [Value.intoStream]
    exact iff_of_true rfl (List.forall_mem_nil _)
  | template t =>
    rw [Value.intoStream, Option.isSome_map]
    exact t.intoStream_isSome

/-- The segments after the start are left alone. -/
theorem Path.intoStream_isSome (p : Path) (noErr : Bool) :
    (p.intoStream z x draws providers noErr).isSome ↔ Available providers p.sources := by
  obtain ⟨start, rest, marker⟩ := p
  cases start with
  | functionCall f =>
    rw [Path.intoStream, Option.isSome_map, Path.sources]
    exact f.intoStream_isSome noErr
  | ident s => rw [Path.intoStream, Option.isSome_map, Path.sources, available_singleton]
  | value v =>
    rw [Path.intoStream, Path.sources]
    exact iff_of_true rfl (List.forall_mem_nil _)

theorem Template.intoStream_isSome (t : Template) :
    (t.intoStream z x draws providers).isSome ↔ Available providers t.sources := by
  obtain ⟨pieces, noErr⟩ := t
  rw [Template.intoStream, Option.isSome_map, Template.sources]
  exact piecesIntoStream_isSome pieces noErr

theorem piecesIntoStream_isSome (pieces : List TemplatePiece) (noErr : Bool) :
    (piecesIntoStream z x draws providers pieces noErr).isSome ↔
      Available providers (piecesSources pieces) := by
  cases pieces with
  | nil =>
    rw [piecesIntoStream]
    exact iff_of_true rfl (List.forall_mem_nil _)
  | cons piece pieces =>
    rw [piecesIntoStream, piecesSources, available_append, ← piece.intoStream_isSome noErr]
    refine isSome_bind_iff fun _ => ?_
    rw [Option.isSome_map]
    exact piecesIntoStream_isSome pieces noErr

theorem TemplatePiece.intoStream_isSome (piece : TemplatePiece) (noErr : Bool) :
    (piece.intoStream z x draws providers noErr).isSome ↔ Available providers piece.sources := by
  cases piece with
  | expression e =>
    rw [TemplatePiece.intoStream, Option.isSome_map]
    exact e.intoStream_isSome noErr
  | notExpression s =>
    rw [TemplatePiece.intoStream]
    exact iff_of_true rfl (List.forall_mem_nil _)

theorem Expression.intoStream_isSome (e : Expression) (noErr : Bool) :
    (e.intoStream z x draws providers noErr).isSome ↔ Available providers e.sources := by
  obtain ⟨not, lhs, _ | ⟨op, rhs⟩⟩ := e
  · rw [Expression.intoStream, Option.isSome_map]
    exact lhs.intoStream_isSome noErr
  · rw [Expression.intoStream, Expression.sources, available_append, ← lhs.intoStream_isSome noErr]
    refine isSome_bind_iff fun _ => ?_
    rw [Option.isSome_map]
    exact rhs.intoStream_isSome noErr

theorem ExpressionLhs.intoStream_isSome (lhs : ExpressionLhs) (noErr : Bool) :
    (lhs.intoStream z x draws providers noErr).isSome ↔ Available providers lhs.sources := by
  cases lhs with
  | expression e =>
    rw [ExpressionLhs.intoStream]
    exact e.intoStream_isSome noErr
  | value v =>
    rw [ExpressionLhs.intoStream]
    exact v.intoStream_isSome noErr

theorem FunctionCall.intoStream_isSome (f : FunctionCall) (noErr : Bool) :
    (f.intoStream z x draws providers noErr).isSome ↔ Available providers f.sources := by
  cases f with
  | collect arg _ _ | encode arg _ | entries arg | join arg _ _ | matchRegex arg _ _
  | pad _ arg _ _ =>
    rw [FunctionCall.intoStream, Option.isSome_map]
    exact arg.intoStream_isSome noErr
  | jsonPath provider selector _ =>
    rw [FunctionCall.intoStream, Option.isSome_map, FunctionCall.sources, available_singleton]
  | epoch _ | randomInteger _ _ | randomFloat _ _ | rangeConstant _ | repeatNull _ _ =>
    rw [FunctionCall.intoStream]
    exact iff_of_true rfl (List.forall_mem_nil _)
  | ifElse a b c =>
    rw [FunctionCall.intoStream, FunctionCall.sources, available_append, available_append,
      ← a.intoStream_isSome noErr, and_assoc]
    refine isSome_bind_iff fun _ => ?_
    rw [← b.intoStream_isSome noErr]
    refine isSome_bind_iff fun _ => ?_
    rw [Option.isSome_map]
    exact c.intoStream_isSome noErr
  | replace a b c =>
    rw [FunctionCall.intoStream, FunctionCall.sources, available_append, available_append,
      ← b.intoStream_isSome noErr, and_comm (a := Available _ _), and_assoc]
    refine isSome_bind_iff fun _ => ?_
    rw [← a.intoStream_isSome noErr]
    refine isSome_bind_iff fun _ => ?_
    rw [Option.isSome_map]
    exact c.intoStream_isSome noErr
  | range a b _ =>
    rw [FunctionCall.intoStream, FunctionCall.sources, available_append,
      ← a.intoStream_isSome noErr]
    refine isSome_bind_iff fun _ => ?_
    rw [Option.isSome_map]
    exact b.intoStream_isSome noErr
  | minMax args _ =>
    rw [FunctionCall.intoStream, Option.isSome_map]
    exact argsIntoStream_isSome args noErr

theorem argsIntoStream_isSome (args : List ValueOrExpression) (noErr : Bool) :
    (argsIntoStream z x draws providers args noErr).isSome ↔
      Available providers (argsSources args) := by
  cases args with
  | nil =>
    rw [argsIntoStream]
    exact iff_of_true rfl (List.forall_mem_nil _)
  | cons arg args =>
    rw [argsIntoStream, argsSources, available_append, ← arg.intoStream_isSome noErr]
    refine isSome_bind_iff fun _ => ?_
    rw [Option.isSome_map]
    exact argsIntoStream_isSome args noErr

end

end IntoStream

end Pewpew.SelectParser
