import Pewpew.Expression.Select

/-! What an expression refers to in its data, and what it reads there. -/
namespace Pewpew.SelectParser

/-- The start of a path, or the selector of `json_path`. -/
inductive Reference where
  | ident (s : String)
  | selector (s : String)
  deriving DecidableEq

mutual

def ValueOrExpression.references : ValueOrExpression → List Reference
  | .value v => v.references
  | .expression e => e.references

def Value.references : Value → List Reference
  | .path p => p.references
  | .json _ => []
  | .template t => t.references

def Path.references : Path → List Reference
  | .mk start rest _ => start.references ++ segmentsReferences rest

def PathStart.references : PathStart → List Reference
  | .functionCall f => f.references
  | .ident s => [.ident s]
  | .value _ => []

def segmentsReferences : List PathSegment → List Reference
  | [] => []
  | segment :: rest => segment.references ++ segmentsReferences rest

def PathSegment.references : PathSegment → List Reference
  | .number _ | .string _ => []
  | .template t => t.references

def Template.references : Template → List Reference
  | .mk pieces _ => piecesReferences pieces

def piecesReferences : List TemplatePiece → List Reference
  | [] => []
  | piece :: pieces => piece.references ++ piecesReferences pieces

def TemplatePiece.references : TemplatePiece → List Reference
  | .expression e => e.references
  | .notExpression _ => []

def Expression.references : Expression → List Reference
  | .mk _ lhs none => lhs.references
  | .mk _ lhs (some (_, rhs)) => lhs.references ++ rhs.references

def ExpressionLhs.references : ExpressionLhs → List Reference
  | .expression e => e.references
  | .value v => v.references

def FunctionCall.references : FunctionCall → List Reference
  | .collect arg _ _ | .encode arg _ | .entries arg | .join arg _ _ | .matchRegex arg _ _
  | .pad _ arg _ _ => arg.references
  | .jsonPath _ selector _ => [.selector selector]
  | .epoch _ | .randomInteger _ _ | .randomFloat _ _ | .rangeConstant _ | .repeatNull _ _ => []
  | .ifElse a b c | .replace a b c => a.references ++ b.references ++ c.references
  | .range a b _ => a.references ++ b.references
  | .minMax args _ => argsReferences args

def argsReferences : List ValueOrExpression → List Reference
  | [] => []
  | arg :: args => arg.references ++ argsReferences args

end

mutual

def ParsedSelect.references : ParsedSelect → List Reference
  | .null | .bool _ | .number _ => []
  | .expression e => e.references
  | .array a => selectsReferences a
  | .object o => entriesReferences o

def selectsReferences : List ParsedSelect → List Reference
  | [] => []
  | p :: a => p.references ++ selectsReferences a

def entriesReferences : List (String × ParsedSelect) → List Reference
  | [] => []
  | e :: o => entryReferences e ++ entriesReferences o

def entryReferences : String × ParsedSelect → List Reference
  | (_, p) => p.references

end

/-- A read of the data: the start of a path with the key that follows it, if that is not computed,
or what `json_path` selects under the name of a provider. -/
inductive Read where
  | path (s : String) (next : Option String)
  | selector (provider selector : String)
  deriving DecidableEq

def Read.reference : Read → Reference
  | .path s _ => .ident s
  | .selector _ s => .selector s

/-- The key that the first segment is. -/
def firstKey : List PathSegment → Option String
  | .string next :: _ => some next
  | _ => none

/-- The segments after that key. -/
def afterKey : List PathSegment → List PathSegment
  | .string _ :: rest => rest
  | rest => rest

mutual

def ValueOrExpression.reads : ValueOrExpression → List Read
  | .value v => v.reads
  | .expression e => e.reads

def Value.reads : Value → List Read
  | .path p => p.reads
  | .json _ => []
  | .template t => t.reads

def Path.reads : Path → List Read
  | .mk start rest _ => start.reads rest ++ segmentsReads rest

/-- What the start of a path with these segments reads. -/
def PathStart.reads : PathStart → List PathSegment → List Read
  | .functionCall f, _ => f.reads
  | .ident s, rest => [.path s (firstKey rest)]
  | .value _, _ => []

def segmentsReads : List PathSegment → List Read
  | [] => []
  | segment :: rest => segment.reads ++ segmentsReads rest

def PathSegment.reads : PathSegment → List Read
  | .number _ | .string _ => []
  | .template t => t.reads

def Template.reads : Template → List Read
  | .mk pieces _ => piecesReads pieces

def piecesReads : List TemplatePiece → List Read
  | [] => []
  | piece :: pieces => piece.reads ++ piecesReads pieces

def TemplatePiece.reads : TemplatePiece → List Read
  | .expression e => e.reads
  | .notExpression _ => []

def Expression.reads : Expression → List Read
  | .mk _ lhs none => lhs.reads
  | .mk _ lhs (some (_, rhs)) => lhs.reads ++ rhs.reads

def ExpressionLhs.reads : ExpressionLhs → List Read
  | .expression e => e.reads
  | .value v => v.reads

def FunctionCall.reads : FunctionCall → List Read
  | .collect arg _ _ | .encode arg _ | .entries arg | .join arg _ _ | .matchRegex arg _ _
  | .pad _ arg _ _ => arg.reads
  | .jsonPath provider selector _ => [.selector provider selector]
  | .epoch _ | .randomInteger _ _ | .randomFloat _ _ | .rangeConstant _ | .repeatNull _ _ => []
  | .ifElse a b c | .replace a b c => a.reads ++ b.reads ++ c.reads
  | .range a b _ => a.reads ++ b.reads
  | .minMax args _ => argsReads args

def argsReads : List ValueOrExpression → List Read
  | [] => []
  | arg :: args => arg.reads ++ argsReads args

end

mutual

def ParsedSelect.reads : ParsedSelect → List Read
  | .null | .bool _ | .number _ => []
  | .expression e => e.reads
  | .array a => selectsReads a
  | .object o => entriesReads o

def selectsReads : List ParsedSelect → List Read
  | [] => []
  | p :: a => p.reads ++ selectsReads a

def entriesReads : List (String × ParsedSelect) → List Read
  | [] => []
  | e :: o => entryReads e ++ entriesReads o

def entryReads : String × ParsedSelect → List Read
  | (_, p) => p.reads

end

def clauseReads : Option Expression → List Read
  | some clause => clause.reads
  | none => []

/-- What a `Select` reads: in its joins, its `where` clause and what it selects. -/
def Select.reads (s : Select) : List Read :=
  argsReads s.join ++ (clauseReads s.whereClause ++ s.select.reads)

mutual

theorem ValueOrExpression.references_eq (e : ValueOrExpression) :
    e.references = e.reads.map Read.reference := by
  cases e with
  | value v => rw [ValueOrExpression.references, ValueOrExpression.reads, v.references_eq]
  | expression e => rw [ValueOrExpression.references, ValueOrExpression.reads, e.references_eq]

theorem Value.references_eq (v : Value) : v.references = v.reads.map Read.reference := by
  cases v with
  | path p => rw [Value.references, Value.reads, p.references_eq]
  | json v => rw [Value.references, Value.reads, List.map_nil]
  | template t => rw [Value.references, Value.reads, t.references_eq]

theorem Path.references_eq (p : Path) : p.references = p.reads.map Read.reference := by
  obtain ⟨start, rest, marker⟩ := p
  rw [Path.references, Path.reads, List.map_append, start.references_eq rest,
    segmentsReferences_eq rest]

theorem PathStart.references_eq (start : PathStart) (rest : List PathSegment) :
    start.references = (start.reads rest).map Read.reference := by
  cases start with
  | functionCall f => rw [PathStart.references, PathStart.reads, f.references_eq]
  | ident s => rw [PathStart.references, PathStart.reads, List.map_singleton, Read.reference]
  | value v => rw [PathStart.references, PathStart.reads, List.map_nil]

theorem segmentsReferences_eq (rest : List PathSegment) :
    segmentsReferences rest = (segmentsReads rest).map Read.reference := by
  cases rest with
  | nil => rw [segmentsReferences, segmentsReads, List.map_nil]
  | cons segment rest =>
    rw [segmentsReferences, segmentsReads, List.map_append, segment.references_eq,
      segmentsReferences_eq rest]

theorem PathSegment.references_eq (segment : PathSegment) :
    segment.references = segment.reads.map Read.reference := by
  cases segment with
  | number n => rw [PathSegment.references, PathSegment.reads, List.map_nil]
  | string s => rw [PathSegment.references, PathSegment.reads, List.map_nil]
  | template t => rw [PathSegment.references, PathSegment.reads, t.references_eq]

theorem Template.references_eq (t : Template) : t.references = t.reads.map Read.reference := by
  obtain ⟨pieces, noErr⟩ := t
  rw [Template.references, Template.reads, piecesReferences_eq pieces]

theorem piecesReferences_eq (pieces : List TemplatePiece) :
    piecesReferences pieces = (piecesReads pieces).map Read.reference := by
  cases pieces with
  | nil => rw [piecesReferences, piecesReads, List.map_nil]
  | cons piece pieces =>
    rw [piecesReferences, piecesReads, List.map_append, piece.references_eq,
      piecesReferences_eq pieces]

theorem TemplatePiece.references_eq (piece : TemplatePiece) :
    piece.references = piece.reads.map Read.reference := by
  cases piece with
  | expression e => rw [TemplatePiece.references, TemplatePiece.reads, e.references_eq]
  | notExpression s => rw [TemplatePiece.references, TemplatePiece.reads, List.map_nil]

theorem Expression.references_eq (e : Expression) :
    e.references = e.reads.map Read.reference := by
  obtain ⟨not, lhs, _ | ⟨op, rhs⟩⟩ := e
  · rw [Expression.references, Expression.reads, lhs.references_eq]
  · rw [Expression.references, Expression.reads, List.map_append, lhs.references_eq,
      rhs.references_eq]

theorem ExpressionLhs.references_eq (lhs : ExpressionLhs) :
    lhs.references = lhs.reads.map Read.reference := by
  cases lhs with
  | expression e => rw [ExpressionLhs.references, ExpressionLhs.reads, e.references_eq]
  | value v => rw [ExpressionLhs.references, ExpressionLhs.reads, v.references_eq]

theorem FunctionCall.references_eq (f : FunctionCall) :
    f.references = f.reads.map Read.reference := by
  cases f with
  | collect arg _ _ | encode arg _ | entries arg | join arg _ _ | matchRegex arg _ _
  | pad _ arg _ _ => rw [FunctionCall.references, FunctionCall.reads, arg.references_eq]
  | jsonPath provider selector _ =>
    rw [FunctionCall.references, FunctionCall.reads, List.map_singleton, Read.reference]
  | epoch _ | randomInteger _ _ | randomFloat _ _ | rangeConstant _ | repeatNull _ _ =>
    rw [FunctionCall.references, FunctionCall.reads, List.map_nil]
  | ifElse a b c | replace a b c =>
    rw [FunctionCall.references, FunctionCall.reads, List.map_append, List.map_append,
      a.references_eq, b.references_eq, c.references_eq]
  | range a b _ =>
    rw [FunctionCall.references, FunctionCall.reads, List.map_append, a.references_eq,
      b.references_eq]
  | minMax args _ => rw [FunctionCall.references, FunctionCall.reads, argsReferences_eq args]

theorem argsReferences_eq (args : List ValueOrExpression) :
    argsReferences args = (argsReads args).map Read.reference := by
  cases args with
  | nil => rw [argsReferences, argsReads, List.map_nil]
  | cons arg args =>
    rw [argsReferences, argsReads, List.map_append, arg.references_eq, argsReferences_eq args]

end

mutual

theorem ParsedSelect.references_eq (p : ParsedSelect) :
    p.references = p.reads.map Read.reference := by
  cases p with
  | null | bool b | number n => rw [ParsedSelect.references, ParsedSelect.reads, List.map_nil]
  | expression e => rw [ParsedSelect.references, ParsedSelect.reads, e.references_eq]
  | array a => rw [ParsedSelect.references, ParsedSelect.reads, selectsReferences_eq a]
  | object o => rw [ParsedSelect.references, ParsedSelect.reads, entriesReferences_eq o]

theorem selectsReferences_eq (a : List ParsedSelect) :
    selectsReferences a = (selectsReads a).map Read.reference := by
  cases a with
  | nil => rw [selectsReferences, selectsReads, List.map_nil]
  | cons p a =>
    rw [selectsReferences, selectsReads, List.map_append, p.references_eq, selectsReferences_eq a]

theorem entriesReferences_eq (o : List (String × ParsedSelect)) :
    entriesReferences o = (entriesReads o).map Read.reference := by
  cases o with
  | nil => rw [entriesReferences, entriesReads, List.map_nil]
  | cons e o =>
    rw [entriesReferences, entriesReads, List.map_append, entryReferences_eq e,
      entriesReferences_eq o]

theorem entryReferences_eq (e : String × ParsedSelect) :
    entryReferences e = (entryReads e).map Read.reference := by
  obtain ⟨k, p⟩ := e
  rw [entryReferences, entryReads, p.references_eq]

end

end Pewpew.SelectParser
