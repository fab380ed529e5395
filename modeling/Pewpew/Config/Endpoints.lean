import Pewpew.Config.Providers

/-! The loggers and the endpoints of a config file. -/
namespace Pewpew.Config

open SelectParser Yaml Reader Section
open Request (EndpointProvidesSendOptions)

structure LoggerPreProcessed where
  select : Option (WithMarker Json)
  forEach : List (WithMarker String)
  whereClause : Option (WithMarker String)
  dest : PreTemplate
  pretty : Bool
  limit : Option Nat
  kill : Bool

namespace LoggerPreProcessed

structure Fields where
  select : Option (WithMarker Json) := none
  forEach : List (WithMarker String) := []
  whereClause : Option (WithMarker String) := none
  dest : Option PreTemplate := none
  pretty : Bool := false
  limit : Option Nat := none
  kill : Bool := false

def layout (b : Build) : Section LoggerPreProcessed where
  Fields := Fields
  init := {}
  field key _ :=
    if key = "select" then
      named key (WithMarker.parse (Value.parse b.json)) fun c f => { f with select := some c }
    else if key = "for_each" then
      named key (Vec.parse (WithMarker.parse String.parse)) fun a f => { f with forEach := a }
    else if key = "where" then
      named key (WithMarker.parse String.parse) fun b f => { f with whereClause := some b }
    else if key = "to" then named key PreTemplate.parse fun b f => { f with dest := some b }
    else if key = "pretty" then named key Bool.parse fun b f => { f with pretty := b }
    else if key = "limit" then named key Usize.parse fun b f => { f with limit := some b }
    else if key = "kill" then named key Bool.parse fun b f => { f with kill := b }
    else none
  finish f marker := do
    let dest ← require "to" marker f.dest
    return ⟨f.select, f.forEach, f.whereClause, dest, f.pretty, f.limit, f.kill⟩

end LoggerPreProcessed

structure LogsPreProcessed where
  select : WithMarker Json
  forEach : List (WithMarker String)
  whereClause : Option (WithMarker String)

namespace LogsPreProcessed

structure Fields where
  select : Option (WithMarker Json) := none
  forEach : List (WithMarker String) := []
  whereClause : Option (WithMarker String) := none

def layout (b : Build) : Section LogsPreProcessed where
  Fields := Fields
  init := {}
  field key _ :=
    if key = "select" then
      named key (WithMarker.parse (Value.parse b.json)) fun r f => { f with select := some r }
    else if key = "for_each" then
      named key (Vec.parse (WithMarker.parse String.parse)) fun r f => { f with forEach := r }
    else if key = "where" then
      named key (WithMarker.parse String.parse) fun v f => { f with whereClause := some v }
    else none
  finish f marker := do
    let select ← require "select" marker f.select
    return ⟨select, f.forEach, f.whereClause⟩

end LogsPreProcessed

inductive BodyMultipartPieceBody where
  | string (t : PreTemplate)
  | file (t : PreTemplate)

def BodyMultipartPieceBody.parse : FromYaml BodyMultipartPieceBody :=
  let file := PreTemplate.parse.map fun (t, marker) => (BodyMultipartPieceBody.file t, marker)
  peekThen fun (event, marker) =>
    match event with
    | .scalar _ _ (some (_, "file")) => file
    | .scalar .. => PreTemplate.parse.map fun (t, marker) => (.string t, marker)
    | .mappingStart =>
      next.andThen fun _ => .more (onlyEntry fun s => if s = "file" then some file else none)
    | _ => refuse (misfit marker)

structure BodyMultipartPiece where
  headers : List (String × PreTemplate)
  body : BodyMultipartPieceBody

namespace BodyMultipartPiece

structure Fields where
  headers : List (String × PreTemplate) := []
  body : Option BodyMultipartPieceBody := none

def layout : Section BodyMultipartPiece where
  Fields := Fields
  init := {}
  field key _ :=
    if key = "headers" then
      named key (TupleVec.parse PreTemplate.parse) fun c f => { f with headers := c }
    else if key = "body" then
      named key BodyMultipartPieceBody.parse fun a f => { f with body := some a }
    else none
  finish f marker := do
    let body ← require "body" marker f.body
    return ⟨f.headers, body⟩

end BodyMultipartPiece

inductive Body where
  | string (t : PreTemplate)
  | file (t : PreTemplate)
  | multipart (pieces : List (String × BodyMultipartPiece))

def Body.parse : FromYaml Body :=
  let file := PreTemplate.parse.map fun (t, marker) => (Body.file t, marker)
  let multipart := (TupleVec.parse BodyMultipartPiece.layout.parse).map fun (pieces, marker) =>
    (Body.multipart pieces, marker)
  peekThen fun (event, marker) =>
    match event with
    | .scalar _ _ (some (_, "file")) => file
    | .scalar .. => PreTemplate.parse.map fun (t, marker) => (.string t, marker)
    | .sequenceStart => multipart
    | .mappingStart =>
      next.andThen fun _ => .more (onlyEntry fun s =>
        if s = "file" then some file else if s = "multipart" then some multipart else none)
    | _ => refuse (misfit marker)

/-- What an endpoint provides, with the way it is sent. -/
structure EndpointProvidesPreProcessed extends SelectParser.EndpointProvidesPreProcessed where
  send : Option EndpointProvidesSendOptions

namespace EndpointProvidesPreProcessed

structure Fields extends LogsPreProcessed.Fields where
  send : Option EndpointProvidesSendOptions := none

def layout (b : Build) : Section EndpointProvidesPreProcessed where
  Fields := Fields
  init := {}
  field key _ :=
    if key = "send" then
      named key EndpointProvidesSendOptions.parse fun r f => { f with send := some r }
    else if key = "select" then
      named key (WithMarker.parse (Value.parse b.json)) fun r f => { f with select := some r }
    else if key = "for_each" then
      named key (Vec.parse (WithMarker.parse String.parse)) fun r f => { f with forEach := r }
    else if key = "where" then
      named key (WithMarker.parse String.parse) fun v f => { f with whereClause := some v }
    else none
  finish f marker := do
    let select ← require "select" marker f.select
    return ⟨⟨f.forEach, select, f.whereClause⟩, f.send⟩

end EndpointProvidesPreProcessed

structure EndpointPreProcessed where
  declare : BTreeMap PreValueOrExpression
  headers : List (String × Option PreTemplate)
  body : Option Body
  loadPattern : Option PreLoadPattern
  method : Method
  onDemand : Bool
  peakLoad : Option PreHitsPer
  tags : BTreeMap PreTemplate
  url : PreTemplate
  provides : List (String × EndpointProvidesPreProcessed)
  logs : List (String × LogsPreProcessed)
  maxParallelRequests : Option Nat
  noAutoReturns : Bool
  requestTimeout : Option PreDuration
  marker : Marker

namespace EndpointPreProcessed

structure Fields where
  declare : BTreeMap PreValueOrExpression := ∅
  headers : List (String × Option PreTemplate) := []
  body : Option Body := none
  loadPattern : Option PreLoadPattern := none
  method : Method := .get
  onDemand : Bool := false
  peakLoad : Option PreHitsPer := none
  tags : BTreeMap PreTemplate := ∅
  url : Option PreTemplate := none
  provides : List (String × EndpointProvidesPreProcessed) := []
  logs : List (String × LogsPreProcessed) := []
  maxParallelRequests : Option Nat := none
  noAutoReturns : Bool := false
  requestTimeout : Option PreDuration := none

def layout (b : Build) : Section EndpointPreProcessed where
  Fields := Fields
  init := {}
  field key _ :=
    if key = "declare" then
      named key (BTreeMap.parse PreValueOrExpression.parse) fun c f => { f with declare := c }
    else if key = "headers" then
      named key (TupleVec.parse (Nullable.parse PreTemplate.parse)) fun a f =>
        { f with headers := a }
    else if key = "body" then named key Body.parse fun a f => { f with body := some a }
    else if key = "load_pattern" then
      named key PreLoadPattern.parse fun a f => { f with loadPattern := some a }
    else if key = "method" then named key Method.parse fun a f => { f with method := a }
    else if key = "on_demand" then named key Bool.parse fun a f => { f with onDemand := a }
    else if key = "peak_load" then
      named key PreTemplate.parse fun p f => { f with peakLoad := some p }
    else if key = "tags" then
      named key (BTreeMap.parse PreTemplate.parse) fun a f => { f with tags := a }
    else if key = "url" then named key PreTemplate.parse fun v f => { f with url := some v }
    else if key = "provides" then
      named key (TupleVec.parse (EndpointProvidesPreProcessed.layout b).parse) fun a f =>
        { f with provides := a }
    else if key = "logs" then
      named key (TupleVec.parse (LogsPreProcessed.layout b).parse) fun a f => { f with logs := a }
    else if key = "max_parallel_requests" then
      named key NonZeroUsize.parse fun a f => { f with maxParallelRequests := some a }
    else if key = "no_auto_returns" then
      named key Bool.parse fun a f => { f with noAutoReturns := a }
    else if key = "request_timeout" then
      named key PreTemplate.parse fun a f => { f with requestTimeout := some a }
    else none
  finish f marker := do
    let url ← require "url" marker f.url
    return { declare := f.declare
             headers := f.headers
             body := f.body
             loadPattern := f.loadPattern
             method := f.method
             onDemand := f.onDemand
             peakLoad := f.peakLoad
             tags := f.tags
             url := url
             provides := f.provides
             logs := f.logs
             maxParallelRequests := f.maxParallelRequests
             noAutoReturns := f.noAutoReturns
             requestTimeout := f.requestTimeout
             marker := marker }

end EndpointPreProcessed

end Pewpew.Config
