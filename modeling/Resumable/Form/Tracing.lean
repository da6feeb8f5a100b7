import Resumable.Form.Lowering
import Resumable.Trace.Lowering

/-!
# `Form.Tracing`: traces by script

Writes events, runs a script over a tracer, and traces the lowering of a tree.
-/

namespace Resumable

namespace Form

open Trace

/-- The fields of a fault that has only a message. -/
def plainFault (message : String) : List (String × Form) :=
  [("error", .text "error"), ("message", .text message)]

/-- Reads the attributes of an event. -/
def readAttrs (f : Form) : List (String × String) :=
  f.elems.map fun a => ((a.nth 0).asText, (a.nth 1).asText)

/-- Reads an event. -/
def readEvent (f : Form) (time : Option Int) : Event where
  time
  seq := (f.field "seq").asNat.toUInt64
  kind := ⟨(f.field "kind").asNat⟩
  scope := ⟨(f.field "scope").asNat⟩
  span := (f.field "span").asNat.toUInt64
  parent := (f.field "parent").asNat.toUInt64
  name := (f.field "name").asText
  detail := (f.field "detail").asText
  attrs := readAttrs (f.field "attrs")

/-- An event as a form. -/
def ofEvent (e : Event) : Form :=
  .list [.nat e.seq.toNat, .text e.kind.text, .text e.scope.text, .nat e.span.toNat, .nat e.parent.toNat,
    .text e.name, .text e.detail,
    .list (e.attrs.map fun (k, v) => .list [.text k, .text v])]

/-- What a script over a tracer has done. -/
structure TraceScript where
  tracer : Tracer
  spans : List Span := []
  ids : List Form := []

/-- One step of a script over a tracer. -/
def traceStep (s : TraceScript) (step : Form) : TraceScript :=
  match step.head with
  | "emit" => { s with tracer := s.tracer.emit (readEvent (step.nth 1) none) }
  | "begin" =>
    let parent := (step.nth 3).asInt
    let parentId := if parent < 0 then 0 else (s.spans.getD parent.toNat {}).id
    let (span, tracer) := s.tracer.start ⟨(step.nth 1).asNat⟩ (step.nth 2).asText parentId
    ⟨tracer, s.spans ++ [span], s.ids ++ [.nat span.id.toNat]⟩
  | "end" =>
    let i := (step.nth 1).asNat
    let span := (s.spans.getD i {}).withAttr "k" (toString i)
    { s with tracer := s.tracer.finish span (step.nth 2).asText, spans := s.spans.set i span }
  | "point" =>
    let scope : Scope := ⟨(step.nth 1).asNat⟩
    let tracer := s.tracer.point scope (step.nth 2).asText 7 (step.nth 3).asText [("x", "1")]
    { s with tracer }
  | "nilspan" => { s with ids := s.ids ++ [.list [.nat 0, .nat 0, .nat 0, .bool true]] }
  | _ => s

/-- Runs a script over a tracer that a configuration describes. -/
def tracerForm (f : Form) : Form :=
  let config : Config :=
    { level := ⟨(f.field "level").asNat⟩, mode := ⟨(f.field "mode").asNat⟩
      format := Format.all.getD (f.field "format").asNat .text
      path := (f.field "path").asText, ringSize := (f.field "ring").asInt }
  match config.tracer with
  | .error e => .record (plainFault e)
  | .ok t =>
    let t := if (f.field "niltracer").asBool then {} else t
    let s := (f.field "events").elems.foldl traceStep { tracer := t }
    let kept := match s.tracer.sinks with
      | [.ring r] =>
        let events := r.snapshot
        [("dump", Form.text (String.join (events.map Event.line))), ("kept", .nat events.length)]
      | _ => []
    .record ([("ids", .list s.ids), ("enabled", .bool s.tracer.level.isOn),
      ("level", .text s.tracer.level.text), ("flush", .bool true), ("close", .bool true),
      ("out", .text s.tracer.output)] ++ kept)

/-- Reads names of tracing, writes an event, or runs a script. -/
def traceForm (f : Form) : Form :=
  let s := (f.field "s").asText
  match (f.field "what").asText with
  | "level" =>
    match Level.parse s with
    | .ok l => .record [("n", .nat l.number), ("str", .text l.text)]
    | .error e => .record ([("n", .nat 0), ("str", .text Level.off.text)] ++ plainFault e)
  | "mode" =>
    match Mode.parse s with
    | .ok m => .record [("n", .nat m.number), ("str", .text m.text)]
    | .error e => .record ([("n", .nat Mode.ring.number), ("str", .text Mode.ring.text)] ++ plainFault e)
  | "format" =>
    match Format.parse s with
    | .ok m => .record [("n", .nat (Format.all.idxOf m))]
    | .error e => .record (("n", .nat 0) :: plainFault e)
  | "event" =>
    let e := readEvent (f.field "event") (some ((f.field "event").field "us").asInt)
    .record [("text", .text e.line), ("json", .text e.json)]
  | _ => tracerForm f

end Form

namespace Work

open Form Trace

/-- Lowers a tree under a tracer and tells what was traced. -/
def traceLowerForm (f : Form) : Work Form := do
  match Level.parse (f.field "level").asText with
  | .error e => return .record (plainFault e)
  | .ok level =>
    let multi := (f.field "multi").asBool
    let ring : Sink := .ring (.empty (f.field "ring").asInt)
    let t : Tracer := { level, sinks := if multi then [.stream .text [], ring] else [ring] }
    let (outer, t) := if (f.field "parent").asBool then t.start .batch "outer" 0 else ({}, t)
    let e ← readTree f
    let options := { readOptions (f.field "opts") with watch := true }
    let (r, moments, t) ← lowerTraced t outer.id options e
    let ok := r matches .ok _
    let events := ((t.ring?.map Ring.snapshot).getD []).map ofEvent
    return .record ([("events", .list events), ("ok", .bool ok), ("onstate", ofMoments moments)] ++
      (if multi then [("text", .text t.output)] else []))

end Work

end Resumable
