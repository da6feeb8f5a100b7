import Resumable.Trace.Event

/-!
# `Trace.Tracer`: where events go

A tracer lets through the events of its level and hands them to its sinks: a stream writes each event as it
comes, a ring keeps the latest, forgetting the oldest event once it is full. Every sink numbers the events it
takes from one common counter, as spans are numbered from another; counters wrap around at 64 bits. Without a
level nothing is recorded and spans are inert.

**Contents**
* `Ring`: a circular buffer of events.
* `Sink`, `Tracer`: the state of tracing.
* `Tracer.start`, `Tracer.finish`, `Tracer.point`: spans and points.
* `Config`: how a tracer is set up.
-/

namespace Resumable.Trace

/-- A circular buffer of events. -/
structure Ring where
  slots : Array Event
  /-- Where the next event is stored. -/
  head : Nat := 0
  /-- Whether the head has wrapped around. -/
  full : Bool := false
  deriving Inhabited

namespace Ring

/-- The size of a ring for which none is given. -/
def defaultSize : Nat := 4096

/-- A ring without events; a size that is not positive means the default one. -/
def empty (size : Int) : Ring where
  slots := Array.replicate (if size ≤ 0 then defaultSize else size.toNat) ⟨none, 0, ⟨0⟩, ⟨0⟩, 0, 0, "", "", []⟩

/-- Stores an event. -/
def push (r : Ring) (e : Event) : Ring :=
  let head := (r.head + 1) % r.slots.size
  ⟨r.slots.setIfInBounds r.head e, head, r.full || head == 0⟩

/-- The stored events, oldest first. -/
def snapshot (r : Ring) : List Event :=
  let slots := r.slots.toList
  if r.full then slots.drop r.head ++ slots.take r.head else slots.take r.head

end Ring

/-- Where events go. -/
inductive Sink where
  /-- Writes events in a format; holds what was written, latest first. -/
  | stream (format : Format) (written : List String)
  | ring (r : Ring)
  deriving Inhabited

/-- The state of tracing. -/
structure Tracer where
  level : Level := .off
  sinks : List Sink := []
  /-- The number of the latest event. -/
  seq : UInt64 := 0
  /-- The number of the latest span. -/
  spans : UInt64 := 0
  deriving Inhabited

/-- A span; an inert one has the number 0. -/
structure Span where
  id : UInt64 := 0
  parent : UInt64 := 0
  scope : Scope := ⟨0⟩
  name : String := ""
  /-- What is told when the span ends. -/
  attrs : List (String × String) := []
  deriving Inhabited

namespace Sink

/-- Takes an event that carries its number. -/
def take (s : Sink) (e : Event) : Sink :=
  match s with
  | .stream f out => .stream f (e.render f :: out)
  | .ring r => .ring (r.push e)

end Sink

namespace Tracer

/-- Hands an event to sinks, each of which takes the next number. -/
def deliver (e : Event) : List Sink → UInt64 → List Sink × UInt64
  | [], seq => ([], seq)
  | s :: ss, seq =>
    let (rest, last) := deliver e ss (seq + 1)
    (s.take { e with seq := seq + 1 } :: rest, last)

/-- Records an event if the level admits its scope. -/
def emit (t : Tracer) (e : Event) : Tracer :=
  if t.level.admits e.scope then
    let (sinks, seq) := deliver e t.sinks t.seq
    { t with sinks, seq }
  else t

/-- Begins a span; one that the level does not admit is inert. -/
def start (t : Tracer) (scope : Scope) (name : String) (parent : UInt64) : Span × Tracer :=
  if t.level.isOn && t.level.admits scope then
    let s : Span := { id := t.spans + 1, parent, scope, name }
    (s, { t with spans := s.id }.emit { kind := .start, scope, span := s.id, parent, name })
  else ({}, t)

/-- Ends a span; durations are not measured. -/
def finish (t : Tracer) (s : Span) (detail : String) : Tracer :=
  if s.id == 0 then t
  else t.emit { kind := .finish, scope := s.scope, span := s.id, parent := s.parent, name := s.name,
                detail, attrs := s.attrs ++ [("dur", unmeasured)] }

/-- Marks a point. -/
def point (t : Tracer) (scope : Scope) (name : String) (parent : UInt64) (detail : String)
    (attrs : List (String × String)) : Tracer :=
  if t.level.isOn then t.emit { kind := .point, scope, parent, name, detail, attrs } else t

/-- What the streams have written. -/
def output (t : Tracer) : String :=
  String.join (t.sinks.map fun s =>
    match s with
    | .stream _ out => String.join out.reverse
    | .ring _ => "")

/-- The ring, if there is one. -/
def ring? (t : Tracer) : Option Ring :=
  t.sinks.findSome? fun s =>
    match s with
    | .ring r => some r
    | .stream _ _ => none

end Tracer

namespace Span

/-- Adds something to tell when the span ends. -/
def withAttr (s : Span) (key value : String) : Span :=
  if s.id == 0 then s else { s with attrs := s.attrs ++ [(key, value)] }

end Span

/-- Where events are kept. -/
structure Mode where
  number : Nat
  deriving DecidableEq, Repr, Inhabited

namespace Mode

def stream : Mode := ⟨1⟩
def ring : Mode := ⟨2⟩
def both : Mode := ⟨3⟩

def text (m : Mode) : String :=
  match m.number with
  | 1 => "stream" | 2 => "ring" | 3 => "both" | _ => unknown

/-- Reads the name of a mode, or gives what is wrong with it. -/
def parse (s : String) : Except String Mode :=
  match Text.lower s with
  | "stream" => .ok stream
  | "ring" => .ok ring
  | "both" => .ok both
  | _ => .error ("invalid trace mode: " ++ Text.quote s ++ " (expected: stream|ring|both)")

end Mode

/-- How a tracer is set up. -/
structure Config where
  level : Level := .off
  mode : Mode := .ring
  format : Format := .auto
  /-- The path of the output, by which a format is chosen. -/
  path : String := ""
  ringSize : Int := 0
  deriving Inhabited

namespace Config

/-- The tracer of a configuration, or what is wrong with it; the level off gives one without sinks. -/
def tracer (c : Config) : Except String Tracer :=
  let stream : Sink := .stream (c.format.resolve c.path) []
  let ring : Sink := .ring (.empty c.ringSize)
  if c.level == .off then .ok {}
  else if c.mode == .ring then .ok { level := c.level, sinks := [ring] }
  else if c.mode == .stream then .ok { level := c.level, sinks := [stream] }
  else if c.mode == .both then .ok { level := c.level, sinks := [stream, ring] }
  else .error ("unknown trace mode: " ++ c.mode.text)

end Config

end Resumable.Trace
