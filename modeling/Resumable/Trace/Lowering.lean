import Resumable.Session
import Resumable.Trace.Tracer

/-!
# `Trace.Lowering`: the trace of a lowering

Lowering a tree is one span, in which each state and each lambda without states is a point. The states are
named when the finest level asks for them.
-/

namespace Resumable

namespace Trace.Tracer

/-- Records a moment of lowering under a span. -/
def moment (t : Tracer) (parent : UInt64) : Moment → Tracer
  | .fastPath lambda => t.point .state "fast-path" parent lambda []
  | .state lambda id name => t.point .state name parent lambda [("id", toString id)]

/-- Records the lowering of a tree: its span, the moments inside, and how it ended. -/
def lowering (t : Tracer) (parent : UInt64) (moments : List Moment) (ok : Bool) (states : Nat) : Tracer :=
  let (span, t) := t.start .lambda "lower" parent
  let t := moments.foldl (fun t m => t.moment span.id m) t
  t.finish (span.withAttr "states" (toString states)) (if ok then "ok" else "error")

/-- Whether every state is recorded. -/
def seesStates (t : Tracer) : Bool := t.level.number ≥ Trace.Level.debug.number

end Trace.Tracer

namespace Work

/-- Lowers a tree under a span of a trace. -/
def lowerTraced (t : Trace.Tracer) (parent : UInt64) (options : LowerOptions) (e : Expr) :
    Work (Except Failure Lowered × Array Moment × Trace.Tracer) := do
  let (r, moments) ← lowerWatched { options with watch := options.watch || t.seesStates } e
  match r with
  | .ok l =>
    let states := (l.machines.getLast?.map (·.states.length)).getD 0
    return (r, moments, t.lowering parent moments.toList true states)
  | .error (.refused _) => return (r, moments, t.lowering parent moments.toList false 0)
  | .error f => throw f

end Work

end Resumable
