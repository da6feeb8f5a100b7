import Resumable.Value

/-!
# `Run.Loop`: callbacks and the event loop

The loop holds callbacks that are ready, in first-in first-out order, and timers. Time is virtual: it
stands still while something is ready and then jumps to the earliest deadline. Of two timers with one
deadline the older fires first. A loop may be given choices, so that other callbacks than the oldest are
taken first. Steps and timers are counted without bound.
-/

namespace Resumable

/-- Work that is done later. -/
inductive Callback where
  /-- Calls a function without arguments. -/
  | call (f : Value)
  /-- Completes a cell, with a value when it carries one. -/
  | complete (cell : Nat) (v : Option Value)
  /-- Makes a cell fail. -/
  | fail (cell : Nat) (e : Option Value)
  /-- Logs a line. -/
  | note (line : String)
  /-- One thing after the other. -/
  | both (a b : Callback)
  /-- Posts work to the loop. -/
  | post (k : Callback)
  /-- Logs a line once some time has passed. -/
  | noteAfter (ms : UInt64) (line : String)
  deriving Inhabited

/-- An armed timer. -/
structure Timer where
  id : Nat
  deadline : UInt64
  fire : Callback
  deriving Inhabited

namespace Timer

/-- The order in which timers fire. -/
def before (a b : Timer) : Bool :=
  if a.deadline == b.deadline then a.id < b.id else a.deadline < b.deadline

/-- Inserts a timer into a list in firing order. -/
def insert (t : Timer) : List Timer → List Timer
  | [] => [t]
  | u :: us => if t.before u then t :: u :: us else u :: insert t us

end Timer

/-- The event loop. -/
structure Loop where
  /-- Callbacks to run, oldest first. -/
  ready : List Callback := []
  /-- Armed timers in firing order. -/
  timers : List Timer := []
  nextTimer : Nat := 1
  now : UInt64 := 0
  /-- Callbacks run so far. -/
  steps : Nat := 0
  /-- Positions in the queue from which the next callbacks are taken; without a choice it is the oldest. -/
  choices : List Nat := []
  deriving Inhabited

namespace Loop

/-- Adds a callback at the end of the queue. -/
def post (l : Loop) (k : Callback) : Loop := { l with ready := l.ready ++ [k] }

/-- Arms a timer `ms` from now; the deadline wraps around at 64 bits. -/
def schedule (l : Loop) (ms : UInt64) (k : Callback) : Loop :=
  { l with
    timers := Timer.insert ⟨l.nextTimer, l.now + ms, k⟩ l.timers
    nextTimer := l.nextTimer + 1 }

/-- Queued callbacks and armed timers. -/
def pending (l : Loop) : Nat := l.ready.length + l.timers.length

/-- Moves the clock forward to a deadline; it never goes back. -/
def sleepUntil (l : Loop) (deadline : UInt64) : Loop :=
  if deadline < l.now then l else { l with now := deadline }

/-- Moves to the earliest deadline and makes every timer due by then ready, when there is one. -/
def advance (l : Loop) : Option Loop :=
  match l.timers with
  | [] => none
  | t :: rest =>
    let l := l.sleepUntil t.deadline
    let due := rest.takeWhile (·.deadline ≤ l.now)
    some { l with
      ready := l.ready ++ t.fire :: due.map (·.fire)
      timers := rest.dropWhile (·.deadline ≤ l.now) }

/-- Takes the next callback, counting it as a step; none when there is nothing left to do. -/
def next? (l : Loop) : Option (Callback × Loop) :=
  let l := if l.ready.isEmpty then l.advance.getD l else l
  let i := l.choices.headD 0 % l.ready.length
  l.ready[i]?.map fun k =>
    (k, { l with ready := l.ready.eraseIdx i, choices := l.choices.tail, steps := l.steps + 1 })

end Loop

end Resumable
