import Resumable.Run.Calls

/-!
# `Run.Cell`: completion cells

A cell is completed or fails once. Continuations that were registered before run then, in order; later
ones run at once. A continuation runs where the cell is bound to, unless it asked to run inline.
Sources are cells that return to a pool when their result is read; a handle remembers the version of
its source, so that an old handle is told from a new use.
-/

namespace Resumable.Run

/-- The cell at an address. -/
def completion (a : Nat) : Run Completion := do
  match ← object a with
  | .completion c => return c
  | _ => return {}

/-- A new cell; `t` is the type of its value. -/
def newCell (t : Option Ty) (b : Binding) : Run Nat :=
  alloc (.completion { value := t.map Ty.zero, binding := b })

/-- The address a pointer leads to; looking through nil panics. -/
def addressOf (v : Value) : Run Nat :=
  match v with
  | .pointer _ a => pure a
  | _ => panicNil

/-- Runs a continuation of a cell, or hands it to where the cell is bound to. -/
def resume (c : Calls) (a : Nat) (k : Waker) : Run Unit := do
  match k.runsOn (← completion a).binding with
  | .free => record (.resumed a k); c.exec k.callback
  | .loop => record (.resumed a k); post k.callback
  | .nowhere => pure ()

/-- Records an outcome once and wakes what waits for it; false when there was one already. -/
def finish (c : Calls) (a : Nat) (err value : Option Value) : Run Bool := do
  let cell ← completion a
  record (.offered a err value !cell.done)
  if cell.done then return false
  setObject a (.completion
    { cell with done := true, err := err, value := value <|> cell.value, wakers := [] })
  -- the cell is settled by now, so that what registers from here on runs at once
  cell.wakers.forM (resume c a)
  return true

/-- Completes a cell. -/
def complete (c : Calls) (a : Nat) (v : Option Value) : Run Bool := finish c a none v

/-- Makes a cell fail; failing with nil has an error of its own. -/
def fail (c : Calls) (a : Nat) (e : Option Value) : Run Bool := do
  let e ← match e with
    | some e => pure e
    | none => newError "asyncrt: fail with nil error"
  finish c a (some e) none

/-- Registers a continuation, or resumes it when the cell is done. -/
def onCompleted (c : Calls) (a : Nat) (k : Callback) (inline : Bool) : Run Unit := do
  let cell ← completion a
  record (.registered a ⟨k, inline⟩)
  if cell.done then resume c a ⟨k, inline⟩
  else setObject a (.completion { cell with wakers := cell.wakers ++ [⟨k, inline⟩] })

/-- The outcome of a cell: its value and its error. Before completion the value is the zero of `t`. -/
def outcome (a : Nat) (t : Ty) : Run (Value × Option Value) := do
  let cell ← completion a
  if !cell.done then return (t.zero, some Sentinel.notCompleted.error)
  return (cell.value.getD t.zero, cell.err)

/-! ### Cells made by the loop -/

/-- A cell that completes after some time. -/
def after (t : Option Ty) (ms : UInt64) (v : Option Value) : Run Nat := do
  let a ← newCell t (← loopBinding)
  schedule ms (.complete a v)
  return a

/-- A cell that fails after some time. -/
def failAfter (t : Option Ty) (ms : UInt64) (e : Option Value) : Run Nat := do
  let a ← newCell t (← loopBinding)
  schedule ms (.fail a e)
  return a

/-- A cell that completes on a later turn. -/
def yieldTurn : Run Nat := do
  let a ← newCell none (← loopBinding)
  post (.complete a none)
  return a

/-! ### Sources -/

/-- The pool of sources for values of type `t`. -/
def pool (t : Ty) : Run Pool := return ((← get).pools.lookup t).getD {}

def setPool (t : Ty) (p : Pool) : Run Unit :=
  modify fun w => { w with pools := (t, p) :: w.pools.filter (·.1 != t) }

/-- Takes a source from its pool, or makes one. -/
def rent (t : Ty) : Run Nat := do
  match (← pool t).take with
  | (some a, p) => setPool t p; return a
  | (none, _) => newCell (some t) .free

/-- A handle of the current use of a source. -/
def handleOf (t : Ty) (a : Nat) : Run Value := do
  let cell ← completion a
  return .struct (.valueTask t)
    [.pointer (.source t) a, .int (.scalar .uint32) cell.version.toNat, t.zero, .ofError none]

/-- A handle that needs no source. -/
def settledHandle (t : Ty) (v : Value) (e : Option Value) : Value :=
  .struct (.valueTask t) [.null (.source t), .int (.scalar .uint32) 0, v, .ofError e]

/-- Answers the reading of a handle. -/
def answer (a : Nat) (version : UInt32) (r : Value × Option Value) (recycled : Bool) :
    Run (Value × Option Value) := do
  record (.read a version r recycled)
  return r

/-- Reads the outcome of one use of a source and returns the source to its pool. -/
def consume (t : Ty) (a : Nat) (version : UInt32) : Run (Value × Option Value) := do
  let cell ← completion a
  -- a handle of an earlier use
  if cell.version != version then return ← answer a version (t.zero, some Sentinel.stale.error) false
  if !cell.done then return ← answer a version (t.zero, some Sentinel.notCompleted.error) false
  setObject a (.completion
    { cell with done := false, err := none, value := some t.zero, wakers := [],
                version := cell.version + 1 })
  setPool t ((← pool t).put a)
  answer a version (cell.value.getD t.zero, cell.err) true

/-- The parts of a handle: its source, the version it is for, and the outcome it holds itself. -/
def handleParts (v : Value) : Value × UInt32 × Value × Option Value :=
  match v with
  | .struct _ [src, version, value, err] =>
    (src, version.asInt.toNat.toUInt32, value, err.content)
  | v => (.null .any, 0, v, none)

/-- Whether a handle can be read. -/
def handleDone (v : Value) : Run Bool := do
  let (src, version, _, _) := handleParts v
  match src with
  | .pointer _ a =>
    let cell ← completion a
    return cell.version != version || cell.done
  | _ => return true

/-- Reads a handle. -/
def handleResult (t : Ty) (v : Value) : Run (Value × Option Value) := do
  let (src, version, value, err) := handleParts v
  match src with
  | .pointer _ a => consume t a version
  | _ => return (value, err)

/-- Registers a continuation on a handle. -/
def handleOnCompleted (c : Calls) (v : Value) (k : Callback) : Run Unit := do
  match (handleParts v).1 with
  | .pointer _ a => onCompleted c a k false
  | _ => c.exec k

/-! ### Callbacks -/

/-- Runs a callback. -/
def execCallback (c : Calls) : Callback → Run Unit
  | .call f => do discard (c.call f [])
  | .complete a v => do discard (complete c a v)
  | .fail a e => do discard (fail c a e)
  | .note line => note (Bytes.ofString line)
  | .both a b => do c.exec a; c.exec b
  | .post k => post k
  | .noteAfter ms line => do
    let a ← after none ms none
    onCompleted c a (.note line) false

/-- Runs one callback of the loop, moving time on when none is ready; false when nothing is left. -/
def runOnce (c : Calls) : Run Bool := do
  match (← get).loop.bind Loop.next? with
  | none => return false
  | some (k, l) =>
    modify fun w => { w with loop := some l }
    c.exec k
    return true

/-- Runs the loop until nothing is left. -/
def runAll (c : Calls) : Run Unit :=
  iterate (fun _ => do if ← runOnce c then return .inl () else return .inr ()) c.turns ()

/-- Runs the loop until a condition holds; whether it holds in the end. -/
def runUntil (c : Calls) (done : Run Bool) : Run Bool :=
  iterate (fun _ => do
    if ← done then return .inr true
    if ← runOnce c then return .inl () else return .inr (← done)) c.turns ()

end Resumable.Run
