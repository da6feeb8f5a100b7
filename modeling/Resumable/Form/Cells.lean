import Resumable.Form.Drive

/-!
# `Form.Cells`: completion cells and the loop by script

A script creates cells under names, completes them, registers callbacks that log a tag and may go on to do
something else, and turns the loop. Every step answers with its result and what was logged meanwhile.
-/

namespace Resumable

/-- The cells of a script by name. -/
abbrev CellNames := List (String × Value)

namespace Work

open Form

/-- The cell with a name. -/
def cellNamed (cells : CellNames) (f : Form) : Work Value :=
  match cells.lookup f.asText with
  | some v => pure v
  | none => unread ("cell " ++ f.asText)

/-- The number of milliseconds that a form gives. -/
def millis (f : Form) : UInt64 := f.asNat.toUInt64

def taskAt (a : Nat) : Value := .pointer (.task .int) a

def futureAt (a : Nat) : Value := .pointer .future a

/-- Makes the cell that a step asks for, if it asks for one. -/
def newCell? (cells : CellNames) (step : Form) : Work (Option Value) := do
  let x := step.nth 2
  let y := step.nth 3
  let int (f : Form) : Value := .ofInt f.asInt
  match step.head with
  | "future" => return futureAt (← run (Run.newCell none .free))
  | "task" => return taskAt (← run (Run.newCell (some .int) .free))
  | "completed" => return futureAt (← run (Run.settledCell calls none none))
  | "failedfuture" =>
    let e ← readError? x
    return futureAt (← run (Run.failedCell calls none e))
  | "fromresult" => return taskAt (← run (Run.settledCell calls (some .int) (some (int x))))
  | "fromerror" =>
    let e ← readError? x
    return taskAt (← run (Run.failedCell calls (some .int) e))
  | "delay" => return futureAt (← run (Run.after none (millis x) none))
  | "yield" => return futureAt (← run Run.yieldTurn)
  | "after" => return taskAt (← run (Run.after (some .int) (millis x) (some (int y))))
  | "failafter" =>
    let e ← readError? y
    return taskAt (← run (Run.failAfter (some .int) (millis x) e))
  | "rent" => return Value.pointer (.source .int) (← run (Run.rent .int))
  | "rentf" => return Value.pointer (.source .unit) (← run (Run.rent .unit))
  | "handle" =>
    match ← cellNamed cells x with
    | .pointer (.pointer (.applied .valueTaskSource [t])) a =>
      let h ← run (Run.handleOf t a)
      return if t == .unit then Run.valueFutureOf h else h
    | _ => unread "source"
  | "vtof" => return Run.settledHandle .int (int x) none
  | "vtfailed" => return Run.settledHandle .int (.ofInt 0) (← readError? x)
  | "cvf" => return Run.valueFutureOf (Run.settledHandle .unit Run.unitValue none)
  | "fvf" => return Run.valueFutureOf (Run.settledHandle .unit Run.unitValue (← readError? x))
  | _ => return none

/-- Whether a cell has a value besides its error. -/
def hasValue (v : Value) : Bool :=
  match v.typeOf with
  | .pointer (.applied .task _) | .applied .valueTask _ => true
  | _ => false

/-- A result with an error: the value of a cell that has one, and the error if there is one. -/
def resultForm (valued : Bool) (value : Value) (err : Option Value) : Work Form := do
  let w := (← get).world
  let o : Origin := ⟨0, 0⟩
  let shown := if valued then [("value", ofValue w o value.content)] else []
  match err with
  | some e => return .record (errorFields w o e ++ shown)
  | none => return if valued then .record shown else .null

/-- Reads the result of a cell through a method. -/
def readResult (cell target : Value) (method : String) : Work Form := do
  let out ← run (Run.callMethod calls target method [])
  let value := out.headD (.null .any)
  let err := out.getLast?.bind Value.content
  resultForm (hasValue cell) value err

/-- Waits for a cell although the wait is canceled: a cell that is not done yet ends it. -/
def waitResult (cell : Value) : Work Form := do
  let a ← run (Run.addressOf cell)
  let c ← run (Run.completion a)
  let zero := Value.ofInt 0
  if !c.done then resultForm (hasValue cell) zero (some Sentinel.canceled.error)
  else if c.err.isSome then resultForm (hasValue cell) zero c.err
  else resultForm (hasValue cell) (c.value.getD zero) none

/-- What a callback does after it has logged its tag. -/
def readThen (cells : CellNames) (f : Form) : Work (Option Callback) := do
  let address (f : Form) : Work Nat := do run (Run.addressOf (← cellNamed cells f))
  match f.head with
  | "complete" => return some (.complete (← address (f.nth 1)) (some (.ofInt (f.nth 2).asInt)))
  | "completef" => return some (.complete (← address (f.nth 1)) none)
  | "post" => return some (.post (.note (f.nth 1).asText))
  | "delay" => return some (.noteAfter (millis (f.nth 2)) (f.nth 1).asText)
  | _ => return none

/-- Registers a callback; without a mode in the way the cell is bound to. -/
def registerOn (cell : Value) (mode : Form) (k : Callback) : Work Unit := do
  match cell with
  | .pointer _ a => run (Run.onCompleted calls a k (!mode.isNull && !mode.asBool))
  | .struct (.named .valueFuture) [h] => run (Run.handleOnCompleted calls h k)
  | h => run (Run.handleOnCompleted calls h k)

/-- The loop; looking at a missing one panics. -/
def theLoop : Work Loop := do
  match (← get).world.loop with
  | some l => return l
  | none => run Run.panicNil

/-- One step that uses cells or the loop. -/
def useCells (cells : CellNames) (step : Form) : Work Form := do
  let cell := cellNamed cells (step.nth 1)
  let loop := (← get).world.loop.getD {}
  let bool (b : Bool) : Form := .bool b
  match step.head with
  | "bind" =>
    let a ← run (Run.addressOf (← cell))
    let binding ← run Run.loopBinding
    run (do Run.setObject a (.completion { ← Run.completion a with binding }))
    return .null
  | "complete" =>
    let v ← cell
    let a ← run (Run.addressOf v)
    let value := match v.typeOf with
      | .pointer (.applied .task _) => some (Value.ofInt (step.nth 2).asInt)
      | .pointer (.applied .valueTaskSource [t]) =>
        some (if t == .unit then Run.unitValue else .ofInt (step.nth 2).asInt)
      | _ => none
    bool <$> run (Run.complete calls a value)
  | "fail" =>
    let a ← run (Run.addressOf (← cell))
    let e ← readError? (step.nth 2)
    bool <$> run (Run.fail calls a e)
  | "done" =>
    let out ← run (Run.callMethod calls (← cell) "IsCompleted" [])
    return .bool (out.headD (.ofBool false)).asBool
  | "result" =>
    let v ← cell
    readResult v v (if hasValue v then "Result" else "Err")
  | "get" =>
    let v ← cell
    let out ← run (Run.callMethod calls v "GetAwaiter" [])
    readResult v (out.headD (.null .any)) "GetResult"
  | "wait" => waitResult (← cell)
  | "on" =>
    let v ← cell
    let note : Callback := .note (step.nth 2).asText
    let k := match ← readThen cells (step.nth 4) with
      | some t => .both note t
      | none => note
    registerOn v (step.nth 3) k
    return .null
  | "post" =>
    if !(step.nth 1).isNull then run (Run.post (.note (step.nth 1).asText))
    return .null
  | "run" =>
    run (Run.runAll calls)
    return .null
  | "runonce" => bool <$> run (Run.runOnce calls)
  | "rununtil" =>
    let v ← cell
    bool <$> run (Run.runUntil calls do
      return ((← Run.callMethod calls v "IsCompleted" []).headD (.ofBool false)).asBool)
  | "pending" => return .nat loop.pending
  | "steps" => return .nat loop.steps
  | "now" => return .nat (← theLoop).now.toNat
  | "sleep" =>
    discard theLoop
    run (Run.modifyLoop fun l => l.sleepUntil (millis (step.nth 1)))
    return .nat (← theLoop).now.toNat
  | "nilclock" => return .nat 0
  | word => unread ("step " ++ word)

/-- The log of a step. Where the order of callbacks is left open the lines are sorted. -/
def stepLog (sorted : Bool) : Work (List (String × Form)) := do
  let log ← run Run.takeLog
  let log := if sorted then (log.toList.mergeSort fun a b => !Bytes.less b a).toArray else log
  return logFields log

/-- One step of a script over cells. -/
def cellStep (cells : CellNames) (step : Form) : Work (CellNames × Form) := do
  match ← newCell? cells step with
  | some v => return (((step.nth 1).asText, v) :: cells, .null)
  | none => return (cells, ← useCells cells step)

/-- A script over cells and a loop. -/
def cellForm (f : Form) : Work Form := do
  if (f.field "nilloop").asBool then run (modify fun w => { w with loop := none })
  let sorted := (f.field "fuzz").asBool
  let mut cells : CellNames := []
  let mut out : List Form := []
  for step in (f.field "steps").elems do
    let r ← match ← attempt (cellStep cells step) with
      | .ok (now, r) =>
        cells := now
        pure r
      | .error e => pure (.record (failureFields (← get).world ⟨0, 0⟩ e))
    out := out ++ [.record (("r", r) :: (← stepLog sorted))]
  return .list out

end Work

end Resumable
