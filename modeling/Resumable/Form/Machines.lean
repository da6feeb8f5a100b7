import Resumable.Form.Lowering
import Resumable.Form.Reports

/-!
# `Form.Machines`: machines made by hand, and completion backends

A machine form lists states with their continuations, resume targets and protected regions by their
places in the list, and which of them are registered.
-/

namespace Resumable

namespace Form

/-- Reads an optional place. -/
def asPlace? (f : Form) : Option Nat := if f.isNull then none else some f.asNat

/-- Reads the protected regions of a state, outermost first; those around a region are not recorded. -/
def readGuard (f : Form) (parked : Var) : Guard where
  handlers := (f.field "handlers").elems.map fun h => { state := h.asNat }
  cleanup := (f.field "finally").asPlace?
  propagate := (f.field "rethrow").asPlace?
  parked := if (f.field "saved").asBool then some parked else none

end Form

namespace Work

open Form

/-- Reads the statements of a state: stores of numbers into variables of no meaning. -/
def readStores (f : Form) : Work (Array Expr) := do
  let stores ← (f.field "stores").elems.mapM fun n => build do
    let v ← Build.newVar "x" .int
    Build.assign (← Build.ref v) (← Build.constInt n.asInt)
  return stores.toArray

/-- Reads a machine made by hand. -/
def readMachine (f : Form) : Work Machine := do
  let parked ← build (Build.newVar "saved" .int)
  let mut g : Graph := {}
  for s in (f.field "states").elems do
    let guards := (s.field "try").elems.map fun t => readGuard t parked
    let first := g.guards.size
    let context := (List.range guards.length).reverse.map (first + ·)
    let state : State :=
      { id := (s.field "id").asInt, name := (s.field "name").asText, stmts := ← readStores s,
        context, inCleanup := (s.field "finally").asBool, resume := (s.field "resume").asPlace? }
    g := { g with states := g.states.push state, guards := g.guards ++ guards.toArray }
  for (s, i) in (f.field "states").elems.zipIdx do
    for c in (s.field "cont").elems do
      match g.setNext i c.asPlace? with
      | .ok g' => g := g'
      | .error e => throw (.fault e)
  return { name := (f.field "name").asText, kind := .async, fast := (f.field "fast").asBool,
           graph := g, states := (f.field "registered").elems.map asNat }

/-- Checks a machine made by hand. -/
def checkForm (f : Form) : Work Form := do
  let m ← readMachine f
  return .record [("diags", .list (m.findings.map ofDiagnostic)),
    ("states", .list (m.stateList.map fun s => .text s.text))]

/-- Tests the rules of an outcome of lowering that was made by hand. -/
def invariantsForm (f : Form) : Work Form := do
  let e ← readTree f
  let ms ← (f.field "machines").elems.mapM readMachine
  let isNil := (f.field "nil").asBool
  let (e, ms) := if isNil then (.absent, []) else (e, ms)
  let fault := invariantFault? e ms
  let record := if !(f.field "record").asBool then []
    else
      let r := match Record.ofMachines "hand" ms [] with
        | .ok r => ofRecord r
        | .error e => .text e.message
      [("record", r)]
  return .record ([("ok", .bool fault.isNone)] ++
    (fault.map fun msg => ("message", .text msg)).toList ++
    (ms.getLast?.map fun m => ("root", .text m.name)).toList ++ record)

/-- The expressions of a completion backend. -/
def backendForm (f : Form) : Work Form := do
  let handle? ← if (f.field "handle").isNull then pure none else some <$> readType (f.field "handle")
  match handle?.bind Backend.find? with
  | none => return .record [("ok", .bool false)]
  | some b =>
    let cell ← build (Build.newVar "cell" b.cell)
    let err ← build (Build.newVar "err" .error)
    let o : Origin := ⟨2, 0⟩
    let dump (x : Build Expr) : Work Form := do
      match ← attempt (build x) with
      | .ok e => return ofTree (← get).world o e
      | .error e => return .record (failureFields (← get).world o e)
    let valued (x : Expr → Build Expr) : Work Form := do
      match ← attempt (readExpr (f.field "expr")) with
      | .ok e => dump (x e)
      | .error e => return .record (failureFields (← get).world o e)
    let type (t : Ty) : Form := .text t.label
    return .record [("ok", .bool true), ("handle", type b.handle), ("result", type b.result),
      ("cell", type b.cell), ("create", ← dump b.create),
      ("setException", ← dump do b.setException (← Build.ref cell) (← Build.ref err)),
      ("awaitable", ← dump do b.awaitable (← Build.ref cell)),
      ("fromException", ← dump do b.fromException (← Build.ref err)),
      ("setResult", ← valued fun v => do b.setResult (← Build.ref cell) v),
      ("fromResult", ← valued b.fromResult)]

end Work

end Resumable
