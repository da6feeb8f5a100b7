import Resumable.Form.Read
import Resumable.Form.Write

/-!
# `Form.Lowering`: lowered trees as forms

Reads the options of lowering and writes machines, their states and what the checks say about them.
-/

namespace Resumable

namespace Form

/-- Reads how a tree is lowered. -/
def readOptions (f : Form) : LowerOptions where
  debug := (f.field "debug").asBool
  noOptimize := (f.field "noopt").asBool
  verify := (f.field "verify").asBool
  maxDiagnostics := (f.field "max").asInt
  watch := (f.field "onstate").asBool

/-- Fields that are told only when they are set. -/
def flag (name : String) (b : Bool) : List (String × Form) := if b then [(name, .bool true)] else []

/-- The number of an optional state; -1 for none. -/
def stateNumber (g : Graph) (r : Option StateRef) : Form := .num ((r.map g.idOf).getD (-1))

/-- A protected region as the states inside it see it. -/
def ofGuard (g : Graph) (info : Guard) : Form :=
  .record [("handlers", .list (info.handlers.map fun h =>
      .list [.num (g.idOf h.state), .text h.test.label, .bool !h.filter.isAbsent])),
    ("finally", stateNumber g info.cleanup), ("rethrow", stateNumber g info.propagate),
    ("exit", stateNumber g info.exit)]

/-- A state of a machine. -/
def ofState (g : Graph) (s : State) : Form :=
  let guards := g.guardsOf s
  .record ([("id", .num s.id), ("next", stateNumber g s.next), ("str", .text s.text),
      ("stmts", .nat s.stmts.size)] ++
    flag "terminal" s.terminal ++ flag "dead" s.isDead ++ flag "finally" s.inCleanup ++
    flag "omit" s.stored ++
    (s.resume.map fun r => ("resume", .num (g.idOf r))).toList ++
    (s.result.map fun v => ("result", .list [.text v.name, .text v.type.label])).toList ++
    (if guards.isEmpty then [] else [("try", .list (guards.map (ofGuard g)))]))

/-- A machine. -/
def ofMachine (m : Machine) : Form :=
  .record [("name", .text m.name), ("kind", .text m.kind.text), ("fast", .bool m.fast),
    ("states", .list (m.stateList.map (ofState m.graph)))]

/-- What the checker says about machines. -/
def checkFields (ms : List Machine) : List (String × Form) :=
  let ds := ms.flatMap Machine.findings
  if ds.isEmpty then [] else [("check", .list (ds.map ofDiagnostic))]

/-- The names of the emitted states. -/
def ofMoments (ms : Array Moment) : Form :=
  .list (ms.toList.filterMap fun m =>
    match m with
    | .state _ id name => some (.list [.num id, .text name])
    | .fastPath _ => none)

end Form

namespace Work

open Form

/-- Lowers a tree and tells about the outcome. -/
def lowerForm (f : Form) : Work Form := do
  let e ← readTree f
  let o ← origin
  let options := readOptions (f.field "opts")
  let source ← if (f.field "source").asBool then pure [("source", ofTree (← get).world o e)] else pure []
  let (r, moments) ← lowerWatched options e
  match r with
  | .error (.refused ds) => return .record (refusedFields ds ++ [("text", .text (formatShort ds true))])
  | .error f => throw f
  | .ok l =>
    let tree := ofTree (← get).world o l.tree
    let dump := if (f.field "nodump").asBool then [] else [("dump", tree)]
    return .record ([("machines", .list (l.machines.map ofMachine)),
        ("phases", .list (l.phases.map fun (name, note) => .list [.text name, .text note]))] ++
      checkFields l.machines ++
      ((invariantFault? l.tree l.machines).map fun msg => ("invariants", Form.text msg)).toList ++
      dump ++ source ++
      (if options.watch then [("onstate", ofMoments moments)] else []))

/-- Evaluates a tree and tells about the outcome. -/
def evalForm (o : Origin) (e : Expr) : Work Form := report o (run (Run.evalClosed calls e))

/-- Applies a pass over trees and tells about the outcome. -/
def passForm (f : Form) : Work Form := do
  if let .list es := f.field "exprs" then
    declareNames f
    let bs ← es.mapM fun x => do
      let e ← readExpr x
      match e.isSafe? with
      | some b => return Form.bool b
      | none => throw (.fault .missing)
    return .list bs
  let e ← readTree f
  let o ← origin
  let safe ← match e.isSafe? with
    | some b => pure b
    | none => throw (.fault .missing)
  let alike := (← get).world.alike
  let out ← match (f.field "pass").asText with
    | "optimize" => build (e.optimize alike)
    | "rescope" =>
      let ignore ← (f.field "ignore").elems.mapM readVar
      build (e.rescope ignore)
    | "rescope+optimize" => build (do (← e.rescope []).optimize alike)
    | p => unread ("pass " ++ p)
  let dump := ofTree (← get).world o out
  let evals ← if (f.field "eval").asBool then do
      let before ← evalForm o e
      pure [("before", before), ("after", ← evalForm o out)]
    else pure []
  return .record ([("safe", .bool safe), ("dump", dump)] ++ evals)

end Work

end Resumable
