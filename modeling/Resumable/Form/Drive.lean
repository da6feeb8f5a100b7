import Resumable.Form.Lowering
import Resumable.Run.Settle

/-!
# `Form.Drive`: running lowered trees and sequences

Lowers a tree, calls the lambda and settles what it returns; or walks a sequence by a script of steps.
Every mode of a run begins with a session of its own.
-/

namespace Resumable

namespace Form

/-- The options that a mode of running stands for. -/
def modeOptions (mode : String) : LowerOptions :=
  match mode with
  | "noopt" => { noOptimize := true, verify := true }
  | "debug" => { debug := true }
  | _ => { verify := true }

/-- What is told about a result with an error: both if there are both. -/
def settledFields (w : World) (o : Origin) (r : Run.Settled) : List (String × Form) :=
  let (value, err) := r
  match err with
  | none => [("value", ofValue w o value)]
  | some e =>
    errorFields w o e ++ (if value.isSome then [("value", ofValue w o value)] else [])

/-- Where the loop stands. -/
def loopFields (w : World) : List (String × Form) :=
  let l := w.loop.getD {}
  [("steps", .nat l.steps), ("now", .nat l.now.toNat)]

end Form

namespace Work

open Form

/-- Runs work in a session of its own; a failure is told as it is. -/
def inFreshSession (x : Work Form) : Form :=
  match x {} with
  | .ok f _ => f
  | .error e s => .record (failureFields s.world ⟨s.vars.length + s.labels.length, s.supply.nodes⟩ e)

/-- Calls what a lowered tree stands for: a lambda with arguments, or any other tree as it is. -/
def start (e : Expr) (args : List (Option Value)) : Work (Option Value) := do
  if e.hasKind .lambda then
    let f ← run (Run.compile calls e)
    run (Run.callCompiled calls e f args)
  else run (Run.evalClosed calls e)

/-- One mode of a run: lowers, calls and settles. -/
def runMode (f : Form) (mode : String) : Work Form := do
  let e ← readTree f
  let o ← origin
  let l ← lower (modeOptions mode) e
  let states := ("states", Form.nat (l.machines.foldl (fun n m => n + m.states.length) 0))
  let args ← (f.field "args").elems.mapM readValue
  let fn ← if l.tree.hasKind .lambda then some <$> run (Run.compile calls l.tree) else pure none
  let called ← attempt (run (match fn with
    | some g => Run.callCompiled calls l.tree g args
    | none => Run.evalClosed calls l.tree))
  match called with
  | .error (.stop (.raised err)) =>
    let w := (← get).world
    return .record (states :: ("at", .text "call") :: errorFields w o err ++ (← takeLogFields))
  | .error f => throw f
  | .ok handle =>
    let detached ← if !(f.field "detached").asBool then pure [] else do
      let shown := ("handle", ofValue (← get).world o handle)
      match handle with
      | some h =>
        if (h.typeOf.methodResults? "IsCompleted" []).isSome then
          let done ← run (Run.callMethod calls h "IsCompleted" [])
          pure [shown, ("done", .bool (done.headD (.ofBool false)).asBool)]
        else pure [shown]
      | none => pure [shown]
    let r ← run (Run.settle calls handle (f.field "cancel").asBool)
    let w := (← get).world
    return .record (states :: detached ++ settledFields w o r ++ loopFields w ++
      [("pending", .nat (w.loop.getD {}).pending)] ++ (← takeLogFields))

/-- Runs a tree in several modes. -/
def runForm (f : Form) : Form :=
  let modes := match f.field "modes" with
    | .list ms => ms.map asText
    | _ => ["opt", "noopt", "debug"]
  .record (modes.map fun m => (m, inFreshSession (runMode f m)))

/-! ### Sequences by script -/

/-- The elements that a consumer was given, errors among them. -/
def givenForms (w : World) (o : Origin) (k : Consumer) : List Form :=
  k.seen.reverse.map fun args =>
    match args with
    | [v, err] =>
      match err.content with
      | some e => .list [.text "error", .record (errorFields w o e)]
      | none => ofValue w o v.content
    | args => ofValue w o (args.head?.bind Value.content)

/-- Ranges over a handle, stopping after `n` elements if that is positive. -/
def rangeStep (o : Origin) (handle : Value) (n : Int) : Work (List (String × Form)) := do
  let f ← if handle.typeOf == .sequence then run (Run.allOf handle) else pure handle
  let (id, consumer) ← run (Run.newConsumer (Run.yieldType f.typeOf) (.count n.toNat))
  let r ← attempt (run (calls.call f [consumer]))
  let w := (← get).world
  let k := w.consumers.getD id { appetite := .all }
  let got := ("got", Form.list (givenForms w o k))
  match r with
  | .ok _ => return [got]
  | .error e => return got :: failureFields w o e

/-- The element type that a word asks for. -/
def collectType (word : String) : Ty :=
  match word with
  | "int" => .int
  | "string" => .string
  | _ => .any

/-- One step of a script over a handle; `open_` holds the enumerators by name. -/
def sequenceStep (o : Origin) (handle : Value) (open_ : List (String × Nat)) (step : Form) :
    Work (List (String × Nat) × List (String × Form)) := do
  let key := (step.nth 1).asText
  let en := (open_.lookup key).getD 0
  match step.head with
  | "enum" =>
    let a ← run (Run.enumerate calls handle)
    return ((key, a) :: open_, [])
  | "next" =>
    let r ← run (Run.moveNext calls en)
    let cur ← run (Run.currentOf en)
    let w := (← get).world
    let ok := Form.list [.text "bool", .bool r.1]
    let err := (r.2.map (errorFields w o)).getD []
    return (open_, [("value", ok), ("current", ofValue w o cur)] ++ err)
  | "current" =>
    let cur ← run (Run.currentOf en)
    return (open_, [("value", ofValue (← get).world o cur)])
  | "close" =>
    let r ← run (Run.close calls en)
    let w := (← get).world
    return (open_, (r.map (errorFields w o)).getD [("value", .text "closed")])
  | "collect" =>
    let t := collectType key
    let (out, err) ← run (Run.collect calls handle t)
    let value : Value := if out.isEmpty then .null (.slice t) else .slice (.slice t) out
    return (open_, settledFields (← get).world o (some value, err))
  | "range" => return (open_, ← rangeStep o handle (step.nth 1).asInt)
  | word => unread ("step " ++ word)

/-- Walks a handle by a script. -/
def sequenceScript (o : Origin) (handle : Value) (steps : List Form) : Work (List Form) := do
  let mut opened : List (String × Nat) := []
  let mut out : List Form := []
  for step in steps do
    match ← attempt (sequenceStep o handle opened step) with
    | .ok (now, fields) =>
      opened := now
      out := out ++ [.record (fields ++ (← takeLogFields))]
    | .error e =>
      let fields := failureFields (← get).world o e
      out := out ++ [.record (fields ++ (← takeLogFields))]
  return out

/-- Lowers an iterator, calls it and walks what it returns. -/
def iterForm (f : Form) : Work Form := do
  let e ← readTree f
  let o ← origin
  let l ← lower (modeOptions (f.field "mode").asText) e
  let args ← (f.field "args").elems.mapM readValue
  let handle ← start l.tree args
  let count := (l.machines.getLast?.map (·.states.length)).getD 0
  let steps ← sequenceScript o (handle.getD (.null .sequence)) (f.field "steps").elems
  return .record [("states", .nat count), ("steps", .list steps)]

/-- Walks a sequence of given elements. -/
def seqForm (f : Form) : Work Form := do
  let o ← origin
  let elems ← (f.field "elems").elems.mapM readValue
  let fail ← readError? (f.field "fail")
  let disposeErr ← readError? (f.field "disposeErr")
  let script : Script := ⟨elems.map Value.ofAny, fail, disposeErr⟩
  let id := (← get).world.scripts.size
  run (modify fun w => { w with scripts := w.scripts.push script })
  let a ← run (Run.alloc (.sequence (.func (.func [] false [.step]) (.script id))))
  let seq : Value := .pointer .sequence a
  let handle ← if (f.field "shape").isNull then pure seq
    else do run (Run.adapt seq (← readType (f.field "shape")))
  return .record [("steps", .list (← sequenceScript o handle (f.field "steps").elems))]

/-- Settles a value on a new loop. -/
def settleForm (f : Form) : Work Form := do
  let o ← origin
  let v ← readValue (f.field "value")
  let r ← run (Run.settle calls v (f.field "cancel").asBool)
  let w := (← get).world
  return .record (settledFields w o r ++ loopFields w ++ (← takeLogFields))

end Work

end Resumable
