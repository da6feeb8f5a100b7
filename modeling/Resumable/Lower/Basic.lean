import Resumable.Lower.Check
import Resumable.Lower.Emit
import Resumable.Lower.Optimize
import Resumable.Lower.Rescope
import Resumable.Lower.Visit

/-!
# `Lower`: async and iterator lambdas as plain ones

Every async and iterator lambda of a tree, the inner ones first, becomes a plain lambda that drives a
state machine. A body is split at its suspension points into states, the states are emitted as a dispatch
loop, and the loop is wrapped in what the caller gets: a completion handle or a sequence. An async body
that never suspends needs no machine.

**Contents**
* `Lowering`, `Lower`: what is shared by the lambdas of one tree.
* `Lower.lambda`: one lambda.
* `lower`: a whole tree.
-/

namespace Resumable

/-- What is shared by the lambdas of one tree. -/
structure Lowering where
  supply : Supply
  reporter : Reporter
  /-- The machines in the order of completion. -/
  machines : Array Machine := #[]
  /-- The phases that were gone through, with a note each. -/
  phases : Array (String × String) := #[]
  moments : Array Moment := #[]

/-- What lowering needs to know beforehand: the options, and which constants are alike. -/
structure LowerConfig where
  options : LowerOptions
  alike : Option Value → Option Value → Bool

/-- Lowering the lambdas of a tree. -/
abbrev Lower := ReaderT LowerConfig (EStateM Fault Lowering)

/-- The name of a lambda; one without a name is called by its node. -/
def Expr.lambdaName : Expr → String
  | .absent => "<nil>"
  | .node id _ _ (.lambda name _ _ _ _) => if name.isEmpty then "lambda" ++ toString id else name
  | .node id _ _ _ => "lambda" ++ toString id

namespace Lower

/-- Builds part of a tree. -/
def build (x : Build α) : Lower α := fun _ s =>
  match x s.supply with
  | .ok a supply => .ok a { s with supply }
  | .error f supply => .error f { s with supply }

instance : MonadLiftT Build Lower := ⟨build⟩

/-- Reports an error at a node of a lambda. -/
def report (code : Code) (loc : Location) (msg : String) : Lower Unit :=
  modify fun s => { s with reporter := s.reporter.report ⟨.error, code, loc, msg, []⟩ }

/-- Whether an error was reported. -/
def hasErrors : Lower Bool := return (← get).reporter.bag.hasErrors

/-- Records that a phase was gone through. -/
def phase (name note : String) : Lower Unit :=
  modify fun s => { s with phases := s.phases.push (name, note) }

/-- Runs one step of splitting, and gives the splitter as it is afterwards. -/
def split (plan : Plan) (b : Splitter) (x : Split α) : Lower (α × Splitter) := fun _ s =>
  let b := { b with supply := s.supply, reporter := s.reporter, moments := s.moments }
  let back (b : Splitter) : Lowering :=
    { s with supply := b.supply, reporter := b.reporter, moments := b.moments }
  match x plan b with
  | .ok a b => .ok (a, b) (back b)
  | .error f b => .error f (back b)

/-- The result types that an iterator body can be offered as. -/
def isIteratorShape (t : Ty) : Bool :=
  t == .sequence || t.iterable?.any fun i => i.via == .seq || i.via == .seqErr

/-- The plan of a machine: its variables, its labels and the index of its jumps. -/
def plan (name : String) (body : Expr) (isIterator : Bool) (target : Build Target) : Lower Plan := do
  let stateVar ← Build.newVar "state" .int
  let resumeVar ← Build.newVar "resumeState" .int
  let excVar ← Build.newVar "exception" .error
  let brk ← Build.newLabel "dispatchBreak" (if isIterator then .bool else .void)
  let cont ← Build.newLabel "dispatchContinue" .void
  let index := JumpIndex.ofBody body
  for g in index.undefined do
    report .undefinedLabel ⟨name, g.id⟩
      ("label " ++ Label.textOf g.jumpTarget? ++ " is never placed")
  return { name, options := (← read).options, index, target := ← target,
           stateVar, resumeVar, excVar, brk, cont }

/-- Splits a body: the entry state, the body, and the end where it is reached. -/
def splitBody (body : Expr) : Split Unit := do
  Split.goOnIn (← Split.newState .entry body .void)
  let v ← Split.visit body
  let s ← Split.current
  if !s.isDead && s.isOpen then Split.finish v

/-- Moves the variables of a lowered tree to where they are used, and optimizes it. -/
def polish (name : String) (ignore : List Var) (lowered : Expr) : Lower Expr := do
  let lowered ← lowered.rescope ignore
  phase "rescope" name
  if (← read).options.optimizes then
    let lowered ← lowered.optimize (← read).alike
    phase "optimize" name
    return lowered
  return lowered

/-- Records a machine, after it was checked when that is asked for. -/
def record (m : Machine) : Lower Unit := do
  if (← read).options.verify then modify fun s => { s with reporter := m.check s.reporter }
  modify fun s => { s with machines := s.machines.push m }

/-- Lowers the body of a lambda into a machine and a plain lambda. A lambda in which an error was reported
is left as it is. -/
def machine (e : Expr) (name : String) (kind : LambdaKind) (params : List Var) (body : Expr)
    (target : Build Target) : Lower Expr := do
  let plan ← plan name body (kind == .iterator) target
  let s ← get
  let (_, b) ← split plan { supply := s.supply, reporter := s.reporter } (splitBody body)
  phase "continuations" (name ++ ": " ++ toString b.states.size ++ " states")
  if ← hasErrors then return e
  let ((lowered, slots), b) ← split plan b (do Split.assemble (← Split.emitDispatch))
  phase "assemble" name
  let lowered ← polish name (slots ++ params) lowered
  record { name, kind, graph := b.graph, states := b.states.toList,
           stateVar := some plan.stateVar, resumeVar := some plan.resumeVar
           cellVar := plan.target.cellVar?, continuationVar := plan.target.continuationVar? }
  Build.lambdaOf e.type name .plain false params lowered

/-- Lowers one lambda whose nested lambdas have been lowered. -/
def lambda (e : Expr) (kind : LambdaKind) (params : List Var) (body : Expr) : Lower Expr := do
  let name := e.lambdaName
  let loc : Location := ⟨name, e.id⟩
  match kind with
  | .plain =>
    if body.isAsync then report .suspendInPlain loc "plain lambda contains a suspension point"
    return e
  | .async =>
    let handle ← e.lambdaResult
    match Backend.find? handle with
    | none =>
      report .noBackend loc ("no completion backend for " ++ handle.text)
      return e
    | some backend =>
      if !body.isAsync then
        modify fun s => { s with machines := s.machines.push { name, kind, fast := true },
                                 moments := s.moments.push (.fastPath name) }
        return ← Build.lambdaOf e.type name .plain false params (← backend.fastPath body)
      machine e name kind params body do
        let continuation ← Build.newVar "continuation" .thunk
        return .async backend (← Build.newVar "cell" backend.cell) continuation
  | .iterator =>
    let handle ← e.lambdaResult
    if !isIteratorShape handle then
      report .badIteratorShape loc
        ("iterator must return *asyncrt.Sequence, iter.Seq or iter.Seq2[E, error], not " ++ handle.text)
      return e
    machine e name kind params body do
      let dispose ← Build.newVar "dispose" .bool
      return .iterator handle params dispose (← Build.newVar "current" .current)

/-- Lowers a node whose operands have been lowered; only lambdas change. -/
def step (n : Expr) : Lower Expr :=
  match n.data? with
  | some (.lambda _ params body kind _) => lambda n kind params body
  | _ => return n

/-- Lowers every lambda of a tree, the inner ones first. -/
def nested (e : Expr) : Lower Expr := e.rewrite step

/-- Lowers a tree, reporting trees that cannot be lowered. -/
def tree (e : Expr) : Lower Expr := do
  let loc : Location := ⟨e.lambdaName, e.id⟩
  if e.isAbsent then
    report .notLambda loc "nothing to lower"
    return e
  if !e.hasKind .lambda && e.isAsync then
    report .suspendInPlain loc "suspension point outside any async or iterator lambda"
  let out ← nested e
  if (← get).machines.isEmpty && !(← hasErrors) then
    report .notLambda loc (e.lambdaName ++ " holds no async or iterator lambda")
  return out

end Lower

/-- A lowered tree: the tree, its machines with that of the root last, and the phases. -/
structure Lowered where
  tree : Expr
  machines : List Machine
  phases : List (String × String)

/-- How lowering ends. -/
inductive LowerOutcome where
  | done (r : Lowered)
  /-- Usage errors, or a defect. -/
  | refused (diagnostics : List Diagnostic)
  /-- A defect that the full bag has no room for. -/
  | silent

/-- The largest number of diagnostics when none is given. -/
def defaultMaxDiagnostics : Nat := 64

/-- Lowering before anything was done. -/
def Lowering.start (config : LowerConfig) (supply : Supply) : Lowering :=
  let max := config.options.maxDiagnostics
  { supply, reporter := .ofBag (Bag.empty (if max ≤ 0 then defaultMaxDiagnostics else max)) }

/-- Lowers a tree. A defect is reported like an error; other faults of construction stop the caller. Also
gives the moments that were observed. -/
def lower (config : LowerConfig) (e : Expr) (supply : Supply) :
    Except Fault LowerOutcome × Array Moment × Supply :=
  let verdict (bag : Bag) (otherwise : LowerOutcome) : LowerOutcome :=
    if bag.hasErrors then .refused bag.items else otherwise
  match Lower.tree e config (.start config supply) with
  | .ok out s =>
    let done := LowerOutcome.done ⟨out, s.machines.toList, s.phases.toList⟩
    (.ok (verdict s.reporter.bag.sort done), s.moments, s.supply)
  | .error (.defect msg) s =>
    let r := s.reporter.report ⟨.error, .defect, ⟨e.lambdaName, 0⟩, msg, []⟩
    (.ok (verdict r.bag .silent), s.moments, s.supply)
  | .error f s => (.error f, s.moments, s.supply)

end Resumable
