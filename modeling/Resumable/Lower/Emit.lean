import Resumable.Expr.Safe
import Resumable.Lower.Splitter
import Resumable.Text.Normal
import Resumable.Ty.Set

/-!
# `Lower.Emit`: the dispatch loop

Every state becomes a case of a switch over the number of the next state, and the switch is the body of a
loop. A state in protected regions gets a handler that routes errors: handlers are tried innermost first,
and the first cleanup block on the way out captures what is still unhandled. Routing may need states of
its own, which are emitted in turn.

**Contents**
* `dispatch`: the routing of an error from a context.
* `disposeRoute`: what closing an enumeration runs.
* `caseBody`, `emitDispatch`: the cases and the loop.
* `finish`, `assemble`, `fastPath`: the lambda around the loop.
-/

namespace Resumable

namespace Split

/-- The variable of a region that holds the error on its way. -/
def caughtVar (g : Guard) : Split Var :=
  match g.caught with
  | some v => pure v
  | none => throw .missing

/-! ### Where errors end -/

/-- The statements that tell the outside about an error that nothing handled. -/
def failTarget (err : Expr) : Split (List Expr) := do
  match (← read).target with
  | .async backend cell _ =>
    return [← backend.setException (← Build.ref cell) err, ← leaveDispatch .absent]
  | .iterator _ _ _ _ => return [← Build.raise err]

/-- The state that fails the machine, made on first use. -/
def rethrowState : Split StateRef := do
  match (← get).rethrow with
  | some r => return r
  | none =>
    let r ← newStateIn [] .rethrow .absent .void
    let first ← setStateId (-1)
    let rest ← failTarget (← Build.ref (← read).excVar)
    modifyState r fun s => { s with stmts := (first :: rest).toArray, terminal := true }
    modify fun s => { s with rethrow := some r }
    return r

/-- The state that raises the error of a region again after its cleanup block, outside the region. -/
def propagateState (g : GuardRef) : Split StateRef := do
  let info ← guard g
  match info.propagate with
  | some r => return r
  | none =>
    let r ← newStateIn info.outer .propagate .absent .void
    let x ← Build.raise (← Build.ref (← caughtVar info))
    modifyState r fun s => { s with stmts := #[x], terminal := true }
    modifyGuard g fun info => { info with propagate := some r }
    return r

/-! ### Routing -/

/-- The routing so far: tests with what they do, the types that are handled, the variables that say that
a filter failed, and whether there was a filter. -/
structure Routing where
  arms : List (Expr × Expr) := []
  seen : TypeSet := {}
  skips : List Var := []
  filtered : Bool := false

/-- Binds the variable of a handler to the error. -/
def bindCaught (h : Catch) (ex : Var) : Build (List Expr) :=
  match h.var with
  | none => return []
  | some v => do
    let x ← Build.ref v
    return [← Build.assign x (← (← Build.ref ex).coerce v.type)]

/-- Evaluates the filter of a handler. When it raises, its error takes the place of `ex`, `skip` is set
and the filter fails. -/
def filterGuard (h : Catch) (ex skip : Var) : Build Expr := do
  let bind ← bindCaught h ex
  let raised ← Build.newVar "filterErr" .error
  let body ← Build.typedBlock .bool [] (bind ++ [h.filter])
  let replace ← Build.assign (← Build.ref ex) (← Build.ref raised)
  let set ← Build.assign (← Build.ref skip) (← Build.constBool true)
  Build.catchAll body raised (← Build.typedBlock .bool [] [replace, set, ← Build.constBool false])

/-- Adds a handler of a region to the routing. One that an earlier handler covers is left out, as long as
no filter has been met. -/
def routeHandler (caught ex : Var) (h : Catch) (skip : Option Var) (r : Routing) :
    Split (Option Var × Routing) := do
  let plain := h.filter.isAbsent
  -- a filter may refuse an error, so that its type is not dealt with for good
  let (fresh, seen) := if plain && !r.filtered then r.seen.add h.test else (true, r.seen)
  let r := { r with seen }
  if !fresh then return (skip, r)
  let test ← Build.typeIs (← Build.ref ex) h.test
  -- an error of a filter passes the other handlers of its region
  let test ← match skip with
    | some s => Build.binary .andAlso (← Build.not (← Build.ref s)) test
    | none => pure test
  let (test, skip, r) ← if plain then pure (test, skip, r) else do
    let (s, r) ← match skip with
      | some s => pure (s, r)
      | none => do
        let s ← Build.newVar "filterFailed" .bool
        pure (s, { r with skips := r.skips ++ [s] })
    let test ← Build.binary .andAlso test (← filterGuard h ex s)
    pure (test, some s, { r with filtered := true })
  let keep ← Build.assign (← Build.ref caught) (← Build.ref ex)
  let bind ← bindCaught h ex
  let action ← Build.typedBlock .void [] (keep :: bind ++ [← setState h.state])
  return (skip, { r with arms := r.arms ++ [(test, action)] })

/-- Adds the handlers of a region in order. -/
def routeHandlers (caught ex : Var) : List Catch → Option Var → Routing → Split Routing
  | [], _, r => return r
  | h :: hs, skip, r => do
    let (skip, r) ← routeHandler caught ex h skip r
    routeHandlers caught ex hs skip r

/-- Goes outwards through the regions up to the first cleanup block, which takes what is left. -/
def routeGuards (ex : Var) : List GuardRef → Routing → Split (Routing × Option Expr)
  | [], r => return (r, none)
  | g :: outer, r => do
    let info ← guard g
    let caught ← caughtVar info
    let r ← routeHandlers caught ex info.handlers none r
    match info.cleanup with
    | none => routeGuards ex outer r
    -- the regions around this one get the error after the block has run
    | some cleanup =>
      let keep ← Build.assign (← Build.ref caught) (← Build.ref ex)
      let resume ← setResume (← propagateState g)
      return (r, some (← Build.typedBlock .void [] [keep, resume, ← setState cleanup]))

/-- Routes the error `ex` from a context. An error raised by a filter takes its place and skips the
remaining handlers of that region. -/
def dispatch (context : List GuardRef) (ex : Var) : Split Expr := do
  let (r, rest) ← routeGuards ex context {}
  let rest ← match rest with
    | some x => pure x
    | none =>
      -- a handler of every error leaves nothing over
      if r.filtered || !r.seen.contains .error then do
        let keep ← Build.assign (← Build.ref (← read).excVar) (← Build.ref ex)
        Build.typedBlock .void [] [keep, ← setState (← rethrowState)]
      else Build.empty
  let routed ← r.arms.foldrM (fun (test, action) rest => Build.ifThenElse test action rest) rest
  if r.skips.isEmpty then return routed else Build.typedBlock .void r.skips [routed]

/-! ### Closing an enumeration -/

/-- What closing runs from a context: the cleanup blocks from the inside out, then the end. -/
def disposeRoute : List GuardRef → Split (List Expr)
  | [] => return [← setStateId (-1), ← leaveDispatch (← Build.constBool false)]
  | g :: outer => do
    let info ← guard g
    match info.cleanup with
    | none => disposeRoute outer
    | some cleanup =>
      let exit ← match info.disposeExit with
        | some r => pure r
        | none =>
          let r ← newStateIn info.outer .disposeExit .absent .void
          -- known before the way outwards is built, so that it is made once
          modifyGuard g fun info => { info with disposeExit := some r }
          let route ← disposeRoute outer
          modifyState r fun s => { s with stmts := route.toArray, terminal := true }
          pure r
      return [← setResume exit, ← setState cleanup, ← continueDispatch]

/-- Runs the cleanup blocks instead of going on when the enumeration is being closed. -/
def disposeGate (context : List GuardRef) : Split (List Expr) := do
  match (← read).target with
  | .async _ _ _ => return []
  | .iterator _ _ dispose _ =>
    let test ← Build.ref dispose
    return [← Build.ifThen test (← Build.typedBlock .void [] (← disposeRoute context))]

/-! ### Cases and the loop -/

/-- The name of a state: its kind, the node it was made for and its detail, in composed form. -/
def stateName (s : State) : String :=
  let kind := match s.kind.text.toList with
    | [] => ""
    | c :: cs => String.ofList (c.toUpper :: cs)
  let detail := if s.detail.isEmpty then "" else " " ++ s.detail
  Text.normal (kind ++ " " ++ toString s.origin ++ detail)

/-- Whether a tree cannot raise; the question must not meet an empty slot. -/
def isSafe (e : Expr) : Split Bool :=
  match e.isSafe? with
  | some b => pure b
  | none => throw .missing

/-- The statements of a state and its transition, protected when they can raise inside a region. -/
def caseBody (r : StateRef) : Split Expr := do
  let s ← state r
  let title ← if (← read).options.debug then pure [← Build.const (some (.ofText s.name))] else pure []
  let gate ← if s.afterYield then disposeGate s.context else pure []
  let body ← Build.typedBlock .void [] (title ++ gate ++ s.stmts.toList ++ (← transition r))
  -- outside all regions an error leaves the loop by itself
  if s.context.isEmpty then return body
  if ← isSafe body then return body
  let ex ← Build.newVar "ex" .error
  Build.catchAll body ex (← dispatch s.context ex)

/-- Names a state and tells about it, when that is asked for. -/
def announce (r : StateRef) : Split Unit := do
  let options := (← read).options
  if options.namesStates then
    modifyState r fun s => { s with name := stateName s }
    if options.watch then
      let s ← state r
      let m := Moment.state (← read).name s.id s.name
      modify fun b => { b with moments := b.moments.push m }

/-- The cases of the states from the `i`-th on. Emitting makes at most two states for each region and
one more, which `fuel` allows for. -/
def emitCases : Nat → Nat → Split (List (List Expr × Expr))
  | 0, _ => return []
  | fuel + 1, i => do
    match (← get).states[i]? with
    | none => return []
    -- what the body adds comes behind the states there are, and has its turn later
    | some r =>
      announce r
      let body ← caseBody r
      let test ← Build.constInt (← state r).id
      return ([test], body) :: (← emitCases fuel (i + 1))

/-- What a machine does with a number that is none of its states'. -/
def unknownState : Split Expr := do
  match (← read).target with
  | .async _ _ _ =>
    Build.raise (← Build.callLibrary .newInvariantError [← Build.ref (← read).stateVar])
  | .iterator _ _ _ _ => leaveDispatch (← Build.constBool false)

/-- The dispatch loop. -/
def emitDispatch : Split Expr := do
  let s ← get
  let cases ← emitCases (s.states.size + 2 * s.graph.guards.size + 2) 0
  let plan ← read
  let slot ← Build.ref plan.stateVar
  let sw ← Build.switch .void slot (← unknownState) none cases
  Build.loop sw (some plan.brk) (some plan.cont)

/-! ### The lambda around the loop -/

/-- Ends the last state with the value of the body. -/
def finish (value : Expr) : Split Unit := do
  match (← read).target with
  | .async backend cell _ =>
    let value ← value.coerce backend.result
    emit (← backend.setResult (← Build.ref cell) value)
    emit (← setStateId (-1))
    emit (← leaveDispatch .absent)
  | .iterator _ _ _ _ =>
    emit value
    emit (← setStateId (-1))
    emit (← leaveDispatch (← Build.constBool false))
  setTerminal

/-- Redirects every use of a variable, also inside closures. -/
def substitute (copies : List (Var × Var)) (e : Expr) : Build Expr :=
  if copies.isEmpty then return e
  else e.rewrite fun n =>
    match n.data? with
    | some (.var v) =>
      match copies.lookup v with
      | some c => Build.withData n (.var c)
      | none => return n
    | some (.assign op target value) =>
      match target.asVar?.bind fun v => copies.lookup v with
      | some c => do Build.withData n (.assign op (← Build.withData target (.var c)) value)
      | none => return n
    | _ => return n

/-- Creates the cell, runs the loop as the continuation of itself and returns the handle. An error that
leaves the loop fails the cell. -/
def assembleAsync (backend : Backend) (cell continuation : Var) (loop : Expr) : Split Expr := do
  let plan ← read
  let ex ← Build.newVar "ex" .error
  let reset ← setStateId (-1)
  let fail ← backend.setException (← Build.ref cell) (← Build.ref ex)
  let guarded ← Build.catchAll loop ex (← Build.typedBlock .void [] [reset, fail])
  let vars := (← get).vars.toList ++ [plan.stateVar, plan.resumeVar, plan.excVar, cell, continuation]
  let start ← setStateId 0
  let resume ← Build.assign (← Build.ref plan.resumeVar) (← Build.constInt (-1))
  let create ← Build.assign (← Build.ref cell) (← backend.create)
  -- stored where the awaits of the loop find it
  let closure ← Build.assign (← Build.ref continuation)
    (← Build.lambda "continuation" false [] guarded)
  let run ← Build.call (← Build.ref continuation) []
  Build.block vars [start, resume, create, closure, run, ← backend.awaitable (← Build.ref cell)]

/-- A factory of step functions, each with variables and copies of the parameters of its own, as a
sequence of the asked shape; also the copies. -/
def assembleIterator (shape : Ty) (params : List Var) (dispose currentVar : Var) (loop : Expr) :
    Split (Expr × List Var) := do
  let plan ← read
  let copies ← params.mapM fun p => return (p, ← Build.newVar p.name p.type)
  -- every enumeration begins with the arguments as they were passed
  let prologue ← copies.mapM fun (p, c) => do Build.assign (← Build.ref c) (← Build.ref p)
  let loop ← substitute copies.reverse loop
  let ex ← Build.newVar "ex" .error
  let reset ← setStateId (-1)
  let again ← Build.throwAs (← Build.ref ex) .bool
  let guarded ← Build.catchAll loop ex (← Build.typedBlock .bool [] [reset, again])
  let step ← Build.lambda "step" true [dispose, currentVar] guarded
  let vars := (← get).vars.toList ++ [plan.stateVar, plan.resumeVar, plan.excVar] ++
    params.filterMap fun p => copies.reverse.lookup p
  let start ← setStateId 0
  let resume ← Build.assign (← Build.ref plan.resumeVar) (← Build.constInt (-1))
  let body ← Build.block vars ([start, resume] ++ prologue ++ [step])
  let seq ← Build.callLibrary .newSequence [← Build.lambda "factory" false [] body]
  let made := copies.map (·.2)
  if shape == .sequence then return (seq, made)
  let shapeValue ← Build.constOf (some (.type shape)) (.named .typeIface)
  return (← Build.convert (← Build.callLibrary .adapt [seq, shapeValue]) shape, made)

/-- The body of the lowered lambda, and the variables of the machine that must stay where they are. -/
def assemble (loop : Expr) : Split (Expr × List Var) := do
  let plan ← read
  let slots := [plan.stateVar, plan.resumeVar, plan.excVar]
  match plan.target with
  | .async backend cell continuation =>
    return (← assembleAsync backend cell continuation loop, slots ++ [cell, continuation])
  | .iterator shape params dispose currentVar =>
    let (body, copies) ← assembleIterator shape params dispose currentVar loop
    return (body, slots ++ [dispose, currentVar] ++ copies)

end Split

/-- The body of an async lambda that never suspends: a handle that is settled at once. -/
def Backend.fastPath (b : Backend) (body : Expr) : Build Expr := do
  let ex ← Build.newVar "ex" .error
  let value ← body.coerce b.result
  let settled ← b.fromResult value
  Build.catchAll settled ex (← b.fromException (← Build.ref ex))

end Resumable
