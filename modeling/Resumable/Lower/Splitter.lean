import Resumable.Diagnostic.Bag
import Resumable.Lower.Backend
import Resumable.Lower.Jumps
import Resumable.Lower.Machine

/-!
# `Lower.Splitter`: splitting a body into states

Splitting works in a fixed `Plan` (the lambda, its jumps and the variables the machine itself uses) on a
`Splitter`, which holds the graph that grows, the state that statements go into and the protected regions
around it. This module has the steps from which the cases of splitting are put together.

**Contents**
* `Target`, `Plan`, `Frame`, `Splitter`, and the monad `Split`.
* States and variables: `newState`, `newInlined`, `newDead`, `newLocal`.
* Statements: `emit`, `assignResult`, `spill`, `transition`, `inlineState`.
* `needs`: whether a tree has to be split.
-/

namespace Resumable

/-- What the machine is part of: a completion handle that is settled, or a sequence that is stepped. -/
inductive Target where
  | async (backend : Backend) (cell continuation : Var)
  | iterator (shape : Ty) (params : List Var) (dispose current : Var)

namespace Target

/-- The variable of the cell. -/
def cellVar? : Target → Option Var
  | .async _ cell _ => some cell
  | .iterator _ _ _ _ => none

/-- The variable of the function that runs the dispatch loop. -/
def continuationVar? : Target → Option Var
  | .async _ _ continuation => some continuation
  | .iterator _ _ _ _ => none

end Target

/-- What stays fixed while a body is split. -/
structure Plan where
  name : String
  options : LowerOptions
  index : JumpIndex
  target : Target
  /-- The number of the next state. -/
  stateVar : Var
  /-- Where a cleanup block goes on. -/
  resumeVar : Var
  /-- The error that nothing handles. -/
  excVar : Var
  /-- Leaves the dispatch loop. -/
  brk : Label
  /-- Dispatches again. -/
  cont : Label

namespace Plan

def isIterator (p : Plan) : Bool :=
  match p.target with
  | .iterator _ _ _ _ => true
  | .async _ _ _ => false

end Plan

/-- A protected region on the way from the root to the node that is visited. -/
structure Frame where
  region : Region
  /-- The context outside the protected expression. -/
  outer : List GuardRef
  /-- The region whose cleanup block runs when the frame is left. -/
  cleanup : Option GuardRef
  deriving Inhabited

/-- What can be observed while lowering goes on. -/
inductive Moment where
  /-- A lambda that never suspends was lowered. -/
  | fastPath (name : String)
  /-- A state of a lambda was emitted. -/
  | state (lambda : String) (id : Int) (name : String)
  deriving Repr, Inhabited

/-- The machine in the making. -/
structure Splitter where
  supply : Supply
  reporter : Reporter
  moments : Array Moment := #[]
  graph : Graph := {}
  /-- The states of the dispatch loop in order. -/
  states : Array StateRef := #[]
  /-- The state that statements go into. -/
  current : StateRef := 0
  /-- The regions around new states, innermost first. -/
  context : List GuardRef := []
  /-- The enclosing regions, outermost first. -/
  frames : List Frame := []
  /-- The number of enclosing cleanup blocks. -/
  cleanups : Nat := 0
  /-- The error of the innermost lowered handler, which a bare rethrow raises. -/
  caught : Option Var := none
  /-- The variables of the machine that may be moved. -/
  vars : Array Var := #[]
  /-- The state that fails the machine. -/
  rethrow : Option StateRef := none
  labels : List (Label × StateRef) := []

/-- Splitting a body. -/
abbrev Split := ReaderT Plan (EStateM Fault Splitter)

namespace Split

/-- Builds part of a tree. -/
def build (x : Build α) : Split α := fun _ s =>
  match x s.supply with
  | .ok a supply => .ok a { s with supply }
  | .error f supply => .error f { s with supply }

instance : MonadLiftT Build Split := ⟨build⟩

/-- Reports a usage error at a node of the lambda. -/
def report (code : Code) (at_ : Expr) (msg : String) : Split Unit := do
  let d : Diagnostic := ⟨.error, code, ⟨(← read).name, at_.id⟩, msg, []⟩
  modify fun s => { s with reporter := s.reporter.report d }

/-! ### States -/

/-- The state at a place. -/
def state (r : StateRef) : Split State := return (← get).graph.state r

/-- The region at a place. -/
def guard (r : GuardRef) : Split Guard := return (← get).graph.guard r

def modifyState (r : StateRef) (f : State → State) : Split Unit :=
  modify fun s => { s with graph := s.graph.modifyState r f }

def modifyGuard (r : GuardRef) (f : Guard → Guard) : Split Unit :=
  modify fun s => { s with graph := s.graph.modifyGuard r f }

/-- Puts a state into the graph. -/
def addState (st : State) : Split StateRef :=
  modifyGet fun s => (s.graph.states.size,
    { s with graph := { s.graph with states := s.graph.states.push st } })

/-- Puts a region into the graph. -/
def addGuard (g : Guard) : Split GuardRef :=
  modifyGet fun s => (s.graph.guards.size,
    { s with graph := { s.graph with guards := s.graph.guards.push g } })

/-- A variable of the machine that may be moved. -/
def newLocal (name : String) (t : Ty) : Split Var := do
  let v ← Build.newVar name t
  modify fun s => { s with vars := s.vars.push v }
  return v

/-- A new state of the dispatch loop, in a given context. -/
def newStateIn (context : List GuardRef) (kind : StateKind) (origin : Expr) (result : Ty) :
    Split StateRef := do
  let slot ← if result.isVoid then pure none else some <$> newLocal (kind.text ++ "Result") result
  let s ← get
  let r ← addState { id := s.states.size, kind, origin := origin.id, result := slot, context,
                     inCleanup := s.cleanups > 0 }
  modify fun s => { s with states := s.states.push r }
  return r

/-- A new state of the dispatch loop, in the current context. -/
def newState (kind : StateKind) (origin : Expr) (result : Ty) : Split StateRef := do
  newStateIn (← get).context kind origin result

/-- The start of an arm, which shares the number of the current state and stays inside it. -/
def newInlined : Split StateRef := do
  let s ← get
  let here := s.graph.state s.current
  addState { id := here.id, kind := .branch, context := s.context, inCleanup := here.inCleanup,
             inlined := true }

/-- A place for code after an unconditional transfer. -/
def newDead : Split StateRef := do
  addState { id := -1, kind := .dead, context := (← get).context }

/-- Goes on in another state. -/
def goOnIn (r : StateRef) : Split Unit := modify fun s => { s with current := r }

/-- The state that statements go into. -/
def current : Split State := do state (← get).current

/-- Wires the next state. -/
def setNext (r next : StateRef) : Split Unit := do
  match (← get).graph.setNext r (some next) with
  | .ok graph => modify fun s => { s with graph }
  | .error f => throw f

/-- Wires the current state, if it has no way to go on yet. -/
def closeWith (next : StateRef) : Split Unit := do
  if (← current).isOpen then setNext (← get).current next

/-- Marks the current state as ending with a transfer. -/
def setTerminal : Split Unit := do modifyState (← get).current fun s => { s with terminal := true }

/-- Ends the current state after a transfer and goes on in dead code. -/
def endWithJump : Split Unit := do
  setTerminal
  goOnIn (← newDead)

/-! ### Statements -/

/-- Appends to the current state what is not inert. -/
def emit (x : Expr) : Split Unit := do
  if !(x.isAbsent || x.isInert) then
    modifyState (← get).current fun s => { s with stmts := s.stmts.push x }

/-- Stores the number of a state. -/
def setStateId (id : Int) : Split Expr := do
  Build.assign (← Build.ref (← read).stateVar) (← Build.constInt id)

/-- Makes `r` the next state. -/
def setState (r : StateRef) : Split Expr := do setStateId (← state r).id

/-- Makes `r` the state that the next cleanup block goes on in. -/
def setResume (r : StateRef) : Split Expr := do
  Build.assign (← Build.ref (← read).resumeVar) (← Build.constInt (← state r).id)

/-- Dispatches again. -/
def continueDispatch : Split Expr := do Build.jump .cont (← read).cont .absent

/-- Leaves the dispatch loop. -/
def leaveDispatch (value : Expr) : Split Expr := do Build.jump .brk (← read).brk value

/-- The statements that move on from a state to the next one. -/
def transition (r : StateRef) : Split (List Expr) := do
  let s ← state r
  match s.next with
  | none => return []
  | some n =>
    -- an await has stored the number before it registered
    let move ← if s.stored then pure [] else pure [← setState n]
    let resume ← match s.resume with
      | some t => pure [← setResume t]
      | none => pure []
    return move ++ resume

/-- The statements of an inlined state as one expression. -/
def inlineState (r : StateRef) : Split Expr := do
  let stmts := (← state r).stmts.toList ++ (← transition r)
  if stmts.isEmpty then Build.empty else Build.typedBlock .void [] stmts

/-- Stores a value where the state `r` receives it, or runs it for its effect. -/
def assignResult (r : StateRef) (v : Expr) : Split Unit := do
  match (← state r).result with
  | some slot =>
    if v.isAbsent || v.type.isVoid then emit v
    else emit (← Build.assign (← Build.ref slot) (← v.coerce slot.type))
  | none => emit v

/-- Reads the value that a state receives; the zero value when it receives none. -/
def resultRef (r : StateRef) (t : Ty) : Split Expr := do
  match (← state r).result with
  | some slot => Build.ref slot
  | none => Build.default t

/-- Keeps the value of `x` in a variable, so that it cannot change until it is used. -/
def spill (x : Expr) : Split Expr := do
  -- a void operand has no value to keep
  if x.isAbsent || x.isStable || x.type.isVoid then return x
  let tmp ← newLocal "spill" x.type
  emit (← Build.assign (← Build.ref tmp) x)
  Build.ref tmp

/-- Ends the current state with a statement all of whose arms transfer. -/
def splitAt (stmt : Expr) (next : StateRef) : Split Unit := do
  emit stmt
  setTerminal
  goOnIn next

/-! ### Questions about the tree -/

/-- Whether a tree has to be split: it suspends, or jumps cross its boundary. -/
def needs (e : Expr) : Split Bool := do
  -- a nested lambda is lowered by itself
  if e.isAbsent || e.hasKind .lambda then return false
  return e.isAsync || (← read).index.escapes e

/-- Gives every bare rethrow of a tree the error `v`. Handlers of nested protected bodies and nested
lambdas raise their own errors again and are left alone. -/
def bindRethrow (v : Var) (e : Expr) : Build Expr :=
  match e with
  | .absent => return e
  | .node _ _ _ (.lambda _ _ _ _ _) => return e
  | .node _ _ t (.throw .absent) => do Build.throwAs (← Build.ref v) t
  | .node id r t (.protect body hs fin fault) => do
    let body' ← bindRethrow v body
    let fin' ← bindRethrow v fin
    if body'.same body && fin'.same fin then return .node id r t (.protect body hs fin fault)
    Build.withData (.node id r t (.protect body hs fin fault)) (.protect body' hs fin' fault)
  | .node id r t d => Expr.mapChildren (.node id r t d) fun c _ => bindRethrow v c
  termination_by sizeOf e
  decreasing_by
    · simp; omega
    · simp; omega
    · assumption

/-- A tree that needs no splitting, with its rethrows bound. -/
def passThrough (e : Expr) : Split Expr := do
  match (← get).caught with
  | none => return e
  | some v => bindRethrow v e

end Split

end Resumable
