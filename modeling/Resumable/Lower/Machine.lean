import Resumable.Expr.Build
import Resumable.Expr.Facts
import Resumable.Text.Quoted

/-!
# `Lower.Machine`: state machines

A machine is a set of states, each a run of statements that does not suspend, with a transition to the
next one. States name each other and the protected regions they stand in, and the regions name states
again; so both live in a `Graph` and refer to each other by their places in it.

**Contents**
* `State`, `Guard`, `Catch`: states, protected regions and their handlers.
* `Graph`: the states and regions of a machine, also those that never became one of its states.
* `Graph.setNext`: wires a transition, which may be done once per state.
* `Machine`: what lowering leaves of one lambda.
-/

namespace Resumable

/-- The place of a state in its graph. -/
abbrev StateRef := Nat

/-- The place of a protected region in its graph. -/
abbrev GuardRef := Nat

/-- What a state was made for. -/
inductive StateKind where
  /-- Made by hand. -/
  | other
  /-- The start of the body. -/
  | entry
  /-- The first segment of an arm, which stays inside the state it branches from. -/
  | branch
  /-- A sink for code after an unconditional transfer. -/
  | dead
  /-- Where the arms of a conditional or switch meet. -/
  | merge
  /-- The body of a switch case, and of its default. -/
  | arm | fallback
  | label
  /-- A step between two cleanup blocks that a jump leaves. -/
  | leave
  /-- The code after a protected region, its parts, and the raising of what it did not handle. -/
  | tryExit | cleanup | body | handler | fault | propagate
  /-- Where errors that nothing handles end. -/
  | rethrow
  | await | yield
  /-- Where a cleanup block goes on when an enumeration is closed. -/
  | disposeExit
  deriving DecidableEq, Repr, Inhabited

/-- The word that a state is named by. -/
def StateKind.text : StateKind → String
  | .other => "" | .entry => "entry" | .branch => "branch" | .dead => "dead" | .merge => "merge"
  | .arm => "case" | .fallback => "default" | .label => "label" | .leave => "leave"
  | .tryExit => "tryExit" | .cleanup => "finally" | .body => "try" | .handler => "catch"
  | .fault => "fault" | .propagate => "propagate" | .rethrow => "rethrow" | .await => "await"
  | .yield => "yield" | .disposeExit => "disposeExit"

/-- One unit of execution that does not suspend. -/
structure State where
  /-- The number that the dispatch loop knows the state by; negative for dead code. -/
  id : Int
  kind : StateKind := .other
  /-- The id of the node the state was made for. -/
  origin : Nat := 0
  detail : String := ""
  name : String := ""
  stmts : Array Expr := #[]
  /-- Receives the value that flows into the state. -/
  result : Option Var := none
  /-- The protected regions around the state, innermost first. -/
  context : List GuardRef := []
  /-- Whether the state belongs to a cleanup block. -/
  inCleanup : Bool := false
  next : Option StateRef := none
  /-- Where the cleanup block that follows goes on. -/
  resume : Option StateRef := none
  /-- Whether the statements have already stored the number of the next state. -/
  stored : Bool := false
  /-- Whether the statements end with a transfer of their own. -/
  terminal : Bool := false
  /-- Whether the state shares the number of the state it stands in. -/
  inlined : Bool := false
  /-- Whether the state is entered after an element was delivered. -/
  afterYield : Bool := false
  deriving Inhabited

namespace State

/-- The placeholder for code that is never reached. -/
def isDead (s : State) : Bool := s.id < 0 && !s.inlined

/-- Whether the statements still need a way to go on. -/
def isOpen (s : State) : Bool := !s.terminal && s.next.isNone

/-- The written form: the number with the name, or with the kind where there is no name. -/
def text (s : State) : String :=
  toString s.id ++ " " ++ (if s.name.isEmpty then s.kind.text else Text.quote s.name)

end State

/-- A handler of a protected region. -/
structure Catch where
  state : StateRef
  var : Option Var := none
  test : Ty := .error
  filter : Expr := .absent
  deriving Inhabited

/-- A protected region as the states inside it see it. A try with handlers and a cleanup block gives
two: the one with the handlers stands inside the one with the cleanup block, so that handlers are
protected by the latter only. -/
structure Guard where
  handlers : List Catch := []
  /-- The state that runs the cleanup block. -/
  cleanup : Option StateRef := none
  /-- The state that raises the error again after the cleanup block. -/
  propagate : Option StateRef := none
  /-- The state after the region. -/
  exit : Option StateRef := none
  /-- Holds the error on its way into a handler or the cleanup block. -/
  caught : Option Var := none
  /-- Holds the resume slot while the cleanup block runs. -/
  parked : Option Var := none
  /-- The regions around this one. -/
  outer : List GuardRef := []
  /-- Where the cleanup block goes on when an enumeration is closed. -/
  disposeExit : Option StateRef := none
  deriving Inhabited

/-- States and protected regions, by their places. -/
structure Graph where
  states : Array State := #[]
  guards : Array Guard := #[]
  deriving Inhabited

namespace Graph

/-- The state at a place. -/
def state (g : Graph) (r : StateRef) : State := g.states.getD r default

/-- The region at a place. -/
def guard (g : Graph) (r : GuardRef) : Guard := g.guards.getD r default

/-- Changes the state at a place. -/
def modifyState (g : Graph) (r : StateRef) (f : State → State) : Graph :=
  { g with states := g.states.modify r f }

/-- Changes the region at a place. -/
def modifyGuard (g : Graph) (r : GuardRef) (f : Guard → Guard) : Graph :=
  { g with guards := g.guards.modify r f }

/-- The number of the state at a place. -/
def idOf (g : Graph) (r : StateRef) : Int := (g.state r).id

/-- Wires the next state. A state that has one already, or a missing target, is a defect. -/
def setNext (g : Graph) (r : StateRef) (next : Option StateRef) : Except Fault Graph :=
  let s := g.state r
  match s.next, next with
  | some n, _ => .error (.defect
      ("state " ++ toString s.id ++ " already continues to " ++ toString (g.idOf n)))
  | none, none => .error (.defect ("state " ++ toString s.id ++ " continues to nil"))
  | none, some n => .ok (g.modifyState r fun s => { s with next := some n })

end Graph

/-- What lowering leaves of one lambda. -/
structure Machine where
  name : String
  kind : LambdaKind := .plain
  /-- Whether the body never suspends and is run at once. -/
  fast : Bool := false
  graph : Graph := {}
  /-- The states of the dispatch loop in order; none on the fast path. -/
  states : List StateRef := []
  /-- The slots that hold the number of the next state, and where a cleanup block goes on. -/
  stateVar : Option Var := none
  resumeVar : Option Var := none
  /-- The slots of the cell that is settled and of the function that runs the dispatch loop; an iterator
  has none. -/
  cellVar : Option Var := none
  continuationVar : Option Var := none
  deriving Inhabited

/-- The states of the dispatch loop in order. -/
def Machine.stateList (m : Machine) : List State := m.states.map m.graph.state

/-- How trees are lowered. -/
structure LowerOptions where
  /-- Names every state, begins every case with its name and leaves the optimizer out. -/
  debug : Bool := false
  /-- Leaves the optimizer out. -/
  noOptimize : Bool := false
  /-- Checks every machine. -/
  verify : Bool := false
  /-- The largest number of diagnostics; 64 when not positive. -/
  maxDiagnostics : Int := 0
  /-- Names every state and records the moments of lowering. -/
  watch : Bool := false
  deriving Inhabited

namespace LowerOptions

def optimizes (o : LowerOptions) : Bool := !o.debug && !o.noOptimize

def namesStates (o : LowerOptions) : Bool := o.debug || o.watch

end LowerOptions

end Resumable
