import Resumable.Diagnostic.Bag
import Resumable.Lower.Machine

/-!
# `Lower.Check`: the rules that machines keep

A sound machine has states numbered in order, every state goes on or ends, transitions lead to states of
the machine, handlers and cleanup blocks stand in the context outside the region they belong to, and
every state can be reached. Breaking the last rule is a warning, the others are errors.

**Contents**
* `Machine.findings`: what is wrong with a machine.
* `Machine.reachable`: the numbers that the entry leads to.
* `invariantFault?`: a shorter list of rules for the whole outcome of lowering.
-/

namespace Resumable

namespace Graph

/-- The regions around a state, innermost first. -/
def guardsOf (g : Graph) (s : State) : List Guard := s.context.map g.guard

end Graph

namespace Machine

/-- An error about a state. -/
def finding (m : Machine) (code : Code) (s : State) (msg : String) : Diagnostic :=
  ⟨.error, code, ⟨m.name, s.origin⟩, msg, []⟩

/-- States that are not at the index of their number, or stand twice. -/
def orderFindings (m : Machine) : List Diagnostic :=
  m.states.zipIdx.filterMap fun (r, i) =>
    let s := m.graph.state r
    if s.id != i || (m.states.take i).contains r then
      some (m.finding .duplicateState s
        ("state " ++ toString s.id ++ " registered at index " ++ toString i))
    else none

/-- Transitions of a state that lead nowhere, or that wait for a cleanup block which does not follow. -/
def edgeFindings (m : Machine) (s : State) : List Diagnostic :=
  let me := "state " ++ toString s.id
  let stuck := if s.isOpen then [m.finding .danglingTarget s (me ++ " has no transition")] else []
  let strays := (s.next.toList ++ s.resume.toList).filterMap fun t =>
    if m.states.contains t then none
    else some (m.finding .danglingTarget s
      (me ++ " moves to unregistered state " ++ toString (m.graph.idOf t)))
  let entersCleanup := s.next.any fun t => (m.graph.state t).inCleanup
  -- only a cleanup block reads the resume slot
  let escapes := if s.resume.isSome && !entersCleanup then
      [m.finding .finallyEscapes s (me ++ " sets a resume target without entering a finally")]
    else []
  stuck ++ strays ++ escapes

/-- Handlers and cleanup blocks around a state that are no states of the machine, or stand in the wrong
context. -/
def guardFindings (m : Machine) (s : State) (g : Guard) : List Diagnostic :=
  let handlers := g.handlers.filterMap fun h =>
    let hs := m.graph.state h.state
    if !m.states.contains h.state then
      some (m.finding .danglingTarget s ("handler of state " ++ toString s.id ++ " is unregistered"))
    else if hs.context != g.outer then
      some (m.finding .tryDepth hs
        ("handler state " ++ toString hs.id ++ " runs in the wrong try context"))
    else none
  let cleanup := match g.cleanup with
    | none => []
    | some f =>
      let fs := m.graph.state f
      (if !m.states.contains f then
        [m.finding .danglingTarget s ("finally of state " ++ toString s.id ++ " is unregistered")]
       else if fs.context != g.outer then
        [m.finding .tryDepth fs ("finally state " ++ toString fs.id ++ " runs in the wrong try context")]
       else []) ++
      (if g.parked.isNone then
        [m.finding .finallyEscapes fs ("finally state " ++ toString fs.id ++ " has nowhere to resume")]
       else [])
  handlers ++ cleanup

/-! ### Reachability -/

/-- The numbers that a statement stores into the slot of the next state or of the resume target. -/
def storedStates (m : Machine) (x : Expr) : List Int :=
  (x.nodes fun n => !n.hasKind .lambda).filterMap fun n =>
    match n.plainStore? with
    | some (v, .node _ _ _ (.constant (some (.int (.scalar .int) id)))) =>
      if m.stateVar == some v || m.resumeVar == some v then some id else none
    | _ => none

/-- The numbers of the states that may follow a state. -/
def successors (m : Machine) (s : State) : List Int :=
  let direct := s.next.toList ++ s.resume.toList
  let routed := (m.graph.guardsOf s).flatMap fun g =>
    g.handlers.map (·.state) ++ g.cleanup.toList ++ g.propagate.toList ++ g.disposeExit.toList
  (direct ++ routed).map m.graph.idOf ++ s.stmts.toList.flatMap m.storedStates

/-- Follows successors from the numbers in `work`; `seen` holds all numbers met so far. Every number is
followed once, so `fuel` need not exceed the number of states. -/
def explore (m : Machine) : Nat → List Nat → List Nat → List Nat
  | 0, _, seen => seen
  | _, [], seen => seen
  | fuel + 1, i :: work, seen =>
    let s := m.graph.state (m.states.getD i 0)
    let found := (m.successors s).foldl (fun acc (id : Int) =>
      let n := id.toNat
      if 0 ≤ id && n < m.states.length && !seen.contains n && !acc.contains n then acc ++ [n] else acc) []
    explore m fuel (found ++ work) (found ++ seen)

/-- The numbers that the entry leads to. -/
def reachable (m : Machine) : List Nat := m.explore (m.states.length + 1) [0] [0]

/-- Warnings about states that the entry does not lead to. -/
def reachFindings (m : Machine) : List Diagnostic :=
  let seen := m.reachable
  m.stateList.filterMap fun s =>
    if (0 ≤ s.id && seen.contains s.id.toNat) || s.kind == .rethrow then none
    else some ⟨.warning, .unreachableState, ⟨m.name, s.origin⟩,
      "state " ++ toString s.id ++ " (" ++ s.kind.text ++ ") is never entered", []⟩

/-- What is wrong with a machine; one without states of its own has nothing to check. -/
def findings (m : Machine) : List Diagnostic :=
  if m.fast || m.states.isEmpty then []
  else m.orderFindings ++
    (m.stateList.flatMap fun s =>
      m.edgeFindings s ++ (m.graph.guardsOf s).flatMap (m.guardFindings s)) ++
    m.reachFindings

/-- Reports what is wrong with a machine. -/
def check (m : Machine) (r : Reporter) : Reporter := m.findings.foldl Reporter.report r

/-! ### Rules for the outcome -/

/-- The first rule that a state at an index breaks. -/
def stateFault? (m : Machine) (i : Nat) (s : State) : Option String :=
  let count := m.states.length
  if s.id != i then
    some ("state at index " ++ toString i ++ " has id " ++ toString s.id)
  else match s.next.map m.graph.idOf with
    | some n =>
      if n < 0 || n ≥ count then
        some ("state " ++ toString s.id ++ " continues to unknown state " ++ toString n)
      else none
    | none =>
      if s.terminal then none else some ("state " ++ toString s.id ++ " has no way out")

/-- The largest number of states that fits the records. -/
def maxStates : Nat := 65535

/-- The first rule that a machine breaks. -/
def fault? (m : Machine) : Option String :=
  let count := m.states.length
  if m.fast then
    if count == 0 then none else some ("fast path with " ++ toString count ++ " states")
  else if count == 0 then some "machine without states"
  else if count > maxStates then
    some "state count overflow: out of range"
  else m.stateList.zipIdx.findSome? fun (s, i) => m.stateFault? i s

end Machine

/-- A suspension point or a lambda that still has to be lowered. -/
def Expr.isUnlowered : Expr → Bool
  | .node _ _ _ (.await _ _) | .node _ _ _ (.yield _) => true
  | .node _ _ _ (.lambda _ _ _ kind _) => kind != .plain
  | _ => false

/-- The first rule that an outcome of lowering breaks: a tree in which nothing is left to lower, and at
least one machine, all of them sound. -/
def invariantFault? (tree : Expr) (machines : List Machine) : Option String :=
  if tree.isAbsent then some "nil lowering result"
  else match tree.allNodes.find? Expr.isUnlowered with
    | some n =>
      some ("lowered tree still holds " ++ ((n.kind?.map ExprKind.text).getD "") ++ " node " ++
        toString n.id)
    | none =>
      if machines.isEmpty then some "no machines recorded"
      else machines.findSome? fun m => m.fault?.map fun msg => m.name ++ ": " ++ msg

end Resumable
