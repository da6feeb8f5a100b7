import Resumable.Lower.Splitter
import Resumable.Ty.Capability

/-!
# `Lower.Visit`: the cases of splitting

Visiting a tree puts its statements into the current state, which may be another one afterwards, and gives
back an expression for the value, valid at the end of that state. A tree that needs no splitting is its
own value. Each case below is given the function that visits operands; `Split.visit` ties them together.

**Contents**
* Operators, blocks, assignments and calls: operands that come before a suspension are kept in variables.
* Conditionals and switches: arms begin inside the current state and meet in a new one.
* Loops, labels and jumps: a label becomes a state in the regions of its place, and a jump out of
  protected regions runs their cleanup blocks on the way.
* Protected bodies: every part becomes states of its own, in the regions that protect it.
* Suspension points.
-/

namespace Resumable.Split

section
variable (visit : Expr → Split Expr)

/-! ### Operators and blocks -/

/-- Visits operands in order, keeping the value of each that has a split one after it. -/
def visitOperands : List Expr → Split (List Expr)
  | [] => return []
  | x :: rest => do
    let r ← visit x
    let r ← if ← rest.anyM needs then spill r else pure r
    return r :: (← visitOperands rest)

def visitBlock (e : Expr) (vars : List Var) (xs : List Expr) : Split Expr := do
  -- what is stored before a suspension is read after it, so the machine declares the variables
  modify fun s => { s with vars := s.vars ++ vars.toArray }
  match xs.getLast? with
  | none => Build.default e.type
  | some last =>
    for x in xs.dropLast do
      emit (← visit x)
    let r ← visit last
    if e.type.isVoid then
      emit r
      Build.empty
    else r.coerce e.type

/-- A store whose value is computed before anything of the target can change. -/
def visitAssign (e : Expr) (op : AssignOp) (target value : Expr) : Split Expr := do
  let splits ← needs value
  match target with
  | .node _ _ _ (.field object name) =>
    let object ← visit object
    -- the object is evaluated before the value, and kept while the value suspends
    let object ← if splits then spill object else pure object
    let target ← Build.withData target (.field object name)
    if !splits then Build.withData e (.assign op target value)
    else match op.binary? with
      | some b =>
        let old ← spill target
        Build.assign target (← Build.binary b old (← visit value))
      | none => Build.withData e (.assign op target (← visit value))
  | _ =>
    match op.binary?, splits with
    | some b, true =>
      -- the old value is read before the new one is computed
      let old ← spill target
      Build.assign target (← Build.binary b old (← visit value))
    | _, _ => Build.withData e (.assign op target (← visit value))

def visitThrow (e value : Expr) : Split Expr := do
  -- a bare rethrow finds the error in the variable of its region
  if !value.isAbsent then Build.withData e (.throw (← visit value))
  else match (← get).caught with
    | none => return e
    | some v => Build.throwAs (← Build.ref v) e.type

/-! ### Arms that meet -/

/-- Visits an arm that begins inside the current state and ends in `merge`; gives its first segment. -/
def branch (x : Expr) (merge : StateRef) : Split Expr := do
  let saved := (← get).current
  let entry ← newInlined
  goOnIn entry
  assignResult merge (← visit x)
  closeWith merge
  -- the visit may have ended in another state; what comes first stays in this one
  goOnIn saved
  inlineState entry

/-- Visits an arm that begins in a state of its own and ends in `merge`; gives that state. -/
def standalone (kind : StateKind) (x : Expr) (merge : StateRef) : Split StateRef := do
  let saved := (← get).current
  let entry ← newState kind x .void
  goOnIn entry
  assignResult merge (← visit x)
  closeWith merge
  goOnIn saved
  return entry

def visitConditional (e test ifTrue ifFalse : Expr) : Split Expr := do
  let test ← visit test
  -- two arms that stay whole need no states
  if !(← needs ifTrue) && !(← needs ifFalse) then
    return ← Build.withData e (.conditional test ifTrue ifFalse)
  let merge ← newState .merge e e.type
  let a ← branch visit ifTrue merge
  let b ← branch visit ifFalse merge
  splitAt (← Build.ifThenElse test a b) merge
  resultRef merge e.type

/-- A short-circuit operator: the right operand runs only when the left one does not decide. -/
def visitLogical (e : Expr) (op : BinaryOp) (left right : Expr) : Split Expr := do
  let left ← visit left
  if !(← needs right) then return ← Build.withData e (.binary op left right none)
  let merge ← newState .merge e .bool
  -- a disjunction is decided by true, a conjunction by false
  let absorbing := op == .orElse
  let short ← Build.typedBlock .void []
    [← Build.assign (← resultRef merge .bool) (← Build.constBool absorbing), ← setState merge]
  let long ← branch visit right merge
  if absorbing then splitAt (← Build.ifThenElse left short long) merge
  else splitAt (← Build.ifThenElse left long short) merge
  resultRef merge .bool

def visitBinary (e : Expr) (op : BinaryOp) (left right : Expr) (method : Option Native) :
    Split Expr := do
  if op.isShortCircuit && method.isNone then return ← visitLogical visit e op left right
  match ← visitOperands visit [left, right] with
  | [l, r] => Build.withData e (.binary op l r method)
  | _ => return e

/-! ### Switches -/

/-- What was made of the body of an earlier case that is the very same node. -/
def lookupSame (x : Expr) (made : List (Expr × α)) : Option α :=
  (made.find? fun p => p.1.same x).map (·.2)

/-- The tests stay in one switch, whose arms run the split bodies. -/
def switchBodies (e value : Expr) (cases : List (List Expr × Expr)) (default : Expr)
    (comparer : Option Native) : Split Expr := do
  let merge ← newState .merge e e.type
  let mut arms : List (Expr × Expr) := []
  let mut out : List (List Expr × Expr) := []
  for (tests, body) in cases do
    match lookupSame body arms with
    -- cases that share a body share its states
    | some arm => out := out ++ [(tests, arm)]
    | none =>
      let arm ← branch visit body merge
      arms := (body, arm) :: arms
      out := out ++ [(tests, arm)]
  let default ← if default.isAbsent then (Build.default e.type : Split Expr) else pure default
  let fallback ← branch visit default merge
  splitAt (← Build.switch .void value fallback comparer out) merge
  resultRef merge e.type

/-- Jumps to a state. -/
def jumpTo (r : StateRef) : Split Expr := do
  Build.typedBlock .void [] [← setState r, ← continueDispatch]

/-- Whether the value of a switch meets a test. -/
def matchTest (comparer : Option Native) (value test : Expr) : Build Expr :=
  match comparer with
  | some f => Build.callFunc (.func f.type (.native f)) [value, test]
  | none => Build.binary .equal value test

/-- A test value of a switch, the state it leads to and whether it is split. -/
structure SwitchTest where
  test : Expr
  entry : StateRef
  splits : Bool

/-- The value is kept, and the tests are walked in order: runs of tests that are not split become
switches, the others are compared one at a time. -/
def switchTests (e value : Expr) (cases : List (List Expr × Expr)) (default : Expr)
    (comparer : Option Native) : Split Expr := do
  let merge ← newState .merge e e.type
  -- a constant needs no variable
  let kind := (← Build.dataOf value).kind
  let value ← if kind == .constant then pure value else do
    let tmp ← newLocal "switchValue" value.type
    emit (← Build.assign (← Build.ref tmp) value)
    Build.ref tmp
  let mut entries : List (Expr × StateRef) := []
  let mut tests : List SwitchTest := []
  for (ts, body) in cases do
    let entry ← match lookupSame body entries with
      | some entry => pure entry
      | none => standalone visit .arm body merge
    entries := (body, entry) :: entries
    for t in ts do
      tests := tests ++ [⟨t, entry, ← needs t⟩]
  let fallback ← if !default.isAbsent then standalone visit .fallback default merge else do
    match (← state merge).result with
    | some slot => emit (← Build.assign (← Build.ref slot) (← Build.default e.type))
    | none => pure ()
    pure merge
  -- a split test has to be reached before it suspends, so the tests before it come first
  for run in tests.splitBy fun a b => a.splits == b.splits do
    if run.any (·.splits) then
      for t in run do
        let r ← visit t.test
        emit (← Build.ifThen (← matchTest comparer value r) (← jumpTo t.entry))
    else
      let arms ← run.mapM fun t => return ([← passThrough t.test], ← jumpTo t.entry)
      emit (← Build.switch .void value .absent comparer arms)
  setNext (← get).current fallback
  goOnIn merge
  resultRef merge e.type

def visitSwitch (e value : Expr) (cases : List (List Expr × Expr)) (default : Expr)
    (comparer : Option Native) : Split Expr := do
  let bodies ← (default :: cases.map (·.2)).anyM needs
  let tests ← (cases.flatMap (·.1)).anyM needs
  let value ← visit value
  if tests then switchTests visit e value cases default comparer
  else if bodies then switchBodies visit e value cases default comparer
  else Build.withData e (.switch value cases default comparer)

/-! ### Loops, labels and jumps -/

/-- How many of the enclosing regions also enclose a label; nothing when the label stands in a region
that the current place is not inside. -/
def labelDepth? (l : Label) : Split (Option Nat) := do
  let regions := (← get).frames.map (·.region)
  match (← read).index.path? l with
  | none => return some regions.length
  | some path => return if path.isPrefixOf regions then some path.length else none

/-- The state of a label, made in the regions of its place. -/
def labelState (l : Label) (origin : Expr) : Split StateRef := do
  let s ← get
  match s.labels.lookup l with
  | some r => return r
  | none =>
    -- the first mention may be a jump from regions further inside
    let context := match ← labelDepth? l with
      | some depth => ((s.frames.drop depth).head?.map (·.outer)).getD s.context
      | none => s.context
    let r ← newStateIn context .label origin l.type
    modifyState r fun st => { st with detail := l.name }
    modify fun s => { s with labels := (l, r) :: s.labels }
    return r

def visitLoop (e body : Expr) (brk cont : Option Label) : Split Expr := do
  let cont ← match cont with
    | some l => pure l
    | none => Build.newLabel "loop" .void
  let entry ← labelState cont e
  setNext (← get).current entry
  goOnIn entry
  -- jumps of the body may aim at it
  let exit ← brk.mapM fun l => labelState l e
  emit (← visit body)
  closeWith entry
  match exit with
  | none =>
    goOnIn (← newDead)
    Build.default e.type
  | some r =>
    goOnIn r
    resultRef r e.type

def visitLabel (e : Expr) (l : Label) (default : Expr) : Split Expr := do
  let r ← labelState l e
  if !default.isAbsent then assignResult r (← visit default)
  -- the label is also reached by falling through
  closeWith r
  goOnIn r
  resultRef r e.type

/-- The states between the cleanup blocks that a jump leaves: each goes on in the next block, the last
one in `target`. Gives the state that the first block goes on in. -/
def leaveThrough (e : Expr) (target : StateRef) (finals : List Guard) : Split StateRef :=
  (finals.zip (finals.drop 1)).foldrM (fun (inner, outer) next => do
    let r ← newStateIn inner.outer .leave e .void
    modifyState r fun s => { s with resume := some next }
    match outer.cleanup with
    | some c => setNext r c
    | none => pure ()
    return r) target

def visitGoto (e : Expr) (l : Label) (value : Expr) : Split Expr := do
  let target ← labelState l e
  if !value.isAbsent then assignResult target (← visit value)
  let frames := (← get).frames
  match ← labelDepth? l with
  | none => report .jumpIntoTry e ("jump to " ++ l.text ++ " enters a protected region")
  | some depth =>
    -- the regions that are left, from the inside out
    let crossed := (frames.drop depth).reverse
    match crossed.find? fun f => f.region.part == .cleanup || f.region.part == .fault with
    | some f =>
      report .jumpOutOfFinally e
        ("jump to " ++ l.text ++ " leaves a " ++ f.region.part.text ++ " block")
    | none =>
      let finals ← (crossed.filterMap (·.cleanup)).mapM guard
      match finals.head?.bind (·.cleanup) with
      -- nothing has to be cleaned up on the way
      | none => emit (← setState target)
      | some first =>
        let next ← leaveThrough e target finals
        emit (← setResume next)
        emit (← setState first)
      emit (← continueDispatch)
  endWithJump
  Build.default e.type

/-! ### Protected bodies -/

/-- Visits one part of a protected expression. -/
def inFrame (f : Frame) (context : List GuardRef) (x : Split α) : Split α := do
  modify fun s => { s with context, frames := s.frames ++ [f] }
  let a ← x
  modify fun s => { s with frames := s.frames.dropLast }
  return a

/-- Goes from the end of a part to the cleanup block and then to `exit`, or to `exit` at once. -/
def leavePart (cleanup : Option StateRef) (exit : StateRef) : Split Unit := do
  if (← current).isOpen then
    let here := (← get).current
    match cleanup with
    | some c =>
      modifyState here fun s => { s with resume := some exit }
      setNext here c
    | none => setNext here exit

/-- The cleanup block: parks the resume slot, runs, and goes on where the slot said. -/
def visitCleanup (r : StateRef) (parked : Var) (block : Expr) : Split Unit := do
  modify fun s => { s with cleanups := s.cleanups + 1 }
  goOnIn r
  -- protected bodies inside the block use the resume slot themselves
  emit (← Build.assign (← Build.ref parked) (← Build.ref (← read).resumeVar))
  emit (← visit block)
  emit (← Build.assign (← Build.ref (← read).stateVar) (← Build.ref parked))
  setTerminal
  modify fun s => { s with cleanups := s.cleanups - 1 }

/-- The region of a cleanup block, the state that runs it and where it parks the resume slot. -/
structure CleanupPart where
  guard : GuardRef
  state : StateRef
  parked : Var

/-- What the parts of a protected expression share: the expression, the context outside it, the state
after it and its cleanup block. -/
structure Protection where
  node : Nat
  outer : List GuardRef
  exit : StateRef
  cleanup : Option CleanupPart

namespace Protection

/-- The context of the handlers, which the cleanup block of their own expression still protects. -/
def inner (p : Protection) : List GuardRef := (p.cleanup.map (·.guard)).toList ++ p.outer

def frame (p : Protection) (part : RegionPart) : Frame :=
  ⟨⟨p.node, part⟩, p.outer, p.cleanup.map (·.guard)⟩

/-- Leaves a part of the expression. -/
def leave (p : Protection) : Split Unit := leavePart (p.cleanup.map (·.state)) p.exit

end Protection

/-- Makes the region and the state of a cleanup block, when there is one. -/
def openCleanup (exit : StateRef) (fin : Expr) : Split (Option CleanupPart) := do
  if fin.isAbsent then return none
  let outer := (← get).context
  -- its own state belongs to the block already
  modify fun s => { s with cleanups := s.cleanups + 1 }
  let r ← newState .cleanup fin .void
  modify fun s => { s with cleanups := s.cleanups - 1 }
  let caught ← newLocal "finallyException" .error
  let parked ← newLocal "finallyResume" .int
  let g ← addGuard { cleanup := some r, exit := some exit, caught := some caught,
                     parked := some parked, outer }
  return some ⟨g, r, parked⟩

/-- Makes the region of the handlers and the variable for the error that they get. -/
def openHandlers (p : Protection) : Split (GuardRef × Var) := do
  let caught ← newLocal "caught" .error
  let g ← addGuard { exit := some p.exit, caught := some caught, outer := p.inner }
  return (g, caught)

def visitProtected (p : Protection) (body : Expr) : Split Unit := do
  let r ← newState .body body .void
  setNext (← get).current r
  goOnIn r
  assignResult p.exit (← visit body)
  p.leave

/-- A handler begins in a state of its own, which the region learns about. -/
def visitHandler (p : Protection) (g : GuardRef) (caught : Var) (h : Handler Expr) : Split Unit := do
  if ← needs h.filter then
    report .awaitInFilter h.filter "catch filter must not suspend or jump"
  modify fun s => { s with vars := s.vars ++ h.var.toArray }
  let r ← newState .handler h.body .void
  goOnIn r
  modify fun s => { s with caught := some caught }
  assignResult p.exit (← visit h.body)
  p.leave
  modifyGuard g fun info =>
    { info with handlers := info.handlers ++ [⟨r, h.var, h.test, h.filter⟩] }

/-- A fault block handles every error and raises it again. -/
def visitFault (g : GuardRef) (caught : Var) (fault : Expr) : Split Unit := do
  let r ← newState .fault fault .void
  goOnIn r
  modify fun s => { s with caught := some caught }
  emit (← visit fault)
  emit (← Build.raise (← Build.ref caught))
  endWithJump
  modifyGuard g fun info => { info with handlers := info.handlers ++ [{ state := r }] }

/-- The protected body, then what handles its errors. -/
def visitHandled (p : Protection) (body : Expr) (handlers : List (Handler Expr)) (fault : Expr) :
    Split Unit := do
  if handlers.isEmpty && fault.isAbsent then
    inFrame (p.frame .body) p.inner (visitProtected visit p body)
  else
    let (g, caught) ← openHandlers p
    inFrame (p.frame .body) (g :: p.inner) (visitProtected visit p body)
    -- a bare rethrow in a handler means the error of this region
    let saved := (← get).caught
    for (h, i) in handlers.zipIdx do
      inFrame (p.frame (.handler i)) p.inner (visitHandler visit p g caught h)
    if !fault.isAbsent then
      inFrame (p.frame .fault) p.inner (visitFault visit g caught fault)
    modify fun s => { s with caught := saved }

def visitTry (e body : Expr) (handlers : List (Handler Expr)) (fin fault : Expr) : Split Expr := do
  let outer := (← get).context
  let exit ← newState .tryExit e e.type
  let cleanup ← openCleanup exit fin
  visitHandled visit ⟨e.id, outer, exit, cleanup⟩ body handlers fault
  match cleanup with
  | none => pure ()
  -- the block stands outside the region that it cleans up after
  | some c =>
    inFrame ⟨⟨e.id, .cleanup⟩, outer, none⟩ outer (visitCleanup visit c.state c.parked fin)
  modify fun s => { s with context := outer }
  goOnIn exit
  resultRef exit e.type

/-! ### Suspension points -/

/-- The operand of an await, configured when asked for, and its awaiter type. -/
def awaitSource? (source : Expr) (configured : Option Bool) : Split (Expr × Option Ty) := do
  let t ← Build.typeOf source
  match configured with
  | none => return (source, t.awaitable?.map (·.awaiter))
  | some flag =>
    match t.awaitable?.bind (·.configure) with
    | none => return (source, none)
    | some _ =>
      let source ← Build.methodCall source "ConfigureAwait" [← Build.constBool flag]
      return (source, source.type.awaitable?.map (·.awaiter))

/-- Obtains the awaiter, stores the number of the next state and leaves the machine only if the
operation is still pending; the next state reads the result. -/
def visitAwait (e operand : Expr) (configured : Option Bool) : Split Expr := do
  match (← read).target with
  | .iterator _ _ _ _ =>
    report .awaitInIterator e ("await inside iterator " ++ (← read).name)
    Build.default e.type
  | .async _ _ continuation =>
    let (source, awaiter?) ← awaitSource? (← visit operand) configured
    match awaiter? with
    | none =>
      report .notAwaitable e (source.type.text ++ " is not awaitable")
      Build.default e.type
    | some t =>
      let awaiter ← newLocal "awaiter" t
      let next ← newState .await e .void
      emit (← Build.assign (← Build.ref awaiter) (← Build.methodCall source "GetAwaiter" []))
      -- stored before registering, since the continuation may be run at once
      emit (← setState next)
      let pending ← Build.not (← Build.methodCall (← Build.ref awaiter) "IsCompleted" [])
      let register ← Build.methodCall (← Build.ref awaiter) "OnCompleted" [← Build.ref continuation]
      emit (← Build.ifThen pending
        (← Build.typedBlock .void [] [register, ← leaveDispatch .absent]))
      let here := (← get).current
      -- the number is stored already
      modifyState here fun s => { s with stored := true }
      setNext here next
      goOnIn next
      Build.methodCall (← Build.ref awaiter) "GetResult" []

/-- Stores the element and the number of the next state and leaves the machine. -/
def visitYield (e value : Expr) : Split Expr := do
  match (← read).target with
  | .async _ _ _ =>
    report .yieldInAsync e ("yield inside async " ++ (← read).name)
  | .iterator _ _ _ currentVar =>
    if (← get).cleanups > 0 then report .yieldInFinally e "yield inside a finally block"
    else
      let v ← visit value
      let next ← newState .yield e .void
      -- this is where closing the enumeration comes in
      modifyState next fun s => { s with afterYield := true }
      emit (← Build.assign (← Build.field (← Build.ref currentVar) "Value") (← v.coerce .any))
      emit (← setState next)
      emit (← leaveDispatch (← Build.constBool true))
      setTerminal
      goOnIn next
  Build.empty

/-! ### All cases -/

/-- Visits a node that has to be split. -/
def visitNode (e : Expr) : Split Expr := do
  match ← Build.dataOf e with
  | .block vars xs => visitBlock visit e vars xs
  | .assign op target value => visitAssign visit e op target value
  | .binary op left right method => visitBinary visit e op left right method
  | .unary op x method => Build.withData e (.unary op (← visit x) method)
  | .typeIs x t => Build.withData e (.typeIs (← visit x) t)
  | .field object name => Build.withData e (.field (← visit object) name)
  | .throw value => visitThrow visit e value
  | .call fn args =>
    match ← visitOperands visit (fn :: args) with
    | fn :: args => Build.withData e (.call fn args)
    | [] => return e
  | .methodCall receiver name args =>
    match ← visitOperands visit (receiver :: args) with
    | receiver :: args => Build.withData e (.methodCall receiver name args)
    | [] => return e
  | .conditional test a b => visitConditional visit e test a b
  | .switch value cases default comparer => visitSwitch visit e value cases default comparer
  | .loop body brk cont => visitLoop visit e body brk cont
  | .protect body handlers fin fault => visitTry visit e body handlers fin fault
  | .goto _ l value => visitGoto visit e l value
  | .label l default => visitLabel visit e l default
  | .await operand configured => visitAwait visit e operand configured
  | .yield value => visitYield visit e value
  | d => throw (.defect ("no lowering for " ++ d.kind.text))

end

/-- Visits a tree of a height that `fuel` bounds. -/
def visitAt : Nat → Expr → Split Expr
  | 0, e => throw (.defect ("no lowering for " ++ ((e.kind?.map ExprKind.text).getD "")))
  | fuel + 1, e => do
    if e.isAbsent then return e
    if !(← needs e) then passThrough e
    else visitNode (visitAt fuel) e

/-- Visits a tree. -/
def visit (e : Expr) : Split Expr := visitAt (e.height + 1) e

end Resumable.Split
