import Resumable.Expr.Basic
import Resumable.Run.Loop

/-!
# `Run.World`: everything a running tree can change

The world holds the slots of variables, the store of objects, the closures made so far, the log of
effects, the event loop, the pools of recyclable sources, and the consumers and scripted enumerations that
library functions create. It also keeps a trail of what was done with variables, closures and cells, which
nothing reads while a tree runs. A computation in the world (`Run`) returns, or stops: with a raised
error, with a jump on its way to its label, with a panic, or because its fuel ran out.
-/

namespace Resumable

/-- Where the continuations of a cell run. -/
inductive Binding where
  /-- Where the cell is completed. -/
  | free
  /-- On the loop. -/
  | loop
  /-- On a scheduler that drops all work. -/
  | nowhere
  deriving DecidableEq, Repr, Inhabited

/-- A continuation that waits for a cell. -/
structure Waker where
  callback : Callback
  /-- It runs where the cell is completed, whatever the cell is bound to. -/
  inline : Bool
  deriving Inhabited

/-- Where a continuation of a cell with a given binding runs. -/
def Waker.runsOn (k : Waker) (b : Binding) : Binding := if k.inline then .free else b

/-- A one-shot outcome and the continuations that wait for it. -/
structure Completion where
  done : Bool := false
  err : Option Value := none
  /-- The value slot; cells without a value have none. -/
  value : Option Value := none
  /-- Continuations in the order of registration. -/
  wakers : List Waker := []
  binding : Binding := .free
  /-- Counts the uses of a recyclable cell, so that old handles are told apart. -/
  version : UInt32 := 0
  deriving Inhabited

/-- One run through a sequence. -/
structure Enumerator where
  step : Value
  /-- The address of the slot that a step writes its element into. -/
  slot : Nat
  started : Bool := false
  done : Bool := false
  deriving Inhabited

/-- What an address leads to. -/
inductive Object where
  /-- The struct behind a pointer. -/
  | value (v : Value)
  | completion (c : Completion)
  /-- A restartable sequence, by the function that starts an enumeration. -/
  | sequence (factory : Value)
  | enumerator (e : Enumerator)
  deriving Inhabited

/-- Where a variable's value is kept, with the number of the variable. No value leads to a slot: it is
reached through a scope only. -/
structure Slot where
  var : Nat
  value : Value
  deriving Inhabited

/-- The variables in scope by number, innermost first, with their slots, and the error of the innermost
handler. -/
structure Env where
  slots : List (Nat × Nat) := []
  caught : Option Value := none
  deriving Inhabited

namespace Env

/-- The slot of a variable. -/
def find? (env : Env) (v : Var) : Option Nat := env.slots.lookup v.id

/-- Brings a variable into scope. -/
def bind (env : Env) (v : Var) (slot : Nat) : Env :=
  { env with slots := (v.id, slot) :: env.slots }

end Env

/-- What the evaluator did with a variable or a closure, and the library with a cell. A variable is told by
its number and its slot, or by its number and the scope that it is looked up in. -/
inductive Footprint where
  /-- A value was stored. -/
  | stored (var slot : Nat) (v : Value)
  /-- A switch read the variable that it is over. -/
  | switched (var slot : Nat) (v : Option Value)
  /-- A switch over the variable found no case. -/
  | missed (var slot : Nat)
  /-- A closure was called. -/
  | entered (closure : Nat)
  /-- An awaiter was asked to call the function in the variable when it is done. -/
  | handed (var slot : Nat)
  /-- That request failed instead of returning. -/
  | rejected (var slot : Nat)
  /-- An outcome was offered to a cell; whether the cell took it. -/
  | offered (cell : Nat) (err value : Option Value) (taken : Bool)
  /-- A continuation was registered with a cell. -/
  | registered (cell : Nat) (k : Waker)
  /-- A continuation of a cell was run, or posted to the loop. -/
  | resumed (cell : Nat) (k : Waker)
  /-- A handle for one use of a cell was read, with this answer; whether that ended the use. -/
  | read (cell : Nat) (version : UInt32) (answer : Value × Option Value) (recycled : Bool)
  /-- A call that completes the cell in the variable returned; the value led to the cell. -/
  | completed (var : Nat) (scope : Env) (cell : Value)
  /-- A call that makes the cell in the variable fail was begun. -/
  | failing (var : Nat) (scope : Env)
  /-- The turns of a loop or a block were used up. -/
  | cut
  deriving Inhabited

/-- A lambda with the scope it was made in. -/
structure Closure where
  lambda : Expr
  env : Env
  deriving Inhabited

/-- When a consumer of elements wants no more of them. -/
inductive Appetite where
  | all
  /-- At most one element; asking again is an error. -/
  | one
  /-- Until an error, or until more elements come than are allowed. -/
  | untilError (limit : Nat)
  /-- A given number of elements; errors count as elements. -/
  | count (n : Nat)
  deriving Inhabited

/-- A consumer: what it has been given, latest first. -/
structure Consumer where
  appetite : Appetite
  seen : List (List Value) := []
  count : Nat := 0
  /-- The error that ended the consumption. -/
  failed : Option Value := none
  deriving Inhabited

/-- The elements a consumer has been given, oldest first. -/
def Consumer.elems (k : Consumer) : List Value :=
  k.seen.reverse.map fun args => args.headD (.null .any)

/-- A scripted enumeration: its elements, the error after them and the error of closing it. -/
structure Script where
  elems : List Value
  fail : Option Value
  disposeErr : Option Value
  deriving Inhabited

/-- A pool of recyclable sources of one type: a slot that is used first, and a stack. -/
structure Pool where
  first : Option Nat := none
  rest : List Nat := []
  deriving Inhabited

namespace Pool

/-- Returns a source to the pool. -/
def put (p : Pool) (a : Nat) : Pool :=
  match p.first with
  | none => { p with first := some a }
  | some _ => { p with rest := a :: p.rest }

/-- Takes a source from the pool. -/
def take (p : Pool) : Option Nat × Pool :=
  match p.first, p.rest with
  | some a, _ => (some a, { p with first := none })
  | none, a :: rest => (some a, { p with rest := rest })
  | none, [] => (none, p)

end Pool

/-- Everything a running tree can change. -/
structure World where
  store : Array Object
  slots : Array Slot := #[]
  closures : Array Closure := #[]
  /-- What was done, the latest first. -/
  trail : List Footprint := []
  log : Array Bytes := #[]
  /-- The event loop; a world may have none. -/
  loop : Option Loop := some {}
  pools : List (Ty × Pool) := []
  consumers : Array Consumer := #[]
  scripts : Array Script := #[]
  /-- Enumerations of scripts: which script, and how many elements were produced. -/
  scriptRuns : Array (Nat × Nat) := #[]
  deriving Inhabited

/-- Failures that unwind the calls of functions rather than the evaluation of trees. -/
inductive Panic where
  | text (s : Bytes)
  | error (e : Value)
  /-- A fault of the machine, with its full text. -/
  | machine (text : String)
  /-- An error that left a function without an error result. -/
  | uncaught (e : Value)
  deriving Inhabited

/-- Why a computation did not return. -/
inductive Stop where
  /-- An error raised by the evaluated tree, or a refusal of the evaluator. -/
  | raised (e : Value)
  /-- A jump that has not reached its label. -/
  | jump (target : Label) (value : Option Value)
  | panic (p : Panic)
  | exhausted
  deriving Inhabited

/-- Computations in a world. -/
abbrev Run := EStateM Stop World

/-- The sentinel errors, which every world holds at these addresses. -/
inductive Sentinel where
  | stop | notCompleted | stale | canceled | stalled
  deriving DecidableEq, Repr

namespace Sentinel

def all : List Sentinel := [.stop, .notCompleted, .stale, .canceled, .stalled]

def text : Sentinel → String
  | .stop => "stop"
  | .notCompleted => "asyncrt: result read before completion"
  | .stale => "asyncrt: value task already consumed"
  | .canceled => "context canceled"
  | .stalled => "drive: loop ran out of work before the handle settled"

def address : Sentinel → Nat
  | .stop => 0 | .notCompleted => 1 | .stale => 2 | .canceled => 3 | .stalled => 4

/-- The error value. -/
def error (s : Sentinel) : Value := .pointer (.pointer (.named .errorText)) s.address

end Sentinel

/-- A struct of one text field behind a pointer. -/
def textObject (n : TypeName) (s : Bytes) : Object := .value (.struct (.named n) [.text .string s])

/-- A world in which nothing has happened. -/
def World.initial : World where
  store := (Sentinel.all.map fun s => textObject .errorText (Bytes.ofString s.text)).toArray

namespace Run

/-! ### The store -/

/-- Puts a new object into the store. -/
def alloc (o : Object) : Run Nat :=
  modifyGet fun w => (w.store.size, { w with store := w.store.push o })

/-- The object at an address. -/
def object (a : Nat) : Run Object := return (← get).store.getD a (.value (.null .any))

/-- Replaces the object at an address. -/
def setObject (a : Nat) (o : Object) : Run Unit :=
  modify fun w => { w with store := w.store.setIfInBounds a o }

/-- The value at an address. -/
def load (a : Nat) : Run Value := do
  match ← object a with
  | .value v => return v
  | _ => return .null .any

/-- Stores a value. -/
def store (a : Nat) (v : Value) : Run Unit := setObject a (.value v)

/-- A pointer to a new struct of one text field. -/
def newText (n : TypeName) (s : Bytes) : Run Value := do
  return .pointer (.pointer (.named n)) (← alloc (textObject n s))

/-- A new error with a message. -/
def newError (s : String) : Run Value := newText .errorText (Bytes.ofString s)

/-! ### Variables -/

/-- Adds to the trail. -/
def record (e : Footprint) : Run Unit := modify fun w => { w with trail := e :: w.trail }

/-- A new slot for a variable. -/
def makeSlot (v : Var) (x : Value) : Run Nat :=
  modifyGet fun w => (w.slots.size, { w with slots := w.slots.push ⟨v.id, x⟩ })

/-- The slot at a place. -/
def slotAt (a : Nat) : Run Slot := return (← get).slots.getD a ⟨0, .null .any⟩

/-- Stores a value into a slot. -/
def fillSlot (a : Nat) (x : Value) : Run Unit := do
  let s ← slotAt a
  modify fun w => { w with slots := w.slots.setIfInBounds a { s with value := x } }
  record (.stored s.var a x)

/-! ### Stopping -/

/-- The text of reading through nil. -/
def nilText : String := "invalid memory address or nil pointer dereference"

/-- Raises an error value. -/
def raise (e : Value) : Run α := throw (.raised e)

/-- Raises a new error with a message. -/
def raiseText (s : String) : Run α := do raise (← newError s)

/-- Raises a catchable machine fault. -/
def raiseFault (s : String) : Run α := do raise (← newText .runtimeError (Bytes.ofString s))

def panicText (s : String) : Run α := throw (.panic (.text (Bytes.ofString s)))

/-- Panics with a new error. -/
def panicError (s : String) : Run α := do throw (.panic (.error (← newError s)))

/-- Panics with a machine fault. -/
def panicMachine (s : String) : Run α := throw (.panic (.machine ("runtime error: " ++ s)))

/-- Panics because something nil was looked into. -/
def panicNil : Run α := panicMachine nilText

/-- Adds a line to the log. -/
def note (line : Bytes) : Run Unit := modify fun w => { w with log := w.log.push line }

/-- Takes the log. -/
def takeLog : Run (Array Bytes) := modifyGet fun w => (w.log, { w with log := #[] })

/-! ### The loop -/

/-- Changes the loop, if there is one. -/
def modifyLoop (f : Loop → Loop) : Run Unit := modify fun w => { w with loop := w.loop.map f }

/-- Whether a callback would call nothing. -/
def isNothing : Callback → Bool
  | .call (.null _) => true
  | _ => false

/-- Posts work; without a loop it is dropped. -/
def post (k : Callback) : Run Unit := if isNothing k then pure () else modifyLoop (·.post k)

/-- Arms a timer; this needs a loop. -/
def schedule (ms : UInt64) (k : Callback) : Run Unit := do
  if (← get).loop.isNone then panicNil
  modifyLoop (·.schedule ms k)

/-- The binding of a cell that is made by the loop. -/
def loopBinding : Run Binding := return if (← get).loop.isSome then .loop else .nowhere

end Run

end Resumable
