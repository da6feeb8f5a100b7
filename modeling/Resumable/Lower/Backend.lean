import Resumable.Expr.Build

/-!
# `Lower.Backend`: how a machine talks to its completion handle

A backend belongs to one type of handle. It knows the cell that a pending machine settles and builds the
expressions that create the cell, settle it and hand it to the caller, and those that make a handle which
is settled from the start.
-/

namespace Resumable

/-- The completion backends, by their handles. -/
inductive Backend where
  /-- The cell is the handle. -/
  | task (t : Ty)
  | future
  /-- The cell is a pooled source. -/
  | valueTask (t : Ty)
  | valueFuture
  deriving Inhabited

namespace Backend

/-- The type that a call of the lambda returns. -/
def handle : Backend → Ty
  | .task t => .task t
  | .future => .future
  | .valueTask t => .valueTask t
  | .valueFuture => .named .valueFuture

/-- The type of the value that the body produces; void for none. -/
def result : Backend → Ty
  | .task t | .valueTask t => t
  | .future | .valueFuture => .void

/-- The type of the pending cell. -/
def cell : Backend → Ty
  | .task t => .task t
  | .future => .future
  | .valueTask t => .source t
  | .valueFuture => .source .unit

/-- The types that tasks may have as results. -/
def results : List Ty :=
  [.int, .scalar .int64, .scalar .float64, .string, .bool, .any, .error]

/-- Every backend. -/
def all : List Backend :=
  [.future, .valueFuture] ++ results.flatMap fun t => [.task t, .valueTask t]

/-- The backend of a handle type. -/
def find? (handle : Ty) : Option Backend := all.find? fun b => b.handle == handle

/-- A value of the result type; there must be one. -/
def resultValue (value : Expr) (t : Ty) : Build Expr := do
  if (← Build.typeOf value) == t then pure value else Build.convert value t

/-- Runs a value without a result before the call that completes. -/
def settle (value call : Expr) : Build Expr :=
  if value.isAbsent || (value.hasKind .default && value.type.isVoid) then pure call
  else Build.block [] [value, call]

/-- A new cell. -/
def create : Backend → Build Expr
  | .task t => Build.callLibrary (.newTask t) []
  | .future => Build.callLibrary .newFuture []
  | .valueTask t => Build.callLibrary (.rentValueTask t) []
  | .valueFuture => Build.callLibrary .rentValueFuture []

/-- Completes a cell. -/
def setResult (b : Backend) (cell value : Expr) : Build Expr :=
  match b with
  | .task t => do Build.methodCall cell "Complete" [← resultValue value t]
  | .future => do settle value (← Build.methodCall cell "Complete" [])
  | .valueTask t => do Build.methodCall cell "SetResult" [← resultValue value t]
  | .valueFuture => do settle value (← Build.callLibrary .completeValueFuture [cell])

/-- Fails a cell. -/
def setException (b : Backend) (cell err : Expr) : Build Expr :=
  match b with
  | .task _ | .future => Build.methodCall cell "Fail" [err]
  | .valueTask _ | .valueFuture => Build.methodCall cell "SetException" [err]

/-- The handle of a cell. -/
def awaitable (b : Backend) (cell : Expr) : Build Expr :=
  match b with
  | .task _ | .future => pure cell
  | .valueTask _ => Build.methodCall cell "Task" []
  | .valueFuture => do Build.callLibrary .asValueFuture [← Build.methodCall cell "Task" []]

/-- A handle that is completed from the start. -/
def fromResult (b : Backend) (value : Expr) : Build Expr :=
  match b with
  | .task t => do Build.callLibrary (.fromResult t) [← resultValue value t]
  | .future => do settle value (← Build.callLibrary .completed [])
  | .valueTask t => do Build.callLibrary (.valueTaskOf t) [← resultValue value t]
  | .valueFuture => do settle value (← Build.callLibrary .completedValueFuture [])

/-- A handle that has failed from the start. -/
def fromException (b : Backend) (err : Expr) : Build Expr :=
  match b with
  | .task t => Build.callLibrary (.fromError t) [err]
  | .future => Build.callLibrary .failedFuture [err]
  | .valueTask t => Build.callLibrary (.valueTaskFailed t) [err]
  | .valueFuture => Build.callLibrary .failedValueFuture [err]

end Backend

end Resumable
