import Resumable.Session

/-!
# `Sample`: lambdas with their expected outcomes

A sample is an async or iterator lambda together with the arguments it is called with and what it should
come to. Its tree is built anew for every run, and the tasks it awaits complete one moment later on the
loop of the run, so that awaiting them really suspends.
-/

namespace Resumable

/-- The error that a run should end with. -/
inductive ErrorWish where
  | none
  /-- This very error, perhaps inside another. -/
  | is (e : Value)
  /-- An error of this type. -/
  | ofType (t : Ty)

/-- A lambda and what it should come to. -/
structure Sample where
  name : String
  title : String
  kind : LambdaKind := .async
  /-- The result type of the lambda. -/
  handle : Ty := .task .int
  tree : Work Expr
  args : Work (List (Option Value)) := pure []
  /-- The settled result; the elements of an iterator. -/
  want : Option Value := none
  error : ErrorWish := .none

namespace Sample

open Build

/-! ### Parts of trees -/

/-- Statements whose value is discarded. -/
def stmt (xs : List Expr) : Build Expr := typedBlock .void [] xs

/-- Calls a native function with one argument and awaits what it returns. -/
def awaitCall (n : Native) (arg : Expr) : Build Expr := do await (← callNative n [arg]) none

/-- Awaits a number. -/
def awaitInt (n : Int) : Build Expr := do awaitCall .int (← constInt n)

/-- Awaits a truth value. -/
def awaitBool (b : Bool) : Build Expr := do awaitCall .bool (← constBool b)

/-- The error that failing samples raise. -/
def stop : Build Expr := constOf (some Sentinel.stop.error) .error

/-- Stores into a variable. -/
def set (v : Var) (value : Build Expr) : Build Expr := do assign (← ref v) (← value)

/-- Adds to a variable. -/
def addTo (v : Var) (value : Build Expr) : Build Expr := do assignWith .add (← ref v) (← value)

/-- A body with handlers. -/
def guarded (body : Expr) (handlers : List (Handler Expr)) : Build Expr :=
  protect body handlers .absent .absent

/-- A body that is followed by another in any case. -/
def ensured (body fin : Expr) : Build Expr := protect body [] fin .absent

/-- A handler for every error. -/
def handler (body : Expr) : Handler Expr := ⟨.error, none, .absent, body⟩

/-! ### Kinds of samples -/

/-- An async lambda without parameters. -/
def async (name title : String) (handle : Ty) (want : Option Value) (body : Build Expr) : Sample where
  name := name
  title := title
  handle := handle
  tree := Work.build (do asyncLambda name handle [] (← body))
  want := want

/-- An async lambda with a parameter, which is called with the result of a native function. -/
def withInput (name title : String) (type : Ty) (source : Native) (arg : Value) (want : Int)
    (body : Var → Build Expr) : Sample where
  name := name
  title := title
  tree := Work.build do
    let input ← newVar "input" type
    asyncLambda name (.task .int) [input] (← body input)
  args := do return [(← Work.run (Work.calls.call (.ofNative source) [arg])).head?]
  want := some (.ofInt want)

/-- An iterator without parameters. -/
def iterator (name title : String) (shape : Ty) (want : List Int) (body : Build Expr) : Sample where
  name := name
  title := title
  kind := .iterator
  handle := shape
  tree := Work.build (do iteratorLambda name shape [] (← body))
  want := some (.slice (.slice .any) (want.map fun n => .ofAny (some (.ofInt n))))

end Sample

end Resumable
