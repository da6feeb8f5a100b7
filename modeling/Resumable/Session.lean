import Resumable.Expr.Build
import Resumable.Lower.Basic
import Resumable.Run.Alike
import Resumable.Run.Eval

/-!
# `Session`: building, lowering and running trees

A session holds the world that trees run in, the supply of numbers for new nodes, and the names that
descriptions of trees have introduced: variables, labels, errors, shared objects and remembered trees.
Work in a session succeeds, or fails with the reason why a tree could not be built or why a run stopped.
-/

namespace Resumable

/-- Why work in a session has no ordinary result. -/
inductive Failure where
  | fault (f : Fault)
  | stop (s : Stop)
  /-- A tree that cannot be lowered. -/
  | refused (ds : List Diagnostic)
  /-- A description that describes nothing. -/
  | unread (what : String)
  deriving Inhabited

/-- The names and the world of a session. -/
structure Session where
  world : World := .initial
  supply : Supply := {}
  vars : List (String × Var) := []
  labels : List (String × Label) := []
  errors : List (String × Value) := []
  objects : List ((String × String) × Value) := []
  trees : List (String × Expr) := []
  deriving Inhabited

/-- Work in a session. -/
abbrev Work := EStateM Failure Session

namespace Work

/-- The fuel of a run, far beyond what any terminating tree needs. -/
def fuel : Nat := 1000000000

/-- The evaluator of a session. -/
def calls : Calls := Calls.level fuel

def unread (what : String) : Work α := throw (.unread what)

/-- Builds part of a tree. -/
def build (x : Build α) : Work α := fun s =>
  match x s.supply with
  | .ok a supply => .ok a { s with supply }
  | .error f supply => .error (.fault f) { s with supply }

/-- Runs something in the world of the session. -/
def run (x : Run α) : Work α := fun s =>
  let w := s.world
  let s := { s with world := default }
  match x w with
  | .ok a world => .ok a { s with world }
  | .error e world => .error (.stop e) { s with world }

/-- Lowers a tree, and gives the moments on the way too. -/
def lowerWatched (options : LowerOptions) (e : Expr) :
    Work (Except Failure Lowered × Array Moment) := fun s =>
  let (r, moments, supply) := lower ⟨options, s.world.alike⟩ e s.supply
  let out := match r with
    | .ok (.done l) => .ok l
    | .ok (.refused ds) => .error (.refused ds)
    | .ok .silent => .error (.fault .missing)
    | .error f => .error (.fault f)
  .ok (out, moments) { s with supply }

/-- Lowers a tree. -/
def lower (options : LowerOptions) (e : Expr) : Work Lowered := do
  match (← lowerWatched options e).1 with
  | .ok l => return l
  | .error f => throw f

/-- The outcome of work, whatever it is. -/
def attempt (x : Work α) : Work (Except Failure α) := fun s =>
  match x s with
  | .ok a s => .ok (.ok a) s
  | .error e s => .ok (.error e) s

end Work

end Resumable
