import Resumable.Expr.Basic

/-!
# `Expr.Facts`: what can be read off a tree

Small questions that the passes over trees share: which nodes do nothing, which stores are plain, how
often a variable occurs, and where labels are placed.
-/

namespace Resumable.Expr

/-- Nodes that do nothing when they are evaluated for their effect. -/
def isInert : Expr → Bool
  | .node _ _ _ (.constant _) | .node _ _ _ .default | .node _ _ _ (.var _) => true
  | .node _ _ _ (.block [] []) => true
  | _ => false

/-- Nodes whose value is the same whenever they are evaluated. -/
def isStable : Expr → Bool
  | .node _ _ _ (.constant _) | .node _ _ _ .default | .node _ _ _ (.lambda _ _ _ _ _) => true
  | _ => false

/-- Whether a node reads the variable `v`. -/
def isRef (e : Expr) (v : Var) : Bool := e.asVar? == some v

/-- The variable and the value of a plain store into a variable. -/
def plainStore? : Expr → Option (Var × Expr)
  | .node _ _ _ (.assign .plain (.node _ _ _ (.var v)) value) =>
    if value.isAbsent then none else some (v, value)
  | _ => none

/-- Whether a node stores into the variable `v`, plainly or not. -/
def storesTo (e : Expr) (v : Var) : Bool :=
  match e with
  | .node _ _ _ (.assign _ target _) => target.isRef v
  | _ => false

/-- Every node of a tree, also inside lambdas. -/
def allNodes (e : Expr) : List Expr := e.nodes fun _ => true

/-- The number of reads and stores of a variable, also inside lambdas. -/
def countRefs (e : Expr) (v : Var) : Nat :=
  e.allNodes.countP fun n => n.isRef v || n.storesTo v

/-- The body of a lambda. -/
def lambdaBody? : Expr → Option Expr
  | .node _ _ _ (.lambda _ _ body _ _) => some body
  | _ => none

/-- Whether a lambda in the tree uses a variable. -/
def captures (e : Expr) (v : Var) : Bool :=
  e.allNodes.any fun n => n.lambdaBody?.any fun b => b.countRefs v > 0

/-- Whether a label is placed in the tree, outside nested lambdas. -/
def placesLabel (e : Expr) : Bool := e.any (·.hasKind .label)

/-- The longest path from the root down to a leaf, counted in nodes. -/
def height (e : Expr) : Nat :=
  (e.children.attach.map fun c => height c.1).foldl max 0 + 1
  termination_by sizeOf e
  decreasing_by exact sizeOf_lt_of_mem_children c.2

end Resumable.Expr
