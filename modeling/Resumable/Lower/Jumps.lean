import Resumable.Expr.Facts

/-!
# `Lower.Jumps`: where labels are placed and which jumps cross a boundary

Before a body is split its jumps are indexed: in which protected regions every label is placed, and how
often it is jumped to. A tree is crossed by a jump when one inside it leads outside, or one outside it
leads inside; such a tree has to be split even if it does not suspend.
-/

namespace Resumable

/-- The parts of a protected expression. -/
inductive RegionPart where
  | body
  | handler (index : Nat)
  | cleanup
  | fault
  deriving DecidableEq, Repr, Inhabited

/-- The word for a part. -/
def RegionPart.text : RegionPart → String
  | .body => "try" | .handler _ => "catch" | .cleanup => "finally" | .fault => "fault"

/-- One part of one protected expression, by the id of its node. -/
structure Region where
  node : Nat
  part : RegionPart
  deriving DecidableEq, Repr, Inhabited

namespace Expr

/-- The label that a jump goes to. -/
def jumpTarget? : Expr → Option Label
  | .node _ _ _ (.goto _ l _) => some l
  | _ => none

/-- The labels that a node itself places. -/
def placedHere : Expr → List Label
  | .node _ _ _ (.label l _) => [l]
  | .node _ _ _ (.loop _ brk cont) => brk.toList ++ cont.toList
  | _ => []

/-- The nodes of a tree outside nested lambdas. -/
def ownNodes (e : Expr) : List Expr := e.nodes fun n => !n.hasKind .lambda

/-- The jumps of a tree, outside nested lambdas. -/
def jumps (e : Expr) : List Expr := e.ownNodes.filter fun n => n.jumpTarget?.isSome

/-- The labels that are placed in a tree, outside nested lambdas. -/
def placed (e : Expr) : List Label := e.ownNodes.flatMap placedHere

/-- The nodes of a tree outside the lambdas nested in it; the tree may be a lambda itself. -/
def opened : Expr → List Expr
  | .absent => []
  | .node id r t d => .node id r t d :: (operands d).flatMap ownNodes

/-- The regions that the operands of a node stand in, in the order of `operands`, where the node itself
stands in `path`. -/
def operandPaths (id : Nat) (path : List Region) (d : Data Expr) : List (List Region) :=
  let inside (part : RegionPart) : List Region := path ++ [⟨id, part⟩]
  match d with
  | .protect _ hs _ _ =>
    inside .body :: (hs.zipIdx.flatMap fun (_, i) => [inside (.handler i), inside (.handler i)]) ++
      [inside .cleanup, inside .fault]
  | d => (operands d).map fun _ => path

/-- The placed labels with the regions around them, outermost region first. -/
def placements (path : List Region) (e : Expr) : List (Label × List Region) :=
  match e with
  | .absent => []
  | .node _ _ _ (.lambda _ _ _ _ _) => []
  | .node id r t d =>
    (placedHere (.node id r t d)).map (·, path) ++
      ((operands d).attach.zip (operandPaths id path d)).flatMap fun (c, p) => placements p c.1
  termination_by sizeOf e
  decreasing_by
    have := sizeOf_lt_of_mem_operands c.2
    simp only [Expr.node.sizeOf_spec]
    omega

end Expr

/-- The jumps and labels of a body. -/
structure JumpIndex where
  /-- The regions around every placed label; where a label is placed twice the last place counts. -/
  paths : List (Label × List Region)
  /-- The jumps of the body. -/
  jumps : List Expr

namespace JumpIndex

/-- The index of a body. -/
def ofBody (body : Expr) : JumpIndex := ⟨(body.placements []).reverse, body.jumps⟩

/-- The regions around a label. -/
def path? (ix : JumpIndex) (l : Label) : Option (List Region) := ix.paths.lookup l

/-- The jumps to labels that are placed nowhere. -/
def undefined (ix : JumpIndex) : List Expr :=
  ix.jumps.filter fun j => j.jumpTarget?.any fun l => (ix.path? l).isNone

/-- The number of jumps to a label. -/
def count (jumps : List Expr) (l : Label) : Nat := jumps.countP fun j => j.jumpTarget? == some l

/-- Whether a jump crosses the boundary of `e`: one inside leads to a label outside, or a label inside
is the target of more jumps than there are inside. In a body without jumps and labels no tree is looked at. -/
def escapes (ix : JumpIndex) (e : Expr) : Bool :=
  if ix.jumps.isEmpty && ix.paths.isEmpty then
    false
  else
    let inner := e.opened.filter fun n => n.jumpTarget?.isSome
    let placed := e.opened.flatMap Expr.placedHere
    (inner.any fun j => j.jumpTarget?.any fun l => !placed.contains l) ||
      placed.any fun l => count inner l < count ix.jumps l

end JumpIndex

end Resumable
