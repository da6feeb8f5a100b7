import Resumable.Expr.Build
import Resumable.Expr.Facts

/-!
# `Lower.Rescope`: variables in the innermost block that holds their uses

Every block variable is declared again in the innermost block around all its uses, and a variable that is
never read is dropped, while the values stored into it are still computed. A variable moves only into a
block that stores it before any other use, and never below a closure that uses it; so moving neither
exposes a zero value nor splits a shared capture.

**Contents**
* `Scopes.survey`: the declarations and uses of a tree.
* `Scopes.home`: the block that a variable belongs to.
* `Expr.rescope`: the pass.
-/

namespace Resumable

/-- The uses of a variable: the blocks and lambdas around each, outermost first, and whether any of
them reads. -/
structure VarUses where
  paths : List (List Expr) := []
  isRead : Bool := false

/-- The declarations and uses of a tree. -/
structure Scopes where
  /-- Declared variables with their blocks, the last one first. -/
  declared : List (Var × Expr) := []
  /-- Used variables in the order of first use. -/
  uses : List (Var × VarUses) := []

namespace Scopes

/-- Adds a use of a variable that is declared and not ignored. -/
def use (s : Scopes) (ignore : List Var) (path : List Expr) (v : Var) (isRead : Bool) : Scopes :=
  -- a variable declared outside the tree is left alone
  if (s.declared.lookup v).isNone || ignore.contains v then s
  else
    let add (u : VarUses) : VarUses := ⟨u.paths ++ [path], u.isRead || isRead⟩
    if (s.uses.lookup v).isNone then { s with uses := s.uses ++ [(v, add {})] }
    else { s with uses := s.uses.map fun (w, u) => if w = v then (w, add u) else (w, u) }

/-- What a node itself declares and uses. -/
def note (s : Scopes) (ignore : List Var) (path : List Expr) (e : Expr) : Scopes :=
  match e with
  | .node _ _ _ (.block vars _) => { s with declared := (vars.map (·, e)).reverse ++ s.declared }
  | .node _ _ _ (.var v) => s.use ignore path v true
  | .node _ _ _ (.assign op (.node _ _ _ (.var v)) _) => s.use ignore path v (op != .plain)
  | _ => s

/-- The path of the operands of a node that stands in `path`. -/
def inside (path : List Expr) (e : Expr) : List Expr :=
  if e.hasKind .block || e.hasKind .lambda then path ++ [e] else path

/-- Collects the declarations and uses under `e`, which stands in `path`. -/
def survey (ignore : List Var) (path : List Expr) (s : Scopes) (e : Expr) : Scopes :=
  e.children.attach.foldl (fun s c => survey ignore (inside path e) s c.1) (s.note ignore path e)
  termination_by sizeOf e
  decreasing_by exact Expr.sizeOf_lt_of_mem_children c.2

/-- The scopes that two paths share from the outside in. -/
def commonPath : List Expr → List Expr → List Expr
  | a :: as, b :: bs => if a.same b then a :: commonPath as bs else []
  | _, _ => []

/-- Whether the first statement of a block that touches `v` is a plain store to it which does not read
it, with no label before it. -/
def definesFirst (v : Var) : List Expr → Bool
  | [] => false
  | x :: rest =>
    if x.placesLabel then false
    else if x.countRefs v == 0 then definesFirst v rest
    else match x.plainStore? with
      | some (w, value) => w = v && value.countRefs v == 0
      | none => false

/-- The statements of a block. -/
def statements : Expr → List Expr
  | .node _ _ _ (.block _ xs) => xs
  | _ => []

/-- The block that a variable is declared in afterwards. -/
def home (decl : Expr) (v : Var) (u : VarUses) : Expr :=
  let common := match u.paths with
    | [] => []
    | p :: ps => ps.foldl commonPath p
  match common.reverse.dropWhile fun e => !e.hasKind .block with
  | [] => decl
  | block :: around =>
    let depth := around.length + 1
    -- inwards only, past no closure, and to where it is stored before it is read
    let movable := !block.same decl && around.any (·.same decl) &&
      !(u.paths.any fun p => (p.drop depth).any (·.hasKind .lambda)) &&
      definesFirst v (statements block)
    if movable then block else decl

/-- Where variables go: the blocks of those that are read, and those that are dropped. -/
structure Placement where
  homes : List (Var × Expr)
  dropped : List Var

/-- The placement that a survey leads to. -/
def placement (s : Scopes) (ignore : List Var) : Placement where
  homes := s.uses.filterMap fun (v, u) =>
    if u.isRead then some (v, home ((s.declared.lookup v).getD .absent) v u) else none
  dropped := (s.uses.filter fun p => !p.2.isRead).map (·.1) ++
    (s.declared.map (·.1)).filter fun v => (s.uses.lookup v).isNone && !ignore.contains v

namespace Placement

/-- Whether a declaration stays where it was. -/
def leaves (p : Placement) (v : Var) : Bool :=
  (p.homes.lookup v).isNone && !p.dropped.contains v

/-- The variables that go into a block. -/
def movedTo (p : Placement) (block : Expr) : List Var :=
  (p.homes.filter fun h => h.2.same block).map (·.1)

/-- Declares the variables of a tree where the placement says. -/
def apply (p : Placement) (e : Expr) : Build Expr := do
  let e' ← e.mapChildren fun c _ => apply p c
  match e'.data? with
  | some (.block vars xs) =>
    let vars' := vars.filter p.leaves ++ p.movedTo e
    if vars' = vars then return e' else Build.withData e' (.block vars' xs)
  | some (.assign .plain target value) =>
    match target.asVar? with
    -- the value may have an effect
    | some v => if p.dropped.contains v then value.coerce v.type else return e'
    | none => return e'
  | _ => return e'
  termination_by sizeOf e
  decreasing_by assumption

end Placement

end Scopes

/-- Moves every block variable to the innermost block around all its uses and drops those that are never
read. The ignored ones stay where they are. -/
def Expr.rescope (ignore : List Var) (e : Expr) : Build Expr :=
  ((Scopes.survey ignore [] {} e).placement ignore).apply e

end Resumable
