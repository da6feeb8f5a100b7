import Resumable.Expr.Build
import Resumable.Expr.Safe

/-!
# `Lower.Optimize`: removing what lowering leaves behind

Rules for blocks are applied until none fires: nested blocks are spliced into the outer one, statements
without effect and statements after a transfer are dropped, and stores whose variable is used only once
more are merged with the next store or give way to their value. Two more rules simplify stores of a
variable to itself and conditionals whose arms store the same constant.
-/

namespace Resumable.Expr

/-- The variables and statements of a block. -/
abbrev BlockParts := List Var × List Expr

/-! ### Rules for blocks -/

/-- Whether the inner block `x`, whose statements are `inner`, may be spliced into a block of type `t`. A
value that the inner block still has to convert keeps it whole. -/
def splices (t : Ty) (x : Expr) (inner : List Expr) (isLast : Bool) : Bool :=
  let keeps (u : Ty) : Bool := inner.getLast?.any fun y => y.type == u
  if isLast then t.isVoid || (x.type == t && keeps t)
  else x.type.isVoid || inner.isEmpty || keeps x.type

/-- Splices the first inner block into the outer one. -/
def flatten (t : Ty) : List Expr → Build (Option BlockParts)
  | [] => return none
  | x :: rest => do
    let later : Build (Option BlockParts) := do
      return (← flatten t rest).map fun (vs, xs) => (vs, x :: xs)
    match ← Build.dataOf x with
    -- its variables move to the outer block with its statements
    | .block vs inner => if splices t x inner rest.isEmpty then return some (vs, inner ++ rest) else later
    | _ => later

/-- Drops the first statement without effect whose value is not the block's. -/
def dropInert (t : Ty) : List Expr → Option (List Expr)
  | [] => none
  | x :: rest =>
    if rest.isEmpty && !t.isVoid then none
    else if x.isInert then some rest
    else (dropInert t rest).map (x :: ·)

/-- Unconditional transfers. -/
def transfers (x : Expr) : Bool := x.hasKind .goto || x.hasKind .throw

/-- Drops the statements after the first transfer, unless one of them places a label. -/
def truncate (t : Ty) : List Expr → Build (Option (List Expr))
  | [] => return none
  | x :: rest => do
    if rest.isEmpty then return none
    else if !x.transfers then return (← truncate t rest).map (x :: ·)
    -- a jump may enter the rest
    else if rest.any placesLabel then return none
    else if !t.isVoid && x.type != t then return some [← Build.withType x t]
    else return some [x]

/-- Merges the first `x := v; y := x` of `xs` into `y := v`, for a variable of the block that `all` its
statements use nowhere else; gives that variable too. -/
def collapseStores (vars : List Var) (all : List Expr) : List Expr → Build (Option (Var × List Expr))
  | a :: b :: rest => do
    let later : Build (Option (Var × List Expr)) := do
      return (← collapseStores vars all (b :: rest)).map fun (v, xs) => (v, a :: xs)
    match a.plainStore?, b.data? with
    | some (x, v), some (.assign .plain target value) =>
      if !vars.contains x then return ← later
      -- an empty value is a defect of the tree
      let _ ← Build.dataOf value
      if !value.isRef x || all.foldl (fun n y => n + y.countRefs x) 0 != 2 then later
      else
        -- the conversion of the first store is kept
        let merged ← Build.withData b (.assign .plain target (← v.coerce x.type))
        return some (x, merged :: rest)
    | _, _ => later
  | _ => return none

/-- Turns a last store into a variable of the block into its value, unless a closure of the block uses
the variable or the value jumps. -/
def dropTrailingStore (t : Ty) (vars : List Var) (xs : List Expr) : Build (Option (List Expr)) :=
  match xs.getLast?.bind plainStore? with
  | none => return none
  | some (x, v) => do
    if !vars.contains x || xs.any (·.captures x) || v.any (·.hasKind .goto) then return none
    let last ← if t.isVoid then pure v else v.coerce x.type
    return some (xs.dropLast ++ [last])

/-- Applies the first rule that fires. -/
def stepBlock (t : Ty) (b : BlockParts) : Build (Option BlockParts) := do
  let (vars, xs) := b
  if let some (vs, xs) ← flatten t xs then return some (vars ++ vs, xs)
  if let some xs := dropInert t xs then return some (vars, xs)
  if let some xs ← truncate t xs then return some (vars, xs)
  if let some (x, xs) ← collapseStores vars xs xs then return some (vars.filter (· != x), xs)
  return (← dropTrailingStore t vars xs).map (vars, ·)

/-- Applies the rules until none fires, at most `fuel` times. -/
def settleBlock (t : Ty) : Nat → BlockParts → Build BlockParts
  | 0, b => return b
  | fuel + 1, b => do
    match ← stepBlock t b with
    | some b => settleBlock t fuel b
    | none => return b

/-- A block after all its rules; one that holds a single statement of its type is that statement. Every
rule but one makes the block smaller, which bounds their number. -/
def optimizeBlock (e : Expr) (vars : List Var) (xs : List Expr) : Build Expr := do
  let (vars, xs) ← settleBlock e.type (2 * e.allNodes.length + 8) (vars, xs)
  match vars, xs with
  | [], [x] => if x.type == e.type then return x else Build.withData e (.block vars xs)
  | [], [] => if e.type.isVoid then Build.empty else Build.withData e (.block vars xs)
  | _, _ => Build.withData e (.block vars xs)

/-! ### Rules for other nodes -/

/-- Simplifies a store of a variable to itself. -/
def dropSelfStore (e : Expr) : Expr :=
  match e.plainStore? with
  | some (x, v) => if v.isRef x then v else e
  | none => e

/-- The only statement of nested blocks without variables. -/
def single? (e : Expr) : Option Expr :=
  match e with
  | .absent => none
  | .node _ _ _ (.block [] [x]) => single? x
  | .node _ _ _ (.block _ _) => none
  | e => some e

/-- A plain store of a constant. -/
def constantStore? (e : Expr) : Option (Var × Ty × Option Value) :=
  match e.plainStore? with
  | some (x, .node _ _ t (.constant c)) => some (x, t, c)
  | _ => none

/-- Replaces a conditional whose arms store the same constant by one of them, when its test has no
effect. Which constants are the same is for `alike` to say. -/
def mergeArms (alike : Option Value → Option Value → Bool) (e test ifTrue ifFalse : Expr) :
    Build Expr := do
  match single? ifTrue, single? ifFalse with
  | some a, some b =>
    match constantStore? a, constantStore? b with
    | some (x, t, c), some (y, u, d) =>
      if x != y || t != u || !alike c d then return e
      match test.isSafe? with
      | none => throw .missing
      | some safe =>
        -- the test is dropped, so it must neither raise nor store
        if !safe || test.any (·.hasKind .assign) || (!e.type.isVoid && a.type != e.type) then return e
        return a
    | _, _ => return e
  | _, _ => return e

/-- Removes what lowering leaves behind, from the leaves up. -/
def optimize (alike : Option Value → Option Value → Bool) (e : Expr) : Build Expr :=
  e.rewrite fun n =>
    match n.data? with
    | some (.block vars xs) => optimizeBlock n vars xs
    | some (.assign _ _ _) => return dropSelfStore n
    | some (.conditional test a b) => mergeArms alike n test a b
    | _ => return n

end Resumable.Expr
