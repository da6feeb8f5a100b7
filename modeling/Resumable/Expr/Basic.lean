import Resumable.Expr.Op
import Resumable.Value

/-!
# `Expr`: expression trees

A node has an id, an identity, a static type and a payload. Ids number nodes in construction order and
survive copying; the identity (`ref`) is renewed by every copy, so two occurrences of one shared node
have one identity while a copy of a node has another. An operand slot may be empty (`absent`); which
slots may be is decided by the operations that build and consume nodes.

**Contents**
* `Data`, `Handler`, `Expr`: payloads and trees.
* `Expr.children`: the direct operands.
* `Expr.sizeOf_lt_of_mem_children`: operands are smaller, which every traversal's termination uses.
* `Expr.nodes`, `Expr.any`: pre-order traversals.
-/

namespace Resumable

/-- A storage slot, identified by its number. -/
structure Var where
  id : Nat
  name : String
  type : Ty
  deriving DecidableEq, Inhabited

/-- A jump target, identified by its number. A label whose type is not void carries a value. -/
structure Label where
  id : Nat
  name : String
  type : Ty
  deriving DecidableEq, Inhabited

def Var.text (v : Var) : String := v.name ++ "$" ++ toString v.id

def Label.text (l : Label) : String := l.name ++ "#" ++ toString l.id

/-- The written form of an optional variable. -/
def Var.textOf (v : Option Var) : String := (v.map Var.text).getD "<nil>"

/-- The written form of an optional label. -/
def Label.textOf (l : Option Label) : String := (l.map Label.text).getD "<nil>"

/-- One handler of a protected body: the errors it accepts, the variable it binds, a filter and a
body. -/
structure Handler (α : Type) where
  test : Ty
  var : Option Var
  filter : α
  body : α

/-- The payload of a node whose operands are of type `α`. -/
inductive Data (α : Type) where
  /-- A literal; `none` is the nil of the node's type. -/
  | constant (value : Option Value)
  /-- The zero value of the node's type. -/
  | default
  | var (v : Var)
  /-- Scoped variables and a sequence whose last value is the block's. -/
  | block (vars : List Var) (body : List α)
  /-- A store into a variable or field; increments have no value. -/
  | assign (op : AssignOp) (target value : α)
  /-- A binary operation, possibly implemented by a function. -/
  | binary (op : BinaryOp) (left right : α) (method : Option Native)
  /-- A unary operation or a conversion to the node's type. -/
  | unary (op : UnaryOp) (operand : α) (method : Option Native)
  /-- Raises an error; without one, raises the caught error again. -/
  | throw (value : α)
  | typeIs (operand : α) (test : Ty)
  | conditional (test ifTrue ifFalse : α)
  /-- Dispatch over cases, each a list of test values and a body. -/
  | switch (value : α) (cases : List (List α × α)) (default : α) (comparer : Option Native)
  | loop (body : α) (brk cont : Option Label)
  /-- A body with handlers, a block that runs on every exit and one that runs on failure. -/
  | protect (body : α) (handlers : List (Handler α)) (fin fault : α)
  | goto (kind : GotoKind) (target : Label) (value : α)
  /-- The place of a label, with its value when reached in sequence. -/
  | label (target : Label) (default : α)
  | call (fn : α) (args : List α)
  | methodCall (receiver : α) (method : String) (args : List α)
  | field (object : α) (name : String)
  | lambda (name : String) (params : List Var) (body : α) (kind : LambdaKind) (fallible : Bool)
  /-- Suspension on an awaitable, which is first configured when a flag is given. -/
  | await (operand : α) (configured : Option Bool)
  | yield (value : α)

namespace Data

def kind : Data α → ExprKind
  | .constant _ => .constant | .default => .default | .var _ => .variable
  | .block _ _ => .block | .assign _ _ _ => .assign | .binary _ _ _ _ => .binary
  | .unary _ _ _ => .unary | .throw _ => .throw | .typeIs _ _ => .typeIs
  | .conditional _ _ _ => .conditional | .switch _ _ _ _ => .switch | .loop _ _ _ => .loop
  | .protect _ _ _ _ => .try | .goto _ _ _ => .goto | .label _ _ => .label | .call _ _ => .call
  | .methodCall _ _ _ => .methodCall | .field _ _ => .field | .lambda _ _ _ _ _ => .lambda
  | .await _ _ => .await | .yield _ => .yield

end Data

/-- Expression trees; `absent` is an empty operand slot. -/
inductive Expr where
  | absent
  | node (id ref : Nat) (type : Ty) (data : Data Expr)

instance : Inhabited Expr := ⟨.absent⟩

namespace Expr

def isAbsent : Expr → Bool
  | .absent => true
  | .node _ _ _ _ => false

/-- The id of a node; 0 for an empty slot. -/
def id : Expr → Nat
  | .absent => 0
  | .node i _ _ _ => i

/-- The payload of a node. -/
def data? : Expr → Option (Data Expr)
  | .absent => none
  | .node _ _ _ d => some d

/-- The static type of a node; void for an empty slot. -/
def type : Expr → Ty
  | .absent => .void
  | .node _ _ t _ => t

/-- The kind of a node; an empty slot has none. -/
def kind? (e : Expr) : Option ExprKind := e.data?.map Data.kind

def hasKind (e : Expr) (k : ExprKind) : Bool := e.kind? == some k

/-- Whether two slots hold the very same node, or are both empty. -/
def same : Expr → Expr → Bool
  | .absent, .absent => true
  | .node _ r _ _, .node _ s _ _ => r == s
  | _, _ => false

/-- The variable a node reads. -/
def asVar? : Expr → Option Var
  | .node _ _ _ (.var v) => some v
  | _ => none

/-! ### Operands -/

/-- The given operands without the empty slots. -/
def present (xs : List Expr) : List Expr := xs.filter fun x => !x.isAbsent

/-- The operand slots of a payload in evaluation order. A variable that is assigned to is not an
operand; a lambda's body is one. -/
def operands : Data Expr → List Expr
  | .constant _ | .default | .var _ => []
  | .block _ xs => xs
  | .assign _ t v => if t.hasKind .field then [t, v] else [v]
  | .binary _ l r _ => [l, r]
  | .unary _ x _ => [x]
  | .throw x => [x]
  | .typeIs x _ => [x]
  | .conditional a b c => [a, b, c]
  | .switch v cs d _ => v :: (cs.flatMap fun c => c.1 ++ [c.2]) ++ [d]
  | .loop b _ _ => [b]
  | .protect b hs f g => b :: (hs.flatMap fun h => [h.filter, h.body]) ++ [f, g]
  | .goto _ _ v => [v]
  | .label _ d => [d]
  | .call f args => f :: args
  | .methodCall r _ args => r :: args
  | .field o _ => [o]
  | .lambda _ _ b _ _ => [b]
  | .await x _ => [x]
  | .yield v => [v]

/-- The direct operands in evaluation order. -/
def children : Expr → List Expr
  | .absent => []
  | .node _ _ _ d => present (operands d)

theorem sizeOf_lt_of_mem_arms {arm : List Expr × Expr} {arms : List (List Expr × Expr)} (h : arm ∈ arms) :
    sizeOf arm.1 < sizeOf arms ∧ sizeOf arm.2 < sizeOf arms := by
  have hlt := List.sizeOf_lt_of_mem h
  have heq : sizeOf arm = 1 + sizeOf arm.1 + sizeOf arm.2 := by cases arm; simp
  omega

theorem sizeOf_lt_of_mem_handlers {h : Handler Expr} {hs : List (Handler Expr)} (hh : h ∈ hs) :
    sizeOf h.filter < sizeOf hs ∧ sizeOf h.body < sizeOf hs := by
  have hlt := List.sizeOf_lt_of_mem hh
  have heq : sizeOf h = 1 + sizeOf h.test + sizeOf h.var + sizeOf h.filter + sizeOf h.body := by cases h; simp
  omega

/-- An operand is smaller than the payload that holds it. -/
theorem sizeOf_lt_of_mem_operands {c : Expr} {d : Data Expr} (h : c ∈ operands d) :
    sizeOf c < sizeOf d := by
  cases d with
  | constant | default | var => simp [operands] at h
  | block vs xs =>
    have := List.sizeOf_lt_of_mem h
    simp only [operands, Data.block.sizeOf_spec] at this ⊢
    omega
  | assign o t v =>
    simp only [operands] at h
    simp only [Data.assign.sizeOf_spec]
    split at h
    · simp at h
      rcases h with h | h <;> subst h <;> omega
    · simp at h
      subst h
      omega
  | switch v cs d m =>
    simp only [operands, List.cons_append, List.mem_cons, List.mem_append, List.mem_flatMap,
      List.not_mem_nil, or_false] at h
    simp only [Data.switch.sizeOf_spec]
    rcases h with h | ⟨p, hp, h⟩ | h
    · subst h; omega
    · have hlt := sizeOf_lt_of_mem_arms hp
      rcases h with h | h
      · have := List.sizeOf_lt_of_mem h
        omega
      · subst h; omega
    · subst h; omega
  | protect b hs f g =>
    simp only [operands, List.cons_append, List.mem_cons, List.mem_append, List.mem_flatMap,
      List.not_mem_nil, or_false] at h
    simp only [Data.protect.sizeOf_spec]
    rcases h with h | ⟨p, hp, h⟩ | h
    · subst h; omega
    · have hlt := sizeOf_lt_of_mem_handlers hp
      rcases h with h | h <;> subst h <;> omega
    · rcases h with h | h <;> subst h <;> omega
  | call f args =>
    simp only [operands, List.mem_cons] at h
    simp only [Data.call.sizeOf_spec]
    rcases h with h | h
    · subst h; omega
    · have := List.sizeOf_lt_of_mem h
      omega
  | methodCall f m args =>
    simp only [operands, List.mem_cons] at h
    simp only [Data.methodCall.sizeOf_spec]
    rcases h with h | h
    · subst h; omega
    · have := List.sizeOf_lt_of_mem h
      omega
  | binary o l r m =>
    simp only [operands, List.mem_cons, List.not_mem_nil, or_false] at h
    simp only [Data.binary.sizeOf_spec]
    rcases h with h | h <;> subst h <;> omega
  | conditional a b c =>
    simp only [operands, List.mem_cons, List.not_mem_nil, or_false] at h
    simp only [Data.conditional.sizeOf_spec]
    rcases h with h | h | h <;> subst h <;> omega
  | _ =>
    simp only [operands, List.mem_cons, List.not_mem_nil, or_false] at h
    subst h
    simp
    try omega

/-- An operand of a node is smaller than the node. -/
theorem sizeOf_lt_of_mem_children {c e : Expr} (h : c ∈ e.children) : sizeOf c < sizeOf e := by
  cases e with
  | absent => simp [children] at h
  | node i r t d =>
    simp only [children, present, List.mem_filter] at h
    have := sizeOf_lt_of_mem_operands h.1
    simp only [Expr.node.sizeOf_spec]
    omega

/-! ### Traversals -/

/-- The nodes under `e` in pre-order; the operands of a node are visited when `descend` says so. -/
def nodes (descend : Expr → Bool) (e : Expr) : List Expr :=
  if e.isAbsent then []
  else e :: (if descend e then e.children.attach.flatMap fun c => nodes descend c.1 else [])
  termination_by sizeOf e
  decreasing_by exact sizeOf_lt_of_mem_children c.2

/-- Whether `p` holds of some node under `e`, not looking into lambdas. -/
def anyInside (p : Expr → Bool) (e : Expr) : Bool :=
  p e || (!e.hasKind .lambda && e.children.attach.any fun c => anyInside p c.1)
  termination_by sizeOf e
  decreasing_by exact sizeOf_lt_of_mem_children c.2

/-- Whether `p` holds of `e` or of some node under it, not looking into lambdas below `e`. -/
def any (p : Expr → Bool) (e : Expr) : Bool :=
  !e.isAbsent && (p e || e.children.any (anyInside p))

/-- Whether the tree suspends outside nested lambdas. -/
def isAsync (e : Expr) : Bool := e.any fun n => n.hasKind .await || n.hasKind .yield

end Expr

end Resumable
