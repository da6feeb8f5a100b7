/-!
# `Ty`: the static types of trees and values

A type is a basic type, a declared name, a declared generic applied to arguments, an interface that a
client declares, or a composite of other types. Equality of types is equality of their structure;
declared names are equal only to themselves. Types have decidable equality (`beq_iff_eq`).
-/

namespace Resumable

/-- The built-in scalar types. -/
inductive Scalar where
  | bool
  | int | int8 | int16 | int32 | int64
  | uint | uint8 | uint16 | uint32 | uint64 | uintptr
  | float32 | float64
  | complex64 | complex128
  | string
  deriving DecidableEq, Repr, Inhabited

/-- Declared types without parameters. -/
inductive TypeName where
  -- predeclared
  | error | void
  -- plain data
  | inner | point | myInt | myStr | speaker | gen | valErr | sliceErr
  -- awaitables of every shape, sound and unsound
  | job | voidJob | errJob | inline | twice | ifaceJob | broken | badGet | noDoneJob | badOnJob
  | badResJob | resArgJob | badConf | confBroken
  -- their awaiters
  | aw | voidAw | errAw | inlineAw | twiceAw | noDone | badOn | badRes | resArg
  -- collections
  | bag | badBag | ptrBag
  -- the asynchronous objects
  | future | futureAwaiter | configuredFuture | valueFuture | valueFutureAwaiter
  | sequence | enumerator | current | loop | virtualClock | timer | timerId | config
  | scheduler | clock | invariantError
  -- errors
  | invalidOperation | argumentError | runtimeError | evalError | errorText | joinedError | wrappedError
  | diagError
  -- incidental
  | code | nodeId | exprKind | context | typeIface | typeRep
  deriving DecidableEq, Repr, Inhabited

/-- Declared types with parameters. -/
inductive Generic where
  | task | taskAwaiter | configuredTask
  | valueTaskSource | valueTask | valueTaskAwaiter
  | seq | seq2
  deriving DecidableEq, Repr, Inhabited

/-- The directions of a channel. -/
inductive Direction where
  | both | receive | send
  deriving DecidableEq, Repr, Inhabited

/-- Types. -/
inductive Ty where
  | scalar (s : Scalar)
  | named (n : TypeName)
  | applied (g : Generic) (args : List Ty)
  | pointer (elem : Ty)
  | slice (elem : Ty)
  | array (length : Nat) (elem : Ty)
  | map (key elem : Ty)
  | chan (dir : Direction) (elem : Ty)
  | func (ins : List Ty) (variadic : Bool) (outs : List Ty)
  /-- An interface that a client declares, with the methods it asks for in the order of their names. -/
  | interface (name : String) (methods : List (String × Ty))
  /-- The interface without methods. -/
  | any
  /-- The struct without fields. -/
  | unit
  deriving Inhabited

namespace Ty

mutual
/-- Structural equality test. -/
def beq : Ty → Ty → Bool
  | .scalar a, .scalar b => a == b
  | .named a, .named b => a == b
  | .applied a as, .applied b bs => a == b && beqList as bs
  | .pointer a, .pointer b => beq a b
  | .slice a, .slice b => beq a b
  | .array m a, .array n b => m == n && beq a b
  | .map k a, .map l b => beq k l && beq a b
  | .chan d a, .chan e b => d == e && beq a b
  | .func i v o, .func j w p => beqList i j && v == w && beqList o p
  | .interface m ms, .interface n ns => m == n && beqMethods ms ns
  | .any, .any => true
  | .unit, .unit => true
  | _, _ => false

/-- Structural equality test on lists of types. -/
def beqList : List Ty → List Ty → Bool
  | [], [] => true
  | a :: as, b :: bs => beq a b && beqList as bs
  | _, _ => false

/-- Structural equality test on lists of methods. -/
def beqMethods : List (String × Ty) → List (String × Ty) → Bool
  | [], [] => true
  | (m, a) :: ms, (n, b) :: ns => m == n && beq a b && beqMethods ms ns
  | _, _ => false
end

mutual
/-- The equality test decides equality. -/
theorem beq_iff_eq : (a b : Ty) → (beq a b = true ↔ a = b)
  | .scalar a, b => by cases b <;> simp [beq]
  | .named a, b => by cases b <;> simp [beq]
  | .applied a as, b => by
    cases b with
    | applied b bs => simp [beq, beqList_iff_eq as bs]
    | _ => simp [beq]
  | .pointer a, b => by
    cases b with
    | pointer b => simp [beq, beq_iff_eq a b]
    | _ => simp [beq]
  | .slice a, b => by
    cases b with
    | slice b => simp [beq, beq_iff_eq a b]
    | _ => simp [beq]
  | .array m a, b => by
    cases b with
    | array n b => simp [beq, beq_iff_eq a b]
    | _ => simp [beq]
  | .map k a, b => by
    cases b with
    | map l b => simp [beq, beq_iff_eq k l, beq_iff_eq a b]
    | _ => simp [beq]
  | .chan d a, b => by
    cases b with
    | chan e b => simp [beq, beq_iff_eq a b]
    | _ => simp [beq]
  | .func i v o, b => by
    cases b with
    | func j w p => simp [beq, beqList_iff_eq i j, beqList_iff_eq o p, and_assoc]
    | _ => simp [beq]
  | .interface m ms, b => by
    cases b with
    | interface n ns => simp [beq, beqMethods_iff_eq ms ns]
    | _ => simp [beq]
  | .any, b => by cases b <;> simp [beq]
  | .unit, b => by cases b <;> simp [beq]

/-- The equality test on lists decides equality. -/
theorem beqList_iff_eq : (as bs : List Ty) → (beqList as bs = true ↔ as = bs)
  | [], bs => by cases bs <;> simp [beqList]
  | a :: as, bs => by
    cases bs with
    | nil => simp [beqList]
    | cons b bs => simp [beqList, beq_iff_eq a b, beqList_iff_eq as bs]

/-- The equality test on lists of methods decides equality. -/
theorem beqMethods_iff_eq : (ms ns : List (String × Ty)) → (beqMethods ms ns = true ↔ ms = ns)
  | [], ns => by cases ns <;> simp [beqMethods]
  | (m, a) :: ms, ns => by
    cases ns with
    | nil => simp [beqMethods]
    | cons n ns => simp [beqMethods, beq_iff_eq a n.2, beqMethods_iff_eq ms ns, Prod.ext_iff]
end

instance : DecidableEq Ty := fun a b => decidable_of_iff _ (beq_iff_eq a b)

/-! ### Types the library itself mentions -/

/-- The type of nodes that produce no value. -/
def void : Ty := .named .void
/-- The interface every raised value satisfies. -/
def error : Ty := .named .error
def bool : Ty := .scalar .bool
def int : Ty := .scalar .int
def uint64 : Ty := .scalar .uint64
def string : Ty := .scalar .string
/-- The type of a continuation. -/
def thunk : Ty := .func [] false []
def future : Ty := .pointer (.named .future)
def sequence : Ty := .pointer (.named .sequence)
def current : Ty := .pointer (.named .current)
def task (t : Ty) : Ty := .pointer (.applied .task [t])
def valueTask (t : Ty) : Ty := .applied .valueTask [t]
def source (t : Ty) : Ty := .pointer (.applied .valueTaskSource [t])
/-- The type of one step of an enumeration. -/
def step : Ty := .func [bool, current] false [bool, error]

/-- Whether a node of this type produces no value. -/
def isVoid (t : Ty) : Bool := t == void

end Ty

end Resumable
