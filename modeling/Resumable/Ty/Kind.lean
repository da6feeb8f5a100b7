import Resumable.Ty.Basic

/-!
# `Ty.Kind`: declarations behind the names

Every declared name stands for an underlying type, has fields when that is a struct, and carries
methods. A type's kind is read off its underlying type.
-/

namespace Resumable

/-- The kinds of types, in the order the range tests below rely on. -/
inductive Kind where
  | bool
  | int | int8 | int16 | int32 | int64
  | uint | uint8 | uint16 | uint32 | uint64 | uintptr
  | float32 | float64 | complex64 | complex128
  | array | chan | func | interface | map | pointer | slice | string | struct
  deriving DecidableEq, Repr, Inhabited

namespace Kind

/-- The name of a kind. -/
def text : Kind → String
  | .bool => "bool" | .int => "int" | .int8 => "int8" | .int16 => "int16" | .int32 => "int32"
  | .int64 => "int64" | .uint => "uint" | .uint8 => "uint8" | .uint16 => "uint16"
  | .uint32 => "uint32" | .uint64 => "uint64" | .uintptr => "uintptr" | .float32 => "float32"
  | .float64 => "float64" | .complex64 => "complex64" | .complex128 => "complex128"
  | .array => "array" | .chan => "chan" | .func => "func" | .interface => "interface"
  | .map => "map" | .pointer => "ptr" | .slice => "slice" | .string => "string"
  | .struct => "struct"

/-- The width in bits and the signedness of an integer kind. -/
def integer? : Kind → Option (Nat × Bool)
  | .int => some (64, true) | .int8 => some (8, true) | .int16 => some (16, true)
  | .int32 => some (32, true) | .int64 => some (64, true)
  | .uint => some (64, false) | .uint8 => some (8, false) | .uint16 => some (16, false)
  | .uint32 => some (32, false) | .uint64 => some (64, false) | .uintptr => some (64, false)
  | _ => none

def isSigned (k : Kind) : Bool := match k.integer? with | some (_, s) => s | none => false
def isUnsigned (k : Kind) : Bool := match k.integer? with | some (_, s) => !s | none => false
def isFloat (k : Kind) : Bool := k == .float32 || k == .float64
def isComplex (k : Kind) : Bool := k == .complex64 || k == .complex128

/-- The kinds that arithmetic converts between. -/
def isNumber (k : Kind) : Bool := k.integer?.isSome || k.isFloat || k.isComplex

/-- The kinds that have a nil value and can be asked for it. -/
def hasNil : Kind → Bool
  | .chan | .func | .interface | .map | .pointer | .slice => true
  | _ => false

end Kind

/-- A struct field: its name, its type and whether code outside its package may touch it. -/
structure FieldDecl where
  name : String
  type : Ty
  exported : Bool

namespace Scalar

def kind : Scalar → Kind
  | .bool => .bool | .int => .int | .int8 => .int8 | .int16 => .int16 | .int32 => .int32
  | .int64 => .int64 | .uint => .uint | .uint8 => .uint8 | .uint16 => .uint16
  | .uint32 => .uint32 | .uint64 => .uint64 | .uintptr => .uintptr | .float32 => .float32
  | .float64 => .float64 | .complex64 => .complex64 | .complex128 => .complex128
  | .string => .string

end Scalar

namespace TypeName

/-- The composite or scalar a name stands for; structs and interfaces stay behind their name. -/
def underlying? : TypeName → Option Ty
  | .myInt => some .int
  | .myStr => some .string
  | .gen => some (.func [.func [.int] false [.bool]] false [])
  | .sliceErr => some (.slice .string)
  | .timerId => some .uint64
  | .code => some (.scalar .uint16)
  | .nodeId => some (.scalar .uint32)
  | .exprKind => some (.scalar .uint8)
  | _ => none

/-- The methods of an interface; `none` for other names. -/
def interface? : TypeName → Option (List (String × Ty))
  | .error => some [("Error", .func [] false [.string])]
  | .speaker => some [("Speak", .func [] false [.string])]
  | .ifaceJob => some [("GetAwaiter", .func [] false [.named .aw])]
  | .scheduler => some [("Post", .func [.thunk] false [])]
  | .clock => some [("NowMs", .func [] false [.uint64]), ("SleepUntilMs", .func [.uint64] false [])]
  | .context => some [("Err", .func [] false [.error]), ("Done", .func [] false [.chan .receive .unit])]
  | .typeIface => some [("Align", .func [] false [.int]), ("String", .func [] false [.string])]
  | _ => none

def hiddenField (name : String) (type : Ty) : FieldDecl := ⟨name, type, false⟩
def openField (name : String) (type : Ty) : FieldDecl := ⟨name, type, true⟩

/-- The fields of a struct. -/
def fields : TypeName → List FieldDecl
  | .inner => [openField "V" .int]
  | .point => [openField "X" .int, openField "Y" .int, openField "In" (.named .inner),
      openField "Next" (.pointer (.named .point)), openField "E" .any, hiddenField "hidden" .int]
  | .valErr | .invalidOperation | .argumentError | .runtimeError => [openField "Msg" .string]
  | .invariantError => [openField "State" .int]
  | .evalError => [openField "Code" (.named .code), openField "Node" (.named .nodeId),
      openField "Kind" (.named .exprKind), openField "Msg" .string]
  | .current => [openField "Value" .any]
  | .futureAwaiter => [hiddenField "f" .future, hiddenField "inline" .bool]
  | .configuredFuture => [hiddenField "f" .future, hiddenField "onContext" .bool]
  | .valueFuture => [hiddenField "t" (.valueTask .unit)]
  | .valueFutureAwaiter => [hiddenField "f" (.named .valueFuture)]
  | .errorText => [hiddenField "s" .string]
  | .joinedError => [hiddenField "errs" (.slice .error)]
  | .wrappedError => [hiddenField "msg" .string, hiddenField "err" .error]
  | .config => [openField "Deterministic" .bool, openField "Fuzz" .bool, openField "Seed" .uint64]
  | .virtualClock => [hiddenField "nowMs" .uint64]
  | _ => []

/-- Names of structs without fields, which all share one underlying type. -/
def isEmptyStruct : TypeName → Bool
  | .void | .job | .voidJob | .errJob | .inline | .twice | .broken | .badGet | .noDoneJob | .badOnJob
  | .badResJob | .resArgJob | .badConf | .confBroken | .aw | .voidAw | .errAw | .inlineAw | .twiceAw
  | .noDone | .badOn | .badRes | .resArg | .bag | .badBag | .ptrBag => true
  | _ => false

end TypeName

namespace Generic

/-- The function type behind a generic iterator; the other generics are structs. -/
def underlying? : Generic → List Ty → Option Ty
  | .seq, [t] => some (.func [.func [t] false [.bool]] false [])
  | .seq2, [t, u] => some (.func [.func [t, u] false [.bool]] false [])
  | _, _ => none

/-- The fields of a generic struct. -/
def fields : Generic → List Ty → List FieldDecl
  | .taskAwaiter, [t] => [⟨"t", .task t, false⟩, ⟨"inline", .bool, false⟩]
  | .configuredTask, [t] => [⟨"t", .task t, false⟩, ⟨"onContext", .bool, false⟩]
  | .valueTask, [t] => [⟨"src", .source t, false⟩, ⟨"version", .scalar .uint32, false⟩,
      ⟨"value", t, false⟩, ⟨"err", .error, false⟩]
  | .valueTaskAwaiter, [t] => [⟨"t", .valueTask t, false⟩]
  | .task, [t] | .valueTaskSource, [t] => [⟨"value", t, false⟩]
  | _, _ => []

end Generic

namespace Ty

/-- The type a declared name stands for, and any other type itself. -/
def underlying : Ty → Ty
  | .named n => (n.underlying?).getD (.named n)
  | .applied g args => (g.underlying? args).getD (.applied g args)
  | t => t

/-- Whether the type has a name of its own, so that it is distinct from every other type. -/
def isNamed : Ty → Bool
  | .scalar _ | .named _ | .applied _ _ | .interface _ _ => true
  | _ => false

def kind (t : Ty) : Kind :=
  match t.underlying with
  | .scalar s => s.kind
  | .named n => if n.interface?.isSome then .interface else .struct
  | .applied _ _ => .struct
  | .pointer _ => .pointer
  | .slice _ => .slice
  | .array _ _ => .array
  | .map _ _ => .map
  | .chan _ _ => .chan
  | .func _ _ _ => .func
  | .interface _ _ | .any => .interface
  | .unit => .struct

def isInterface (t : Ty) : Bool := t.kind == .interface

/-- The fields of a struct type. -/
def fields (t : Ty) : List FieldDecl :=
  match t with
  | .named n => n.fields
  | .applied g args => g.fields args
  | _ => []

/-- The declaration and position of a field. -/
def field? (t : Ty) (name : String) : Option (Nat × FieldDecl) :=
  (t.fields.zipIdx.find? (·.1.name == name)).map fun (f, i) => (i, f)

/-- The element type of a pointer, slice, array, map or channel. -/
def elem? (t : Ty) : Option Ty :=
  match t.underlying with
  | .pointer e | .slice e | .array _ e | .map _ e | .chan _ e => some e
  | _ => none

/-- The parameter types, the variadic flag and the result types of a func type. -/
def signature? (t : Ty) : Option (List Ty × Bool × List Ty) :=
  match t.underlying with
  | .func ins v outs => some (ins, v, outs)
  | _ => none

end Ty

end Resumable
