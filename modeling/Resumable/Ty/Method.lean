import Resumable.Ty.Kind

/-!
# `Ty.Method`: method sets

A declared type has methods on its values and further methods on pointers to it. `Ty.method?` resolves
a name on a type: values see the value methods, pointers see both sets, interfaces their own list.
-/

namespace Resumable

/-- A method's name and its type without the receiver. -/
abbrev MethodDecl := String × Ty

/-- `method name ins outs`. -/
def method (name : String) (ins outs : List Ty) : MethodDecl := (name, .func ins false outs)

/-- What every sound awaiter offers besides its result. -/
def awaiterMethods (outs : List Ty) : List MethodDecl :=
  [method "GetResult" [] outs, method "IsCompleted" [] [.bool], method "OnCompleted" [.thunk] []]

namespace TypeName

/-- Methods of values of the type. -/
def valueMethods : TypeName → List MethodDecl
  | .point => [method "Fail" [] [.int, .error], method "Pair" [] [.int, .int], method "Sum" [] [.int]]
  | .myInt => [method "Speak" [] [.string]]
  | .valErr | .sliceErr => [method "Error" [] [.string]]
  | .job => [method "ConfigureAwait" [.bool] [.named .voidJob], method "GetAwaiter" [] [.named .aw]]
  | .voidJob => [method "GetAwaiter" [] [.named .voidAw]]
  | .errJob => [method "GetAwaiter" [] [.named .errAw]]
  | .inline => [method "GetAwaiter" [] [.named .inlineAw]]
  | .twice => [method "GetAwaiter" [] [.named .twiceAw]]
  | .broken => [method "GetAwaiter" [] [.int]]
  | .badGet => [method "GetAwaiter" [.int] [.named .aw]]
  | .noDoneJob => [method "GetAwaiter" [] [.named .noDone]]
  | .badOnJob => [method "GetAwaiter" [] [.named .badOn]]
  | .badResJob => [method "GetAwaiter" [] [.named .badRes]]
  | .resArgJob => [method "GetAwaiter" [] [.named .resArg]]
  | .badConf => [method "ConfigureAwait" [.int] [.named .job], method "GetAwaiter" [] [.named .aw]]
  | .confBroken => [method "ConfigureAwait" [.bool] [.int], method "GetAwaiter" [] [.named .aw]]
  | .aw | .inlineAw => awaiterMethods [.int, .error]
  | .voidAw => awaiterMethods []
  | .errAw => awaiterMethods [.error]
  | .twiceAw => awaiterMethods [.int]
  | .noDone => [method "IsCompleted" [] [.int]]
  | .badOn => [method "IsCompleted" [] [.bool], method "OnCompleted" [.func [] false [.int]] []]
  | .badRes => awaiterMethods [.int, .int]
  | .resArg => [method "GetResult" [.int] [.int], method "IsCompleted" [] [.bool],
      method "OnCompleted" [.thunk] []]
  | .bag => [method "All" [] [.applied .seq [.string]]]
  | .badBag => [method "All" [] [.slice .int]]
  | .futureAwaiter | .valueFutureAwaiter => awaiterMethods [.error]
  | .configuredFuture => [method "GetAwaiter" [] [.named .futureAwaiter]]
  | .valueFuture => [method "Err" [] [.error], method "GetAwaiter" [] [.named .valueFutureAwaiter],
      method "IsCompleted" [] [.bool]]
  | .code => [method "ID" [] [.string], method "String" [] [.string], method "Title" [] [.string]]
  | .exprKind => [method "String" [] [.string]]
  | _ => []

/-- Further methods of pointers to the type. -/
def pointerMethods : TypeName → List MethodDecl
  | .point => [method "Inc" [.int] [.int]]
  | .ptrBag => [method "All" [] [.applied .seq2 [.bool, .error]]]
  | .future => [method "Bind" [.named .scheduler] [.future], method "Complete" [] [.bool],
      method "ConfigureAwait" [.bool] [.named .configuredFuture], method "Err" [] [.error],
      method "Fail" [.error] [.bool], method "GetAwaiter" [] [.named .futureAwaiter],
      method "IsCompleted" [] [.bool], method "Wait" [.named .context] [.error]]
  | .sequence => [method "All" [] [.applied .seq2 [.any, .error]],
      method "Enumerate" [] [.pointer (.named .enumerator)]]
  | .enumerator => [method "Close" [] [.error], method "Current" [] [.any],
      method "MoveNext" [] [.bool, .error]]
  | .loop => [method "Clock" [] [.named .clock], method "Delay" [.uint64] [.future],
      method "Pending" [] [.int], method "Post" [.thunk] [], method "Run" [] [],
      method "RunOnce" [] [.bool], method "RunUntil" [.func [] false [.bool]] [.bool],
      method "Steps" [] [.int], method "Yield" [] [.future]]
  | .virtualClock => [method "NowMs" [] [.uint64], method "SleepUntilMs" [.uint64] []]
  | .invariantError | .invalidOperation | .argumentError | .runtimeError | .evalError | .errorText
  | .joinedError | .wrappedError | .diagError => [method "Error" [] [.string]]
  | .typeRep => [method "Align" [] [.int], method "String" [] [.string]]
  | _ => []

end TypeName

namespace Generic

/-- Methods of values of the generic type. -/
def valueMethods : Generic → List Ty → List MethodDecl
  | .taskAwaiter, [t] => awaiterMethods [t, .error]
  | .configuredTask, [t] => [method "GetAwaiter" [] [.applied .taskAwaiter [t]]]
  | .valueTask, [t] => [method "GetAwaiter" [] [.applied .valueTaskAwaiter [t]],
      method "IsCompleted" [] [.bool], method "Result" [] [t, .error]]
  | .valueTaskAwaiter, [t] => awaiterMethods [t, .error]
  | _, _ => []

/-- Further methods of pointers to the generic type. -/
def pointerMethods : Generic → List Ty → List MethodDecl
  | .task, [t] => [method "Bind" [.named .scheduler] [.task t], method "Complete" [t] [.bool],
      method "ConfigureAwait" [.bool] [.applied .configuredTask [t]], method "Fail" [.error] [.bool],
      method "GetAwaiter" [] [.applied .taskAwaiter [t]], method "IsCompleted" [] [.bool],
      method "Result" [] [t, .error], method "Wait" [.named .context] [t, .error]]
  | .valueTaskSource, [t] => [method "SetException" [.error] [.bool], method "SetResult" [t] [.bool],
      method "Task" [] [.valueTask t]]
  | _, _ => []

end Generic

namespace Ty

/-- The methods that can be called on a value of the type. -/
def methods : Ty → List MethodDecl
  | .named n => n.interface?.getD n.valueMethods
  | .applied g args => g.valueMethods args
  | .pointer (.named n) =>
    if n.interface?.isSome || n.underlying?.any (fun t => t.kind == .pointer) then []
    else n.valueMethods ++ n.pointerMethods
  | .pointer (.applied g args) => g.valueMethods args ++ g.pointerMethods args
  | .interface _ ms => ms
  | _ => []

/-- The type of a method without its receiver. -/
def method? (t : Ty) (name : String) : Option Ty :=
  (t.methods.find? (·.1 == name)).map (·.2)

/-- The methods an interface asks for; none for other types. -/
def required : Ty → List MethodDecl
  | .named n => n.interface?.getD []
  | .interface _ ms => ms
  | _ => []

/-- Whether every method of the interface `i` is a method of `t` with the same type. -/
def implements (t i : Ty) : Bool :=
  i.isInterface && i.required.all fun (name, sig) => t.method? name == some sig

end Ty

end Resumable
