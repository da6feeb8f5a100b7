import Resumable.Run.Native

/-!
# `Run.Method`: methods of values and pointers

`callMethod` resolves a method the way method sets do: a pointer offers the methods of its element, for
which the element is read first, and then its own.
-/

namespace Resumable.Run

/-- The parts of an awaiter or configured cell: the cell and a flag. -/
def cellAndFlag : List Value → Value × Bool
  | [cell, flag] => (cell, flag.asBool)
  | _ => (.null .any, false)

/-- The three methods of an awaiter over a cell. -/
def awaiterMethod (c : Calls) (t : Option Ty) (fs : List Value) (name : String) (args : List Value) :
    Run (List Value) := do
  let (cell, inline) := cellAndFlag fs
  let a ← addressOf cell
  match name with
  | "IsCompleted" => return [.ofBool (← completion a).done]
  | "OnCompleted" => onCompleted c a (.call (args.headD (.null .any))) inline; return []
  | _ =>
    match t with
    | some t =>
      let (v, e) ← outcome a t
      return [v, .ofError e]
    | none => return [.ofError (← outcome a .unit).2]

/-- The methods of a value handle, which its awaiter shares. -/
def handleMethod (c : Calls) (t : Ty) (handle : Value) (name : String) (args : List Value) :
    Run (List Value) := do
  match name with
  | "GetAwaiter" => return [.struct (.applied .valueTaskAwaiter [t]) [handle]]
  | "IsCompleted" => return [.ofBool (← handleDone handle)]
  | "OnCompleted" => handleOnCompleted c handle (.call (args.headD (.null .any))); return []
  | _ =>
    let (v, e) ← handleResult t handle
    return [v, .ofError e]

/-- The methods of the plain awaiters. -/
def plainAwaiterMethod (c : Calls) (n : TypeName) (name : String) (args : List Value) :
    Run (List Value) := do
  let k := args.headD (.null .any)
  match name, n with
  | "IsCompleted", .inlineAw | "IsCompleted", .twiceAw => return [.ofBool false]
  | "IsCompleted", .noDone => return [.ofInt 0]
  | "IsCompleted", _ => return [.ofBool true]
  | "OnCompleted", .inlineAw => c.call k []
  | "OnCompleted", .twiceAw => discard (c.call k []); c.call k []
  | "OnCompleted", _ => return []
  | _, .aw => return [.ofInt 1, .ofError none]
  | _, .voidAw => return []
  | _, .errAw => return [.ofError (some Sentinel.stop.error)]
  | _, .inlineAw => return [.ofInt 5, .ofError none]
  | _, .twiceAw => return [.ofInt 6]
  | _, .badRes => return [.ofInt 0, .ofInt 0]
  | _, _ => return [.ofInt 0]

/-- Calls a method of a value. -/
def valueMethod (c : Calls) (recv : Value) (name : String) (args : List Value) : Run (List Value) := do
  if name == "Error" then return [.text .string (← message recv)]
  match recv with
  | .struct (.named .point) (x :: y :: _) =>
    match name with
    | "Sum" => return [wordOf (x.asInt + y.asInt)]
    | "Fail" =>
      if x.asInt < 0 then return [.ofInt 0, .ofError (some Sentinel.stop.error)]
      else return [x, .ofError none]
    | _ => return [x, y]
  | .int (.named .myInt) n => return [.ofText ("int" ++ toString n)]
  | .int (.named .code) n =>
    let k : Code := ⟨n.toNat⟩
    match name with
    | "ID" => return [.ofText k.id]
    | "Title" => return [.ofText k.title]
    | _ => return [.ofText k.text]
  | .int (.named .exprKind) n =>
    return [.ofText (((ExprKind.all[n.toNat]?).map ExprKind.text).getD ExprKind.unknown)]
  | .struct (.named .futureAwaiter) fs => awaiterMethod c none fs name args
  | .struct (.applied .taskAwaiter [t]) fs => awaiterMethod c (some t) fs name args
  | .struct (.named .configuredFuture) fs =>
    let (cell, onContext) := cellAndFlag fs
    return [.struct (.named .futureAwaiter) [cell, .ofBool !onContext]]
  | .struct (.applied .configuredTask [t]) fs =>
    let (cell, onContext) := cellAndFlag fs
    return [.struct (.applied .taskAwaiter [t]) [cell, .ofBool !onContext]]
  | .struct (.applied .valueTask [t]) _ => handleMethod c t recv name args
  | .struct (.applied .valueTaskAwaiter [t]) [handle] => handleMethod c t handle name args
  | .struct (.named .valueFuture) [handle] =>
    match name with
    | "GetAwaiter" => return [.struct (.named .valueFutureAwaiter) [recv]]
    | "IsCompleted" => handleMethod c .unit handle name args
    | _ => return (← handleMethod c .unit handle name args).drop 1
  | .struct (.named .valueFutureAwaiter) [.struct _ [handle]] =>
    match name with
    | "GetResult" => return (← handleMethod c .unit handle name args).drop 1
    | _ => handleMethod c .unit handle name args
  | .struct (.named n) _ =>
    match name with
    | "GetAwaiter" | "ConfigureAwait" | "All" =>
      match (recv.typeOf.method? name).bind Ty.signature? with
      | some (_, _, [t]) => return [t.zero]
      | _ => return []
    | _ => plainAwaiterMethod c n name args
  | _ => return []

/-- The methods that completion cells behind a pointer share; `t` is the type of the value. -/
def cellMethod (c : Calls) (recv : Value) (t : Option Ty) (name : String) (args : List Value) :
    Run (List Value) := do
  let a := args.headD (.null .any)
  match name with
  | "GetAwaiter" =>
    let flag := Value.ofBool false
    match t with
    | some t => return [.struct (.applied .taskAwaiter [t]) [recv, flag]]
    | none => return [.struct (.named .futureAwaiter) [recv, flag]]
  | "ConfigureAwait" =>
    match t with
    | some t => return [.struct (.applied .configuredTask [t]) [recv, a]]
    | none => return [.struct (.named .configuredFuture) [recv, a]]
  | _ =>
    let cell ← addressOf recv
    match name with
    | "Bind" =>
      let b : Binding := match a.content with
        | none => .free
        | some (.null _) => .nowhere
        | some _ => .loop
      setObject cell (.completion { (← completion cell) with binding := b })
      return [recv]
    | "Complete" => return [.ofBool (← complete c cell (t.map fun _ => a))]
    | "Fail" => return [.ofBool (← fail c cell a.content)]
    | "IsCompleted" => return [.ofBool (← completion cell).done]
    | "Err" => return [.ofError (← outcome cell .unit).2]
    | "Wait" =>
      if !(← completion cell).done then panicNil
      let (v, e) ← outcome cell (t.getD .unit)
      match t with
      | some t => return [if e.isSome then t.zero else v, .ofError e]
      | none => return [.ofError e]
    | _ =>
      let (v, e) ← outcome cell (t.getD .unit)
      return [v, .ofError e]

/-- Calls a method that only pointers have. -/
def pointerMethod (c : Calls) (recv : Value) (name : String) (args : List Value) :
    Run (List Value) := do
  let a := args.headD (.null .any)
  if name == "Error" then
    let _ ← addressOf recv
    return [.text .string (← message recv)]
  match recv.typeOf with
  | .pointer (.named .point) =>
    let p ← addressOf recv
    match ← load p with
    | .struct t (x :: rest) =>
      let x := wordOf (x.asInt + a.asInt)
      store p (.struct t (x :: rest))
      return [x]
    | _ => return [a]
  | .pointer (.named .future) => cellMethod c recv none name args
  | .pointer (.applied .task [t]) => cellMethod c recv (some t) name args
  | .pointer (.applied .valueTaskSource [t]) =>
    let s ← addressOf recv
    match name with
    | "SetResult" => return [.ofBool (← complete c s (some a))]
    | "SetException" => return [.ofBool (← fail c s a.content)]
    | _ => return [← handleOf t s]
  | .pointer (.named .sequence) =>
    match name with
    | "All" => return [← allOf recv]
    | _ => return [.pointer (.pointer (.named .enumerator)) (← enumerate c recv)]
  | .pointer (.named .enumerator) =>
    let e ← addressOf recv
    match name with
    | "MoveNext" =>
      let (ok, err) ← moveNext c e
      return [.ofBool ok, .ofError err]
    | "Current" => return [.ofAny (← currentOf e)]
    | _ => return [.ofError (← close c e)]
  | t =>
    match (t.method? name).bind Ty.signature? with
    | some (_, _, outs) => return outs.map Ty.zero
    | none => return []

/-- The name of a declared type without its package. -/
def shortName (t : Ty) : String := ((t.text.splitOn ".").getLast?).getD t.text

/-- Calls a method by name. -/
def callMethod (c : Calls) (recv : Value) (name : String) (args : List Value) : Run (List Value) := do
  match recv.typeOf with
  | .pointer e =>
    if (e.method? name).isSome then
      match recv with
      | .pointer _ a => valueMethod c ((← load a).retype e) name args
      | _ => throw (.panic (.machine ("value method " ++ e.text ++ "." ++ name ++
          " called using nil *" ++ shortName e ++ " pointer")))
    else pointerMethod c recv name args
  | _ => valueMethod c recv name args

end Resumable.Run
