import Resumable.Run.Eval

/-!
# `Run.Settle`: waiting for what a lambda returns

A handle that can be awaited is driven on the loop until it is done and gives its result. A sequence or
range function is drained into a list. Any other value is its own result. A result comes with an error,
and both may be there.
-/

namespace Resumable.Run

/-- A value and an error. -/
abbrev Settled := Option Value × Option Value

/-- Drives a handle until it is done; a canceled wait and a loop without work end it early. -/
def awaitHandle (c : Calls) (handle : Value) (info : AwaitInfo) (canceled : Bool) : Run Settled := do
  let awaiter := (← callMethod c handle "GetAwaiter" []).headD (.null info.awaiter)
  let done : Run Bool := do
    if canceled then return true
    return ((← callMethod c awaiter "IsCompleted" []).headD (.ofBool false)).asBool
  let settled ← runUntil c done
  if canceled then return (none, some Sentinel.canceled.error)
  if !settled then return (none, some Sentinel.stalled.error)
  let out ← callMethod c awaiter "GetResult" []
  let err := if info.fallible then out.getLast?.bind Value.content else none
  let value := if info.result.isSome then out.head?.bind Value.content else none
  return (value, err)

/-- The error that a panic with an error value stands for. -/
def panicError? (p : Panic) : Run (Option Value) :=
  match p with
  | .error e => return some e
  | .machine text => return some (← newError text)
  | .text _ | .uncaught _ => return none

/-- Draws elements from a range function until an error or too many of them. A panic with an error is
joined to the error so far. -/
def drain (c : Calls) (f : Value) (yield : Ty) : Run Settled := do
  let (id, consumer) ← newConsumer yield (.untilError maxElements)
  let r ← attempt (c.call f [consumer])
  let k ← consumerOf id
  let failed ← match r with
    | .ok _ => pure k.failed
    | .error (.panic p) =>
      match ← panicError? p with
      | some e => some <$> joinErrors (k.failed.toList ++ [e])
      | none => throw (.panic p)
    | .error s => throw s
  let t : Ty := .slice .any
  let out := if k.count == 0 then .null t
    else .slice t (k.elems.map fun v => Value.ofAny v.content)
  return (some out, failed)

/-- The type of the function that a range function gives its elements to. -/
def yieldType (t : Ty) : Ty :=
  match t.signature? with
  | some ([y], _, _) => y
  | _ => .thunk

/-- Waits for a handle. -/
def settle (c : Calls) (handle : Option Value) (canceled : Bool) : Run Settled := do
  match handle with
  | none => return (none, none)
  | some h =>
    if h.typeOf == .sequence then return ← drain c (← allOf h) (yieldType pairRange)
    match h.typeOf.awaitable? with
    | some info => awaitHandle c h info canceled
    | none =>
      match h.typeOf.iterable? with
      | some info =>
        if info.via == .seq || info.via == .seqErr then
          if h.isNil then panicText "reflect.Value.Call: call of nil function"
          drain c h (yieldType h.typeOf)
        else return (handle, none)
      | none => return (handle, none)

end Resumable.Run
