import Resumable.Ty.Basic

/-!
# `Native`: the functions trees may call

Native functions are named constants of func type. They log, create asynchronous objects, fail in
every way a function can fail, and exercise every shape of signature.
-/

namespace Resumable

/-- The native functions. -/
inductive Native where
  | log | logi | logb | logs | loge | int | bool | str | fail | failBool | delay | after
  | failAfter | yield | any | err | float | ready | readyBool | readyErr | never | done
  | failFuture | unbound | valueOf | valueFail | valuePending | futurePending | futureFail | raise
  | tryInt | tryBool | panic | panicErr | nilMap | index | divide | two | three | add | less
  | eqMod10 | eqLog | eqFold | cmpPanic | negate | notBool | both | repeat | addErr | sum | join
  | ident | nilAny | nilFn | apply | callThunk | newPoint | makePoint | nilPoint | sumSequence
  | sumRange | firstOfRange
  deriving DecidableEq, Repr, Inhabited

namespace Native

/-- The name a tree refers to the function by. -/
def text : Native → String
  | .log => "log" | .logi => "logi" | .logb => "logb" | .logs => "logs" | .loge => "loge"
  | .int => "Int" | .bool => "Bool" | .str => "Str" | .fail => "Fail" | .failBool => "FailBool"
  | .delay => "Delay" | .after => "After" | .failAfter => "FailAfter" | .yield => "Yield"
  | .any => "Any" | .err => "Err" | .float => "Float" | .ready => "Ready"
  | .readyBool => "ReadyBool" | .readyErr => "ReadyErr" | .never => "Never" | .done => "Done"
  | .failFuture => "FailF" | .unbound => "Unbound" | .valueOf => "VOf" | .valueFail => "VFail"
  | .valuePending => "VPend" | .futurePending => "VFPend" | .futureFail => "VFFail"
  | .raise => "Raise" | .tryInt => "TryInt" | .tryBool => "TryBool" | .panic => "Panic"
  | .panicErr => "PanicErr" | .nilMap => "NilMap" | .index => "Index" | .divide => "DivZ"
  | .two => "Two" | .three => "Three" | .add => "Add" | .less => "Less" | .eqMod10 => "EqMod10"
  | .eqLog => "EqLog" | .eqFold => "EqFold" | .cmpPanic => "CmpPanic" | .negate => "NegI"
  | .notBool => "NotB" | .both => "Both" | .repeat => "Repeat" | .addErr => "AddErr"
  | .sum => "Sum" | .join => "Join" | .ident => "Ident" | .nilAny => "NilAny" | .nilFn => "NilFn"
  | .apply => "Apply" | .callThunk => "Call0" | .newPoint => "NewPoint" | .makePoint => "MkPoint"
  | .nilPoint => "NilPoint" | .sumSequence => "SumSeq" | .sumRange => "SumIter"
  | .firstOfRange => "FirstIter"

def all : List Native :=
  [.log, .logi, .logb, .logs, .loge, .int, .bool, .str, .fail, .failBool, .delay, .after,
    .failAfter, .yield, .any, .err, .float, .ready, .readyBool, .readyErr, .never, .done,
    .failFuture, .unbound, .valueOf, .valueFail, .valuePending, .futurePending, .futureFail,
    .raise, .tryInt, .tryBool, .panic, .panicErr, .nilMap, .index, .divide, .two, .three, .add,
    .less, .eqMod10, .eqLog, .eqFold, .cmpPanic, .negate, .notBool, .both, .repeat, .addErr, .sum,
    .join, .ident, .nilAny, .nilFn, .apply, .callThunk, .newPoint, .makePoint, .nilPoint,
    .sumSequence, .sumRange, .firstOfRange]

/-- The function with a name. -/
def ofText? (s : String) : Option Native := all.find? (·.text == s)

/-- The func type. -/
def type : Native → Ty
  | .log => .func [.string] false []
  | .logi | .index | .negate => .func [.int] false [.int]
  | .logb | .notBool => .func [.bool] false [.bool]
  | .logs => .func [.string] false [.string]
  | .loge => .func [.error] false []
  | .int | .ready => .func [.int] false [.task .int]
  | .bool | .readyBool => .func [.bool] false [.task .bool]
  | .str => .func [.string] false [.task .string]
  | .fail | .readyErr => .func [.error] false [.task .int]
  | .failBool => .func [.error] false [.task .bool]
  | .delay => .func [.uint64] false [.future]
  | .after | .unbound => .func [.uint64, .int] false [.task .int]
  | .failAfter => .func [.uint64, .error] false [.task .int]
  | .yield | .done => .func [] false [.future]
  | .any => .func [.any] false [.task .any]
  | .err => .func [.error] false [.task .error]
  | .float => .func [.scalar .float64] false [.task (.scalar .float64)]
  | .never => .func [] false [.task .int]
  | .failFuture => .func [.error] false [.future]
  | .valueOf => .func [.int] false [.valueTask .int]
  | .valueFail => .func [.error] false [.valueTask .int]
  | .valuePending => .func [.uint64, .int] false [.valueTask .int]
  | .futurePending => .func [.uint64] false [.named .valueFuture]
  | .futureFail => .func [.error] false [.named .valueFuture]
  | .raise => .func [.error] false [.error]
  | .tryInt => .func [.int, .bool] false [.int, .error]
  | .tryBool => .func [.bool, .error] false [.bool, .error]
  | .panic => .func [.string] false [.int]
  | .panicErr => .func [.error] false [.int]
  | .nilMap => .func [] false [.int]
  | .divide | .add => .func [.int, .int] false [.int]
  | .two => .func [] false [.int, .int]
  | .three => .func [] false [.int, .int, .error]
  | .less | .eqMod10 | .eqLog | .cmpPanic => .func [.int, .int] false [.bool]
  | .eqFold => .func [.string, .string] false [.bool]
  | .both => .func [.bool, .bool] false [.bool]
  | .repeat => .func [.string, .int] false [.string]
  | .addErr => .func [.int, .int] false [.error]
  | .sum => .func [.slice .int] true [.int]
  | .join => .func [.string, .slice .string] true [.string]
  | .ident => .func [.any] false [.any]
  | .nilAny => .func [] false [.any]
  | .nilFn => .func [] false [.func [] false [.int]]
  | .apply => .func [.func [.int] false [.int], .int] false [.int]
  | .callThunk => .func [.thunk] false []
  | .newPoint => .func [.int, .int] false [.pointer (.named .point)]
  | .makePoint => .func [.int, .int] false [.named .point]
  | .nilPoint => .func [] false [.pointer (.named .point)]
  | .sumSequence => .func [.sequence] false [.int, .error]
  | .sumRange | .firstOfRange => .func [.applied .seq [.int]] false [.int]

end Native

end Resumable
