import Resumable.Run.Sequence
import Resumable.Text.Fold

/-!
# `Run.Native`: the functions behind the names

What each native function does to the world, and what the functions of the asynchronous library do.
Arguments have the parameter types, and the extra arguments of a variadic function come as one slice.
-/

namespace Resumable.Run

/-- A point with the given coordinates. -/
def pointOf (x y : Value) : Value :=
  match Ty.zero (.named .point) with
  | .struct t (_ :: _ :: rest) => .struct t (x :: y :: rest)
  | v => v

/-- The elements of a slice value. -/
def elemsOf : Value → List Value
  | .slice _ es => es
  | _ => []

/-- The error of a failed lookup. -/
def indexText (i : Int) (length : Nat) : String :=
  if i < 0 then "index out of range [" ++ toString i ++ "]"
  else "index out of range [" ++ toString i ++ "] with length " ++ toString length

def wordOf (n : Int) : Value := .ofInt (wrap 64 true n)

/-- Adds up integers. -/
def sumOf (vs : List Value) : Value := wordOf ((vs.map Value.asInt).foldl (· + ·) 0)

/-- Adds a line to the log and gives its subject back. -/
def noteWith (front : String) (s : Bytes) : Run Unit := note (Bytes.ofString front ++ s)

def boolText (b : Bool) : String := if b then "true" else "false"

/-- Ranges over a range function with a consumer of the given appetite, and gives the consumer. -/
def drawWith (c : Calls) (f : Value) (appetite : Appetite) : Run Consumer := do
  let t := (f.typeOf.signature?.bind fun (ins, _, _) => ins.head?).getD .any
  let (id, consumer) ← newConsumer t appetite
  discard (c.call f [consumer])
  consumerOf id

/-- A task of type `t` that completes in one millisecond. -/
def soon (t : Ty) (v : Value) : Run (List Value) := do
  return [.pointer (.task t) (← after (some t) 1 (some v))]

/-- A cell that is completed or failed already. -/
def settledCell (c : Calls) (t : Option Ty) (v : Option Value) : Run Nat := do
  let a ← newCell t .free
  discard (complete c a v)
  return a

def failedCell (c : Calls) (t : Option Ty) (e : Option Value) : Run Nat := do
  let a ← newCell t .free
  discard (fail c a e)
  return a

def unitValue : Value := .struct .unit []

def valueFutureOf (handle : Value) : Value := .struct (.named .valueFuture) [handle]

/-- Runs a native function. -/
def native (c : Calls) (n : Native) (args : List Value) : Run (List Value) := do
  let a := args.headD (.null .any)
  let b := args.getD 1 (.null .any)
  match n with
  | .log => note a.asBytes; return []
  | .logi => noteWith "i:" (Bytes.ofString (toString a.asInt)); return [a]
  | .logb => noteWith "b:" (Bytes.ofString (boolText a.asBool)); return [a]
  | .logs => noteWith "s:" a.asBytes; return [a]
  | .loge =>
    match a.content with
    | some e => noteWith "e:" (← message e)
    | none => noteWith "e:" (Bytes.ofString "<nil>")
    return []
  | .int => soon .int a
  | .bool => soon .bool a
  | .str => soon .string a
  | .any => soon .any a
  | .err => soon .error a
  | .float => soon (.scalar .float64) a
  | .fail => return [.pointer (.task .int) (← failAfter (some .int) 1 a.content)]
  | .failBool => return [.pointer (.task .bool) (← failAfter (some .bool) 1 a.content)]
  | .delay => return [.pointer .future (← after none a.asMs none)]
  | .after => return [.pointer (.task .int) (← after (some .int) a.asMs (some b))]
  | .failAfter => return [.pointer (.task .int) (← failAfter (some .int) a.asMs b.content)]
  | .yield => return [.pointer .future (← yieldTurn)]
  | .ready => return [.pointer (.task .int) (← settledCell c (some .int) (some a))]
  | .readyBool => return [.pointer (.task .bool) (← settledCell c (some .bool) (some a))]
  | .readyErr => return [.pointer (.task .int) (← failedCell c (some .int) a.content)]
  | .never => return [.pointer (.task .int) (← newCell (some .int) .free)]
  | .done => return [.pointer .future (← settledCell c none none)]
  | .failFuture => return [.pointer .future (← failedCell c none a.content)]
  | .unbound =>
    let t ← newCell (some .int) .free
    let f ← after none a.asMs none
    onCompleted c f (.complete t (some b)) true
    return [.pointer (.task .int) t]
  | .valueOf => return [settledHandle .int a none]
  | .valueFail => return [settledHandle .int (Ty.zero .int) a.content]
  | .valuePending =>
    let s ← rent .int
    let f ← after none a.asMs none
    onCompleted c f (.complete s (some b)) false
    return [← handleOf .int s]
  | .futurePending =>
    let s ← rent .unit
    let f ← after none a.asMs none
    onCompleted c f (.complete s (some unitValue)) false
    return [valueFutureOf (← handleOf .unit s)]
  | .futureFail => return [valueFutureOf (settledHandle .unit unitValue a.content)]
  | .raise => return [a]
  | .tryInt =>
    if b.asBool then return [.ofInt 0, .ofError (some Sentinel.stop.error)]
    else return [a, .ofError none]
  | .tryBool => return [a, b]
  | .panic => throw (.panic (.text a.asBytes))
  | .panicErr =>
    match a.content with
    | some e => throw (.panic (.error e))
    | none => throw (.panic (.machine
        "panic called with nil argument (use GODEBUG=panicnil=1 to disable)"))
  | .nilMap => throw (.panic (.machine "assignment to entry in nil map"))
  | .index =>
    match a.asInt, ([10, 20, 30] : List Int)[a.asInt.toNat]? with
    | .ofNat _, some v => return [.ofInt v]
    | i, _ => panicMachine (indexText i 3)
  | .divide =>
    if b.asInt == 0 then panicMachine "integer divide by zero"
    else return [wordOf (a.asInt.tdiv b.asInt)]
  | .two => return [.ofInt 1, .ofInt 2]
  | .three => return [.ofInt 1, .ofInt 2, .ofError none]
  | .add => return [wordOf (a.asInt + b.asInt)]
  | .less => return [.ofBool (a.asInt < b.asInt)]
  | .eqMod10 => return [.ofBool (a.asInt.tmod 10 == b.asInt.tmod 10)]
  | .eqLog =>
    noteWith "cmp:" (Bytes.ofString (toString a.asInt ++ "," ++ toString b.asInt))
    return [.ofBool (a.asInt == b.asInt)]
  | .eqFold => return [.ofBool (Text.equalFold a.asBytes b.asBytes)]
  | .cmpPanic => panicText "compare"
  | .negate => noteWith "neg:" (Bytes.ofString (toString a.asInt)); return [wordOf (-a.asInt)]
  | .notBool => return [.ofBool !a.asBool]
  | .both =>
    noteWith "both:" (Bytes.ofString (boolText a.asBool ++ "," ++ boolText b.asBool))
    return [.ofBool (a.asBool && b.asBool)]
  | .repeat =>
    if b.asInt < 0 then panicText "strings: negative Repeat count"
    else return [.text .string (List.replicate b.asInt.toNat a.asBytes).flatten]
  | .addErr => return [.ofError (some (← newError "adderr"))]
  | .sum => return [sumOf (elemsOf a)]
  | .join => return [.text .string (a.asBytes.intercalate ((elemsOf b).map Value.asBytes))]
  | .ident => return [a]
  | .nilAny => return [.ofAny none]
  | .nilFn => return [.null (.func [] false [.int])]
  | .apply => c.call a [b]
  | .callThunk => c.call a []
  | .newPoint => return [.pointer (.pointer (.named .point)) (← alloc (.value (pointOf a b)))]
  | .makePoint => return [pointOf a b]
  | .nilPoint => return [.null (.pointer (.named .point))]
  | .sumSequence =>
    let (vs, err) ← collect c a .int
    return [sumOf vs, .ofError err]
  | .sumRange => return [sumOf (← drawWith c a .all).elems]
  | .firstOfRange => return [((← drawWith c a .one).elems).headD (.ofInt (-1))]

/-- Runs a function of the asynchronous library. -/
def library (c : Calls) (f : Library) (args : List Value) : Run (List Value) := do
  let a := args.headD (.null .any)
  match f with
  | .newTask t => return [.pointer (.task t) (← newCell (some t) .free)]
  | .fromResult t => return [.pointer (.task t) (← settledCell c (some t) (some a))]
  | .fromError t => return [.pointer (.task t) (← failedCell c (some t) a.content)]
  | .newFuture => return [.pointer .future (← newCell none .free)]
  | .completed => return [.pointer .future (← settledCell c none none)]
  | .failedFuture => return [.pointer .future (← failedCell c none a.content)]
  | .rentValueTask t => return [.pointer (.source t) (← rent t)]
  | .valueTaskOf t => return [settledHandle t a none]
  | .valueTaskFailed t => return [settledHandle t t.zero a.content]
  | .rentValueFuture => return [.pointer (.source .unit) (← rent .unit)]
  | .completeValueFuture => return [.ofBool (← complete c (← addressOf a) (some unitValue))]
  | .asValueFuture => return [valueFutureOf a]
  | .completedValueFuture => return [valueFutureOf (settledHandle .unit unitValue none)]
  | .failedValueFuture => return [valueFutureOf (settledHandle .unit unitValue a.content)]
  | .newInvariantError =>
    let e ← alloc (.value (.struct (.named .invariantError) [a]))
    return [.pointer (.pointer (.named .invariantError)) e]
  | .newSequence => return [.pointer .sequence (← alloc (.sequence a))]
  | .adapt =>
    match (args.getD 1 (.null .any)).content with
    | some (.type shape) => return [.ofAny (some (← adapt a shape))]
    | _ => panicNil

end Resumable.Run
