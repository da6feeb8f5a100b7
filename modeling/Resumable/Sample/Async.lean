import Resumable.Sample.Basic

/-!
# `Sample.Async`: async samples

Samples of every construct that an await may stand in.
-/

namespace Resumable.Sample

open Build

/-- A sample that returns a number. -/
def ofInt (name title : String) (want : Int) (body : Build Expr) : Sample :=
  async name title (.task .int) (some (.ofInt want)) body

/-- A sample that returns a truth value. -/
def ofBool (name title : String) (want : Bool) (body : Build Expr) : Sample :=
  async name title (.task .bool) (some (.ofBool want)) body

/-- A sample that fails. -/
def failing (name title : String) (body : Build Expr) : Sample :=
  { async name title (.task .int) none body with error := .is Sentinel.stop.error }

/-- Awaits a task that fails. -/
def awaitStop : Build Expr := do awaitCall .fail (← stop)

def awaitAdd : Sample := ofInt "await-add" "1 + await 2" 3 do
  binary .add (← constInt 1) (← awaitInt 2)

def goto : Sample :=
  withInput "goto" "goto over an await into a label" (.task .bool) .bool (.ofBool true) 3 fun input => do
    let temp ← newVar "temp" .int
    let target ← newLabel "target" .void
    block [temp] [
      ← ifThen (← await (← ref input) none)
        (← stmt [← set temp (constInt 1), ← jump .plain target .absent]),
      ← set temp (awaitInt (-1)),
      ← mark target .absent,
      ← binary .add (← ref temp) (← awaitInt 2)]

def tryCatch : Sample := ofInt "try-catch" "catch an awaited failure" (-1) do
  guarded (← awaitStop) [handler (← constInt (-1))]

def tryFinally : Sample :=
  withInput "try-finally" "await in both try and finally" (.task .int) .int (.ofInt 2) 3 fun input => do
    let result ← newVar "result" .int
    block [result] [
      ← ensured (← stmt [← set result (do await (← ref input) none)])
        (← stmt [← addTo result (awaitInt 1)]),
      ← ref result]

def tryFinallyThrow : Sample :=
  failing "try-finally-throw" "finally runs before the failure surfaces" do
    let result ← newVar "result" .int
    block [result] [
      ← ensured (← stmt [← set result (awaitInt 1), ← raise (← stop)])
        (← stmt [← addTo result (awaitInt 1)]),
      ← ref result]

def tryCatchFinally : Sample :=
  withInput "try-catch-finally" "await in try, catch and finally" (.task .int) .int (.ofInt 2) 3
    fun input => do
      let result ← newVar "result" .int
      let body ← stmt [← set result (do await (← ref input) none), ← raise (← stop)]
      let fin ← stmt [← addTo result (awaitInt 1)]
      let caught := handler (← stmt [← addTo result (awaitInt 0)])
      block [result] [← protect body [caught] fin .absent, ← ref result]

/-- Two protected bodies in each other, the inner one with a handler for a type of errors; `operand` makes
what is awaited inside. -/
def nested (name title : String) (caught : TypeName) (operand : Work (Build Expr)) (want : Int) : Sample :=
  let base := withInput name title (.task .int) .int (.ofInt 2) want fun _ => empty
  { base with
    tree := do
      let operand ← operand
      Work.build do
        let input ← newVar "input" (.task .int)
        let result ← newVar "result" .int
        let ex ← newVar "ex" (.pointer (.named caught))
        let body ← stmt [← set result operand]
        let fin ← stmt [← addTo result (constInt 1)]
        let again ← stmt [← set result (do await (← ref input) none)]
        let inner ← protect body [⟨.pointer (.named caught), some ex, .absent, again⟩] fin .absent
        let fin ← stmt [← addTo result (constInt 10)]
        let other ← stmt [← addTo result (constInt 100)]
        let outer ← protect inner [handler other] fin .absent
        asyncLambda name (.task .int) [input] (← block [result] [outer, ← ref result]) }

/-- Awaits a task that fails with an error of a type. -/
def awaitFailure (n : TypeName) (text : String) : Work (Build Expr) := do
  let e ← Work.run (Run.newText n (Bytes.ofString text))
  return do awaitCall .fail (← constOf (some e) .error)

/-- Awaits a task that is completed already. -/
def awaitReady : Work (Build Expr) := do
  let a ← Work.run (Run.settledCell Work.calls (some .int) (some (.ofInt 0)))
  return do await (← const (some (.pointer (.task .int) a))) none

def nestedCaught : Sample :=
  nested "nested-caught" "inner handler takes the error" .invalidOperation
    (awaitFailure .invalidOperation "nested") 13

def nestedOuter : Sample :=
  nested "nested-outer" "error passes the inner handler" .argumentError
    (awaitFailure .invalidOperation "nested") 111

def nestedSync : Sample :=
  nested "nested-sync" "completed await inside nested finally blocks" .invalidOperation awaitReady 11

def loop : Sample :=
  withInput "loop" "break and continue around awaits" (.task .int) .int (.ofInt 2) 3 fun input => do
    let result ← newVar "result" .int
    let brk ← newLabel "brk" .int
    let cont ← newLabel "cont" .void
    let body ← stmt [
      ← ifThen (← binary .lessEqual (← await (← ref input) none) (← ref result))
        (← jump .brk brk (← ref result)),
      ← addTo result (awaitInt 1),
      ← ifThen (← binary .lessEqual (← constInt 0) (← ref result)) (← jump .cont cont .absent),
      ← raise (← stop)]
    let turns ← Build.loop body (some brk) (some cont)
    binary .add (← block [result] [turns]) (← awaitInt 1)

def switchDefault : Sample :=
  withInput "switch-default" "awaited switch value falls to an awaited default" (.task .int) .int
    (.ofInt 0) (-1) fun input => do
      let value ← await (← ref input) none
      let other ← awaitInt (-1)
      let first ← throwAs (← stop) .int
      let one ← constInt 1
      let second ← awaitInt 2
      let two ← constInt 2
      switch .int value other none [([one], first), ([two], second)]

def switchAsyncTest : Sample := ofInt "switch-async-test" "case tests that await" 2 do
  let value ← constInt 5
  let other ← constInt (-1)
  let one ← constInt 1
  let first ← awaitInt 0
  let two ← constInt 2
  let second ← awaitInt 5
  switch .int value other none [([first], one), ([second], two)]

def orElse : Sample := ofBool "or-else" "short circuit skips a failing await" true do
  binary .orElse (← constBool true) (← awaitCall .failBool (← stop))

def andAlso : Sample := ofBool "and-also" "short circuit skips a failing await" false do
  binary .andAlso (← constBool false) (← awaitCall .failBool (← stop))

def orElseAwait : Sample := ofBool "or-else-await" "both operands awaited" true do
  binary .orElse (← awaitBool false) (← awaitBool true)

def conditional : Sample :=
  async "conditional" "awaited test picks a branch" (.task .string) (some (.ofText "success")) do
    condition (← awaitBool true) (← const (some (.ofText "success")))
      (← awaitCall .str (← const (some (.ofText "failure"))))

def inLambda : Sample := ofInt "in-lambda" "async lambda nested in an async lambda" 4 do
  let f ← newVar "f" (.func [] false [.task .int])
  let inner ← asyncLambda "inner" (.task .int) [] (← binary .add (← awaitInt 1) (← constInt 1))
  let once : Build Expr := do await (← call (← ref f) []) none
  block [f] [← assign (← ref f) inner, ← binary .add (← once) (← once)]

def future : Sample := async "future" "void body completes a future" .future none do
  stmt [← awaitCall .delay (← const (some (.int .uint64 5)))]

def valueTask : Sample :=
  async "value-task" "value task handle" (.valueTask .int) (some (.ofInt 6)) do
    binary .mul (← awaitInt 3) (← constInt 2)

def configureAwait : Sample := ofInt "configure-await" "resume inline after ConfigureAwait(false)" 5 do
  binary .add (← await (← callNative .int [← constInt 4]) (some false)) (← constInt 1)

def fastPath : Sample := ofInt "fast-path" "body without awaits" 7 (constInt 7)

def fastPathThrow : Sample := failing "fast-path-throw" "body without awaits that throws" do
  throwAs (← stop) .int

def filter : Sample := ofInt "filter" "filter declines the first handler" 2 do
  let ex ← newVar "ex" .error
  let body ← awaitStop
  let test ← binary .notEqual (← ref ex) (← stop)
  guarded body [⟨.error, some ex, test, ← constInt 1⟩, handler (← constInt 2)]

def rethrowAfterAwait : Sample :=
  ofInt "rethrow-after-await" "rethrow keeps the error across a suspension" (-5) do
    let ex ← newVar "ex" .error
    let body ← awaitStop
    let again ← typedBlock .int [] [← awaitInt 0, ← throwAs .absent .int]
    let inner ← guarded body [handler again]
    let test ← binary .equal (← ref ex) (← stop)
    let outer ← condition test (← constInt (-5)) (← constInt 0)
    guarded inner [⟨.error, some ex, .absent, outer⟩]

def uncaughtType : Sample :=
  { async "uncaught-type" "unhandled error faults the task" (.task .int) none empty with
    tree := do
      let operand ← awaitFailure .argumentError "x"
      Work.build (do asyncLambda "uncaught-type" (.task .int) [] (← operand))
    error := .ofType (.pointer (.named .argumentError)) }

def gotoOutOfTry : Sample := ofInt "goto-out-of-try" "jump out of a try runs its finally" 6 do
  let result ← newVar "result" .int
  let done ← newLabel "done" .void
  block [result] [
    ← ensured (← stmt [← set result (awaitInt 5), ← jump .plain done .absent])
      (← stmt [← increment .preIncrement (← ref result)]),
    ← set result (constInt 0),
    ← mark done .absent,
    ← ref result]

def returnEarly : Sample := ofInt "return" "return from the middle of the body" 8 do
  let ret ← newLabel "ret" .int
  block [] [← ifThen (← awaitBool true) (← jump .ret ret (← awaitInt 8)), ← mark ret (← constInt 0)]

/-- The async samples. -/
def asyncs : List Sample :=
  [awaitAdd, goto, tryCatch, tryFinally, tryFinallyThrow, tryCatchFinally, nestedCaught, nestedOuter,
    nestedSync, loop, switchDefault, switchAsyncTest, orElse, andAlso, orElseAwait, conditional, inLambda,
    future, valueTask, configureAwait, fastPath, fastPathThrow, filter, rethrowAfterAwait, uncaughtType,
    gotoOutOfTry, returnEarly]

end Resumable.Sample
