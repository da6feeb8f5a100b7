import Resumable.Sample.Basic

/-!
# `Sample.Iterator`: iterator samples

Samples of every construct that a yield may stand in.
-/

namespace Resumable.Sample

open Build

/-- Yields a number. -/
def yieldInt (n : Int) : Build Expr := do yield (← constInt n)

/-- A range function over numbers. -/
def range : Ty := .applied .seq [.int]

/-- The parameter of `countDown`, which is made once and for all. -/
def count : Var := ⟨1, "count", .int⟩

def countDown : Sample :=
  { iterator "count-down" "yield a decrementing parameter" range [10, 9, 8, 7, 6, 5, 4, 3, 2, 1] empty with
    tree := Work.build do
      let brk ← newLabel "brk" .void
      let body ← ifThenElse (← binary .greater (← ref count) (← constInt 0))
        (← yield (← increment .postDecrement (← ref count))) (← jump .brk brk .absent)
      iteratorLambda "count-down" range [count] (← Build.loop body (some brk) none)
    args := pure [some (.ofInt 10)] }

def yieldSequence : Sample := iterator "yield-sequence" "three yields" .sequence [1, 2, 3] do
  stmt [← yieldInt 1, ← yieldInt 2, ← yieldInt 3]

def yieldAfterCatch : Sample :=
  iterator "yield-after-catch" "handled error ends the try, iteration goes on"
    (.applied .seq2 [.int, .error]) [1, 2] do
      stmt [← guarded (← stmt [← yieldInt 1, ← raise (← stop)]) [handler (← empty)], ← yieldInt 2]

def yieldThenThrow : Sample :=
  { iterator "yield-then-throw" "error surfaces after the first element" .sequence [1] do
      stmt [← yieldInt 1, ← raise (← stop), ← yieldInt 2]
    with error := .is Sentinel.stop.error }

def yieldFinally : Sample :=
  iterator "yield-finally" "finally runs between yields" .sequence [1, 2, 1] do
    let n ← newVar "n" .int
    typedBlock .void [n] [
      ← ensured (← stmt [← yieldInt 1, ← yieldInt 2])
        (← stmt [← increment .preIncrement (← ref n)]),
      ← yield (← ref n)]

def yieldSwitch : Sample :=
  iterator "yield-switch" "yields inside switch cases" range [10, 20, 21, -1] do
    let i ← newVar "i" .int
    let brk ← newLabel "brk" .void
    let value ← ref i
    let other ← yieldInt (-1)
    let first ← yieldInt 10
    let zero ← constInt 0
    let second ← stmt [← yieldInt 20, ← yieldInt 21]
    let one ← constInt 1
    let choice ← switch .void value other none [([zero], first), ([one], second)]
    let body ← stmt [
      ← ifThen (← binary .greaterEqual (← ref i) (← constInt 3)) (← jump .brk brk .absent),
      choice,
      ← increment .preIncrement (← ref i)]
    typedBlock .void [i] [← Build.loop body (some brk) none]

/-- The iterator samples. -/
def iterators : List Sample :=
  [countDown, yieldSequence, yieldAfterCatch, yieldThenThrow, yieldFinally, yieldSwitch]

end Resumable.Sample
