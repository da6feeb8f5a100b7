import Resumable.Proofs.Walks

/-!
# `Proofs.Acting`: the program around a tree

The program around a tree evaluates it, calls what it gets, settles cells and turns the loop, in any order and
with any amount of fuel. All that these acts do themselves is to turn the loop and to change objects and pools, so
that a relation that only looks at variables, closures and the trail is kept by an act when the evaluator keeps
it.

**Contents**
* `Act`, `Reaches`: what the program around a tree does, and the worlds that it brings about.
* `Overlooks`, `Act.runs`: relations that an act keeps.
-/

namespace Resumable

/-- No tree has been evaluated in the world. -/
structure World.Blank (w : World) : Prop where
  slots : w.slots = #[]
  closures : w.closures = #[]
  trail : w.trail = []

/-- What the program around a tree may do at any time. -/
inductive Act where
  /-- Evaluates the tree, or compiles it to a function. -/
  | evaluate | compile
  /-- Calls any function, or a compiled lambda with arguments that are converted first. -/
  | call (f : Value) (args : List Value)
  | callCompiled (f : Value) (args : List (Option Value))
  /-- Runs a callback, one callback of the loop, or the loop until nothing is left. -/
  | run (k : Callback)
  | turn | drain
  /-- Offers an outcome to a cell. -/
  | finish (cell : Nat) (err value : Option Value)
  /-- Registers a continuation with a cell. -/
  | register (cell : Nat) (k : Callback) (inline : Bool)
  /-- Drives a handle until it is settled. -/
  | settle (handle : Option Value) (canceled : Bool)
  /-- Changes anything but variables, closures and the trail. -/
  | arrange (f : World → World)

/-- Does it, with a tree. -/
def Act.perform (c : Calls) (e : Expr) : Act → Run Unit
  | .evaluate => discard (Run.evalClosed c e)
  | .compile => discard (Run.compile c e)
  | .call f args => discard (c.call f args)
  | .callCompiled f args => discard (Run.callCompiled c e f args)
  | .run k => c.exec k
  | .turn => discard (Run.runOnce c)
  | .drain => Run.runAll c
  | .finish cell err value => discard (Run.finish c cell err value)
  | .register cell k inline => Run.onCompleted c cell k inline
  | .settle handle canceled => discard (Run.settle c handle canceled)
  | .arrange f => modify fun w => { f w with slots := w.slots, closures := w.closures, trail := w.trail }

/-- The worlds that come after `w` when a program does one thing after the other with a tree, each with any
amount of fuel and whether it returns or stops. -/
inductive Reaches (e : Expr) (w : World) : World → Prop
  | refl : Reaches e w w
  | act {v : World} (n : Nat) (a : Act) (h : Reaches e w v) :
    Reaches e w ((a.perform (Calls.level n) e).left v)

/-- One thing after the other. -/
def Act.performAll (n : Nat) (e : Expr) (acts : List Act) (w : World) : World :=
  acts.foldl (fun w a => (a.perform (Calls.level n) e).left w) w

theorem Reaches.performAll {e : Expr} {w w' : World} (hr : Reaches e w w') (n : Nat) (acts : List Act) :
    Reaches e w (Act.performAll n e acts w') := by
  induction acts generalizing w' with
  | nil => exact hr
  | cons a acts ih => exact ih (hr.act n a)

/-! ### What an act does -/

/-- A relation that only looks at variables, closures and the trail. -/
class Overlooks (R : World → World → Prop) : Prop extends Walk R where
  still : ∀ {w w'}, w'.slots = w.slots → w'.closures = w.closures → w'.trail = w.trail → R w w'

section
variable {R : World → World → Prop} [Overlooks R] {c : Calls} {e : Expr}

/-- Whatever changes anything but variables, closures and the trail. -/
instance modify_runs {store : World → Array Object} {log : World → Array Bytes} {loop : World → Option Loop}
    {pools : World → List (Ty × Pool)} {consumers : World → Array Consumer} {scripts : World → Array Script}
    {scriptRuns : World → Array (Nat × Nat)} :
    Runs R (modify fun w => ⟨store w, w.slots, w.closures, w.trail, log w, loop w, pools w, consumers w,
      scripts w, scriptRuns w⟩ : Run PUnit) :=
  ⟨fun _ => Overlooks.still rfl rfl rfl⟩

instance panicError?_runs (p : Panic) : Runs R (Run.panicError? p) := by
  unfold Run.panicError?
  split <;> infer_instance

variable [CallsRun R c]

/-- Turning the loop runs one callback. -/
instance runOnce_runs : Runs R (Run.runOnce c) := by
  unfold Run.runOnce
  refine @Runs.bind _ _ _ _ _ _ inferInstance fun w => ?_
  split <;> infer_instance

instance runUntil_runs (done : Run Bool) [Runs R done] : Runs R (Run.runUntil c done) := by
  unfold Run.runUntil
  refine @Runs.iterate _ _ _ _ _ (fun _ => ?_) _ _
  refine @Runs.bind _ _ _ _ _ _ ‹_› fun _ => ?_
  infer_instance

instance awaitHandle_runs (handle : Value) (info : AwaitInfo) (canceled : Bool) :
    Runs R (Run.awaitHandle c handle info canceled) := by
  unfold Run.awaitHandle
  infer_instance

instance drain_runs (f : Value) (yield : Ty) : Runs R (Run.drain c f yield) := by
  unfold Run.drain
  repeat' first
    | infer_instance | split | dsimp only | refine @Runs.bind _ _ _ _ _ _ ?_ fun _ => ?_

/-- Waiting for a handle. -/
instance settle_runs (handle : Option Value) (canceled : Bool) : Runs R (Run.settle c handle canceled) := by
  unfold Run.settle
  repeat' first | infer_instance | split

instance callCompiled_runs (f : Value) (args : List (Option Value)) : Runs R (Run.callCompiled c e f args) := by
  unfold Run.callCompiled
  infer_instance

omit [CallsRun R c] in
/-- Evaluating the tree itself. -/
theorem top_runs (h : Runs R (c.eval e {})) : Runs R (Run.top c e {}) := by
  unfold Run.top
  refine @Runs.bind _ _ _ _ _ _ inferInstance fun r => ?_
  split <;> infer_instance

omit [CallsRun R c] in
theorem compile_runs (h : Runs R (Run.top c e {})) : Runs R (Run.compile c e) := by
  unfold Run.compile
  repeat' first
    | infer_instance | split | dsimp only | refine @Runs.bind _ _ _ _ _ _ ?_ fun _ => ?_

/-- **An act keeps a relation** that evaluating the tree, calls and callbacks keep. -/
theorem Act.runs (h : Runs R (c.eval e {})) (a : Act) : Runs R (a.perform c e) := by
  have := top_runs h
  cases a with
  | evaluate =>
    show Runs R (discard (Run.evalClosed c e))
    unfold Run.evalClosed
    infer_instance
  | compile =>
    have := compile_runs this
    exact inferInstanceAs (Runs R (discard (Run.compile c e)))
  | call f args => exact inferInstanceAs (Runs R (discard (c.call f args)))
  | callCompiled f args => exact inferInstanceAs (Runs R (discard (Run.callCompiled c e f args)))
  | run k => exact inferInstanceAs (Runs R (c.exec k))
  | turn => exact inferInstanceAs (Runs R (discard (Run.runOnce c)))
  | drain =>
    show Runs R (Run.runAll c)
    unfold Run.runAll
    infer_instance
  | finish cell err value => exact inferInstanceAs (Runs R (discard (Run.finish c cell err value)))
  | register cell k inline => exact inferInstanceAs (Runs R (Run.onCompleted c cell k inline))
  | settle handle canceled => exact inferInstanceAs (Runs R (discard (Run.settle c handle canceled)))
  | arrange f => exact modify_runs

end

end Resumable
