import Resumable.Run.Show

/-!
# `Run.Calls`: how the parts of the evaluator reach each other

Evaluating a tree, calling a function and running a callback need one another. Each part takes the
other three from a record `Calls`; the record for `n + 1` levels of nesting is built from the one for
`n`. The same number bounds how often a loop turns, so that one fuel bounds a whole run.
-/

namespace Resumable

/-- What a part of the evaluator may use of the others. -/
structure Calls where
  /-- How often a loop may turn. -/
  turns : Nat
  /-- Evaluates a tree in a scope. -/
  eval : Expr → Env → Run (Option Value)
  /-- Calls a function with arguments of its parameter types. -/
  call : Value → List Value → Run (List Value)
  /-- Runs a callback. -/
  exec : Callback → Run Unit

namespace Calls

/-- The record for no fuel. -/
def empty : Calls where
  turns := 0
  eval _ _ := throw .exhausted
  call _ _ := throw .exhausted
  exec _ := throw .exhausted

instance : Inhabited Calls := ⟨empty⟩

end Calls

namespace Run

/-- Runs a computation and gives its outcome, whatever it is. -/
def attempt (x : Run α) : Run (Except Stop α) := fun w =>
  match x w with
  | .ok a w => .ok (.ok a) w
  | .error e w => .ok (.error e) w

/-- Continues with a given outcome. -/
def settleOn (r : Except Stop α) : Run α :=
  match r with
  | .ok a => pure a
  | .error e => throw e

/-- Stops for want of turns, and notes it. -/
def giveUp : Run α := do
  record .cut
  throw .exhausted

/-- Repeats a step from a state until it gives a result, for at most the given number of turns. -/
def iterate (step : σ → Run (σ ⊕ α)) : Nat → σ → Run α
  | 0, _ => giveUp
  | n + 1, s => fun w =>
    match step s w with
    | .ok (.inl s') w => iterate step n s' w
    | .ok (.inr a) w => .ok a w
    | .error e w => .error e w

end Run

namespace Value

/-- The integer a value holds. -/
def asInt : Value → Int
  | .int _ n => n
  | _ => 0

/-- The truth value a value holds. -/
def asBool : Value → Bool
  | .bool _ b => b
  | _ => false

/-- The milliseconds a value holds. -/
def asMs (v : Value) : UInt64 := v.asInt.toNat.toUInt64

/-- An optional error as a value of the error interface. -/
def ofError (e : Option Value) : Value := boxed .error e

/-- A value as a value of the interface without methods. -/
def ofAny (v : Option Value) : Value := boxed .any v

end Value

end Resumable
