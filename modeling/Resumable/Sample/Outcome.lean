import Resumable.Run.Settle
import Resumable.Sample.Basic

/-!
# `Sample.Outcome`: running samples

A lowered sample is called and what it returns is settled on a loop of its own. What it came to is then
compared with what it should come to.
-/

namespace Resumable

/-- What running a sample came to: a value, an error, or both, and the turns of the loop. -/
structure Outcome where
  value : Option Value := none
  error : Option Value := none
  steps : Nat := 0

namespace World

/-- Whether an error is another one or joins errors of which one is; `depth` bounds the nesting. -/
def holdsErrorAt (w : World) (target : Value) : Nat → Value → Bool
  | 0, _ => false
  | depth + 1, e =>
    (target.typeOf.isComparable && Value.equalContents? e target matches .ok true) ||
      match e.content with
      | some (.pointer (.pointer (.named .joinedError)) a) =>
        match w.fieldsAt a with
        | .slice _ es :: _ => es.any (holdsErrorAt w target depth)
        | _ => false
      | _ => false

/-- Whether an error is another one or joins errors of which one is. -/
def holdsError (w : World) (e target : Value) : Bool := w.holdsErrorAt target 32 e

end World

namespace Sample

/-- Gives the session a loop on which nothing has happened. -/
def freshLoop : Work Unit := Work.run (modify fun w => { w with loop := World.initial.loop })

/-- Calls a lowered sample and settles what it returns. An error that the call raises belongs to the
outcome; a tree that cannot be called is a failure. -/
def execute (s : Sample) (l : Lowered) : Work Outcome := do
  let f ← Work.run (Run.compile Work.calls l.tree)
  let args ← s.args
  match ← Work.attempt (Work.run (Run.callCompiled Work.calls l.tree f args)) with
  | .error (.stop (.raised e)) => return { error := some e }
  | .error failure => throw failure
  | .ok handle =>
    let (value, error) ← Work.run (Run.settle Work.calls handle false)
    let steps := ((← get).world.loop.getD {}).steps
    return { value, error, steps }

/-- The text of the type of a value. -/
def typeText (v : Option Value) : String :=
  ((v.bind Value.content).map fun v => v.typeOf.text).getD "<nil>"

/-- The elements of a list of any values. -/
def elements (v : Option Value) : List Value :=
  match v.bind Value.content with
  | some (.slice t es) => if t == .slice .any then es else []
  | _ => []

/-- Whether two results are lists of the same elements. -/
def sameElements (w : World) (got want : Option Value) : Bool :=
  let (gs, ws) := (elements got, elements want)
  gs.length == ws.length &&
    (gs.zip ws).all fun (a, b) => w.alike a.content b.content

/-- What is wrong with the error of an outcome. -/
def errorFault? (w : World) (s : Sample) (o : Outcome) : Option Bytes :=
  let str (t : String) : Bytes := Bytes.ofString t
  let shown := w.textOf o.error
  match s.error, o.error with
  | .is e, got =>
    if got.any (w.holdsError · e) then none
    else some (str ": error " ++ shown ++ str ", want " ++ w.textOf (some e))
  | .ofType t, got =>
    if got.any (·.typeOf == t) then none
    else some (str ": error " ++ shown ++ str (" (" ++ typeText got ++ "), want " ++ t.text))
  | .none, some _ => some (str ": unexpected error: " ++ shown)
  | .none, none => none

/-- What is wrong with the value of an outcome; when an error is expected only the elements of iterators
count. -/
def valueFault? (w : World) (s : Sample) (o : Outcome) : Option Bytes :=
  let str (t : String) : Bytes := Bytes.ofString t
  let got := w.textOf o.value
  let want := w.textOf s.want
  match s.kind, s.error with
  | .iterator, _ =>
    if sameElements w o.value s.want then none
    else some (str ": elements " ++ got ++ str ", want " ++ want)
  | _, .none =>
    if w.alike o.value s.want then none
    else some (str ": got " ++ got ++ str (" (" ++ typeText o.value ++ "), want ") ++ want ++
      str (" (" ++ typeText s.want ++ ")"))
  | _, _ => none

/-- Why an outcome is not what the sample should come to. -/
def fault? (w : World) (s : Sample) (o : Outcome) : Option Bytes :=
  ((errorFault? w s o).or (valueFault? w s o)).map (Bytes.ofString s.name ++ ·)

end Sample

end Resumable
