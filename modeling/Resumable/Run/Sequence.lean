import Resumable.Run.Cell
import Resumable.Run.Convert

/-!
# `Run.Sequence`: lazy sequences and their consumers

A sequence holds a factory; each enumeration calls it for a step function of its own. A step writes an
element into the enumerator's slot and tells whether there was one. Closing an enumerator that has
started runs one last step in disposal mode. A sequence can be ranged over as it is, or be adapted to a range
function of another type; either way the enumerator is closed on every way out.
-/

namespace Resumable.Run

/-- The value of an element slot. -/
def slotValue (a : Nat) : Run (Option Value) := do
  match ← load a with
  | .struct _ [v] => return v.content
  | _ => return none

def setSlot (a : Nat) (v : Option Value) : Run Unit :=
  store a (.struct (.named .current) [.ofAny v])

/-- The enumerator at an address. -/
def enumerator (a : Nat) : Run Enumerator := do
  match ← object a with
  | .enumerator e => return e
  | _ => panicNil

/-- Starts an enumeration of the sequence behind a pointer. -/
def enumerate (c : Calls) (seq : Value) : Run Nat := do
  match ← object (← addressOf seq) with
  | .sequence factory =>
    match ← c.call factory [] with
    | step :: _ =>
      let slot ← alloc (.value (.struct (.named .current) [.ofAny none]))
      alloc (.enumerator ⟨step, slot, false, false⟩)
    | [] => panicNil
  | _ => panicNil

/-- One call of a step function: whether there is an element, and the error. -/
def callStep (c : Calls) (e : Enumerator) (dispose : Bool) : Run (Bool × Option Value) := do
  match ← c.call e.step [.ofBool dispose, .pointer .current e.slot] with
  | [ok, err] => return (ok.asBool, err.content)
  | _ => return (false, none)

/-- Moves to the next element; an error or the end finishes the enumeration. -/
def moveNext (c : Calls) (a : Nat) : Run (Bool × Option Value) := do
  let e ← enumerator a
  if e.done then return (false, none)
  -- before the call: the step may fail or close its own enumerator
  setObject a (.enumerator { e with started := true })
  let (ok, err) ← callStep c e false
  if err.isSome || !ok then
    setObject a (.enumerator { (← enumerator a) with done := true })
    setSlot e.slot none
  return (ok, err)

/-- The element that the last move produced. -/
def currentOf (a : Nat) : Run (Option Value) := do slotValue (← enumerator a).slot

/-- Ends an enumeration, giving the machine behind it the chance to leave its protected regions. -/
def close (c : Calls) (a : Nat) : Run (Option Value) := do
  let e ← enumerator a
  if e.done then return none
  -- before the call: closing again from inside does nothing
  setObject a (.enumerator { e with done := true })
  if !e.started then return none
  let (_, err) ← callStep c e true
  setSlot e.slot none
  return err

/-- Closes an enumerator whose consumer stopped early; an error can only be raised as a panic. -/
def closeOrPanic (c : Calls) (a : Nat) : Run Unit := do
  match ← close c a with
  | some e => throw (.panic (.error e))
  | none => return ()

/-- Gives a consumer the elements of an enumeration, each without an error, and then the error that ends it,
until either side ends. -/
def feedPairs (c : Calls) (en : Nat) (yield : Value) : Run Unit :=
  iterate (fun _ => do
    let (ok, err) ← moveNext c en
    if err.isSome then
      discard (c.call yield [.ofAny none, .ofError err])
      return .inr ()
    if !ok then return .inr ()
    let more ← c.call yield [.ofAny (← currentOf en), .ofError none]
    if (more.headD (.ofBool false)).asBool then return .inl ()
    closeOrPanic c en
    return .inr ()) c.turns ()

/-- Ranges over a sequence with its elements as they are. The enumerator is closed on every way out, and an
error of that is dropped. -/
def all (c : Calls) (seq : Value) (yield : Value) : Run Unit := do
  let en ← enumerate c seq
  match ← attempt (feedPairs c en yield) with
  | .error .exhausted => throw .exhausted
  -- closed whatever the consumer did
  | r =>
    discard (close c en)
    settleOn r

/-- The range function type over elements of any type with errors. -/
def pairRange : Ty := .applied .seq2 [.any, .error]

/-- The range function over a sequence with its elements as they are. -/
def allOf (seq : Value) : Run Value := do
  match seq with
  | .pointer _ a => return .func pairRange (.pairs a)
  | _ => return .func pairRange (.pairs (← get).store.size)

/-! ### Range functions of other types -/

/-- An element as a value of the element type. -/
def elementValue (v : Option Value) (t : Ty) : Run Value := do
  match v with
  | none => return t.zero
  | some v =>
    if v.typeOf.assignableTo t then return v.widen t
    else if v.typeOf.convertibleTo t then return v.recast t
    else panicText ("reflect.Value.Convert: value of type " ++ v.typeOf.text ++
      " cannot be converted to type " ++ t.text)

/-- Feeds the elements of an enumeration to a consumer until either side ends. -/
def feed (c : Calls) (en : Nat) (elem : Ty) (withErr : Bool) (yield : Value) : Run Unit :=
  iterate (fun _ => do
    let (ok, err) ← moveNext c en
    match err with
    | some e =>
      if !withErr then throw (.panic (.error e))
      discard (c.call yield [elem.zero, .ofError (some e)])
      return .inr ()
    | none =>
      if !ok then return .inr ()
      let v ← elementValue (← currentOf en) elem
      let more ← c.call yield (if withErr then [v, .ofError none] else [v])
      if (more.headD (.ofBool false)).asBool then return .inl ()
      closeOrPanic c en
      return .inr ()) c.turns ()

/-- Ranges over a sequence through a range function of type `t`. The enumerator is closed on every way
out, and an error of that is dropped. -/
def range (c : Calls) (seq : Value) (t : Ty) (yield : Value) : Run Unit := do
  let ins := match (t.signature?).bind fun (ins, _, _) => ins.head?.bind Ty.signature? with
    | some (ins, _, _) => ins
    | none => []
  let en ← enumerate c seq
  match ← attempt (feed c en (ins.headD .any) (ins.length == 2) yield) with
  | .error .exhausted => throw .exhausted
  | r =>
    discard (close c en)
    settleOn r

/-- A sequence under another shape: itself, or a range function. -/
def adapt (seq : Value) (shape : Ty) : Run Value := do
  if shape == .sequence then return seq
  let refuse : Run Value := panicText ("asyncrt: cannot adapt sequence to " ++ shape.text)
  match shape.signature? with
  | some ([y], _, _) =>
    match y.signature? with
    | some ([], _, _) => panicMachine "index out of range [0] with length 0"
    | some _ =>
      match seq with
      | .pointer _ a => return .func shape (.ranging a)
      | _ => return .func shape (.ranging (← get).store.size)
    | none => refuse
  | _ => refuse

/-! ### Consumers -/

/-- A new consumer as a function of type `t`. -/
def newConsumer (t : Ty) (appetite : Appetite) : Run (Nat × Value) :=
  modifyGet fun w =>
    let id := w.consumers.size
    ((id, .func t (.consumer id)), { w with consumers := w.consumers.push { appetite } })

def consumerOf (id : Nat) : Run Consumer := return (← get).consumers.getD id { appetite := .all }

def setConsumer (id : Nat) (k : Consumer) : Run Unit :=
  modify fun w => { w with consumers := w.consumers.setIfInBounds id k }

/-- How many elements are drawn from a sequence at most. -/
def maxElements : Nat := 65536

/-- Gives an element to a consumer; whether it wants more. -/
def feedConsumer (id : Nat) (args : List Value) : Run Bool := do
  let k ← consumerOf id
  let taken : Consumer := { k with seen := args :: k.seen, count := k.count + 1 }
  match k.appetite with
  | .all => setConsumer id taken; return true
  | .one =>
    if k.count > 0 then
      panicMachine "range function continued iteration after function for loop body returned false"
    setConsumer id taken
    return false
  | .count n => setConsumer id taken; return n == 0 || taken.count < n
  | .untilError limit =>
    match args with
    | [_, err] =>
      if let some e := err.content then
        setConsumer id { k with failed := some e }
        return false
    | _ => pure ()
    if k.count == limit then
      let e ← newError ("drive: sequence exceeds " ++ toString limit ++ " elements")
      setConsumer id { k with failed := some e }
      return false
    setConsumer id taken
    return true

/-! ### Draining -/

/-- Draws all elements into a list, which holds elements of type `t`. The elements drawn before an error
are kept. -/
def collect (c : Calls) (seq : Value) (t : Ty) : Run (List Value × Option Value) := do
  let en ← enumerate c seq
  let (out, err) ← iterate (fun out => do
    let (ok, err) ← moveNext c en
    if err.isSome || !ok then return .inr (out, err)
    match ← currentOf en with
    | none => return .inl (t.zero :: out)
    | some v =>
      if t.isInterface && v.typeOf.implements t then return .inl (.box t (some v) :: out)
      if v.typeOf == t then return .inl (v :: out)
      let shown := (← get).textOf (some v)
      let bad ← newText .errorText (Bytes.ofString "asyncrt: element " ++ shown ++
        Bytes.ofString (" is " ++ v.typeOf.text ++ ", not " ++ t.text))
      let closing ← close c en
      return .inr (out, some (← joinErrors (bad :: closing.toList)))) c.turns []
  return (out.reverse, err)

/-! ### Scripted enumerations -/

/-- Starts a scripted enumeration. -/
def startScript (id : Nat) : Run Value := do
  note (Bytes.ofString "start")
  modifyGet fun w =>
    let k := w.scriptRuns.size
    (.func .step (.scriptStep k), { w with scriptRuns := w.scriptRuns.push (id, 0) })

/-- One step of a scripted enumeration. -/
def stepScript (k : Nat) (dispose : Bool) (slot : Value) : Run (Bool × Option Value) := do
  let w ← get
  let (id, produced) := w.scriptRuns.getD k (0, 0)
  let script := w.scripts.getD id ⟨[], none, none⟩
  if dispose then
    note (Bytes.ofString ("dispose@" ++ toString produced))
    return (false, script.disposeErr)
  match script.elems[produced]? with
  | some v =>
    modify fun w => { w with scriptRuns := w.scriptRuns.setIfInBounds k (id, produced + 1) }
    setSlot (← addressOf slot) v.content
    return (true, none)
  | none => return (false, script.fail)

end Resumable.Run
