import Resumable.Ty.Method
import Resumable.Ty.Text

/-!
# `Ty.Capability`: what can be awaited, ranged over and called

A type is awaitable when its `GetAwaiter` leads to an awaiter with the three awaiter methods. It is
iterable when it is a slice, an array, a channel that can be received from, a range function, or has a
method `All` that gives a range function. A func type splits into one value and a trailing error.
-/

namespace Resumable

/-- How an awaitable type is awaited. -/
structure AwaitInfo where
  type : Ty
  awaiter : Ty
  /-- The type of the awaited value, if there is one. -/
  result : Option Ty
  /-- Whether awaiting may raise. -/
  fallible : Bool
  /-- The type that choosing a resume policy gives, if one can be chosen. -/
  configure : Option Ty

/-- The ways to draw elements from a type. -/
inductive IterForm where
  | seq | seqErr | slice | chan | all
  deriving DecidableEq, Repr, Inhabited

namespace IterForm

def text : IterForm → String
  | .seq => "iter.Seq" | .seqErr => "iter.Seq2[E, error]" | .slice => "slice" | .chan => "chan"
  | .all => "All()"

def every : List IterForm := [.seq, .seqErr, .slice, .chan, .all]

/-- The written form of a number without a member. -/
def unknown : String := "unknown"

end IterForm

/-- How elements are drawn from a type. -/
structure IterInfo where
  type : Ty
  elem : Ty
  fallible : Bool
  via : IterForm

/-- Why a type has no single result. -/
inductive ResultFault where
  | notFunc (t : Ty)
  | tooMany (t : Ty) (count : Nat)

namespace ResultFault

def message : ResultFault → String
  | .notFunc t => "reflect: NumOut of non-func type " ++ t.text
  | .tooMany t n => "func " ++ t.text ++ " returns " ++ toString n ++ " values"

end ResultFault

namespace Ty

/-- Splits results into the value results and whether a trailing error follows them. -/
def splitError (outs : List Ty) : List Ty × Bool :=
  match outs.getLast? with
  | some t => if t == error then (outs.dropLast, true) else (outs, false)
  | none => ([], false)

/-- The value result of a func type, void if there is none, and whether an error follows it. -/
def funcResult (t : Ty) : Except ResultFault (Ty × Bool) :=
  match t.signature? with
  | none => .error (.notFunc t)
  | some (_, _, outs) =>
    match splitError outs with
    | ([], e) => .ok (void, e)
    | ([r], e) => .ok (r, e)
    | _ => .error (.tooMany t outs.length)

/-- A method with the given parameters, reduced to its results. -/
def methodResults? (t : Ty) (name : String) (ins : List Ty) : Option (List Ty) :=
  match t.method? name with
  | some (.func i _ outs) => if i == ins then some outs else none
  | _ => none

/-- A method of one parameter of kind bool, reduced to its results. -/
def boolMethodResults? (t : Ty) (name : String) : Option (List Ty) :=
  match t.method? name with
  | some (.func [i] _ outs) => if i.kind == .bool then some outs else none
  | _ => none

/-- The awaiter protocol of a type. -/
def awaitable? (t : Ty) : Option AwaitInfo := do
  let [awaiter] ← t.methodResults? "GetAwaiter" [] | none
  let [done] ← awaiter.methodResults? "IsCompleted" [] | none
  let [] ← awaiter.methodResults? "OnCompleted" [thunk] | none
  let outs ← awaiter.methodResults? "GetResult" []
  let configure := match t.boolMethodResults? "ConfigureAwait" with
    | some [c] => some c
    | _ => none
  if done.kind != .bool then none
  else match splitError outs with
    | ([], e) => some ⟨t, awaiter, none, e, configure⟩
    | ([r], e) => some ⟨t, awaiter, some r, e, configure⟩
    | _ => none

/-- The element type of a range function, and whether errors come with the elements. -/
def rangeFunc? (t : Ty) : Option IterInfo :=
  match t.signature? with
  | some ([yield], _, []) =>
    match yield.signature? with
    | some (ins, _, [b]) =>
      if b.kind != .bool then none
      else match ins with
        | [e] => some ⟨t, e, false, .seq⟩
        | [e, f] => if f == error then some ⟨t, e, true, .seqErr⟩ else none
        | _ => none
    | _ => none
  | _ => none

/-- How to range over a type. -/
def iterable? (t : Ty) : Option IterInfo :=
  match t.underlying with
  | .slice e | .array _ e => some ⟨t, e, false, .slice⟩
  | .chan dir e => if dir == .send then none else some ⟨t, e, false, .chan⟩
  | .func _ _ _ => t.rangeFunc?
  | _ =>
    match t.methodResults? "All" [] with
    | some [r] => r.rangeFunc?.map fun i => { i with type := t, via := .all }
    | _ => none

/-- The type of the value that awaiting a `t` gives; void when there is none. -/
def awaitResult (t : Ty) (configured : Bool) : Ty :=
  let info := if configured then t.awaitable?.bind (·.configure) |>.bind awaitable? else t.awaitable?
  (info.bind (·.result)).getD void

end Ty

end Resumable
