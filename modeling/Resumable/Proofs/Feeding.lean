import Resumable.Proofs.Walks

/-!
# `Proofs.Feeding`: what a run asks of the loop

The loop is turned from outside only. Whatever a tree, a function or a callback does, it reaches the loop
in two ways: it posts a callback or arms a timer. `Feeds` says so of a computation.

**Contents**
* `Request`, `Loop.accept`: what can be asked of a loop.
* `World.Fed`, `Feeds`: the loop was asked for things, and a computation does no more to it.
* `Calls.level_feeding`: so it is with every amount of fuel.
-/

namespace Resumable

/-- What can be asked of a loop. -/
inductive Request where
  | post (k : Callback)
  | schedule (ms : UInt64) (k : Callback)

/-- The callback that a request is about. -/
def Request.callback : Request → Callback
  | .post k | .schedule _ k => k

namespace Loop

/-- What a loop does with a request. -/
def accept (l : Loop) : Request → Loop
  | .post k => l.post k
  | .schedule ms k => l.schedule ms k

/-- What a loop does with requests, one after the other. -/
def acceptAll (l : Loop) (rs : List Request) : Loop := rs.foldl accept l

@[simp] theorem acceptAll_nil (l : Loop) : l.acceptAll [] = l := rfl

@[simp] theorem acceptAll_cons (l : Loop) (r : Request) (rs : List Request) :
    l.acceptAll (r :: rs) = (l.accept r).acceptAll rs := rfl

theorem acceptAll_append (l : Loop) (rs rs' : List Request) :
    l.acceptAll (rs ++ rs') = (l.acceptAll rs).acceptAll rs' := List.foldl_append

end Loop

/-- From the first world to the second the loop was asked for some things, and nothing else happened to
it. -/
def World.Fed (w w' : World) : Prop := ∃ rs, w'.loop = w.loop.map (·.acceptAll rs)

theorem World.Fed.of_eq {w w' : World} (h : w'.loop = w.loop) : w.Fed w' :=
  ⟨[], by rw [h]; cases w.loop <;> rfl⟩

theorem World.Fed.trans {w w' w'' : World} (h : w.Fed w') (h' : w'.Fed w'') : w.Fed w'' := by
  obtain ⟨rs, h⟩ := h
  obtain ⟨rs', h'⟩ := h'
  refine ⟨rs ++ rs', ?_⟩
  rw [h', h, Option.map_map]
  congr
  funext l
  exact (l.acceptAll_append rs rs').symm

/-- Posting and arming are requests, and no other step reaches the loop. -/
instance : Roam World.Fed where
  same h := .of_eq h.loop
  post _ k := ⟨[.post k], rfl⟩
  schedule _ ms k := ⟨[.schedule ms k], rfl⟩
  mark _ _ _ := .of_eq rfl
  trans := World.Fed.trans
  later _ h := .of_eq h

/-- The computation changes the loop by asking it for things only. -/
class Feeds (x : Run α) : Prop where
  fed : ∀ w : World, w.Fed (x.left w)

instance {x : Run α} [h : Runs World.Fed x] : Feeds x := ⟨h.left⟩

/-- What a part of the evaluator reaches through the others changes the loop by asking it for things
only. -/
class Calls.Feeding (c : Calls) : Prop where
  eval : ∀ (e : Expr) (env : Env), Feeds (c.eval e env)
  call : ∀ (f : Value) (args : List Value), Feeds (c.call f args)
  exec : ∀ (k : Callback), Feeds (c.exec k)

instance {c : Calls} [h : c.Feeding] : CallsRoam World.Fed c where
  call f args := ⟨(h.call f args).fed⟩
  exec k := ⟨(h.exec k).fed⟩
  eval e env := ⟨(h.eval e env).fed⟩

/-- Whatever runs on whatever amount of fuel, it changes the loop by asking it for things only. -/
instance Calls.level_feeding (n : Nat) : Feeding (level n) :=
  ⟨fun _ _ => inferInstance, fun _ _ => inferInstance, fun _ => inferInstance⟩

end Resumable
