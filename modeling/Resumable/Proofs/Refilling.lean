import Mathlib
import Resumable.Expr.Build

/-!
# `Proofs.Refilling`: operands in the order of evaluation

Two functions know where the operands of a node stand. `children` lists them in evaluation order, and every
walk over a tree goes by that list; `mapChildren` applies a function to them where they stand, and every pass
that rebuilds a tree goes by that. Here the second is brought into the form of the first: applying a function to
the operands is applying it to what `children` lists, one after the other, and putting what comes out into the
slots in the same order.

**Contents**
* `refill`: the payload with other operands in its slots.
* `Fills`: a computation that exchanges operands and fills slots, with a rule for each way of putting such
  computations together.
* `mapOperands_fills`, `mapChildren_eq`: a payload, and a node.
-/

namespace Resumable.Expr

/-! ### Filling the slots of a payload -/

/-- Fills one slot from the replacements, if it was not empty. -/
def fillOne (x : Expr) (cs : List Expr) : Expr × List Expr :=
  match x, cs with
  | .absent, cs => (.absent, cs)
  | x, [] => (x, [])
  | _, c :: cs => (c, cs)

/-- Fills slots in order. -/
def fillAll : List Expr → List Expr → List Expr × List Expr
  | [], cs => ([], cs)
  | x :: xs, cs =>
    let (y, cs) := fillOne x cs
    let (ys, cs) := fillAll xs cs
    (y :: ys, cs)

/-- Fills the slots of switch cases in order. -/
def fillCases : List (List Expr × Expr) → List Expr → List (List Expr × Expr) × List Expr
  | [], cs => ([], cs)
  | (ts, b) :: rest, cs =>
    let (ts, cs) := fillAll ts cs
    let (b, cs) := fillOne b cs
    let (rest, cs) := fillCases rest cs
    ((ts, b) :: rest, cs)

/-- Fills the slots of handlers in order. -/
def fillHandlers : List (Handler Expr) → List Expr → List (Handler Expr) × List Expr
  | [], cs => ([], cs)
  | h :: rest, cs =>
    let (f, cs) := fillOne h.filter cs
    let (b, cs) := fillOne h.body cs
    let (rest, cs) := fillHandlers rest cs
    ({ h with filter := f, body := b } :: rest, cs)

/-- The payload with its direct operands replaced, in the order of `children`. -/
def refill (d : Data Expr) (cs : List Expr) : Data Expr :=
  match d with
  | .constant v => .constant v
  | .default => .default
  | .var v => .var v
  | .block vs xs => .block vs (fillAll xs cs).1
  | .assign o t v =>
    let (t', cs) := if t.hasKind .field then fillOne t cs else (t, cs)
    .assign o t' (fillOne v cs).1
  | .binary o l r m =>
    let (l, cs) := fillOne l cs
    .binary o l (fillOne r cs).1 m
  | .unary o x m => .unary o (fillOne x cs).1 m
  | .throw x => .throw (fillOne x cs).1
  | .typeIs x t => .typeIs (fillOne x cs).1 t
  | .conditional a b c =>
    let (a, cs) := fillOne a cs
    let (b, cs) := fillOne b cs
    .conditional a b (fillOne c cs).1
  | .switch v arms d m =>
    let (v, cs) := fillOne v cs
    let (arms, cs) := fillCases arms cs
    .switch v arms (fillOne d cs).1 m
  | .loop b k c => .loop (fillOne b cs).1 k c
  | .protect b hs f g =>
    let (b, cs) := fillOne b cs
    let (hs, cs) := fillHandlers hs cs
    let (f, cs) := fillOne f cs
    .protect b hs f (fillOne g cs).1
  | .goto k l v => .goto k l (fillOne v cs).1
  | .label l d => .label l (fillOne d cs).1
  | .call f args =>
    let (f, cs) := fillOne f cs
    .call f (fillAll args cs).1
  | .methodCall r m args =>
    let (r, cs) := fillOne r cs
    .methodCall r m (fillAll args cs).1
  | .field o n => .field (fillOne o cs).1 n
  | .lambda n ps b k f => .lambda n ps (fillOne b cs).1 k f
  | .await x c => .await (fillOne x cs).1 c
  | .yield v => .yield (fillOne v cs).1

/-! ### Exchanging operands -/

section
variable {m : Type → Type} [Monad m] [LawfulMonad m] {α β γ : Type} {f : Expr → m Expr} {x : Expr}
  {xs ys cs : List Expr}

/-- Whether some of the operands have become other nodes. -/
def exchanged (xs cs : List Expr) : Bool := !(xs.zip cs).all fun (x, y) => x.same y

/-- Nothing of a list is lost when its elements are known to be in it. -/
theorem attach_mapM {n : Type → Type} [Monad n] [LawfulMonad n] (g : α → n β) (as : List α) :
    (as.attach.mapM fun a => g a.1) = as.mapM g := by
  rw [List.mapM_subtype fun a h => rfl, List.unattach_attach]

/-- What is done with the outcomes of `f` may assume that there are as many of them as operands. -/
theorem mapM_bind_congr {k k' : List Expr → m β} (h : ∀ cs, cs.length = xs.length → k cs = k' cs) :
    xs.mapM f >>= k = xs.mapM f >>= k' := by
  induction xs generalizing k k' with
  | nil => simpa using h [] rfl
  | cons x xs ih =>
    simp only [List.mapM_cons, bind_assoc, pure_bind]
    refine bind_congr fun y => ih fun cs hcs => h (y :: cs) ?_
    rw [List.length_cons, List.length_cons, hcs]

/-- The computation applies `f` to what the slots `xs` hold, in order, notes whether one was exchanged, and
gives what `fill` makes of the outcomes, which leaves over what comes after them. -/
def Fills (f : Expr → m Expr) (xs : List Expr) (u : StateT Bool m α) (fill : List Expr → α × List Expr) : Prop :=
  (∀ changed, u.run changed = do
    let cs ← (present xs).mapM f
    return ((fill cs).1, changed || exchanged (present xs) cs)) ∧
  ∀ cs rest, cs.length = (present xs).length → fill (cs ++ rest) = ((fill cs).1, rest)

namespace Fills

theorem pure (a : α) : Fills f [] (pure a) fun cs => (a, cs) := by
  refine ⟨fun changed => ?_, fun cs rest hcs => ?_⟩
  · simp [present, exchanged]
  · rw [List.eq_nil_of_length_eq_zero hcs]
    rfl

/-- One slot after the other is filled. -/
theorem bind {u : StateT Bool m α} {v : α → StateT Bool m β} {fill : List Expr → α × List Expr}
    {fill' : α → List Expr → β × List Expr} (hu : Fills f xs u fill) (hv : ∀ a, Fills f ys (v a) (fill' a)) :
    Fills f (xs ++ ys) (u >>= v) fun cs => fill' (fill cs).1 (fill cs).2 := by
  have hpresent : present (xs ++ ys) = present xs ++ present ys := List.filter_append ..
  refine ⟨fun changed => ?_, fun cs rest hcs => ?_⟩
  · rw [StateT.run_bind, hu.1, hpresent, List.mapM_append]
    simp only [bind_assoc, pure_bind]
    refine mapM_bind_congr fun cs hcs => ?_
    rw [(hv _).1]
    refine bind_congr fun cs' => ?_
    rw [hu.2 cs cs' hcs, exchanged, exchanged, exchanged, List.zip_append hcs.symm, List.all_append, Bool.not_and,
      Bool.or_assoc]
  · rw [hpresent, List.length_append] at hcs
    obtain ⟨bs, cs, rfl, hbs⟩ : ∃ bs cs', cs = bs ++ cs' ∧ bs.length = (present xs).length :=
      ⟨cs.take (present xs).length, cs.drop (present xs).length, (List.take_append_drop ..).symm,
        by rw [List.length_take]; omega⟩
    rw [List.length_append, hbs, Nat.add_left_cancel_iff] at hcs
    show fill' (fill _).1 (fill _).2 = ((fill' (fill _).1 (fill _).2).1, rest)
    rw [List.append_assoc, hu.2 bs (cs ++ rest) hbs, hu.2 bs cs hbs]
    exact (hv _).2 cs rest hcs

/-- What is made of the outcome does not matter. -/
theorem map {u : StateT Bool m α} {fill : List Expr → α × List Expr} (hu : Fills f xs u fill) (g : α → β) :
    Fills f xs (do return g (← u)) fun cs => (g (fill cs).1, (fill cs).2) := by
  have h := hu.bind fun a => pure (f := f) (g a)
  rwa [List.append_nil] at h

/-- One slot is filled. -/
theorem exchange (x : Expr) : Fills f [x] (exchange x (f x)) (fillOne x) := by
  cases x with
  | absent =>
    refine ⟨fun changed => ?_, fun cs rest hcs => ?_⟩
    · simp [Expr.exchange, present, isAbsent, exchanged, fillOne]
    · rw [List.eq_nil_of_length_eq_zero hcs]
      rfl
  | node i r t d =>
    refine ⟨fun changed => ?_, fun cs rest hcs => ?_⟩
    · have hpresent : present [Expr.node i r t d] = [.node i r t d] := rfl
      rw [hpresent, List.mapM_cons]
      simp only [Expr.exchange, isAbsent, if_neg Bool.false_ne_true, List.mapM_nil, bind_assoc, pure_bind,
        StateT.run_bind, StateT.run_monadLift, monadLift_self]
      refine bind_congr (m := m) fun y => ?_
      cases hsame : (Expr.node i r t d).same y <;> simp [exchanged, fillOne, hsame]
    · obtain ⟨y, rfl⟩ := List.length_eq_one_iff.mp hcs
      rfl

theorem exchanges (xs : List Expr) :
    Fills f xs (xs.attach.mapM fun x => Expr.exchange x.1 (f x.1)) (fillAll xs) := by
  rw [attach_mapM fun x => Expr.exchange x (f x)]
  induction xs with
  | nil => exact pure []
  | cons x xs ih =>
    rw [List.mapM_cons]
    exact (exchange x).bind fun y => ih.map (y :: ·)

/-- Visiting the arms of a switch visits their operands in order and fills them in. -/
theorem arms (arms : List (List Expr × Expr)) :
    Fills f (arms.flatMap fun c => c.1 ++ [c.2]) (arms.attach.mapM fun c => do
      let tests ← c.1.1.attach.mapM fun x => Expr.exchange x.1 (f x.1)
      return (tests, ← Expr.exchange c.1.2 (f c.1.2))) (fillCases arms) := by
  rw [attach_mapM (n := StateT Bool m) fun c : List Expr × Expr => do
    let tests ← c.1.attach.mapM fun x => Expr.exchange x.1 (f x.1)
    return (tests, ← Expr.exchange c.2 (f c.2))]
  induction arms with
  | nil => exact pure []
  | cons c arms ih =>
    rw [List.mapM_cons, List.flatMap_cons]
    exact ((exchanges c.1).bind fun tests => (exchange c.2).map (tests, ·)).bind fun c' => ih.map (c' :: ·)

/-- Visiting handlers visits their operands in order and fills them in. -/
theorem handlers (hs : List (Handler Expr)) :
    Fills f (hs.flatMap fun h => [h.filter, h.body]) (hs.attach.mapM fun h => do
      let filter ← Expr.exchange h.1.filter (f h.1.filter)
      return { h.1 with filter, body := ← Expr.exchange h.1.body (f h.1.body) }) (fillHandlers hs) := by
  rw [attach_mapM (n := StateT Bool m) fun h : Handler Expr => do
    let filter ← Expr.exchange h.filter (f h.filter)
    return ({ h with filter, body := ← Expr.exchange h.body (f h.body) } : Handler Expr)]
  induction hs with
  | nil => exact pure []
  | cons h hs ih =>
    rw [List.mapM_cons, List.flatMap_cons]
    exact ((exchange h.filter).bind fun filter => (exchange h.body).map ({ h with filter, body := · })).bind
      fun h' => ih.map (h' :: ·)

end Fills

/-- Where operands stand in a payload is the order in which they are listed. -/
theorem mapOperands_fills (f : Expr → m Expr) (d : Data Expr) :
    ∃ fill, Fills f (operands d) (mapOperands d fun c _ => f c) fill ∧ ∀ cs, (fill cs).1 = refill d cs := by
  have hone {α : Type} (g : Expr → α) (x : Expr) := (Fills.exchange (f := f) x).map g
  have htwo {α : Type} (g : Expr → Expr → α) (x y : Expr) :=
    (Fills.exchange (f := f) x).bind fun x' => (Fills.exchange y).map (g x')
  cases d with
  | constant v => exact ⟨_, Fills.pure _, fun _ => rfl⟩
  | default => exact ⟨_, Fills.pure _, fun _ => rfl⟩
  | var v => exact ⟨_, Fills.pure _, fun _ => rfl⟩
  | block vars xs =>
    exact ⟨_, (Fills.exchanges xs).map (Data.block vars), fun _ => rfl⟩
  | assign op target value =>
    -- the target is an operand only when it is a field
    by_cases ht : target.hasKind .field = true
    · simp only [operands, mapOperands, refill, ht, if_true, dite_true]
      exact ⟨_, htwo (Data.assign op) target value, fun _ => rfl⟩
    · simp only [operands, mapOperands, refill, ht]
      exact ⟨_, (Fills.pure target).bind fun t => hone (Data.assign op t) value, fun _ => rfl⟩
  | binary op left right method => exact ⟨_, htwo (Data.binary op · · method) left right, fun _ => rfl⟩
  | unary op x method => exact ⟨_, hone _ x, fun _ => rfl⟩
  | throw value => exact ⟨_, hone _ value, fun _ => rfl⟩
  | typeIs x test => exact ⟨_, hone _ x, fun _ => rfl⟩
  | conditional test ifTrue ifFalse =>
    exact ⟨_, (Fills.exchange test).bind fun test' => htwo (Data.conditional test') ifTrue ifFalse, fun _ => rfl⟩
  | switch value arms default comparer =>
    exact ⟨_, ((Fills.exchange value).bind fun value' => (Fills.arms arms).bind fun arms' =>
      hone (Data.switch value' arms' · comparer) default), fun _ => rfl⟩
  | loop body brk cont => exact ⟨_, hone _ body, fun _ => rfl⟩
  | protect body handlers fin fault =>
    exact ⟨_, ((Fills.exchange body).bind fun body' => (Fills.handlers handlers).bind fun handlers' =>
      htwo (Data.protect body' handlers') fin fault), fun _ => rfl⟩
  | goto kind target value => exact ⟨_, hone _ value, fun _ => rfl⟩
  | label target default => exact ⟨_, hone _ default, fun _ => rfl⟩
  | call fn args =>
    exact ⟨_, (Fills.exchange fn).bind fun fn' => (Fills.exchanges args).map (Data.call fn'), fun _ => rfl⟩
  | methodCall receiver method args =>
    exact ⟨_, (Fills.exchange receiver).bind fun r => (Fills.exchanges args).map (Data.methodCall r method), fun _ => rfl⟩
  | field object name => exact ⟨_, hone _ object, fun _ => rfl⟩
  | lambda name params body kind fallible => exact ⟨_, hone _ body, fun _ => rfl⟩
  | await x configured => exact ⟨_, hone _ x, fun _ => rfl⟩
  | yield value => exact ⟨_, hone _ value, fun _ => rfl⟩

variable [MonadLiftT Build m]

/-- **Applying a function to operands goes by their list.** It is applied to what `children` lists, one after
the other; what comes out fills the same slots in the same order, and the node is a new one when some operand
has become another node. -/
theorem mapChildren_eq (e : Expr) (f : Expr → m Expr) :
    e.mapChildren (fun c _ => f c) = do
      let cs ← e.children.mapM f
      if (e.children.zip cs).all fun (x, y) => x.same y then return e
      match e with
      | .absent => return e
      | .node i _ t d => return .node i (← Build.freshRef) t (refill d cs) := by
  cases e with
  | absent => simp [mapChildren, children]
  | node i r t d =>
    obtain ⟨fill, hfills, hrefill⟩ := mapOperands_fills f d
    simp only [mapChildren, hfills.1, bind_assoc, pure_bind, hrefill, Bool.false_or]
    refine bind_congr fun cs => ?_
    rw [show exchanged (present (operands d)) cs =
      !((Expr.node i r t d).children.zip cs).all fun (x, y) => x.same y from rfl]
    cases ((Expr.node i r t d).children.zip cs).all fun (x, y) => x.same y <;> rfl

end

end Resumable.Expr
