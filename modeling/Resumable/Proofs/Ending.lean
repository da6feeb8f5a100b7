import Resumable.Proofs.Converting
import Resumable.Proofs.Slots

/-!
# `Proofs.Ending`: how a computation ends with enough fuel

A tree is evaluated on a given amount of fuel. `Ends` says how a computation ends once there is enough of it,
whatever is added, so that the parts of a tree can be put together without counting. The rules below follow the
forms of nodes that generated code is made of: reading and storing variables, tests, blocks, and bodies with
one handler for every error.

**Contents**
* `Ends`, with rules for one computation after the other.
* `ref_ends`, `store_ends`, `andAlso_ends` and so on: one rule for each form of a node.
* `Walked`, `block_ends`: the statements of a block.
* `Value.Raisable`, `handle_ends`, `protect_ends`: errors, and the handler for every error.
-/

namespace Resumable

open Run

namespace Run

variable {x : Run α} {w w' : World}

theorem bind_of_error {f : α → Run β} {s : Stop} (h : x w = .error s w') : (x >>= f) w = .error s w' := by
  show EStateM.bind x f w = _
  unfold EStateM.bind
  rw [h]

theorem attempt_of_ok {a : α} (h : x w = .ok a w') : attempt x w = .ok (.ok a) w' := by
  unfold attempt
  rw [h]

theorem attempt_of_error {s : Stop} (h : x w = .error s w') : attempt x w = .ok (.error s) w' := by
  unfold attempt
  rw [h]

end Run

/-- With enough fuel, and with any more, the computation ends like this. -/
def Ends (x : Calls → Run α) (w : World) (r : EStateM.Result Stop World α) : Prop :=
  ∃ n₀, ∀ n, n₀ ≤ n → x (Calls.level n) w = r

namespace Ends

variable {x : Calls → Run α} {f : Calls → α → Run β} {w w' : World} {a : α}

theorem of_eq {r : EStateM.Result Stop World α} (h : ∀ c, x c w = r) : Ends x w r := ⟨0, fun _ _ => h _⟩

theorem pure (a : α) (w : World) : Ends (fun _ => Pure.pure a) w (.ok a w) := of_eq fun _ => rfl

theorem bind {r : EStateM.Result Stop World β} (hx : Ends x w (.ok a w'))
    (hf : Ends (fun c => f c a) w' r) : Ends (fun c => x c >>= f c) w r := by
  obtain ⟨n₀, hx⟩ := hx
  obtain ⟨n₁, hf⟩ := hf
  refine ⟨max n₀ n₁, fun n hn => ?_⟩
  show (x (Calls.level n) >>= f (Calls.level n)) w = r
  rw [bind_of_ok (hx n (le_of_max_le_left hn))]
  exact hf n (le_of_max_le_right hn)

/-- What stops a computation stops all that would come after it. -/
theorem stop {s : Stop} (hx : Ends x w (.error s w')) : Ends (fun c => x c >>= f c) w (.error s w') := by
  obtain ⟨n₀, hx⟩ := hx
  exact ⟨n₀, fun n hn => bind_of_error (hx n hn)⟩

theorem attempt_ok (hx : Ends x w (.ok a w')) : Ends (fun c => attempt (x c)) w (.ok (.ok a) w') := by
  obtain ⟨n₀, hx⟩ := hx
  exact ⟨n₀, fun n hn => attempt_of_ok (hx n hn)⟩

theorem attempt_error {s : Stop} (hx : Ends x w (.error s w')) :
    Ends (fun c => attempt (x c)) w (.ok (.error s) w') := by
  obtain ⟨n₀, hx⟩ := hx
  exact ⟨n₀, fun n hn => attempt_of_error (hx n hn)⟩

/-- A node is evaluated with the fuel that is left. -/
theorem eval {e : Expr} {env : Env} {r : EStateM.Result Stop World (Option Value)}
    (h : Ends (fun c => evalNode c e env) w r) : Ends (fun c => c.eval e env) w r := by
  obtain ⟨n₀, h⟩ := h
  refine ⟨n₀ + 1, fun n hn => ?_⟩
  obtain ⟨m, rfl⟩ : ∃ m, n = m + 1 := ⟨n - 1, by omega⟩
  exact h m (by omega)

end Ends

/-! ### Values and variables -/

section
variable {env : Env} {w w' : World} {v : Var} {x y : Expr} {a i r j s : Nat} {t t' : Ty} {u : Value}

theorem evalAs_ends {o : Option Value} (hx : Ends (fun c => c.eval x env) w (.ok o w'))
    (ho : convertTo o t w' = .ok (some u) w') : Ends (fun c => evalAs c x t env) w (.ok (some u) w') := by
  unfold evalAs
  exact hx.bind (.of_eq fun _ => ho)

theorem evalBool_ends {b : Bool} (hx : Ends (fun c => c.eval x env) w (.ok (some (.ofBool b)) w')) :
    Ends (fun c => evalBool c x env) w (.ok b w') := by
  unfold evalBool
  exact hx.bind (.of_eq fun _ => rfl)

theorem ref_ends (ha : env.find? v = some a) :
    Ends (fun c => c.eval (.node i r t (.var v)) env) w (.ok (some (w.inSlot a)) w) := by
  refine .eval (.of_eq fun c => ?_)
  unfold evalNode
  dsimp only
  rw [ha]
  rfl

theorem const_ends (hu : u.typeOf = t) :
    Ends (fun c => c.eval (.node i r t (.constant (some u))) env) w (.ok (some u) w) := by
  refine .eval (.of_eq fun c => ?_)
  show (.ok (constValue (some u) t) w : EStateM.Result Stop World (Option Value)) = _
  simp [constValue, hu]

theorem store_ends (ha : env.find? v = some a)
    (hx : Ends (fun c => evalAs c x v.type env) w (.ok (some u) w')) :
    Ends (fun c => c.eval (.node i r t (.assign .plain (.node j s t' (.var v)) x)) env) w
      (.ok (some u) (w'.fill a u)) := by
  refine .eval ?_
  simp only [evalNode_store ha]
  exact hx.bind (.of_eq fun _ => rfl)

theorem convert_ends {o : Option Value} (hx : Ends (fun c => c.eval x env) w (.ok o w'))
    (ho : convertTo o t w' = .ok (some u) w') :
    Ends (fun c => c.eval (.node i r t (.unary .convert x none)) env) w (.ok (some u) w') := by
  refine .eval ?_
  unfold evalNode
  exact hx.bind (.of_eq fun _ => ho)

/-! ### Tests -/

theorem typeIs_ends {o : Option Value} {test : Ty} (hx : Ends (fun c => c.eval x env) w (.ok o w')) :
    Ends (fun c => c.eval (.node i r t (.typeIs x test)) env) w
      (.ok (some (.ofBool (dynamicIs o test))) w') := by
  refine .eval ?_
  unfold evalNode
  exact hx.bind (.pure _ _)

theorem not_ends {b : Bool} (hx : Ends (fun c => c.eval x env) w (.ok (some (.ofBool b)) w')) :
    Ends (fun c => c.eval (.node i r t (.unary .not x none)) env) w (.ok (some (.ofBool !b)) w') := by
  refine .eval ?_
  unfold evalNode
  exact hx.bind (.of_eq fun _ => rfl)

/-- The second test is not asked when the first fails. -/
theorem andAlso_stops (hx : Ends (fun c => evalBool c x env) w (.ok false w')) :
    Ends (fun c => c.eval (.node i r t (.binary .andAlso x y none)) env) w (.ok (some (.ofBool false)) w') := by
  refine .eval ?_
  unfold evalNode
  dsimp only
  unfold evalBinary
  exact hx.bind (.pure _ _)

theorem andAlso_ends {w'' : World} {b : Bool} (hx : Ends (fun c => evalBool c x env) w (.ok true w'))
    (hy : Ends (fun c => evalBool c y env) w' (.ok b w'')) :
    Ends (fun c => c.eval (.node i r t (.binary .andAlso x y none)) env) w (.ok (some (.ofBool b)) w'') := by
  refine .eval ?_
  unfold evalNode
  dsimp only
  unfold evalBinary
  exact hx.bind (hy.bind (.pure _ _))

/-- A conditional ends as the branch that its test chooses. -/
theorem conditional_ends {test : Expr} {b : Bool} {w'' : World} {o : Option Value}
    (ht : Ends (fun c => evalBool c test env) w (.ok b w'))
    (hx : Ends (fun c => c.eval (if b then x else y) env) w' (.ok o w'')) :
    Ends (fun c => c.eval (.node i r .void (.conditional test x y)) env) w (.ok none w'') := by
  refine .eval ?_
  unfold evalNode
  dsimp only
  refine ht.bind ?_
  unfold evalAs
  exact hx.bind (.of_eq fun _ => rfl)

end

/-! ### Blocks -/

/-- The statements end one after the other and none of them jumps; the value is that of the last one. -/
inductive Walked (env : Env) : List Expr → Option Value → World → Option Value → World → Prop
  | nil (o : Option Value) (w : World) : Walked env [] o w o w
  | cons {x : Expr} {xs : List Expr} {o o' o'' : Option Value} {w w' w'' : World}
      (hx : Ends (fun c => c.eval x env) w (.ok o' w')) (hxs : Walked env xs o' w' o'' w'') :
      Walked env (x :: xs) o w o'' w''

section
variable {env : Env} {w w' w'' : World} {x : Expr} {xs ys body : List Expr} {i ref : Nat} {t : Ty}
  {o o' o'' : Option Value} {c : Calls}

theorem Walked.append (hxs : Walked env xs o w o' w') (hys : Walked env ys o' w' o'' w'') :
    Walked env (xs ++ ys) o w o'' w'' := by
  induction hxs with
  | nil => exact hys
  | cons hx _ ih => exact .cons hx (ih hys)

theorem stepBlock_of_ok {rest : List Expr} (hx : c.eval x env w = .ok o' w') :
    stepBlock c body env (x :: rest, o) w = .ok (.inl (rest, o')) w' := by
  unfold stepBlock
  exact bind_of_ok (attempt_of_ok hx)

theorem stepBlock_of_error {rest : List Expr} {s : Stop} (hx : c.eval x env w = .error s w')
    (hs : ∀ l v, s ≠ .jump l v) : stepBlock c body env (x :: rest, o) w = .error s w' := by
  unfold stepBlock
  refine (bind_of_ok (attempt_of_error hx)).trans ?_
  cases s with
  | jump l v => exact absurd rfl (hs l v)
  | _ => rfl

/-- Each statement takes one turn, and the ones after them are still to come. -/
theorem Walked.iterate (h : Walked env xs o w o' w') (body rest : List Expr) :
    ∃ n₀, ∀ n, n₀ ≤ n → ∀ turns, Run.iterate (stepBlock (Calls.level n) body env) (turns + xs.length)
      (xs ++ rest, o) w = Run.iterate (stepBlock (Calls.level n) body env) turns (rest, o') w' := by
  induction h with
  | nil o w => exact ⟨0, fun _ _ _ => rfl⟩
  | @cons x xs o o₁ o' w w₁ w' hx _ ih =>
    obtain ⟨n₀, hx⟩ := hx
    obtain ⟨n₁, ih⟩ := ih
    refine ⟨max n₀ n₁, fun n hn turns => ?_⟩
    have hstep : stepBlock (Calls.level n) body env (x :: (xs ++ rest), o) w = .ok (.inl (xs ++ rest, o₁)) w₁ :=
      stepBlock_of_ok (hx n (le_of_max_le_left hn))
    rw [List.length_cons, ← Nat.add_assoc, iterate_succ, List.cons_append, bind_of_ok hstep]
    exact ih n (le_of_max_le_right hn) turns

/-- A block whose value is not used, with the variables that it brings into scope. -/
theorem block_ends {vars : List Var} {scope : Env} (hvars : vars.foldlM declare env w = .ok scope w')
    (h : Walked scope xs none w' o w'') :
    Ends (fun c => c.eval (.node i ref .void (.block vars xs)) env) w (.ok none w'') := by
  refine .eval ?_
  obtain ⟨n₀, h⟩ := h.iterate xs []
  refine ⟨max n₀ (xs.length + 2), fun n hn => ?_⟩
  obtain ⟨k, rfl⟩ : ∃ k, n = k + 1 + xs.length + 1 := ⟨n - xs.length - 2, by omega⟩
  have hrun := h _ (le_of_max_le_left hn) (k + 1)
  rw [List.append_nil, iterate_succ] at hrun
  unfold evalNode
  dsimp only
  unfold evalBlock
  refine (bind_of_ok hvars).trans ?_
  unfold runBlock
  exact bind_of_ok hrun

/-- A block with a value: that of its last statement, which may raise instead. -/
theorem boolBlock_ends {r : EStateM.Result Stop World (Option Value)} (h : Walked env xs none w o w')
    (hx : Ends (fun c => evalAs c x .bool env) w' r) (hr : ∀ l v w'', r ≠ .error (.jump l v) w'') :
    Ends (fun c => c.eval (.node i ref .bool (.block [] (xs ++ [x]))) env) w r := by
  refine .eval ?_
  obtain ⟨n₀, h⟩ := h.iterate (xs ++ [x]) [x]
  obtain ⟨n₁, hx⟩ := hx
  refine ⟨max (max n₀ n₁) (xs.length + 3), fun n hn => ?_⟩
  obtain ⟨k, rfl⟩ : ∃ k, n = k + 2 + xs.length + 1 := ⟨n - xs.length - 3, by omega⟩
  have hrun := h (k + 2 + xs.length + 1) (by omega) (k + 2)
  have hx := hx (k + 2 + xs.length + 1) (by omega)
  rw [iterate_succ] at hrun
  unfold evalNode
  dsimp only at hx ⊢
  unfold evalBlock runBlock
  unfold evalAs at hx
  -- what stops the last statement stops the block, and what it ends with is given the type
  cases heval : (Calls.level (k + 2 + xs.length + 1)).eval x env w' with
  | ok v w₁ =>
    rw [bind_of_ok (stepBlock_of_ok heval), Sum.elim_inl, iterate_succ] at hrun
    rw [bind_of_ok heval] at hx
    exact (bind_of_ok hrun).trans hx
  | error s w₁ =>
    rw [bind_of_error heval] at hx
    rw [bind_of_error (stepBlock_of_error heval fun l v hs => hr l v w₁ (hs ▸ hx.symm))] at hrun
    exact (bind_of_error hrun).trans hx

end

/-! ### Errors -/

/-- What fits the error type has a value. -/
theorem Ty.assignableTo_void {d : Ty} (hd : d.assignableTo .error = true) : d.assignableTo .void = false := by
  cases d with
  | unit => exact absurd hd (by decide)
  | named n =>
    by_cases hn : n = .void
    · subst hn
      exact absurd hd (by decide)
    · have hne : (Ty.named n == Ty.void) = false := by simpa [Ty.void] using hn
      unfold assignableTo
      rw [hne]
      rfl
  | _ => rfl

namespace Value

/-- An error that a handler can be for: its type is that of a value outside a box, it is an error type, and
the error is no refusal. -/
structure Raisable (e : Value) : Prop where
  bare : ∀ t c, e ≠ .box t c
  concrete : e.typeOf.isInterface = false
  error : e.typeOf.assignableTo .error = true
  catchable : isCatchable (.raised e) = true

/-- A value in a place of a type that it is assignable to. -/
def given (e : Value) (t : Ty) : Value := if e.typeOf == t then e else e.widen t

/-- An error as a value of the error type. -/
def asError (e : Value) : Value := .box .error (some e)

/-- A value that is assignable to a type of another name is widened to it. -/
theorem convertPlain_given {e : Value} {t : Ty} (ht : e.typeOf.assignableTo t = true)
    (hne : (e.typeOf == t) = false) (w : World) :
    (some <$> convertPlain e t : Run (Option Value)) w = .ok (some (e.given t)) w := by
  have hplain : convertPlain e t w = .ok (e.given t) w := by
    unfold convertPlain given
    rw [if_pos ht, hne]
    rfl
  show EStateM.map some (convertPlain e t) w = _
  unfold EStateM.map
  rw [hplain]

namespace Raisable

variable {e : Value} {t : Ty}

theorem content_eq (h : e.Raisable) : e.content = some e := by
  cases e with
  | box t c => exact absurd rfl (h.bare t c)
  | _ => rfl

theorem typeOf_ne (h : e.Raisable) : e.typeOf ≠ .error := by
  intro heq
  have := h.concrete
  rw [heq] at this
  exact absurd this (by decide)

theorem given_error (h : e.Raisable) : e.given .error = e.asError := by
  unfold given
  rw [if_neg (by simpa using h.typeOf_ne)]
  show (if Ty.isInterface .error = true then Value.box .error e.content else _) = _
  rw [if_pos (by decide), h.content_eq]
  rfl

/-- An error in a place that takes it is of the type of the place. -/
theorem typeOf_given (h : e.Raisable) (t : Ty) : (e.given t).typeOf = t := by
  unfold given
  split
  · rename_i heq
    simpa using heq
  · unfold widen
    split
    · rfl
    · cases e with
      | type s =>
        exact absurd (show (Ty.pointer (.named .typeRep)).assignableTo .error = true from h.error) (by decide)
      | refusal r => cases h.catchable
      | _ => rfl

/-- What an error is assignable to has values. -/
theorem notVoid (h : e.Raisable) (ht : e.typeOf.assignableTo t = true) : t.isVoid = false := by
  cases hv : t.isVoid with
  | false => rfl
  | true =>
    have hvoid : t = .void := by simpa [Ty.isVoid] using hv
    rw [hvoid, Ty.assignableTo_void h.error] at ht
    cases ht

/-- An error is converted to a type that it is assignable to. -/
theorem convertTo_given (h : e.Raisable) (ht : e.typeOf.assignableTo t = true) (w : World) :
    convertTo (some e) t w = .ok (some (e.given t)) w := by
  unfold convertTo
  rw [if_neg (by simp [h.notVoid ht])]
  dsimp only
  split
  · rename_i heq
    rw [given, if_pos heq]
    rfl
  · rename_i hne
    cases e with
    | box s c => exact absurd rfl (h.bare s c)
    | _ => exact convertPlain_given ht (by simpa using hne) w

/-- So is the error as a value of the error type. -/
theorem convertTo_asError (h : e.Raisable) (ht : e.typeOf.assignableTo t = true) (w : World) :
    convertTo (some e.asError) t w = .ok (some (e.given t)) w := by
  by_cases herror : t = .error
  · subst herror
    rw [h.given_error]
    exact convertTo_typeOf rfl rfl w
  · unfold convertTo asError
    rw [if_neg (by simp [h.notVoid ht])]
    dsimp only
    rw [if_neg (by simpa [typeOf] using Ne.symm herror)]
    split
    · rename_i heq
      rw [given, if_pos heq]
      rfl
    · rename_i hne
      exact convertPlain_given ht (by simpa using hne) w

end Raisable

end Value

/-! ### Protected bodies -/

/-- The world after a variable got a slot. -/
def World.push (w : World) (v : Var) (x : Value) : World := { w with slots := w.slots.push ⟨v.id, x⟩ }

/-- The scope of a handler that binds `v` to the error, when the slot is the next one. -/
def Env.handling (env : Env) (v : Var) (e : Value) (w : World) : Env :=
  ({ env with caught := some e } : Env).bind v w.slots.size

section
variable {env : Env} {v : Var} {body x : Expr} {t : Ty} {w w' w'' : World} {o o' : Option Value} {e : Value}

/-- The handler for every error binds the error as a value of the error type and runs. -/
theorem handle_ends (he : e.Raisable) (hv : v.type = .error)
    (hx : Ends (fun c => c.eval x (env.handling v e w)) (w.push v e.asError) (.ok o w')) :
    Ends (fun c => handle c [⟨.error, some v, .absent, x⟩] (.raised e) env) w (.ok (.ok o) w') := by
  have haccepts : accepts .error (.raised e) = true := he.error
  have hscope : handlerScope (some v) e env w = .ok (env.handling v e w) (w.push v e.asError) := by
    have hto : convertTo (some e) v.type w = .ok (some e.asError) w := by
      rw [hv, he.convertTo_given he.error, he.given_error]
    unfold handlerScope
    exact bind_of_ok hto
  have hcaught : Ends (fun _ => caughtValue (.raised e)) w (.ok e w) := .of_eq fun _ => rfl
  unfold handle
  simp only [haccepts, Bool.not_true, Bool.false_eq_true, if_false]
  refine hcaught.bind (Ends.bind (.of_eq fun _ => hscope) ?_)
  exact Ends.bind (.of_eq fun _ => rfl) hx.attempt_ok

theorem leave_void (c : Calls) (env : Env) (o : Option Value) (w : World) :
    leave c .void .absent env (.ok o) w = .ok none w := rfl

theorem leave_bool (c : Calls) (env : Env) (b : Bool) (w : World) :
    leave c .bool .absent env (.ok (some (.ofBool b))) w = .ok (some (.ofBool b)) w := rfl

/-- A body that raises nothing is all that is run. -/
theorem protect_ends {hs : List (Handler Expr)} (hbody : Ends (fun c => c.eval body env) w (.ok o w'))
    (hleave : ∀ c, leave c t .absent env (.ok o) w' = .ok o' w') :
    Ends (fun c => evalProtect c t body hs .absent .absent env) w (.ok o' w') := by
  unfold evalProtect
  exact hbody.attempt_ok.bind (.of_eq hleave)

/-- What a body raises is given to the handler for every error. -/
theorem protect_handles (he : e.Raisable) (hv : v.type = .error)
    (hbody : Ends (fun c => c.eval body env) w (.error (.raised e) w'))
    (hx : Ends (fun c => c.eval x (env.handling v e w')) (w'.push v e.asError) (.ok o w''))
    (hleave : ∀ c, leave c t .absent env (.ok o) w'' = .ok o' w'') :
    Ends (fun c => evalProtect c t body [⟨.error, some v, .absent, x⟩] .absent .absent env) w
      (.ok o' w'') := by
  unfold evalProtect
  refine hbody.attempt_error.bind ?_
  refine Ends.bind ?_ (.of_eq hleave)
  unfold recover
  rw [he.catchable]
  exact handle_ends he hv hx

end

end Resumable
