import Resumable.Proofs.Slots

/-!
# `Proofs.Exact`: what a store does besides filling its slot

A store into a variable gives its value the type of the variable, and it is the node that a refusal of the
result names. When nothing reads the variable and the store is dropped, its value is all that is left: a
conversion is kept where the two static types differ, but a value that belies its static type is no longer
found out, and a refusal names the value. The evaluator here is the usual one, except that it gives up
(as if its fuel had run out) where one of these two things happens to a store that is dropped.

**Contents**
* `Calls.checking`, `Placement.guarded`: evaluating an operand that must have its static type.
* `Placement.blames`: refusals that name a store that is dropped.
* `evalExact`, `Calls.exact`: the evaluator that gives up in these cases.
* `evalExact_follows`, `Calls.exact_below`: what follows the usual evaluator follows this one.
-/

namespace Resumable

open Run Scopes

/-- Evaluates as before, but gives up on a value that is not of type `t`. -/
def Calls.checking (c : Calls) (t : Ty) : Calls :=
  { c with
    eval := fun e env => do
      let v ← c.eval e env
      if v.map Value.typeOf = some t then return v else throw .exhausted }

namespace Scopes.Placement

/-- What a node reaches its operands by: the value of a dropped store that has the type of the variable
must be of that type. -/
def guarded (p : Placement) (c : Calls) (e : Expr) : Calls :=
  match p.drops? e with
  | some (x, v) => if v.type = x.type then c.checking x.type else c
  | none => c

/-- Whether a refusal names a store of the tree that is dropped. -/
def blames (p : Placement) (root : Expr) (s : Stop) : Bool :=
  match s with
  | .raised (.refusal r) => root.allNodes.any fun n => (p.drops? n).isSome && n.id == r.node
  | _ => false

/-- Evaluates a node, and gives up where dropping stores makes a difference. -/
def evalExact (p : Placement) (root : Expr) (c : Calls) (e : Expr) (env : Env) : Run (Option Value) := do
  match ← attempt (evalNode (p.guarded c e) e env) with
  | .ok v => return v
  | .error s => throw (if p.blames root s then .exhausted else s)

end Scopes.Placement

/-- The evaluator that gives up where dropping stores makes a difference, for a given amount of fuel. -/
def Calls.exact (p : Placement) (root : Expr) : Nat → Calls
  | 0 => empty
  | n + 1 =>
    { turns := n
      eval := fun e env => p.evalExact root (exact p root n) e env
      call := fun f args => Run.callFunc (exact p root n) f args
      exec := fun k => Run.execCallback (exact p root n) k }

namespace Scopes.Placement

variable {p : Placement} {root e x : Expr} {c c' : Calls} {ρ : Env} {I : World → World → Prop}
  {m : Run (Option Value)}

theorem guarded_cases (p : Placement) (c : Calls) (e : Expr) :
    p.guarded c e = c ∨ ∃ t, p.guarded c e = c.checking t := by
  unfold guarded
  split
  · split
    · exact Or.inr ⟨_, rfl⟩
    · exact Or.inl rfl
  · exact Or.inl rfl

theorem guarded_below [h : Calls.Below I c c'] : Calls.Below I (p.guarded c e) c' := by
  obtain heq | ⟨t, heq⟩ := guarded_cases p c e
  · rwa [heq]
  · rw [heq]
    exact ⟨h.turns, h.call, h.exec⟩

/-- An operand that passes the check has the value it had. -/
theorem checking_follows (h : Agree I (c.eval x ρ) m) (t : Ty) :
    Follows (· = .exhausted) I ((c.checking t).eval x ρ) m
      (fun u u' w w' => (u = u' ∧ I w w') ∧ u.map Value.typeOf = some t) I := by
  rw [← bind_pure m]
  refine h.follows_bind rfl fun u => ?_
  split
  · exact Follows.pure fun w w' hw => ⟨⟨rfl, hw⟩, ‹_›⟩
  · exact Follows.giveUp rfl

theorem guarded_agree (h : Agree I (c.eval x ρ) m) : Agree I ((p.guarded c e).eval x ρ) m := by
  obtain heq | ⟨t, heq⟩ := guarded_cases p c e
  · rwa [heq]
  · rw [heq]
    exact ⟨(checking_follows h t).post fun _ _ _ _ hu => hu.1⟩

theorem blames_refusal {n : Expr} (hn : n ∈ root.allNodes) (hd : (p.drops? n).isSome = true) (code : Code)
    (msg : String) : p.blames root (refusal n code msg) = true := by
  unfold blames refusal
  exact List.any_eq_true.mpr ⟨n, hn, by simp [hd]⟩

/-- What follows a node follows its exact evaluation. -/
theorem evalExact_follows {P : World → World → Prop} {Q : Option Value → α → World → World → Prop} {y : Run α}
    {E : World → World → Prop}
    (h : Follows (fun s => s = .exhausted ∨ p.blames root s = true) P (evalNode (p.guarded c e) e ρ) y Q E) :
    Follows (· = .exhausted) P (p.evalExact root c e ρ) y Q E := by
  intro w w' hw
  have hrun := h w w' hw
  have heq : p.evalExact root c e ρ w = match evalNode (p.guarded c e) e ρ w with
      | .ok v u => .ok v u
      | .error s u => .error (if p.blames root s then .exhausted else s) u := by
    change EStateM.bind (attempt _) _ w = _
    unfold EStateM.bind attempt
    cases evalNode (p.guarded c e) e ρ w <;> rfl
  rw [heq]
  cases hnode : evalNode (p.guarded c e) e ρ w with
  | ok v u =>
    rw [hnode] at hrun
    exact hrun
  | error s u =>
    rw [hnode] at hrun
    dsimp only
    by_cases hb : p.blames root s = true
    · rw [if_pos hb]
      exact Or.inl rfl
    · rw [if_neg hb]
      exact hrun.imp (fun hs => hs.resolve_right hb) id

end Scopes.Placement

theorem Calls.level_eval (n : Nat) (e : Expr) (ρ : Env) :
    (level (n + 1)).eval e ρ = evalNode (level n) e ρ := rfl

/-- What functions do does not depend on how trees are evaluated, when there are no closures. -/
theorem Calls.exact_below {I : World → World → Prop} [Lax I] (p : Placement) (root : Expr) {n m : Nat}
    (h : n ≤ m) : Calls.Below I (exact p root n) (level m) := by
  induction n generalizing m with
  | zero => exact ⟨Nat.zero_le _, fun _ _ => ⟨Follows.giveUp rfl⟩, fun _ => ⟨Follows.giveUp rfl⟩⟩
  | succ n ih =>
    obtain ⟨m, rfl⟩ : ∃ k, m = k + 1 := ⟨m - 1, by omega⟩
    have hle : n ≤ m := by omega
    have := ih hle
    exact Calls.Below.next hle _ _

end Resumable
