import Mathlib
import Resumable.Expr.Facts
import Resumable.Lower.Check
import Resumable.Lower.Jumps
import Resumable.Proofs.Refilling

/-!
# `Proofs.Tree`: reading a tree operand by operand

The traversals of a tree are defined over the nodes it holds. Here each of them gets its equation for
one node, in terms of the operands of its payload, and the properties that lowering is about are
stated: a tree is **lowered** when nothing in it suspends, and **prepared** when that holds of its
nested lambdas, so that only its own suspension points are left.

**Contents**
* `nodes_node`, `anyInside_eq`: the traversals as recursions over operands.
* `IsLowered`, `Prepared`: what lowering leaves, and what it starts from.
* `operands_refill`: rebuilding a node fills its operand slots in order.
* `Prepared.lowered`: a prepared tree without suspension points is lowered.
-/

namespace Resumable.Expr

variable {P : Expr → Prop} {f : Expr → Bool} {e c : Expr} {d : Data Expr} {i r : Nat} {t : Ty}

/-! ### Traversals -/

@[simp] theorem nodes_absent (f : Expr → Bool) : nodes f .absent = [] := by
  rw [nodes]
  rfl

theorem flatMap_present {g : Expr → List α} (hg : g .absent = []) (xs : List Expr) :
    (present xs).flatMap g = xs.flatMap g := by
  induction xs with
  | nil => rfl
  | cons x xs ih =>
    cases x with
    | absent => simpa [present, isAbsent, hg] using ih
    | node i r t d => simpa [present, isAbsent] using ih

/-- What is listed once is listed for one element. -/
theorem eq_of_mem_flatMap {α β : Type} {g : α → List β} {xs : List α} {x y : α} {b : β}
    (h : (xs.flatMap g).Nodup) (hx : x ∈ xs) (hy : y ∈ xs) (hbx : b ∈ g x) (hby : b ∈ g y) : x = y := by
  by_contra hne
  have : Std.Symm (Function.onFun List.Disjoint g) := ⟨fun _ _ hxy _ ha hb => hxy hb ha⟩
  exact (List.nodup_flatMap.mp h).2.forall hx hy hne hbx hby

/-- The nodes under a node are the node itself and, when it is descended into, those under its
operands. -/
theorem nodes_node (f : Expr → Bool) (i r : Nat) (t : Ty) (d : Data Expr) :
    nodes f (.node i r t d) =
      .node i r t d :: if f (.node i r t d) then (operands d).flatMap (nodes f) else [] := by
  rw [nodes]
  have hattach : (children (.node i r t d)).attach.flatMap (fun c => nodes f c.1) =
      (operands d).flatMap (nodes f) := by
    rw [List.flatMap_subtype fun x h => rfl, List.unattach_attach]
    exact flatMap_present (nodes_absent f) (operands d)
  rw [hattach]
  rfl

theorem self_mem_nodes : Expr.node i r t d ∈ nodes f (.node i r t d) := by
  rw [nodes_node]
  exact List.mem_cons_self

@[simp] theorem allNodes_absent : allNodes .absent = [] := nodes_absent _

theorem allNodes_node (i r : Nat) (t : Ty) (d : Data Expr) :
    allNodes (.node i r t d) = .node i r t d :: (operands d).flatMap allNodes := by
  unfold allNodes
  rw [nodes_node]
  rfl

@[simp] theorem ownNodes_absent : ownNodes .absent = [] := nodes_absent _

theorem ownNodes_node (i r : Nat) (t : Ty) (d : Data Expr) :
    ownNodes (.node i r t d) =
      .node i r t d :: if d.kind = .lambda then [] else (operands d).flatMap ownNodes := by
  unfold ownNodes
  rw [nodes_node]
  by_cases h : d.kind = .lambda <;> simp [hasKind, kind?, data?, h]

theorem mem_operands_assign {op : AssignOp} {target value : Expr} :
    c ∈ operands (.assign op target value) ↔
      (target.hasKind .field = true ∧ c = target) ∨ c = value := by
  simp only [operands]
  split <;> simp_all

theorem mem_operands_protect {body fin fault : Expr} {hs : List (Handler Expr)} :
    c ∈ operands (.protect body hs fin fault) ↔
      c = body ∨ (∃ h ∈ hs, c = h.filter ∨ c = h.body) ∨ c = fin ∨ c = fault := by
  simp [operands]

theorem mem_operands_switch {value default : Expr} {cases : List (List Expr × Expr)}
    {comparer : Option Native} :
    c ∈ operands (.switch value cases default comparer) ↔
      c = value ∨ (∃ arm ∈ cases, c ∈ arm.1 ∨ c = arm.2) ∨ c = default := by
  simp [operands]

/-- Induction over a tree through its operands. -/
theorem operandInduction {motive : Expr → Prop} (absent : motive .absent)
    (node : ∀ i r t d, (∀ c ∈ operands d, motive c) → motive (.node i r t d)) (e : Expr) :
    motive e :=
  match e with
  | .absent => absent
  | .node i r t d => node i r t d fun c _ => operandInduction absent node c
  termination_by sizeOf e
  decreasing_by
    rename_i hc
    have := sizeOf_lt_of_mem_operands hc
    simp only [Expr.node.sizeOf_spec]
    omega

/-! ### Properties of every node -/

/-- `P` holds of every node of the tree, also inside lambdas. -/
def Every (P : Expr → Prop) (e : Expr) : Prop := ∀ n ∈ e.allNodes, P n

@[simp] theorem every_absent : Every P .absent := by
  intro n hn
  simp at hn

theorem every_node :
    Every P (.node i r t d) ↔ P (.node i r t d) ∧ ∀ c ∈ operands d, Every P c := by
  unfold Every
  rw [allNodes_node]
  simp only [List.mem_cons, List.mem_flatMap]
  constructor
  · intro h
    exact ⟨h _ (Or.inl rfl), fun c hc n hn => h n (Or.inr ⟨c, hc, hn⟩)⟩
  · rintro ⟨h, ho⟩ n (rfl | ⟨c, hc, hn⟩)
    · exact h
    · exact ho c hc n hn

/-- Nothing in the tree suspends, and no lambda in it is still to be lowered. -/
def IsLowered (e : Expr) : Prop := Every (fun n => n.isUnlowered = false) e

@[simp] theorem lowered_absent : IsLowered .absent := every_absent

theorem lowered_node : IsLowered (.node i r t d) ↔
    (Expr.node 0 0 .void d).isUnlowered = false ∧ ∀ c ∈ operands d, IsLowered c := by
  unfold IsLowered
  rw [every_node]
  cases d <;> rfl

/-- Every lambda of the tree, looking into none of them, is lowered. -/
def Prepared (e : Expr) : Prop := ∀ n ∈ e.ownNodes, n.hasKind .lambda = true → IsLowered n

@[simp] theorem prepared_absent : Prepared .absent := by
  intro n hn
  simp at hn

theorem prepared_lambda (hd : d.kind = .lambda) :
    Prepared (.node i r t d) ↔ IsLowered (.node i r t d) := by
  unfold Prepared
  rw [ownNodes_node, if_pos hd]
  simp [hasKind, kind?, data?, hd]

theorem prepared_node (hd : d.kind ≠ .lambda) :
    Prepared (.node i r t d) ↔ ∀ c ∈ operands d, Prepared c := by
  unfold Prepared
  rw [ownNodes_node, if_neg hd]
  simp only [List.mem_cons, List.mem_flatMap]
  constructor
  · intro h c hc n hn
    exact h n (Or.inr ⟨c, hc, hn⟩)
  · rintro h n (rfl | ⟨c, hc, hn⟩)
    · simp [hasKind, kind?, data?, hd]
    · exact h c hc n hn

theorem IsLowered.prepared (h : IsLowered e) : Prepared e := by
  induction e using operandInduction with
  | absent => exact prepared_absent
  | node i r t d ih =>
    by_cases hd : d.kind = .lambda
    · exact (prepared_lambda hd).mpr h
    · exact (prepared_node hd).mpr fun c hc => ih c hc ((lowered_node.mp h).2 c hc)

/-! ### Rebuilding -/

theorem fillAll_cons (x : Expr) (xs cs : List Expr) :
    fillAll (x :: xs) cs =
      ((fillOne x cs).1 :: (fillAll xs (fillOne x cs).2).1, (fillAll xs (fillOne x cs).2).2) := rfl

theorem fillAll_append (xs ys cs : List Expr) :
    fillAll (xs ++ ys) cs =
      ((fillAll xs cs).1 ++ (fillAll ys (fillAll xs cs).2).1, (fillAll ys (fillAll xs cs).2).2) := by
  induction xs generalizing cs with
  | nil => rfl
  | cons x xs ih => rw [List.cons_append, fillAll_cons, fillAll_cons, ih]; rfl

theorem fillCases_flatMap (arms : List (List Expr × Expr)) (cs : List Expr) :
    ((fillCases arms cs).1.flatMap fun c => c.1 ++ [c.2], (fillCases arms cs).2) =
      fillAll (arms.flatMap fun c => c.1 ++ [c.2]) cs := by
  induction arms generalizing cs with
  | nil => rfl
  | cons arm arms ih =>
    obtain ⟨ts, b⟩ := arm
    rw [List.flatMap_cons, List.append_assoc, fillAll_append, List.singleton_append, fillAll_cons,
      ← ih]
    simp [fillCases]

theorem fillHandlers_flatMap (hs : List (Handler Expr)) (cs : List Expr) :
    ((fillHandlers hs cs).1.flatMap fun h => [h.filter, h.body], (fillHandlers hs cs).2) =
      fillAll (hs.flatMap fun h => [h.filter, h.body]) cs := by
  induction hs generalizing cs with
  | nil => rfl
  | cons h hs ih =>
    rw [List.flatMap_cons, List.cons_append, List.cons_append, List.nil_append, fillAll_cons,
      fillAll_cons, ← ih]
    simp [fillHandlers]

/-- The payload keeps a field as the target of a store. -/
def KeepsField (d : Data Expr) (cs : List Expr) : Prop :=
  ∀ op t v, d = .assign op t v → t.hasKind .field = true → (fillOne t cs).1.hasKind .field = true

/-- Refilling a payload fills its operand slots in order. -/
theorem operands_refill {cs : List Expr} (h : KeepsField d cs) :
    operands (refill d cs) = (fillAll (operands d) cs).1 := by
  cases d with
  | assign o t v =>
    by_cases ht : t.hasKind .field = true
    · simp [refill, operands, ht, h o t v rfl ht, fillAll]
    · simp [refill, operands, ht, fillAll]
  | switch v arms e m =>
    have := fillCases_flatMap arms (fillOne v cs).2
    rw [Prod.ext_iff] at this
    simp only [refill, operands, List.cons_append, fillAll_cons, fillAll_append, ← this.1, ← this.2]
    rfl
  | protect b hs f g =>
    have := fillHandlers_flatMap hs (fillOne b cs).2
    rw [Prod.ext_iff] at this
    simp only [refill, operands, List.cons_append, fillAll_cons, fillAll_append, ← this.1, ← this.2]
    rfl
  | _ => rfl

/-- What is filled in was there before or is one of the new operands. -/
theorem mem_of_mem_fillAll {xs cs : List Expr} (h : c ∈ (fillAll xs cs).1) : c ∈ xs ∨ c ∈ cs := by
  induction xs generalizing cs with
  | nil => cases h
  | cons x xs ih =>
    rw [fillAll_cons, List.mem_cons] at h
    have hrest : ∀ y, y ∈ (fillOne x cs).2 → y ∈ cs := by
      intro y hy
      cases x <;> cases cs <;> first | exact hy | exact List.mem_cons_of_mem _ hy
    obtain rfl | h := h
    · cases x <;> cases cs <;> simp [fillOne]
    · obtain h | h := ih h
      · exact Or.inl (List.mem_cons_of_mem _ h)
      · exact Or.inr (hrest c h)

/-- The operands of a refilled payload are old ones or new ones. -/
theorem mem_of_mem_operands_refill {cs : List Expr} (h : c ∈ operands (refill d cs)) :
    c ∈ operands d ∨ c ∈ cs := by
  by_cases hk : ∃ o t v, d = .assign o t v ∧ t.hasKind .field = true ∧
      (fillOne t cs).1.hasKind .field = false
  · -- the target of a store is no operand any more, so only its value is left
    obtain ⟨o, t, v, rfl, ht, hne⟩ := hk
    have hv : operands (refill (.assign o t v) cs) = (fillAll [v] (fillOne t cs).2).1 := by
      simp [refill, operands, ht, hne, fillAll]
    rw [hv] at h
    have hmem : c ∈ (fillAll (operands (.assign o t v)) cs).1 := by
      simp only [operands, ht, if_true, fillAll_cons]
      exact List.mem_cons_of_mem _ h
    exact mem_of_mem_fillAll hmem
  · rw [operands_refill fun o t v hd ht => ?_] at h
    · exact mem_of_mem_fillAll h
    · cases hf : (fillOne t cs).1.hasKind .field with
      | true => rfl
      | false => exact absurd ⟨o, t, v, hd, ht, hf⟩ hk

theorem refill_kind (d : Data Expr) (cs : List Expr) : (refill d cs).kind = d.kind := by
  cases d <;> rfl

theorem refill_isUnlowered (d : Data Expr) (cs : List Expr) :
    (Expr.node i r t (refill d cs)).isUnlowered = (Expr.node i r t d).isUnlowered := by
  cases d <;> rfl

/-- Putting lowered operands into a lowered node leaves it lowered. -/
theorem IsLowered.refill {cs : List Expr} (h : IsLowered (.node i r t d)) (hcs : ∀ c ∈ cs, IsLowered c)
    (j q : Nat) : IsLowered (.node j q t (refill d cs)) := by
  rw [lowered_node] at h ⊢
  refine ⟨by rw [refill_isUnlowered]; exact h.1, fun c hc => ?_⟩
  obtain hc | hc := mem_of_mem_operands_refill hc
  · exact h.2 c hc
  · exact hcs c hc

/-! ### Suspension points -/

/-- A suspension point. -/
def suspends (n : Expr) : Bool := n.hasKind .await || n.hasKind .yield

theorem anyInside_absent (p : Expr → Bool) (hp : p .absent = false) :
    anyInside p .absent = false := by
  rw [anyInside]
  simp [hp, children]

theorem any_present {g : Expr → Bool} (hg : g .absent = false) (xs : List Expr) :
    (present xs).any g = xs.any g := by
  induction xs with
  | nil => rfl
  | cons x xs ih =>
    cases x with
    | absent => simpa [present, isAbsent, hg] using ih
    | node i r t d =>
      show (g (.node i r t d) || (present xs).any g) = (g (.node i r t d) || xs.any g)
      rw [ih]

/-- The search inside a node goes on in its operands, unless the node is a lambda. -/
theorem anyInside_node (p : Expr → Bool) (hp : p .absent = false) :
    anyInside p (.node i r t d) =
      (p (.node i r t d) || (d.kind != .lambda && (operands d).any (anyInside p))) := by
  rw [anyInside]
  have hattach : (children (.node i r t d)).attach.any (fun c => anyInside p c.1) =
      (operands d).any (anyInside p) := by
    rw [List.any_subtype fun x h => rfl, List.unattach_attach]
    exact any_present (anyInside_absent p hp) (operands d)
  rw [hattach]
  cases d <;> rfl

/-- Below the root the search for a property looks at the tree's own nodes. -/
theorem anyInside_eq (p : Expr → Bool) (hp : p .absent = false) (e : Expr) :
    anyInside p e = e.ownNodes.any p := by
  induction e using operandInduction with
  | absent => simp [anyInside_absent p hp]
  | node i r t d ih =>
    rw [anyInside_node p hp, ownNodes_node]
    by_cases hd : d.kind = .lambda
    · simp [hd]
    · have hops : (operands d).any (anyInside p) = (operands d).any fun c => c.ownNodes.any p := by
        rw [Bool.eq_iff_iff, List.any_eq_true, List.any_eq_true]
        exact exists_congr fun c => and_congr_right fun hc => by rw [ih c hc]
      rw [hops, if_neg hd, List.any_cons, List.any_flatMap, bne_iff_ne.mpr hd, Bool.true_and]

theorem any_node (p : Expr → Bool) (hp : p .absent = false) :
    any p (.node i r t d) = (p (.node i r t d) || (operands d).any fun c => c.ownNodes.any p) := by
  unfold any children
  rw [any_present (anyInside_absent p hp), funext (anyInside_eq p hp)]
  rfl

theorem isAsync_node : isAsync (.node i r t d) =
    ((Expr.node i r t d).suspends || (operands d).any fun c => c.ownNodes.any suspends) := by
  unfold isAsync
  exact any_node _ rfl

/-- A tree that does not suspend has no suspension point among its own nodes. -/
theorem not_suspends_of_not_isAsync (h : e.isAsync = false) {n : Expr} (hn : n ∈ e.ownNodes) :
    n.suspends = false := by
  cases e with
  | absent => simp at hn
  | node i r t d =>
    rw [isAsync_node, Bool.or_eq_false_iff, List.any_eq_false] at h
    rw [ownNodes_node, List.mem_cons] at hn
    obtain rfl | hn := hn
    · exact h.1
    · by_cases hd : d.kind = .lambda
      · simp [hd] at hn
      · simp only [hd, if_false, List.mem_flatMap] at hn
        obtain ⟨c, hc, hn⟩ := hn
        have := h.2 c hc
        rw [Bool.not_eq_true, List.any_eq_false] at this
        simpa using this n hn

theorem isUnlowered_of_not_lambda (hd : d.kind ≠ .lambda) :
    (Expr.node i r t d).isUnlowered = (Expr.node i r t d).suspends := by
  cases d <;> first | rfl | exact absurd rfl hd

/-- **A prepared tree without suspension points is lowered.** -/
theorem Prepared.lowered_of_own (hp : Prepared e) (hs : ∀ n ∈ e.ownNodes, n.suspends = false) :
    IsLowered e := by
  induction e using operandInduction with
  | absent => exact lowered_absent
  | node i r t d ih =>
    by_cases hd : d.kind = .lambda
    · exact (prepared_lambda hd).mp hp
    · refine lowered_node.mpr ⟨?_, fun c hc => ih c hc ((prepared_node hd).mp hp c hc) ?_⟩
      · rw [isUnlowered_of_not_lambda hd]
        have := hs (.node i r t d) self_mem_nodes
        cases d <;> exact this
      · intro n hn
        refine hs n ?_
        rw [ownNodes_node, if_neg hd]
        exact List.mem_cons_of_mem _ (List.mem_flatMap.mpr ⟨c, hc, hn⟩)

theorem Prepared.lowered (hp : Prepared e) (hs : e.isAsync = false) : IsLowered e :=
  hp.lowered_of_own fun _ hn => not_suspends_of_not_isAsync hs hn

end Resumable.Expr
