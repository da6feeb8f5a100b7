import Resumable.Lower.Check
import Resumable.Proofs.Naming

/-!
# `Proofs.Steering`: code that sends a machine to known states only

Some variables steer machines: they hold the number of the next state, or of a state to go on in later. A
`Helm` names them, together with the numbers that are live, which is to say that they may come to be
dispatched. Code that heeds the helm stores into these variables only what it may: a literal, or what
another such variable holds. Which literals these are is up to the place where the code stands. In the arm
of a dispatch switch, what may be stored is live if the number of the arm is.

**Contents**
* `Helm`, `Licence`: the variables, and what code may do to them.
* `Heeds`: trees that do to them what they may.
* `Heeds.mono`, `Heeds.parts`, `Heeds.storing`: wider licences, operands, and what a statement stores.
* `Named.heeds`: a tree that knows nothing of the variables.
-/

namespace Resumable

open Resumable.Expr

/-- The variables that steer machines, by their numbers, and the numbers of states that are live. -/
structure Helm where
  steers : Nat → Prop
  live : Int → Prop

/-- What code may do to the variables that steer: turn on one of them, store a literal, or read and copy
them. -/
structure Licence where
  turns : Prop := False
  stores : Var → Int → Prop := fun _ _ => False
  reads : Prop := False

namespace Licence

/-- The licence of code that has nothing to do with the variables. -/
def none : Licence := {}

/-- What one licence allows, the other one does. -/
structure Within (z z' : Licence) : Prop where
  turns : z.turns → z'.turns
  stores : ∀ v n, z.stores v n → z'.stores v n
  reads : z.reads → z'.reads

theorem Within.refl (z : Licence) : z.Within z := ⟨id, fun _ _ => id, id⟩

theorem none_within (z : Licence) : none.Within z := ⟨False.elim, fun _ _ => False.elim, False.elim⟩

end Licence

namespace Helm

variable (h : Helm)

/-- The licence of a function that may run a dispatch loop: what it stores itself is live. -/
def body : Licence := ⟨True, fun _ n => h.live n, True⟩

/-- The licence of the arm for the number `n`: what it stores is live if `n` is. -/
def arm (n : Int) : Licence := ⟨False, fun _ k => h.live n → h.live k, True⟩

/-- A variable that may be declared. -/
def Typed (v : Var) : Prop := h.steers v.id → v.type = .int

/-- A variable that may be read. -/
def Admits (z : Licence) (v : Var) : Prop := h.steers v.id → z.reads ∧ v.type = .int

/-- What a node does that stores into none of the variables. -/
def Plain (z : Licence) : Data Expr → Prop
  | .var v => h.Admits z v
  | .block vs _ => ∀ v ∈ vs, h.Typed v
  | .assign _ t _ => ∀ v, t.asVar? = some v → ¬ h.steers v.id
  | .protect _ hs _ _ => ∀ c ∈ hs, ∀ v, c.var = some v → ¬ h.steers v.id
  | .lambda _ ps _ _ _ => ∀ v ∈ ps, ¬ h.steers v.id
  | _ => True

/-- A value that may be stored into a variable that steers. -/
def Sets (z : Licence) (v : Var) (x : Expr) : Prop :=
  Watch.Number (z.stores v) x ∨ z.reads ∧ ∃ u, h.steers u.id ∧ u.type = .int ∧ Watch.Reads u x

end Helm

/-- The tree does to the variables that steer what the licence says. A function has a licence of its own,
and so has every arm of a switch over one of the variables. -/
inductive Heeds (h : Helm) : Licence → Expr → Prop
  | absent {z : Licence} : Heeds h z .absent
  | node {z : Licence} {i r : Nat} {t : Ty} {d : Data Expr} (hd : h.Plain z d) (hk : d.kind ≠ .lambda)
    (hc : ∀ c ∈ operands d, Heeds h z c) : Heeds h z (.node i r t d)
  | lambda {z : Licence} {i r : Nat} {t : Ty} {name : String} {params : List Var} {body : Expr} {kind : LambdaKind}
    {fallible : Bool} (hp : ∀ v ∈ params, ¬ h.steers v.id) (hb : Heeds h h.body body) :
    Heeds h z (.node i r t (.lambda name params body kind fallible))
  | store {z : Licence} {i r i' r' : Nat} {t t' : Ty} {v : Var} {x : Expr} (hv : h.steers v.id) (ht : v.type = .int)
    (hx : h.Sets z v x) : Heeds h z (.node i r t (.assign .plain (.node i' r' t' (.var v)) x))
  | turn {z : Licence} {i r i' r' : Nat} {t t' : Ty} {v : Var} {cases : List (List Expr × Expr)} {other : Expr}
    {number : List Expr → Int} (hz : z.turns) (hv : h.steers v.id) (ht : v.type = .int)
    (hn : ∀ arm ∈ cases, ∃ test, arm.1 = [test] ∧ Watch.Number (· = number arm.1) test)
    (ha : ∀ arm ∈ cases, Heeds h (h.arm (number arm.1)) arm.2) (ho : Heeds h z other) :
    Heeds h z (.node i r t (.switch (.node i' r' t' (.var v)) cases other .none))

section
variable {h : Helm} {z z' : Licence} {e x : Expr} {i r : Nat} {t : Ty} {d : Data Expr} {v : Var}

theorem Helm.Sets.mono (hx : h.Sets z v x) (hz : z.Within z') : h.Sets z' v x :=
  hx.imp (·.mono (hz.stores v)) (.imp_left hz.reads)

theorem Helm.Admits.mono (hv : h.Admits z v) (hz : z.reads → z'.reads) : h.Admits z' v :=
  fun hs => (hv hs).imp_left hz

theorem Helm.Plain.mono (hd : h.Plain z d) (hz : z.reads → z'.reads) : h.Plain z' d := by
  cases d with
  | var v => exact Admits.mono hd hz
  | _ => exact hd

/-- A wider licence. -/
theorem Heeds.mono (he : Heeds h z e) (hz : z.Within z') : Heeds h z' e := by
  induction he generalizing z' with
  | absent => exact .absent
  | node hd hk _ ih => exact .node (hd.mono hz.reads) hk fun c hc => ih c hc hz
  | lambda hp hb => exact .lambda hp hb
  | store hv ht hx => exact .store hv ht (hx.mono hz)
  | turn ht hv hi hn ha _ _ iho => exact .turn (hz.turns ht) hv hi hn ha (iho hz)

theorem Heeds.any (he : Heeds h .none e) (z : Licence) : Heeds h z e := he.mono (Licence.none_within z)

theorem Watch.Number.heeds {P : Int → Prop} (hx : Watch.Number P x) : Heeds h z x := by
  unfold Watch.Number at hx
  split at hx
  · exact .node trivial (by simp [Data.kind]) (by simp [operands])
  · cases hx

/-- What may be stored is an integer that stays what it is. -/
theorem Helm.Sets.heeds (hx : h.Sets z v x) : Heeds h z x ∧ x.type = .int := by
  obtain hx | ⟨hz, u, hu, ht, hx⟩ := hx
  · refine ⟨hx.heeds, ?_⟩
    unfold Watch.Number at hx
    split at hx
    · exact hx.1
    · cases hx
  · unfold Watch.Reads at hx
    split at hx
    · obtain ⟨rfl, rfl⟩ := hx
      exact ⟨.node (fun _ => ⟨hz, ht⟩) (by simp [Data.kind]) (by simp [operands]), rfl⟩
    · cases hx

/-- A node with another number, identity and type. -/
theorem Heeds.retag {i' r' : Nat} {t' : Ty} (he : Heeds h z (.node i r t d)) : Heeds h z (.node i' r' t' d) := by
  cases he with
  | node hd hk hc => exact .node hd hk hc
  | lambda hp hb => exact .lambda hp hb
  | store hv ht hx => exact .store hv ht hx
  | turn hz hv ht hn ha ho => exact .turn hz hv ht hn ha ho

/-- Code that has nothing to do with the variables is made of such code. -/
theorem Heeds.parts (he : Heeds h .none (.node i r t d)) (hd : d.kind ≠ .lambda) :
    h.Plain .none d ∧ ∀ c ∈ operands d, Heeds h .none c := by
  cases he with
  | node hp _ hc => exact ⟨hp, hc⟩
  | lambda => exact absurd rfl hd
  | store _ _ hx =>
    obtain hx | hx := hx
    · unfold Watch.Number at hx
      split at hx
      · exact hx.2.2.elim
      · cases hx
    · exact hx.1.elim
  | turn hz => exact hz.elim

/-- Code that has nothing to do with the variables is none of them. -/
theorem Heeds.aside (he : Heeds h .none e) (hv : e.asVar? = some v) : ¬ h.steers v.id := by
  unfold asVar? at hv
  split at hv
  · cases hv
    exact fun hs => ((he.parts (by simp [Data.kind])).1 hs).1.elim
  · cases hv

/-- A payload that is refilled does to the variables what it did. -/
theorem Helm.Plain.refill {cs : List Expr} (hd : h.Plain .none d)
    (hcs : ∀ c ∈ cs, ∀ v, c.asVar? = some v → ¬ h.steers v.id) : h.Plain z (refill d cs) := by
  have hmono := hd.mono (Licence.none_within z).reads
  cases d with
  | assign op target value =>
    obtain ⟨target', value', heq, htarget⟩ := Build.refill_assign op target value cs
    rw [heq]
    intro v hv
    obtain rfl | hmem := htarget
    · exact hd v hv
    · exact hcs _ hmem v hv
  | protect body hs fin fault =>
    intro g hg v hv
    obtain ⟨g', hg', heq⟩ := Build.var_of_mem_fillHandlers hg
    exact hd g' hg' v (heq ▸ hv)
  | _ => exact hmono

theorem Heeds.lambda_parts {name : String} {params : List Var} {body : Expr} {kind : LambdaKind} {fallible : Bool}
    (he : Heeds h z (.node i r t (.lambda name params body kind fallible))) :
    (∀ v ∈ params, ¬ h.steers v.id) ∧ Heeds h h.body body := by
  cases he with
  | node _ hk => exact absurd rfl hk
  | lambda hp hb => exact ⟨hp, hb⟩

/-- What a tree stores are literals of its own. -/
theorem storedStates_operand (m : Machine) {c : Expr} (hd : d.kind ≠ .lambda) (hc : c ∈ operands d) {n : Int}
    (hn : n ∈ m.storedStates c) : n ∈ m.storedStates (.node i r t d) := by
  unfold Machine.storedStates at hn ⊢
  obtain ⟨y, hy, heq⟩ := List.mem_filterMap.mp hn
  refine List.mem_filterMap.mpr ⟨y, ?_, heq⟩
  change y ∈ (Expr.node i r t d).ownNodes
  rw [ownNodes_node, if_neg hd]
  exact List.mem_cons_of_mem _ (List.mem_flatMap.mpr ⟨c, hc, hy⟩)

/-- **The checker sees every literal that is stored.** -/
theorem Heeds.storing {m : Machine} (he : Heeds h z e) (hz : ¬ z.turns)
    (hm : ∀ v n, z.stores v n → m.stateVar = some v ∨ m.resumeVar = some v) :
    Heeds h { z with stores := fun v n => z.stores v n ∧ n ∈ m.storedStates e } e := by
  induction he with
  | absent => exact .absent
  | @node z i r t d hd hk _ ih =>
    refine .node (hd.mono id) hk fun c hc => (ih c hc hz hm).mono ⟨id, fun v n hn => ⟨hn.1, ?_⟩, id⟩
    exact storedStates_operand m hk hc hn.2
  | lambda hp hb => exact .lambda hp hb
  | @store z i r i' r' t t' v x hv ht hx =>
    refine .store hv ht (hx.imp_left fun hx => ?_)
    unfold Watch.Number at hx ⊢
    split at hx
    · rename_i i'' r'' u w n _
      obtain ⟨rfl, rfl, hn⟩ := hx
      refine ⟨rfl, rfl, hn, ?_⟩
      unfold Machine.storedStates
      refine List.mem_filterMap.mpr ⟨_, self_mem_nodes, ?_⟩
      have hslot : (m.stateVar == some v || m.resumeVar == some v) = true := by
        rw [Bool.or_eq_true, beq_iff_eq, beq_iff_eq]
        exact hm v n hn
      show (if (m.stateVar == some v || m.resumeVar == some v) = true then some n else none) = some n
      rw [if_pos hslot]
    · cases hx
  | turn ht => exact absurd ht hz

/-- The numbers of a tree that was named before belong to none of the variables. -/
theorem Expr.Named.plain {k : Nat} (he : (Expr.node i r t d).Named k) (hk : ∀ i, h.steers i → k < i) : h.Plain z d := by
  have hself : ∀ j ∈ d.names, ¬ h.steers j := fun j hj hs =>
    absurd (hk j hs) (Nat.not_lt.mpr (he (.node i r t d) (by simp [allNodes_node]) j hj))
  cases d with
  | var v => exact fun hs => absurd hs (hself v.id (by simp [Data.names]))
  | block vs xs => exact fun v hv hs => absurd hs (hself v.id (List.mem_map_of_mem hv))
  | assign op target x => exact fun v hv => hself v.id (by simp [Data.names, hv])
  | protect body hs fin fault =>
    exact fun c hc v hv => hself v.id (List.mem_filterMap.mpr ⟨c, hc, by simp [hv]⟩)
  | lambda name ps body kind fallible => exact fun v hv => hself v.id (List.mem_map_of_mem hv)
  | _ => trivial

/-- The operands of a tree that was named before. -/
theorem Expr.Named.operand {k : Nat} {c : Expr} (he : (Expr.node i r t d).Named k) (hc : c ∈ operands d) : c.Named k :=
  fun n hn => he n (mem_allNodes_of_operand hc hn)

/-- A node is as plain as its payload and its operands are. -/
theorem Helm.Plain.heeds (hd : h.Plain z d) (hc : ∀ c ∈ operands d, ∀ z, Heeds h z c) : Heeds h z (.node i r t d) := by
  by_cases hk : d.kind = .lambda
  · cases d with
    | lambda name ps body kind fallible => exact .lambda hd (hc body (by simp [operands]) _)
    | _ => cases hk
  · exact .node hd hk fun c hmem => hc c hmem z

/-- **A tree that was named before** has nothing to do with the variables. -/
theorem Expr.Named.heeds {k : Nat} (he : e.Named k) (hk : ∀ i, h.steers i → k < i) : Heeds h z e := by
  induction e using operandInduction generalizing z with
  | absent => exact .absent
  | node i r t d ih => exact (he.plain hk).heeds fun c hc _ => ih c hc (he.operand hc)

end

end Resumable
