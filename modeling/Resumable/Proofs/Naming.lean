import Resumable.Proofs.Nesting

/-!
# `Proofs.Naming`: a lowered tree hosts its machines

Before a tree is lowered, nothing in it can belong to a machine that lowering is going to make: the numbers
of its variables and labels, and the identities of its nodes, were handed out before. So a tree that is
lowered as a whole hosts every machine that was recorded on the way.

**Contents**
* `Data.names`, `Expr.Named`: trees whose variables and labels have numbers that were handed out.
* `Expr.Named.foreign`: such a tree is code outside what comes later.
* `tree_bears`: whole trees.
-/

namespace Resumable

open Resumable.Expr

/-- The numbers of the variables and labels that a node itself names. -/
def Data.names : Data Expr → List Nat
  | .var v => [v.id]
  | .block vs _ => vs.map (·.id)
  | .assign _ t _ => t.asVar?.toList.map (·.id)
  | .loop _ brk cont => (brk.toList ++ cont.toList).map (·.id)
  | .protect _ hs _ _ => hs.filterMap fun h => h.var.map (·.id)
  | .goto _ l _ | .label l _ => [l.id]
  | .lambda _ ps _ _ _ => ps.map (·.id)
  | _ => []

/-- The numbers that a node names. -/
def Expr.names (e : Expr) : List Nat := e.data?.elim [] Data.names

/-- The variables and labels of a tree have numbers up to `k`. -/
def Expr.Named (k : Nat) (e : Expr) : Prop := ∀ n ∈ e.allNodes, ∀ i ∈ n.names, i ≤ k

instance (k : Nat) (e : Expr) : Decidable (e.Named k) :=
  inferInstanceAs (Decidable (∀ n ∈ e.allNodes, ∀ i ∈ n.names, i ≤ k))

section
variable {m : Watch} {q : Supply} {e out : Expr} {config : LowerConfig} {supply : Supply} {s : Lowering} {M : Machine}

/-- The names and the copies of the machine are none of those that were handed out. -/
structure Watch.New (m : Watch) (q : Supply) : Prop where
  below : q.Below m.limit
  marks : ∀ i, m.Marks i → q.names < i
  copies : ∀ r, m.copies r → q.refs < r

theorem Watch.New.bound (h : m.New q) {v : Var} (hv : v.id ≤ q.names) : m.Bound v where
  plain :=
    { foreign := fun ho => absurd hv (Nat.not_le.mpr (h.marks _ (.inl ho)))
      loose := fun hp => absurd hv (Nat.not_le.mpr (h.marks _ (.inr (.inl hp))))
      within := Nat.le_trans hv h.below.names }
  other hc := absurd hv (Nat.not_le.mpr (h.marks _ (.inr (.inr hc))))

theorem Watch.New.declarable (h : m.New q) {v : Var} (hv : v.id ≤ q.names) : m.Declarable v where
  foreign := (h.bound hv).plain.foreign
  within := (h.bound hv).plain.within
  type hp := absurd hp (h.bound hv).plain.loose

theorem Watch.New.ground (h : m.New q) {r : Nat} (hr : r ≤ q.refs) : m.Ground r where
  within := Nat.le_trans hr h.below.refs
  other hc := absurd hr (Nat.not_le.mpr (h.copies r hc))

/-- A node whose numbers were handed out. -/
theorem Watch.New.ordinary (h : m.New q) {r : Nat} (hr : r ≤ q.refs) {d : Data Expr} (hd : ∀ i ∈ d.names, i ≤ q.names) :
    m.Ordinary r d := by
  have hplain : ∀ v : Var, v.id ∈ d.names → m.Plain v.id := fun v hv => (h.bound (hd _ hv)).plain
  cases d with
  | var v => exact hplain v (by simp [Data.names])
  | block vs xs => exact ⟨fun v hv => h.declarable (hd _ (List.mem_map_of_mem hv)), h.ground hr⟩
  | assign op t x => exact fun v hv => hplain v (by simp [Data.names, hv])
  | protect body hs fin fault =>
    exact fun c hc v hv => hplain v (List.mem_filterMap.mpr ⟨c, hc, by simp [hv]⟩)
  | label l x => exact (h.bound (v := ⟨l.id, l.name, l.type⟩) (hd _ (by simp [Data.names]))).plain
  | lambda name ps body kind fallible => exact fun v hv => h.bound (hd _ (List.mem_map_of_mem hv))
  | _ => trivial

/-- **A tree whose numbers were handed out** is code outside a machine that comes later. -/
theorem Expr.Named.foreign (hm : m.New q) (hn : e.Named q.names) (hr : ∀ n ∈ e.allNodes, n.ref ≤ q.refs) :
    m.Foreign false e := by
  induction e using operandInduction with
  | absent => exact .absent
  | node i r t d ih =>
    have hself : Expr.node i r t d ∈ (Expr.node i r t d).allNodes := by simp [allNodes_node]
    exact .node (fun _ => hm.ground (hr _ hself)) (hm.ordinary (hr _ hself) (hn _ hself)) fun c hc =>
      ih c hc (fun n h => hn n (mem_allNodes_of_operand hc h)) fun n h => hr n (mem_allNodes_of_operand hc h)

/-- A machine that is made of numbers which are never handed out. -/
def Watch.nobody (supply : Supply) (k : Nat) : Watch where
  state := ⟨k + 1, "", .int⟩
  resume := ⟨k + 2, "", .int⟩
  continuation := ⟨k + 3, "", .thunk⟩
  cell := ⟨k + 4, "", .int⟩
  leave := k + 5
  parked _ := False
  good n := n = 0
  clean _ := False
  gone _ := False
  copies _ := False
  limit := supply

theorem Watch.nobody_marks {k i : Nat} (h : (nobody supply k).Marks i) : k < i := by
  obtain (rfl | rfl | rfl | rfl) | h | rfl := h <;> simp_all [nobody]

theorem Watch.nobody_fair (k : Nat) : (nobody supply k).Fair where
  start := rfl
  minus := by rintro (h | h) <;> cases h
  disjoint _ _ h := h
  parked _ h := h.elim
  apart := by simp [nobody]
  types := ⟨rfl, rfl⟩

/-- Lowering a whole tree is rewriting it, with some reports. -/
theorem Lower.tree_run {s₂ : Lowering} (h : Lower.tree e config s = .ok out s₂) (hM : M ∈ s₂.machines)
    (hs : M ∉ s.machines) : ∃ s₁ s', s₁.supply = s.supply ∧ M ∉ s₁.machines ∧
      e.rewrite Lower.step config s₁ = .ok out s' ∧ M ∈ s'.machines := by
  have hreport : ∀ {code loc msg u s₁ s'}, Lower.report code loc msg config s₁ = .ok u s' →
      s'.supply = s₁.supply ∧ s'.machines = s₁.machines := by
    intro code loc msg u s₁ s' h
    cases h
    exact ⟨rfl, rfl⟩
  unfold Lower.tree at h
  dsimp only at h
  split at h
  · obtain ⟨_, s₁, h1, h⟩ := exists_of_bind h
    cases h
    exact absurd ((hreport h1).2 ▸ hM) hs
  · -- the report about suspension points outside of any lambda comes first
    obtain ⟨s₁, hsupply, hmachines, h⟩ : ∃ s₁ : Lowering, s₁.supply = s.supply ∧ s₁.machines = s.machines ∧
        (do let out ← Lower.nested e
            if (← get).machines.isEmpty && !(← Lower.hasErrors) then
              Lower.report .notLambda ⟨e.lambdaName, e.id⟩ (e.lambdaName ++ " holds no async or iterator lambda")
            return out) config s₁ = .ok out s₂ := by
      split at h
      · obtain ⟨_, s₁, h1, h⟩ := exists_of_bind h
        exact ⟨s₁, (hreport h1).1, (hreport h1).2, h⟩
      · exact ⟨s, rfl, rfl, h⟩
    obtain ⟨y, s', hrun, h⟩ := exists_of_bind h
    refine ⟨s₁, s', hsupply, hmachines ▸ hs, ?_⟩
    obtain ⟨_, _, hget, h⟩ := exists_of_bind h
    cases hget
    obtain ⟨_, _, hget, h⟩ := exists_of_bind h
    cases hget
    split at h
    · obtain ⟨_, s₃, h3, h⟩ := exists_of_bind h
      cases h
      exact ⟨hrun, (hreport h3).2 ▸ hM⟩
    · cases h
      exact ⟨hrun, hM⟩

/-- **A lowered tree** hosts every async machine with a dispatch loop that was recorded. -/
theorem tree_bears (hn : e.Named supply.names) (hr : ∀ n ∈ e.allNodes, n.ref ≤ supply.refs)
    (h : Lower.tree e config (.start config supply) = .ok out s) (hM : M ∈ s.machines) (hkind : M.kind = .async)
    (hslot : M.stateVar.isSome = true) : ∃ m : Watch, m.Suits M ∧ m.Fair ∧ ¬ m.gone m.state.id ∧ m.Foreign true out := by
  obtain ⟨s₁, s', hsupply, hs₁, hrun, hM'⟩ := Lower.tree_run h hM (by simp [Lowering.start])
  have hbelow := ((Lower.keeps_rewrite e Lower.step inferInstance).later config s₁ out s' hrun).2
  have hstart : s₁.supply = supply := hsupply
  have hnew : (Watch.nobody supply s'.supply.names).New supply :=
    { below := .refl _
      marks := fun i hi => Nat.lt_of_le_of_lt (hstart ▸ hbelow.names) (Watch.nobody_marks hi)
      copies := fun _ h => h.elim }
  have hready : (Watch.nobody supply s'.supply.names).Ready s₁.supply :=
    ⟨Watch.nobody_fair _, hstart.symm, fun _ h => h.elim⟩
  obtain hM' | ⟨-, m, hborn, hm⟩ := rewrite_bears hkind hslot e _ s₁ out s' hready
    (fun i hi => .inr (Watch.nobody_marks hi)) (hn.foreign hnew hr) hrun hM'
  · exact absurd hM' hs₁
  · exact ⟨m, hborn.suits, hborn.ready.fair, hborn.kept, hm⟩

end

end Resumable
