import Resumable.Proofs.Scoping

/-!
# `Proofs.Standing`: where a node stands

A node of a tree stands under some blocks, with the variables in scope that these blocks declare (`Γ`) and,
after a placement, with those that are placed in them (`Δ`). Here it is worked out what a sound placement
means for each node where it stands: what it uses is in `Δ`, what is stored in vain is in `Γ` alone, and a
variable that a block gets from outside is in `Γ` and stored first.

**Contents**
* `Tame`: the trees that are about to be rescoped.
* `Stands`, with a rule for the operands of every form of a node.
* `Stands.shared`, `Stands.dropped`, `Stands.fresh`, `Stands.gets`: uses, dropped stores and blocks.
-/

namespace Resumable.Scopes

open Resumable.Expr

/-- Trees of which the variables can be moved: scoped ones without labels, in which a number belongs to one
variable. -/
structure Tame (e : Expr) : Prop extends Scoped e where
  unlabelled : ∀ n ∈ e.allNodes, n.hasKind .label = false
  named : ∀ v ∈ e.declarations ++ e.caughtVars, ∀ u ∈ e.declarations ++ e.caughtVars, v.id = u.id → v = u

/-- The node `e` of the tree `root` stands under the blocks `π`, with the variables `Γ` in scope, and with
`Δ` in scope when the variables are placed by `p`. -/
structure Stands (p : Placement) (root : Expr) (π : List Expr) (Γ Δ : List Var) (e : Expr) : Prop where
  walked : walk π e ⊆ walk [] root
  closed : e.ClosedIn Γ
  outer : ∀ {b v}, b ∈ π → v ∈ b.blockVars → v ∈ Γ
  moved : ∀ {v}, v ∈ root.declarations → (v ∈ Δ ↔ ∃ b ∈ π, v ∈ p.placed b)
  others : ∀ {v}, v ∈ Γ → v ∉ root.declarations → v ∈ Δ
  known : ∀ {v}, v ∈ Γ ∨ v ∈ Δ → v ∈ root.declarations ++ root.caughtVars

variable {p : Placement} {root e x c : Expr} {π : List Expr} {Γ Δ vs : List Var} {d : Data Expr} {i r : Nat}
  {t : Ty} {xs : List Expr} {v : Var}

/-! ### Closed nodes -/

theorem closedIn_block (h : ClosedIn Γ (.node i r t (.block vs xs))) (hx : x ∈ xs) : ClosedIn (vs ++ Γ) x := by
  cases h with
  | block statements => exact statements x hx
  | plain kind => exact absurd rfl kind.1

theorem closedIn_operand (h : ClosedIn Γ (.node i r t d))
    (hd : d.kind ≠ .block ∧ d.kind ≠ .try ∧ d.kind ≠ .lambda) (hc : c ∈ operands d) : ClosedIn Γ c := by
  cases h with
  | plain _ _ operands => exact operands c hc
  | block => exact absurd rfl hd.1
  | protect => exact absurd rfl hd.2.1
  | lambda => exact absurd rfl hd.2.2

theorem closedIn_use (h : ClosedIn Γ e) (hv : e.touches v = true) : v ∈ Γ := by
  cases h with
  | plain _ uses => exact uses v hv
  | _ => simp [touches, isRef, storesTo, asVar?] at hv

theorem closedIn_var (h : v ∈ Γ) : ClosedIn Γ (.node i r t (.var v)) := by
  refine .plain (by simp [Data.kind]) (fun w hw => ?_) (by simp [operands])
  have : v = w := by simpa [touches, isRef, storesTo, asVar?] using hw
  exact this ▸ h

theorem closedIn_store {j s : Nat} {u : Ty} (h : v ∈ Γ) (hx : ClosedIn Γ x) :
    ClosedIn Γ (.node i r t (.assign .plain (.node j s u (.var v)) x)) := by
  refine .plain (by simp [Data.kind]) (fun w hw => ?_) fun c hc => ?_
  · have : v = w := by simpa [touches, isRef, storesTo, asVar?] using hw
    exact this ▸ h
  · obtain ⟨hfield, -⟩ | rfl := mem_operands_assign.mp hc
    · cases hfield
    · exact hx

/-- Nodes that have to do with no variable themselves. -/
theorem closedIn_other (hd : d.kind ≠ .block ∧ d.kind ≠ .try ∧ d.kind ≠ .lambda)
    (hv : d.kind ≠ .variable ∧ d.kind ≠ .assign) (hc : ∀ c ∈ operands d, ClosedIn Γ c) :
    ClosedIn Γ (.node i r t d) := by
  refine .plain hd (fun v htouch => ?_) hc
  cases d <;> simp_all [touches, isRef, storesTo, asVar?, Data.kind]

theorem closedIn_constant (c : Option Value) : ClosedIn Γ (.node i r t (.constant c)) :=
  closedIn_other (by simp [Data.kind]) (by simp [Data.kind]) (by simp [operands])

/-! ### Rules -/

namespace Stands

theorem start (h : Tame root) : Stands p root [] [] [] root where
  walked := List.Subset.refl _
  closed := h.closed
  outer := by simp
  moved := by simp
  others := by simp
  known := by simp

theorem mem (h : Stands p root π Γ Δ (.node i r t d)) : .node i r t d ∈ root.allNodes :=
  mem_allNodes_of_mem_walk (h.walked self_mem_walk)

theorem mem_of_path (h : Stands p root π Γ Δ (.node i r t d)) {b : Expr} (hb : b ∈ π) : b ∈ root.allNodes :=
  (mem_allNodes_of_mem_path (h.walked self_mem_walk) hb).resolve_left (by simp)

theorem allNodes_subset (h : Stands p root π Γ Δ e) : e.allNodes ⊆ root.allNodes := by
  intro n hn
  rw [← map_walk π e] at hn
  obtain ⟨⟨around, m⟩, hm, rfl⟩ := List.mem_map.mp hn
  exact mem_allNodes_of_mem_walk (h.walked hm)

/-- An operand stands where its node does, unless the node opens a scope. -/
theorem operand (h : Stands p root π Γ Δ (.node i r t d))
    (hd : d.kind ≠ .block ∧ d.kind ≠ .try ∧ d.kind ≠ .lambda) (hc : c ∈ operands d) : Stands p root π Γ Δ c where
  walked := by
    have hsub : walk (inside π (.node i r t d)) c ⊆ walk π (.node i r t d) := walk_operand hc
    rw [inside_of_not ⟨hd.1, hd.2.2⟩] at hsub
    exact List.Subset.trans hsub h.walked
  closed := closedIn_operand h.closed hd hc
  outer := h.outer
  moved := h.moved
  others := h.others
  known := h.known

/-- A statement of a block stands inside the block. -/
theorem statement (hplan : Plan p root) (h : Stands p root π Γ Δ (.node i r t (.block vs xs))) (hx : x ∈ xs) :
    Stands p root (π ++ [.node i r t (.block vs xs)]) (vs ++ Γ) (p.placed (.node i r t (.block vs xs)) ++ Δ)
      x where
  walked _ hn := h.walked (walk_operand hx hn)
  closed := closedIn_block h.closed hx
  outer {b v} hb hv := by
    obtain hb | hb := List.mem_append.mp hb
    · exact List.mem_append_right _ (h.outer hb hv)
    · cases List.mem_singleton.mp hb
      exact List.mem_append_left _ hv
  moved {v} hv := by
    rw [List.mem_append, h.moved hv]
    simp [or_and_right, exists_or, or_comm]
  others {v} hv hn := by
    obtain hv | hv := List.mem_append.mp hv
    · exact absurd (mem_declarations_of_mem h.mem hv) hn
    · exact List.mem_append_right _ (h.others hv hn)
  known {v} hv := by
    rw [List.mem_append, List.mem_append] at hv
    obtain (hv | hv) | hv | hv := hv
    · exact List.mem_append_left _ (mem_declarations_of_mem h.mem hv)
    · exact h.known (Or.inl hv)
    · exact List.mem_append_left _ (hplan.known h.mem hv)
    · exact h.known (Or.inr hv)

section Protect

variable {body fin fault : Expr} {hs : List (Handler Expr)} {g : Handler Expr}

theorem part (h : Stands p root π Γ Δ (.node i r t (.protect body hs fin fault)))
    (hc : c ∈ operands (.protect body hs fin fault)) (hclosed : ClosedIn Γ c) : Stands p root π Γ Δ c where
  walked _ hn := h.walked (walk_operand hc hn)
  closed := hclosed
  outer := h.outer
  moved := h.moved
  others := h.others
  known := h.known

/-- The parts of a protected body stand where it does. -/
theorem parts (h : Stands p root π Γ Δ (.node i r t (.protect body hs fin fault))) :
    Stands p root π Γ Δ body ∧ Stands p root π Γ Δ fin ∧ Stands p root π Γ Δ fault := by
  have hclosed := h.closed
  cases hclosed with
  | protect inBody _ _ inFin inFault =>
    exact ⟨h.part (mem_operands_protect.mpr (by simp)) inBody,
      h.part (mem_operands_protect.mpr (by simp)) inFin,
      h.part (mem_operands_protect.mpr (by simp)) inFault⟩
  | plain kind => exact absurd rfl kind.2.1

theorem caught (h : Stands p root π Γ Δ (.node i r t (.protect body hs fin fault))) (hg : g ∈ hs)
    (hv : v ∈ g.var.toList) : v ∈ root.caughtVars :=
  List.mem_flatMap.mpr ⟨_, h.mem, List.mem_filterMap.mpr ⟨g, hg, Option.mem_toList.mp hv⟩⟩

/-- In a handler the variable that it binds is in scope. -/
theorem handler (hroot : Tame root) (h : Stands p root π Γ Δ (.node i r t (.protect body hs fin fault)))
    (hg : g ∈ hs) (hc : c = g.filter ∨ c = g.body) :
    Stands p root π (g.var.toList ++ Γ) (g.var.toList ++ Δ) c where
  walked := by
    have hmem : c ∈ operands (.protect body hs fin fault) := mem_operands_protect.mpr (Or.inr (Or.inl ⟨g, hg, hc⟩))
    exact List.Subset.trans (walk_operand hmem) h.walked
  closed := by
    have hclosed := h.closed
    cases hclosed with
    | protect _ inFilters inHandlers =>
      obtain rfl | rfl := hc
      · exact inFilters g hg
      · exact inHandlers g hg
    | plain kind => exact absurd rfl kind.2.1
  outer hb hv := List.mem_append_right _ (h.outer hb hv)
  moved {v} hv := by
    have hcaught : v ∉ g.var.toList := fun hin => hroot.apart v (h.caught hg hin) hv
    rw [List.mem_append, h.moved hv]
    simp [hcaught]
  others {v} hv hn := by
    obtain hv | hv := List.mem_append.mp hv
    · exact List.mem_append_left _ hv
    · exact List.mem_append_right _ (h.others hv hn)
  known {v} hv := by
    rw [List.mem_append, List.mem_append] at hv
    obtain (hv | hv) | hv | hv := hv
    · exact List.mem_append_right _ (h.caught hg hv)
    · exact h.known (Or.inl hv)
    · exact List.mem_append_right _ (h.caught hg hv)
    · exact h.known (Or.inr hv)

end Protect

/-! ### Uses -/

section Uses

variable (hplan : Plan p root) (h : Stands p root π Γ Δ (.node i r t d))
include hplan h

/-- What is read, and what is not stored in vain, is in scope afterwards. -/
theorem shared (hv : (Expr.node i r t d).touches v = true)
    (hkept : (Expr.node i r t d).plainlyStores v = true → v ∉ p.dropped) : v ∈ Δ := by
  by_cases hd : v ∈ root.declarations
  · exact (h.moved hd).mpr (hplan.around (h.walked self_mem_walk) hv hd hkept)
  · exact h.others (closedIn_use h.closed hv) hd

/-- What is stored in vain is in scope before only. -/
theorem dropped (hv : (Expr.node i r t d).touches v = true) (hd : v ∈ p.dropped) : v ∈ Γ ∧ v ∉ Δ := by
  refine ⟨closedIn_use h.closed hv, fun hin => ?_⟩
  obtain ⟨b, hb, hvb⟩ := (h.moved (hplan.unread hd)).mp hin
  exact hplan.dropped hd (h.mem_of_path hb) hvb

end Uses

section Blocks

variable (hroot : Tame root) (hplan : Plan p root) (h : Stands p root π Γ Δ (.node i r t (.block vs xs)))
include hroot hplan h

/-- A variable that a block declares, before or after, is not in scope afterwards where the block stands. -/
theorem fresh (hv : v ∈ vs ∨ v ∈ p.placed (.node i r t (.block vs xs))) : v ∉ Δ := by
  intro hin
  have hself := h.walked self_mem_walk
  have hd : v ∈ root.declarations := hv.elim (mem_declarations_of_mem h.mem) (hplan.known h.mem)
  obtain ⟨b, hb, hvb⟩ := (h.moved hd).mp hin
  obtain ⟨hlt, outer, hout⟩ := (around_of_mem_walk hself hb).resolve_left (by simp)
  obtain hv | hv := hv
  · -- the block declares `v`, which is placed further out, though declared around the place
    by_cases hown : v ∈ b.blockVars
    · have heq := eq_of_mem_blockVars hroot.once (h.mem_of_path hb) h.mem hown hv
      rw [heq] at hlt
      exact absurd hlt (Nat.lt_irrefl _)
    · obtain ⟨_, a, ha, hva⟩ := hplan.moved hout hvb hown
      obtain ⟨hlt', outer', hout'⟩ := (around_of_mem_walk hout ha).resolve_left (by simp)
      have heq := eq_of_mem_blockVars hroot.once (mem_allNodes_of_mem_walk hout') h.mem hva hv
      rw [heq] at hlt'
      exact absurd (Nat.lt_trans hlt hlt') (Nat.lt_irrefl _)
  · have heq := hplan.unique (h.mem_of_path hb) h.mem hvb hv
    rw [heq] at hlt
    exact absurd hlt (Nat.lt_irrefl _)

omit hroot in
/-- A variable that a block gets was in scope, and the block stores it first. -/
theorem gets (hv : v ∈ p.placed (.node i r t (.block vs xs))) (hn : v ∉ vs) :
    v ∈ Γ ∧ definesFirst v xs = true := by
  obtain ⟨hfirst, b, hb, hvb⟩ := hplan.moved (h.walked self_mem_walk) hv hn
  exact ⟨h.outer hb hvb, hfirst⟩

end Blocks

end Stands

end Resumable.Scopes
