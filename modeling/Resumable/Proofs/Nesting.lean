import Resumable.Proofs.Minding

/-!
# `Proofs.Nesting`: lowering a tree minds every machine

The lambdas of a tree are lowered from the inside out. What was code outside a machine before stays so
whatever is lowered around it and beside it; and once the lambda that the machine comes from is lowered,
the tree hosts it up to the end.

**Contents**
* `Minds`, `Bears`: what lowering a part of a tree does to a machine that stands outside of it, and to one
  that comes from it.
* `mapM_minds`, `mapM_bears`: the operands of a node.
* `rewrite_minds`, `rewrite_bears`: whole trees.
-/

namespace Resumable

open Resumable.Expr Split Build

/-- What lowering does to a machine that `c` stands outside of. -/
def Minds (config : LowerConfig) (x : Lower Expr) (c : Expr) : Prop :=
  ∀ (m : Watch) s y s', m.Ready s.supply → m.Aside s.supply s'.supply → m.Foreign false c →
    x config s = .ok y s' → ∃ m' : Watch, m.Onward m' ∧ m'.Ready s'.supply ∧ m'.Foreign false y

/-- Lowering `c` records the machine only when the new tree hosts it. -/
def Bears (config : LowerConfig) (M : Machine) (x : Lower Expr) (c : Expr) : Prop :=
  ∀ (n : Watch) s y s', n.Ready s.supply → n.Aside s.supply s'.supply → n.Foreign false c →
    x config s = .ok y s' → M ∈ s'.machines →
    M ∈ s.machines ∨ (c.ref ≤ s.supply.refs ∧ c.same y = false) ∧
      ∃ m : Watch, m.Born M s.supply s'.supply ∧ m.Foreign true y

section
variable {m m' n : Watch} {config : LowerConfig} {s s' s₁ : Lowering} {M : Machine} {c e x y : Expr} {cs ys : List Expr}
  {q q₁ q' : Supply} {hosts : Bool} {i r r' : Nat} {t : Ty} {d : Data Expr}

/-- A machine that is born stays so. -/
theorem Watch.Born.later (h : m.Born M q q₁) (hmm : m.Further m') (hm : m'.Ready q') (hq : q₁.Below q') :
    m'.Born M q q' where
  below := h.below.trans hq
  suits := h.suits.ages hmm.ages
  ready := hm
  marks i hi := by
    have hi' : m.Marks i := by
      obtain ⟨_, _, _, heq, -, -⟩ := hmm.ages
      rw [heq] at hi
      exact hi
    exact ⟨(h.marks i hi').1, Nat.le_trans (h.marks i hi').2 hq.names⟩
  copies r hr := by
    by_cases hle : r ≤ m.limit.refs
    · exact h.copies r (hmm.others r hle hr)
    · rw [h.ready.limit] at hle
      exact Nat.lt_of_le_of_lt h.below.refs (Nat.not_le.mp hle)
  kept := hmm.kept h.kept

/-- What was code outside another machine before is code outside the one that was made. -/
theorem Watch.Born.since (h : m.Born M q q') (hn : n.Ready q) : n.Since m where
  below := by rw [hn.limit, h.ready.limit]; exact h.below
  marks i hi := hn.limit ▸ (h.marks i hi).1
  copies r hr := hn.limit ▸ h.copies r hr

/-- The names of a machine that was made are none of those that are handed out later. -/
theorem Watch.Born.aside (h : m.Born M q q₁) : m.Aside q₁ q' := fun i hi => .inl (h.marks i hi).2

/-- The same machine, as long as nothing was dropped. -/
theorem Watch.Later.restore (h : m.Later m') : m.Onward { m' with gone := m.gone } := by
  obtain ⟨gone, copies, limit, rfl, -, hnames⟩ := h.ages
  exact ⟨⟨⟨m.gone, copies, limit, rfl, fun _ h => h, hnames⟩, h.refs, h.copies, h.others⟩, rfl⟩

theorem step_minds (e : Expr) : Minds config (Lower.step e) e := by
  intro m s y s' hm ha he h
  obtain ⟨m', hmm, hm', hy⟩ := step_other hm ha he h
  have ho := hmm.toLater.restore
  exact ⟨_, ho, ⟨ho.fair hm.fair, hm'.limit, hm'.copies⟩, hy.regone _⟩

/-! ### The operands of a node -/

/-- Lowering one tree after the other minds every machine. -/
theorem mapM_minds {f : γ → Lower Expr} {g : γ → Expr} {cs : List γ} [∀ c, Keeps (f c)]
    (hf : ∀ c ∈ cs, Minds config (f c) (g c)) (hm : m.Ready s.supply) (ha : m.Aside s.supply s'.supply)
    (hcs : ∀ c ∈ cs, m.Foreign false (g c)) (h : cs.mapM f config s = .ok ys s') :
    ∃ m' : Watch, m.Onward m' ∧ m'.Ready s'.supply ∧ List.Forall₂ (fun _ y => m'.Foreign false y) cs ys := by
  induction cs generalizing m s ys with
  | nil =>
    rw [List.mapM_nil] at h
    cases h
    exact ⟨m, .refl m, hm, .nil⟩
  | cons c cs ih =>
    rw [List.mapM_cons] at h
    obtain ⟨y, s₁, h1, h⟩ := exists_of_bind h
    obtain ⟨zs, s₂, h2, h⟩ := exists_of_bind h
    cases h
    have hb1 := ((inferInstance : Keeps (f c)).later config s y s₁ h1).2
    have hb2 := ((inferInstance : Keeps (cs.mapM f)).later config s₁ zs s' h2).2
    obtain ⟨m₁, h01, hm₁, hy⟩ := hf c List.mem_cons_self m s y s₁ hm (ha.mono (.refl _) hb2) (hcs c List.mem_cons_self) h1
    obtain ⟨m₂, h12, hm₂, hzs⟩ := ih (fun c hc => hf c (List.mem_cons_of_mem _ hc)) hm₁
      ((ha.ages h01.ages).mono hb1 (.refl _)) (fun c hc => (hcs c (List.mem_cons_of_mem _ hc)).later_onward h01) h2
    exact ⟨m₂, h01.trans h12, hm₂, .cons (hy.later_onward h12) hzs⟩

/-- Of the operands one hosts the machine that was made, and it is another one than before. -/
theorem mapM_bears {f : γ → Lower Expr} {g : γ → Expr} {cs : List γ} [∀ c, Keeps (f c)]
    (hf : ∀ c ∈ cs, Minds config (f c) (g c))
    (hf' : ∀ c ∈ cs, Bears config M (f c) (g c)) (hn : n.Ready s.supply) (ha : n.Aside s.supply s'.supply)
    (hcs : ∀ c ∈ cs, n.Foreign false (g c)) (h : cs.mapM f config s = .ok ys s') (hM : M ∈ s'.machines) :
    M ∈ s.machines ∨ ((cs.map g).zip ys).all (fun (x, y) => x.same y) = false ∧
      ∃ m : Watch, m.Born M s.supply s'.supply ∧ List.Forall₂ (fun _ y => m.Foreign true y) cs ys := by
  induction cs generalizing n s ys with
  | nil =>
    rw [List.mapM_nil] at h
    cases h
    exact .inl hM
  | cons c cs ih =>
    rw [List.mapM_cons] at h
    obtain ⟨y, s₁, h1, h⟩ := exists_of_bind h
    obtain ⟨zs, s₂, h2, h⟩ := exists_of_bind h
    cases h
    have hb1 := ((inferInstance : Keeps (f c)).later config s y s₁ h1).2
    have hb2 := ((inferInstance : Keeps (cs.mapM f)).later config s₁ zs s' h2).2
    have ha1 : n.Aside s.supply s₁.supply := ha.mono (.refl _) hb2
    obtain ⟨n₁, h01, hn₁, hy⟩ := hf c List.mem_cons_self n s y s₁ hn ha1 (hcs c List.mem_cons_self) h1
    obtain hM | ⟨hsame, m, hborn, hzs⟩ := ih (fun c hc => hf c (List.mem_cons_of_mem _ hc))
      (fun c hc => hf' c (List.mem_cons_of_mem _ hc)) hn₁ ((ha.ages h01.ages).mono hb1 (.refl _))
      (fun c hc => (hcs c (List.mem_cons_of_mem _ hc)).later_onward h01) h2
    · obtain hM | ⟨⟨-, hsame⟩, m, hborn, hy⟩ :=
        hf' c List.mem_cons_self n s y s₁ hn ha1 (hcs c List.mem_cons_self) h1 hM
      · exact .inl hM
      · -- the machine is made in the first operand, and the others stand beside it
        obtain ⟨m', hmm, hm', hzs⟩ := mapM_minds (fun c hc => hf c (List.mem_cons_of_mem _ hc)) hborn.ready hborn.aside
          (fun c hc => (hcs c (List.mem_cons_of_mem _ hc)).since (hborn.since hn)) h2
        exact .inr ⟨by simp [hsame], m', hborn.later hmm.further hm' hb2,
          .cons (hy.later_onward hmm) (hzs.imp fun _ _ hz => hz.widen)⟩
    · exact .inr ⟨by simp [hsame], m, hborn.early hb1,
        .cons ((hy.since (hborn.since hn₁)).widen) hzs⟩

/-! ### A node -/

/-- New operands outside the machine give a node outside it. -/
theorem Watch.Ordinary.refill (h : m.Ordinary r d) (hr : m.Ground r')
    (hcs : List.Forall₂ (fun _ y => m.Foreign hosts y) (present (operands d)) cs) :
    m.Foreign hosts (.node i r' t (refill d cs)) := by
  have hd : d.Alike (fun _ y => m.Foreign hosts y) (Expr.refill d cs) := refill_alike .absent hcs
  refine .node (fun _ => hr) ?_ fun c' hc' => (hd.operands hc').choose_spec.2
  have hvars := blockVars_refill 0 0 0 0 .void d cs
  generalize Expr.refill d cs = d' at hd hvars
  cases hd with
  | var => exact h
  | @block vs vs' xs xs' => exact ⟨fun v hv => h.1 v ((show vs' = vs from hvars) ▸ hv), hr⟩
  | @assign op t t' v v' field other value =>
    intro x hx
    cases ht : t.hasKind .field with
    | true => exact Build.Foreign.plain_of_asVar? (field ht) hx
    | false =>
      rw [other ht] at hx
      exact h x hx
  | protect body handlers fin fault =>
    intro h' hmem x hx
    obtain ⟨_, hh, ⟨_, _⟩⟩ := exists_of_mem_right handlers hmem
    exact h _ hh x hx
  | label => exact h
  | lambda => exact h
  | _ => trivial

/-- The operands are lowered first, and the node is copied when one of them changed. -/
theorem lowered_children {f : Expr → Lower Expr} [∀ c, Keeps (f c)]
    (h : e.mapChildren (fun c _ => f c) config s = .ok y s') : ∃ cs s₁, e.children.mapM f config s = .ok cs s₁ ∧
      s'.machines = s₁.machines ∧ s₁.supply.Below s'.supply ∧
        (((e.children.zip cs).all fun (x, y) => x.same y) = true ∧ y = e ∨
          ((e.children.zip cs).all fun (x, y) => x.same y) = false ∧ ∃ i r t d, e = .node i r t d ∧
            y = .node i s'.supply.refs t (Expr.refill d cs) ∧ s₁.supply.refs < s'.supply.refs) := by
  rw [mapChildren_eq] at h
  obtain ⟨cs, s₁, hcs, h⟩ := exists_of_bind h
  refine ⟨cs, s₁, hcs, ?_⟩
  split at h
  · rename_i hsame
    cases h
    exact ⟨rfl, .refl _, .inl ⟨hsame, rfl⟩⟩
  · rename_i hsame
    have hsame := Bool.eq_false_iff.mpr hsame
    cases e with
    | absent => simp [children] at hsame
    | node i r t d =>
      obtain ⟨r', s₂, hr, h⟩ := exists_of_bind h
      obtain ⟨q, hq, rfl⟩ := Lower.build_run hr
      cases hq
      cases h
      exact ⟨rfl, ⟨Nat.le_refl _, Nat.le_succ _⟩, .inr ⟨hsame, i, r, t, d, rfl, rfl, Nat.lt_succ_self _⟩⟩

theorem Obeys.child (h : m.Foreign false e) (hc : c ∈ e.children) : m.Foreign false c := by
  cases e with
  | absent => simp [children] at hc
  | node i r t d =>
    cases h with
    | node _ _ hops => exact hops c (List.mem_filter.mp hc).1

/-- A node with operands has an identity that was handed out. -/
theorem Obeys.ref_le (h : m.Foreign false e) (hc : e.children ≠ [] ∨ e.hasKind .lambda = true) :
    e.ref ≤ m.limit.refs := by
  cases h with
  | absent => exact Nat.zero_le _
  | @node _ i r t d hr =>
    refine (hr fun hnil => ?_).within
    obtain hc | hc := hc
    · refine hc ?_
      rw [children, hnil]
      rfl
    · cases d with
      | lambda => cases hnil
      | _ => cases hc

theorem same_of_lt (h : x.ref < y.ref) : x.same y = false := by
  cases x with
  | absent =>
    cases y with
    | absent => exact absurd h (Nat.lt_irrefl _)
    | node => rfl
  | node =>
    cases y with
    | absent => rfl
    | node => exact beq_eq_false_iff_ne.mpr (Nat.ne_of_lt h)

/-- Lowering the operands of a node one after the other minds every machine. -/
theorem children_minds {f : Expr → Lower Expr} [∀ c, Keeps (f c)]
    (hf : ∀ c ∈ e.children, Minds config (f c) c) : Minds config (e.mapChildren fun c _ => f c) e := by
  intro m s y s' hm ha he h
  obtain ⟨cs, s₁, hcs, -, hbelow, h⟩ := lowered_children h
  obtain ⟨m₁, h01, hm₁, hys⟩ := mapM_minds (g := id) hf hm (ha.mono (.refl _) hbelow)
    (fun _ => he.child) hcs
  obtain ⟨h12, hm₂⟩ := hm₁.extend hbelow
  have h02 := h01.trans h12
  refine ⟨_, h02, hm₂, ?_⟩
  obtain ⟨-, rfl⟩ | ⟨-, i, r, t, d, rfl, rfl, hlt⟩ := h
  · exact he.later_onward h02
  · cases he with
    | node _ hd _ =>
      refine (hd.later h02.toLater).refill ⟨Nat.le_refl _, fun hc => ?_⟩ ?_
      · exact absurd (hm₁.copies _ hc) (Nat.not_le.mpr hlt)
      · exact hys.imp fun _ _ hy => hy.later_onward h12

/-- The machines of a node are those of its operands. -/
theorem children_bears {f : Expr → Lower Expr} [∀ c, Keeps (f c)]
    (hf : ∀ c ∈ e.children, Minds config (f c) c) (hf' : ∀ c ∈ e.children, Bears config M (f c) c) :
    Bears config M (e.mapChildren fun c _ => f c) e := by
  intro n s y s' hn ha he h hM
  obtain ⟨cs, s₁, hcs, hmachines, hbelow, h⟩ := lowered_children h
  have hb := ((inferInstance : Keeps (e.children.mapM f)).later config s cs s₁ hcs).2
  obtain hM | ⟨hsame, m, hborn, hys⟩ := mapM_bears (g := id) hf hf' hn
    (ha.mono (.refl _) hbelow) (fun _ => he.child) hcs (hmachines ▸ hM)
  · exact .inl hM
  · rw [List.map_id] at hsame
    obtain ⟨hall, -⟩ | ⟨-, i, r, t, d, rfl, rfl, hlt⟩ := h
    · exact absurd hall (by simp [hsame])
    · obtain ⟨h12, hm₂⟩ := hborn.ready.extend hbelow
      have hchildren : (Expr.node i r t d).children ≠ [] := fun hnil => by
        rw [hnil] at hsame
        cases hsame
      have hle : r ≤ s.supply.refs := hn.limit ▸ he.ref_le (.inl hchildren)
      refine .inr ⟨⟨hle, ?_⟩, _, hborn.later h12.further hm₂ hbelow, ?_⟩
      · exact beq_eq_false_iff_ne.mpr (Nat.ne_of_lt (Nat.lt_of_le_of_lt (hle.trans hb.refs) hlt))
      · cases he with
        | node _ hd _ =>
          refine ((hd.since (hborn.since hn)).later h12.toLater).refill ⟨Nat.le_refl _, fun hc => ?_⟩ ?_
          · exact absurd (hborn.ready.copies _ hc) (Nat.not_le.mpr hlt)
          · exact hys.imp fun _ _ hy => hy.later_onward h12

/-! ### Whole trees -/

/-- **Lowering a tree** outside a machine gives one outside it. -/
theorem rewrite_minds (x : Expr) : Minds config (x.rewrite Lower.step) x := by
  rw [Expr.rewrite]
  split
  · intro m s y s' hm _ hx h
    cases h
    exact ⟨m, .refl m, hm, hx⟩
  · intro m s z s' hm ha hx h
    have := fun c => Lower.keeps_rewrite c Lower.step inferInstance
    obtain ⟨y, s₁, h1, h⟩ := exists_of_bind h
    have hk1 : Keeps (x.mapChildren fun c _ => c.rewrite Lower.step) := Lower.keeps_mapChildren x _ fun c _ => this c
    have hb1 := (hk1.later config s y s₁ h1).2
    have hb := ((inferInstance : Keeps (Lower.step y)).later config s₁ z s' h).2
    obtain ⟨m₁, h01, hm₁, hy⟩ := children_minds (fun c _ => rewrite_minds c) m s y s₁ hm
      (ha.mono (.refl _) hb) hx h1
    obtain ⟨m₂, h12, hm₂, hz⟩ := step_minds y m₁ s₁ z s' hm₁ ((ha.ages h01.ages).mono hb1 (.refl _)) hy h
    exact ⟨m₂, h01.trans h12, hm₂, hz⟩
  termination_by sizeOf x
  decreasing_by exact sizeOf_lt_of_mem_children ‹_›

/-- **A machine that is recorded while a tree is lowered** is hosted by the new tree. -/
theorem rewrite_bears (hkind : M.kind = .async) (hslot : M.stateVar.isSome = true) (x : Expr) :
    Bears config M (x.rewrite Lower.step) x := by
  rw [Expr.rewrite]
  split
  · intro n s y s' _ _ _ h hM
    cases h
    exact .inl hM
  · intro n s z s' hn ha hx h hM
    have := fun c => Lower.keeps_rewrite c Lower.step inferInstance
    obtain ⟨y, s₁, h1, h⟩ := exists_of_bind h
    have hk1 : Keeps (x.mapChildren fun c _ => c.rewrite Lower.step) := Lower.keeps_mapChildren x _ fun c _ => this c
    have hb1 := (hk1.later config s y s₁ h1).2
    have hb := ((inferInstance : Keeps (Lower.step y)).later config s₁ z s' h).2
    have ha1 : n.Aside s.supply s₁.supply := ha.mono (.refl _) hb
    obtain ⟨n₁, h01, hn₁, hy⟩ := children_minds (fun c _ => rewrite_minds c) n s y s₁ hn ha1
      hx h1
    obtain hM | ⟨⟨-, hfresh, hlambda⟩, m, hborn, hz⟩ := step_own hn₁ hy h hM hkind hslot
    · obtain hM | ⟨⟨hle, hsame⟩, m, hborn, hy⟩ := children_bears
        (fun c _ => rewrite_minds c) (fun c _ => rewrite_bears hkind hslot c) n s y s₁ hn ha1 hx h1 hM
      · exact .inl hM
      · -- the machine stands in an operand
        obtain ⟨m', hmm, hm', hz⟩ := step_other hborn.ready hborn.aside hy h
        refine .inr ⟨⟨hle, ?_⟩, m', hborn.later hmm hm' hb, hz⟩
        obtain rfl | hfresh := step_fresh h
        · exact hsame
        · exact same_of_lt (Nat.lt_of_le_of_lt (hle.trans hb1.refs) hfresh)
    · have hle : x.ref ≤ s.supply.refs := by
        refine hn.limit ▸ hx.ref_le ?_
        obtain ⟨cs, _, -, -, -, ⟨-, rfl⟩ | ⟨hsame, -⟩⟩ := lowered_children h1
        · exact .inr hlambda
        · refine .inl fun hnil => ?_
          rw [hnil] at hsame
          cases hsame
      exact .inr ⟨⟨hle, same_of_lt (Nat.lt_of_le_of_lt (hle.trans hb1.refs) hfresh)⟩, m, hborn.early hb1, hz⟩
  termination_by sizeOf x
  decreasing_by exact sizeOf_lt_of_mem_children ‹_›

end

end Resumable
