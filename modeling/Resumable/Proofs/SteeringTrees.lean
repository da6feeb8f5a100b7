import Resumable.Proofs.SteeringMachines

/-!
# `Proofs.SteeringTrees`: a lowered tree heeds the helm of every machine

The lambdas of a tree are lowered from the inside out. Lowering a part of the tree gives code that has nothing to
do with variables that were named neither before nor on the way; and when a machine is recorded, the lambda that
it becomes heeds its helm. What is lowered around it and beside it later on leaves that as it is.

**Contents**
* `Helm.Open`: a node whose operands have nothing to do with the variables that steer.
* `Shuns`, `Launches`: what lowering a part of a tree does to a helm that knows nothing of it, and to that of a
  machine which comes from it.
* `step_shuns`, `step_launches`: lowering a node.
* `rewrite_shuns`, `rewrite_launches`: lowering a tree.
* `tree_heeds`: a lowered tree heeds the helm of every machine with a dispatch loop that was recorded.
-/

namespace Resumable

open Resumable.Expr Split Build

/-- The node and its operands have nothing to do with the variables that steer, before any licence is given. -/
inductive Helm.Open (h : Helm) : Expr → Prop
  | absent : Helm.Open h .absent
  | node {i r : Nat} {t : Ty} {d : Data Expr} (hd : h.Plain .none d) (hc : ∀ c ∈ operands d, Heeds h .none c) :
    Helm.Open h (.node i r t d)

/-- The variables that steer the machine were named in between, and its states have the numbers of their places. -/
structure Machine.Born (M : Machine) (q q' : Supply) : Prop where
  names : ∀ i, M.Steers i → q.names < i ∧ i ≤ q'.names
  numbered : M.Numbered

/-- Lowering gives code that has nothing to do with the variables when none of them is named on the way. -/
def Shuns (config : LowerConfig) (h : Helm) (x : Lower Expr) : Prop :=
  ∀ s y s', x config s = .ok y s' → h.Clear s.supply s'.supply → Heeds h .none y

/-- Lowering what was named with numbers up to `k` records the machine only when what comes of it heeds the helm
of the machine. -/
def Launches (config : LowerConfig) (M : Machine) (k : Nat) (x : Lower Expr) : Prop :=
  ∀ s y s', x config s = .ok y s' → k ≤ s.supply.names → M ∈ s'.machines →
    M ∈ s.machines ∨ M.Born s.supply s'.supply ∧ Heeds M.helm .none y

section
variable {config : LowerConfig} {s s' : Lowering} {M : Machine} {h : Helm} {k : Nat} {e x y body : Expr} {ys : List Expr}
  {name : String} {kind : LambdaKind} {params : List Var} {target : Build Target} {p : Plan} {b : Splitter}
  {q q' q₁ q₂ q₃ : Supply}

theorem Helm.Open.heeds (he : h.Open e) : Heeds h .none e := by
  cases he with
  | absent => exact .absent
  | node hd hc => exact hd.heeds fun c hmem z => (hc c hmem).any z

theorem Expr.Named.opens (he : e.Named k) (hk : ∀ i, h.steers i → k < i) : h.Open e := by
  cases e with
  | absent => exact .absent
  | node i r t d => exact .node (he.plain hk) fun c hc => (he.operand hc).heeds hk

/-- Names that come later than those of the machine are none of them. -/
theorem Machine.Born.later (hM : M.Born q q₁) : M.helm.Clear q₁ q₂ := fun i hi _ hs =>
  absurd (hM.names i hs).2 (Nat.not_le.mpr hi)

theorem Machine.Born.earlier (hM : M.Born q₁ q₂) : M.helm.Clear q q₁ := fun i _ hle hs =>
  absurd (hM.names i hs).1 (Nat.not_lt.mpr hle)

theorem Machine.Born.mono (hM : M.Born q₁ q₂) (hq : q.Below q₁) (hq' : q₂.Below q₃) : M.Born q q₃ where
  names i hs := ⟨Nat.lt_of_le_of_lt hq.names (hM.names i hs).1, Nat.le_trans (hM.names i hs).2 hq'.names⟩
  numbered := hM.numbered

theorem Machine.Born.named (hM : M.Born q q') (hk : k ≤ q.names) : ∀ i, M.helm.steers i → k < i := fun i hs =>
  Nat.lt_of_le_of_lt hk (hM.names i hs).1

/-! ### A node -/

/-- A helm that looks on while no body is split. -/
def Helm.idle (h : Helm) : Voyage :=
  h.voyage false
    { name := "", options := {}, index := .ofBody .absent, target := .async .future Inhabited.default Inhabited.default,
      stateVar := Inhabited.default, resumeVar := Inhabited.default, excVar := Inhabited.default,
      brk := Inhabited.default, cont := Inhabited.default }
    Inhabited.default { supply := Inhabited.default, reporter := .ofBag (.empty 0) }

/-- A body that never waits becomes a lambda without a machine. -/
theorem fastPath_heeds {backend : Backend} {t : Ty} {fallible : Bool} (hclear : h.Clear q q₁)
    (hparams : ∀ v ∈ params, ¬ h.steers v.id) (hbody : Heeds h .none body) (hx : backend.fastPath body q = .ok x q₁)
    (hy : lambdaOf t name .plain fallible params x q₁ = .ok y q₂) : Heeds h .none y := by
  have : Outer h.idle body := ⟨hbody⟩
  have hx := (inferInstance : Built h.idle (backend.fastPath body)).erects q x q₁ hx hclear
  obtain ⟨i, rfl, -⟩ := lambdaOf_run hy
  exact .lambda hparams (hx.heeds.mono (Voyage.licence_within Bool.false_ne_true _))

/-- The target of a lambda with a machine is that of its kind. -/
theorem Lower.Stepped.aims (hk : kind ≠ .plain)
    (hasync : kind = .async → ∃ backend, target = Lower.asyncTarget backend)
    (hiterator : kind = .iterator → ∃ shape, target = Lower.iteratorTarget shape params) : Lower.Aims target params := by
  cases kind with
  | plain => exact absurd rfl hk
  | async => exact .inl (hasync rfl)
  | iterator => exact .inr (hiterator rfl)

/-- **Lowering a node** gives code that has nothing to do with variables that are not named on the way. -/
theorem step_shuns (he : h.Open e) (hrun : Lower.step e config s = .ok y s') (hclear : h.Clear s.supply s'.supply) :
    Heeds h .none y := by
  cases Lower.step_run hrun with
  | same hy => exact hy ▸ he.heeds
  | fast he' _ h0 hx hy =>
    subst he'
    cases he with
    | node hd hc =>
      refine fastPath_heeds (hclear.mono h0 ?_) hd (hc _ (by simp [operands])) hx hy
      exact Onward.below _ _ _ hy
  | made he' hk h0 _ _ hasync hiterator hmade =>
    subst he'
    cases he with
    | node hd hc =>
      obtain ⟨q, hnames, hheeds⟩ := made_heeds hmade
      refine (hheeds h false ?_ (fun ho => by cases ho) hd (hc _ (by simp [operands]))).1
      exact hnames.stranger (Lower.Stepped.aims hk hasync hiterator) (hclear.mono h0 (.refl _)) hd

/-- The names of the variables that steer a machine which is made are new. -/
theorem Lower.Made.Names.born {isIterator : Bool} (hn : Lower.Made.Names s s' target p q b isIterator)
    (ht : Lower.Aims target params) {i : Nat} (hi : (Lower.recorded name kind p b).Steers i) : s.supply.names < i := by
  obtain ⟨q₀, hq₀, hrun⟩ := hn.target
  have hq := ht.names hrun
  have hstate : p.stateVar.id = s.supply.names + 1 := congrArg Var.id hn.planned.stateVar
  have hresume : p.resumeVar.id = s.supply.names + 2 := congrArg Var.id hn.planned.resumeVar
  obtain ⟨hv, rfl⟩ | ⟨hv, rfl⟩ | ⟨hv, rfl⟩ := hi
  · cases hv
    omega
  · cases hv
    omega
  · have := hn.parked _ _ hv
    omega

/-- They were named before the lambda of the machine was done. -/
theorem Lower.Made.Names.done {isIterator : Bool} (hn : Lower.Made.Names s s' target p q b isIterator)
    (ht : Lower.Aims target params) (hparked : ∀ g v, (b.graph.guard g).parked = some v → v.id ≤ b.supply.names)
    {i : Nat} (hi : (Lower.recorded name kind p b).Steers i) : i ≤ s'.supply.names := by
  obtain ⟨q₀, hq₀, hrun⟩ := hn.target
  have hq := ht.names hrun
  have hb := hn.body.names
  have hs' := hn.rest.names
  have hstate : p.stateVar.id = s.supply.names + 1 := congrArg Var.id hn.planned.stateVar
  have hresume : p.resumeVar.id = s.supply.names + 2 := congrArg Var.id hn.planned.resumeVar
  obtain ⟨hv, rfl⟩ | ⟨hv, rfl⟩ | ⟨hv, rfl⟩ := hi
  · cases hv
    omega
  · cases hv
    omega
  · have := hparked _ _ hv
    omega

/-- **Lowering a node** records a machine only when the node becomes a lambda that heeds its helm. -/
theorem step_launches (hrun : Lower.step e config s = .ok y s') (hM : M ∈ s'.machines) (hslot : M.stateVar.isSome = true) :
    M ∈ s.machines ∨ (∀ i, M.Steers i → s.supply.names < i) ∧
      (M.helm.Open e → M.Born s.supply s'.supply ∧ Heeds M.helm .none y) := by
  cases Lower.step_run hrun with
  | same _ hmachines => exact .inl (hmachines ▸ hM)
  | fast _ _ _ _ _ hmachines =>
    refine (Array.mem_push.mp (hmachines ▸ hM)).imp_right fun heq => ?_
    rw [heq] at hslot
    cases hslot
  | @made _ _ _ name _ params _ kind _ _ s₀ p b _ he' hk h0 h0' _ hasync hiterator hmade =>
    subst he'
    obtain ⟨q, hnames, hheeds⟩ := made_heeds hmade
    have ht := Lower.Stepped.aims hk hasync hiterator
    obtain ⟨-, -, -, -, -, -, hmachines⟩ := hmade
    refine (Array.mem_push.mp (hmachines ▸ hM)).imp (h0' ▸ ·) fun heq => ?_
    obtain rfl : M = Lower.recorded name kind p b := heq
    have hborn : ∀ i, (Lower.recorded name kind p b).Steers i → s.supply.names < i := fun i hi =>
      Nat.lt_of_le_of_lt h0.names (hnames.born ht hi)
    refine ⟨hborn, fun he => ?_⟩
    cases he with
    | node hd hc =>
      obtain ⟨hy, hparked⟩ := hheeds _ true (hnames.self ht hd) (fun _ => rfl) hd (hc _ (by simp [operands]))
      refine ⟨⟨fun i hi => ⟨hborn i hi, hnames.done ht hparked hi⟩, ?_⟩, hy⟩
      exact (Lower.recorded_of name kind p b).inherits hnames.numbered

/-! ### The operands of a node -/

/-- Lowering one tree after the other shuns the helm. -/
theorem mapM_shuns {f : γ → Lower Expr} {cs : List γ} [∀ c, Keeps (f c)] (hf : ∀ c ∈ cs, Shuns config h (f c))
    (hrun : cs.mapM f config s = .ok ys s') (hclear : h.Clear s.supply s'.supply) : ∀ y ∈ ys, Heeds h .none y := by
  induction cs generalizing s ys with
  | nil =>
    rw [List.mapM_nil] at hrun
    cases hrun
    simp
  | cons c cs ih =>
    rw [List.mapM_cons] at hrun
    obtain ⟨y, s₁, h1, hrun⟩ := exists_of_bind hrun
    obtain ⟨zs, s₂, h2, hrun⟩ := exists_of_bind hrun
    cases hrun
    have hb1 := ((inferInstance : Keeps (f c)).later config s y s₁ h1).2
    have hb2 := ((inferInstance : Keeps (cs.mapM f)).later config s₁ zs s' h2).2
    refine List.forall_mem_cons.mpr ⟨?_, ?_⟩
    · exact hf c List.mem_cons_self s y s₁ h1 (hclear.mono (.refl _) hb2)
    · exact ih (fun c hc => hf c (List.mem_cons_of_mem _ hc)) h2 (hclear.mono hb1 (.refl _))

/-- What comes before and after the operand that the machine comes from knows nothing of it. -/
theorem mapM_launches {f : γ → Lower Expr} {cs : List γ} [∀ c, Keeps (f c)]
    (hf : ∀ h : Helm, (∀ i, h.steers i → k < i) → ∀ c ∈ cs, Shuns config h (f c))
    (hf' : ∀ c ∈ cs, Launches config M k (f c)) (hrun : cs.mapM f config s = .ok ys s') (hk : k ≤ s.supply.names)
    (hM : M ∈ s'.machines) :
    M ∈ s.machines ∨ M.Born s.supply s'.supply ∧ ∀ y ∈ ys, Heeds M.helm .none y := by
  induction cs generalizing s ys with
  | nil =>
    rw [List.mapM_nil] at hrun
    cases hrun
    exact .inl hM
  | cons c cs ih =>
    rw [List.mapM_cons] at hrun
    obtain ⟨y, s₁, h1, hrun⟩ := exists_of_bind hrun
    obtain ⟨zs, s₂, h2, hrun⟩ := exists_of_bind hrun
    cases hrun
    have hb1 := ((inferInstance : Keeps (f c)).later config s y s₁ h1).2
    have hb2 := ((inferInstance : Keeps (cs.mapM f)).later config s₁ zs s' h2).2
    have htail := fun h hk c hc => hf h hk c (List.mem_cons_of_mem _ hc)
    obtain hM | ⟨hborn, hzs⟩ := ih htail (fun c hc => hf' c (List.mem_cons_of_mem _ hc)) h2 (hk.trans hb1.names)
    · obtain hM | ⟨hborn, hy⟩ := hf' c List.mem_cons_self s y s₁ h1 hk hM
      · exact .inl hM
      · refine .inr ⟨hborn.mono (.refl _) hb2, List.forall_mem_cons.mpr ⟨hy, ?_⟩⟩
        exact mapM_shuns (htail _ (hborn.named hk)) h2 hborn.later
    · refine .inr ⟨hborn.mono hb1 (.refl _), List.forall_mem_cons.mpr ⟨?_, hzs⟩⟩
      exact hf _ (hborn.named (hk.trans hb1.names)) c List.mem_cons_self s y s₁ h1 hborn.earlier

/-- A node with new operands. -/
theorem Expr.Named.refill {i r i' r' : Nat} {t t' : Ty} {d : Data Expr} (he : (Expr.node i r t d).Named k)
    (hk : ∀ i, h.steers i → k < i) (hys : ∀ y ∈ ys, Heeds h .none y) : h.Open (.node i' r' t' (refill d ys)) := by
  refine .node ((he.plain hk).refill fun y hy v => (hys y hy).aside) fun c hc => ?_
  obtain hc | hc := mem_of_mem_operands_refill hc
  · exact (he.operand hc).heeds hk
  · exact hys c hc

theorem children_shuns {f : Expr → Lower Expr} [∀ c, Keeps (f c)] (he : e.Named k)
    (hk : ∀ i, h.steers i → k < i) (hf : ∀ c ∈ e.children, Shuns config h (f c))
    (hrun : e.mapChildren (fun c _ => f c) config s = .ok y s') (hclear : h.Clear s.supply s'.supply) : h.Open y := by
  obtain ⟨cs, s₁, hcs, -, hbelow, hy⟩ := lowered_children hrun
  have hys := mapM_shuns hf hcs (hclear.mono (.refl _) hbelow)
  obtain ⟨-, rfl⟩ | ⟨-, i, r, t, d, rfl, rfl, -⟩ := hy
  · exact he.opens hk
  · exact he.refill hk hys

theorem children_launches {f : Expr → Lower Expr} [∀ c, Keeps (f c)] (he : e.Named k)
    (hf : ∀ h : Helm, (∀ i, h.steers i → k < i) → ∀ c ∈ e.children, Shuns config h (f c))
    (hf' : ∀ c ∈ e.children, Launches config M k (f c))
    (hrun : e.mapChildren (fun c _ => f c) config s = .ok y s') (hk : k ≤ s.supply.names) (hM : M ∈ s'.machines) :
    M ∈ s.machines ∨ M.Born s.supply s'.supply ∧ M.helm.Open y := by
  obtain ⟨cs, s₁, hcs, hmachines, hbelow, hy⟩ := lowered_children hrun
  refine (mapM_launches hf hf' hcs hk (hmachines ▸ hM)).imp_right
    fun ⟨hborn, hys⟩ => ⟨hborn.mono (.refl _) hbelow, ?_⟩
  obtain ⟨-, rfl⟩ | ⟨-, i, r, t, d, rfl, rfl, -⟩ := hy
  · exact he.opens (hborn.named hk)
  · exact he.refill (hborn.named hk) hys

/-! ### Whole trees -/

theorem Expr.Named.child (he : e.Named k) {c : Expr} (hc : c ∈ e.children) : c.Named k := by
  cases e with
  | absent => simp [children] at hc
  | node i r t d => exact he.operand (List.mem_filter.mp hc).1

/-- What lowering a node consists of. -/
theorem Lower.rewrite_run (hrun : x.rewrite Lower.step config s = .ok y s') : x.isAbsent = true ∧ y = x ∧ s' = s ∨
    ∃ z s₁, (x.mapChildren fun c _ => c.rewrite Lower.step) config s = .ok z s₁ ∧ Lower.step z config s₁ = .ok y s' ∧
      s.supply.Below s₁.supply ∧ s₁.supply.Below s'.supply := by
  rw [Expr.rewrite] at hrun
  split at hrun
  · cases hrun
    exact .inl ⟨‹_›, rfl, rfl⟩
  · obtain ⟨z, s₁, h1, h2⟩ := exists_of_bind hrun
    have hkeeps : Keeps (x.mapChildren fun c _ => c.rewrite Lower.step) :=
      Lower.keeps_mapChildren x _ fun c _ => Lower.keeps_rewrite c Lower.step inferInstance
    exact .inr ⟨z, s₁, h1, h2, (hkeeps.later config s z s₁ h1).2,
      ((inferInstance : Keeps (Lower.step z)).later config s₁ y s' h2).2⟩

/-- **Lowering a tree** gives code that has nothing to do with variables that were named neither before nor on the
way. -/
theorem rewrite_shuns (hk : ∀ i, h.steers i → k < i) (x : Expr) (hx : x.Named k) :
    Shuns config h (x.rewrite Lower.step) := by
  intro s y s' hrun hclear
  have := fun c => Lower.keeps_rewrite c Lower.step inferInstance
  obtain ⟨-, rfl, rfl⟩ | ⟨z, s₁, h1, h2, hb1, hb2⟩ := Lower.rewrite_run hrun
  · exact hx.heeds hk
  · refine step_shuns (children_shuns hx hk (fun c hc => ?_) h1 (hclear.mono (.refl _) hb2)) h2
      (hclear.mono hb1 (.refl _))
    exact rewrite_shuns hk c (hx.child hc)
  termination_by sizeOf x
  decreasing_by exact sizeOf_lt_of_mem_children ‹_›

/-- **A machine that is recorded while a tree is lowered** has a helm that the new tree heeds. -/
theorem rewrite_launches (hslot : M.stateVar.isSome = true) (x : Expr) (hx : x.Named k) :
    Launches config M k (x.rewrite Lower.step) := by
  intro s y s' hrun hk hM
  have := fun c => Lower.keeps_rewrite c Lower.step inferInstance
  obtain ⟨-, rfl, rfl⟩ | ⟨z, s₁, h1, h2, hb1, hb2⟩ := Lower.rewrite_run hrun
  · exact .inl hM
  · obtain hM | ⟨hnew, hheeds⟩ := step_launches h2 hM hslot
    · obtain hM | ⟨hborn, hz⟩ := children_launches hx (fun h hk c hc => rewrite_shuns hk c (hx.child hc))
        (fun c hc => rewrite_launches hslot c (hx.child hc)) h1 hk hM
      · exact .inl hM
      · exact .inr ⟨hborn.mono (.refl _) hb2, step_shuns hz h2 hborn.later⟩
    · -- the machine comes from the node itself
      have hnamed : ∀ i, M.helm.steers i → k < i := fun i hi =>
        Nat.lt_of_le_of_lt (hk.trans hb1.names) (hnew i hi)
      have hclear : M.helm.Clear s.supply s₁.supply := fun i _ hle hi => absurd (hnew i hi) (Nat.not_lt.mpr hle)
      obtain ⟨hborn, hy⟩ := hheeds (children_shuns hx hnamed (fun c hc => rewrite_shuns hnamed c (hx.child hc)) h1 hclear)
      exact .inr ⟨hborn.mono hb1 (.refl _), hy⟩
  termination_by sizeOf x
  decreasing_by exact sizeOf_lt_of_mem_children ‹_›

/-- **A lowered tree** heeds the helm of every machine with a dispatch loop that was recorded, and the states of the
machine have the numbers of their places. -/
theorem tree_heeds {supply : Supply} (hn : e.Named supply.names)
    (hrun : Lower.tree e config (.start config supply) = .ok y s) (hM : M ∈ s.machines)
    (hslot : M.stateVar.isSome = true) : M.Numbered ∧ Heeds M.helm .none y := by
  obtain ⟨s₁, s', hsupply, hs₁, hrun, hM'⟩ := Lower.tree_run hrun hM (by simp [Lowering.start])
  have hk : supply.names ≤ s₁.supply.names := (congrArg Supply.names hsupply).ge
  exact ((rewrite_launches hslot e hn s₁ y s' hrun hk hM').resolve_left hs₁).imp_left (·.numbered)

end

end Resumable
