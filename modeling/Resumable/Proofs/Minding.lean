import Resumable.Proofs.Enclosing
import Resumable.Proofs.Homing
import Resumable.Proofs.Optimizing

/-!
# `Proofs.Minding`: lowering a lambda minds the machine that is watched

A lambda that is lowered is code outside the watched machine before and after; or it is the lambda that the
watched machine comes from, and then it opens an instance of it in the end.

**Contents**
* `plan_run`, `polish_run`, `machine_run`: what a successful run consists of.
* `polish_later`: moving the variables and optimizing.
* `made_other`, `made_own`: a lambda with a machine.
* `step_minds`: any node.
-/

namespace Resumable

open Resumable.Expr Split Build

/-! ### What a run consists of -/

namespace Lower

variable {config : LowerConfig} {s s' s₁ : Lowering} {p : Plan} {e y lowered body : Expr} {name : String}
  {kind : LambdaKind} {params ignore : List Var} {target : Build Target} {isIterator : Bool}

/-- Building takes numbers and does nothing else. -/
theorem build_run {x : Build α} {a : α} (h : (liftM x : Lower α) config s = .ok a s') :
    ∃ q, x s.supply = .ok a q ∧ s' = { s with supply := q } := by
  change build x config s = _ at h
  unfold build at h
  split at h
  · rename_i q hq
    cases h
    exact ⟨q, hq, rfl⟩
  · cases h

theorem split_run {b b' : Splitter} {x : Split α} {a : α} (h : split p b x config s = .ok (a, b') s') :
    x p { b with supply := s.supply, reporter := s.reporter, moments := s.moments } = .ok a b' ∧
      s' = { s with supply := b'.supply, reporter := b'.reporter, moments := b'.moments } := by
  unfold split at h
  dsimp only at h
  split at h
  · rename_i hx
    cases h
    exact ⟨hx, rfl⟩
  · cases h

/-- One name was taken. -/
structure Named (s s' : Lowering) : Prop where
  names : s'.supply.names = s.supply.names + 1
  refs : s'.supply.refs = s.supply.refs
  machines : s'.machines = s.machines

theorem newVar_run {t : Ty} {v : Var} (h : (liftM (newVar name t) : Lower Var) config s = .ok v s') :
    v = ⟨s.supply.names + 1, name, t⟩ ∧ Named s s' := by
  cases h
  exact ⟨rfl, rfl, rfl, rfl⟩

theorem newLabel_run {t : Ty} {l : Label} (h : (liftM (newLabel name t) : Lower Label) config s = .ok l s') :
    l = ⟨s.supply.names + 1, name, t⟩ ∧ Named s s' := by
  cases h
  exact ⟨rfl, rfl, rfl, rfl⟩

/-- Reporting leaves the supply and the machines alone. -/
theorem reportAll_ensures (gs : List Expr) (loc : Expr → Location) (msg : Expr → String) :
    Ensures config s (forIn gs PUnit.unit fun g (_ : PUnit) => do
        report .undefinedLabel (loc g) (msg g)
        pure (ForInStep.yield PUnit.unit))
      fun _ (s' : Lowering) => s'.supply = s.supply ∧ s'.machines = s.machines := by
  refine Ensures.forIn (I := fun _ _ (s' : Lowering) => s'.supply = s.supply ∧ s'.machines = s.machines) ⟨rfl, rfl⟩ ?_
  rintro g rest b s₁ ⟨h, h'⟩
  exact Ensures.of_run rfl ⟨_, rfl, h, h'⟩

/-- The names of a plan, from the `k`-th on. -/
structure Planned (p : Plan) (k : Nat) (isIterator : Bool) : Prop where
  stateVar : p.stateVar = ⟨k + 1, "state", .int⟩
  resumeVar : p.resumeVar = ⟨k + 2, "resumeState", .int⟩
  excVar : p.excVar = ⟨k + 3, "exception", .error⟩
  brk : p.brk = ⟨k + 4, "dispatchBreak", if isIterator then .bool else .void⟩

/-- A plan takes names, the last ones for its target. -/
theorem plan_run (h : plan name body isIterator target config s = .ok p s') :
    ∃ q : Supply, q.refs = s.supply.refs ∧ q.names = s.supply.names + 5 ∧ target q = .ok p.target s'.supply ∧
      Planned p s.supply.names isIterator ∧ s'.machines = s.machines := by
  unfold plan at h
  obtain ⟨stateVar, s₁, h1, h⟩ := exists_of_bind h
  obtain ⟨rfl, n1⟩ := newVar_run h1
  obtain ⟨resumeVar, s₂, h2, h⟩ := exists_of_bind h
  obtain ⟨rfl, n2⟩ := newVar_run h2
  obtain ⟨excVar, s₃, h3, h⟩ := exists_of_bind h
  obtain ⟨rfl, n3⟩ := newVar_run h3
  obtain ⟨brk, s₄, h4, h⟩ := exists_of_bind h
  obtain ⟨rfl, n4⟩ := newLabel_run h4
  obtain ⟨cont, s₅, h5, h⟩ := exists_of_bind h
  obtain ⟨rfl, n5⟩ := newLabel_run h5
  obtain ⟨_, s₆, h6, h⟩ := exists_of_bind h
  obtain ⟨hsupply, hmachines⟩ := reportAll_ensures _ _ _ _ _ h6
  obtain ⟨_, _, hread, h⟩ := exists_of_bind h
  cases hread
  obtain ⟨t, s₇, h7, h⟩ := exists_of_bind h
  obtain ⟨q, hq, rfl⟩ := build_run h7
  cases h
  refine ⟨s₆.supply, ?_, ?_, hq, ⟨rfl, ?_, ?_, ?_⟩, ?_⟩
  · rw [hsupply, n5.refs, n4.refs, n3.refs, n2.refs, n1.refs]
  · rw [hsupply, n5.names, n4.names, n3.names, n2.names, n1.names]
  · rw [n1.names]
  · rw [n2.names, n1.names]
  · rw [n3.names, n2.names, n1.names]
  · rw [hmachines, n5.machines, n4.machines, n3.machines, n2.machines, n1.machines]

/-- What polishing consists of. -/
theorem polish_run (h : polish name ignore lowered config s = .ok y s') : ∃ x q,
    lowered.rescope ignore s.supply = .ok x q ∧ s'.machines = s.machines ∧
      (x.optimize config.alike q = .ok y s'.supply ∨ y = x ∧ s'.supply = q) := by
  unfold polish at h
  obtain ⟨x, s₁, h1, h⟩ := exists_of_bind h
  obtain ⟨q, hq, rfl⟩ := build_run h1
  obtain ⟨_, s₂, h2, h⟩ := exists_of_bind h
  cases h2
  obtain ⟨_, _, hread, h⟩ := exists_of_bind h
  cases hread
  refine ⟨x, q, hq, ?_⟩
  split at h
  · obtain ⟨_, _, hread, h⟩ := exists_of_bind h
    cases hread
    obtain ⟨z, s₃, h3, h⟩ := exists_of_bind h
    obtain ⟨q', hq', rfl⟩ := build_run h3
    obtain ⟨_, s₄, h4, h⟩ := exists_of_bind h
    cases h4
    cases h
    exact ⟨rfl, .inl hq'⟩
  · cases h
    exact ⟨rfl, .inr ⟨rfl, rfl⟩⟩

theorem phase_same {title note : String} {u : Unit} (h : phase title note config s = .ok u s') :
    s'.supply = s.supply ∧ s'.reporter = s.reporter ∧ s'.moments = s.moments ∧ s'.machines = s.machines := by
  cases h
  exact ⟨rfl, rfl, rfl, rfl⟩

theorem record_run {m : Machine} {u : Unit} (h : record m config s = .ok u s') :
    s'.supply = s.supply ∧ s'.machines = s.machines.push m := by
  unfold record at h
  obtain ⟨_, _, hread, h⟩ := exists_of_bind h
  cases hread
  split at h
  · cases h
    exact ⟨rfl, rfl⟩
  · cases h
    exact ⟨rfl, rfl⟩

/-- The target of an async lambda. -/
def asyncTarget (backend : Backend) : Build Target := do
  let continuation ← newVar "continuation" .thunk
  return .async backend (← newVar "cell" backend.cell) continuation

/-- The target of an iterator lambda. -/
def iteratorTarget (shape : Ty) (params : List Var) : Build Target := do
  let dispose ← newVar "dispose" .bool
  return .iterator shape params dispose (← newVar "current" .current)

/-- What lowering a lambda with a machine consists of, when no error was met. -/
inductive Made (config : LowerConfig) (s : Lowering) (e : Expr) (name : String) (kind : LambdaKind)
    (params : List Var) (body : Expr) (target : Build Target) (y : Expr) (s' : Lowering) (p : Plan) (b : Splitter) :
    Prop
  | mk {s₁ s₂ s₃ : Lowering} {u : Unit} {b₁ : Splitter} {x z : Expr} {slots : List Var}
    (hplan : plan name body (kind == .iterator) target config s = .ok p s₁)
    (hbody : splitBody body p { supply := s₁.supply, reporter := s₁.reporter, moments := s₁.moments } = .ok u b₁)
    (hassemble : (do assemble (← emitDispatch) : Split _) p b₁ = .ok (x, slots) b) (hs₂ : s₂.supply = b.supply)
    (hpolish : polish name (slots ++ params) x config s₂ = .ok z s₃)
    (hlambda : lambdaOf e.type name .plain false params z s₃.supply = .ok y s'.supply)
    (hmachines : s'.machines = s.machines.push
      { name, kind, graph := b.graph, states := b.states.toList, stateVar := some p.stateVar,
        resumeVar := some p.resumeVar, cellVar := p.target.cellVar?, continuationVar := p.target.continuationVar? }) :
    Made config s e name kind params body target y s' p b

/-- A lambda with a machine is left as it is when an error was met. -/
theorem machine_run (h : machine e name kind params body target config s = .ok y s') :
    (y = e ∧ s'.machines = s.machines) ∨
      ∃ p b, Made config s e name kind params body target y s' p b := by
  unfold machine at h
  obtain ⟨p, s₁, h1, h⟩ := exists_of_bind h
  obtain ⟨-, -, -, -, -, hmachines⟩ := plan_run h1
  obtain ⟨_, _, hget, h⟩ := exists_of_bind h
  cases hget
  obtain ⟨⟨u, b₁⟩, s₂, h2, h⟩ := exists_of_bind h
  obtain ⟨hbody, rfl⟩ := split_run h2
  obtain ⟨_, s₃, h3, h⟩ := exists_of_bind h
  obtain ⟨hsupply, hreporter, hmoments, hmachines'⟩ := phase_same h3
  obtain ⟨errors, s₄, h4, h⟩ := exists_of_bind h
  cases h4
  split at h
  · cases h
    exact .inl ⟨rfl, hmachines'.trans hmachines⟩
  · obtain ⟨⟨⟨x, slots⟩, b₂⟩, s₅, h5, h⟩ := exists_of_bind h
    obtain ⟨hassemble, rfl⟩ := split_run h5
    obtain ⟨_, s₆, h6, h⟩ := exists_of_bind h
    obtain ⟨hsupply₆, -, -, hmachines₆⟩ := phase_same h6
    obtain ⟨z, s₇, h7, h⟩ := exists_of_bind h
    obtain ⟨_, _, _, hmachines₇, _⟩ := polish_run h7
    obtain ⟨_, s₈, h8, h⟩ := exists_of_bind h
    obtain ⟨hsupply₈, hmachines₈⟩ := record_run h8
    obtain ⟨q, h9, rfl⟩ := build_run h
    rw [hsupply, hreporter, hmoments] at hassemble
    rw [hsupply₈] at h9
    refine .inr ⟨p, b₂, h1, hbody, hassemble, hsupply₆, h7, h9, ?_⟩
    show s₈.machines = _
    rw [hmachines₈, hmachines₇, hmachines₆]
    exact congrArg (Array.push · _) (hmachines'.trans hmachines)

end Lower

/-! ### The passes over the body -/

section
variable {m m' n : Watch} {p : Plan} {config : LowerConfig} {s s' : Lowering} {e x y body : Expr} {name : String}
  {kind : LambdaKind} {params ignore : List Var} {target : Build Target} {hosts : Bool} {q q' : Supply}

/-- The watch without some stores goes on like the one with them. -/
theorem Watch.Ready.drop (h : m.Ready q) (g : Var → Prop) : (m.drop g).Ready q :=
  ⟨h.fair.ages (Watch.later_drop m g).ages, h.limit, h.copies⟩

/-- The same machine later on, where the stores into the slot of the next state are still there. -/
structure Watch.Further (m m' : Watch) : Prop extends m.Later m' where
  state : m'.gone m.state.id → m.gone m.state.id

theorem Watch.Onward.further (h : m.Onward m') : m.Further m' := ⟨h.toLater, fun hg => h.gone ▸ hg⟩

theorem Watch.Ages.state_eq (h : m.Ages m') : m'.state = m.state := by
  obtain ⟨_, _, _, rfl, -, -⟩ := h
  rfl

theorem Watch.Further.trans {m'' : Watch} (h : m.Further m') (h' : m'.Further m'') : m.Further m'' where
  toLater := h.toLater.trans h'.toLater
  state hg := by
    have heq := h.ages.state_eq
    exact h.state (heq ▸ h'.state (heq.symm ▸ hg))

theorem Watch.Further.kept (h : m.Further m') (hg : ¬ m.gone m.state.id) : ¬ m'.gone m'.state.id := fun hg' =>
  hg (h.state (h.ages.state_eq ▸ hg'))

/-- **What polishing makes of a body may stand in its place.** -/
theorem polish_later (hm : m.Ready s.supply) (hx : m.Hosted x)
    (h : Lower.polish name ignore x config s = .ok y s') :
    ∃ m', m.Further m' ∧ m'.Ready s'.supply ∧ Replaces m m' x y := by
  obtain ⟨z, q, hrescope, -, h⟩ := Lower.polish_run h
  obtain ⟨m₁, h01, h1, hz⟩ := rescope_reworks hx ignore _ _ _ hm hrescope
  have hstate : ¬ (fun v : Var => v ∈ ((Scopes.scopes ignore x).placement ignore).dropped) m.state :=
    hx.not_dropped ignore (.inl rfl)
  generalize (fun v : Var => v ∈ ((Scopes.scopes ignore x).placement ignore).dropped) = g at hz hstate
  have hlater : m.Further (m₁.drop g) := by
    refine h01.further.trans ⟨Watch.later_drop m₁ g, h1.fair.gone_of_drop (.inl rfl) ?_⟩
    rwa [h01.ages.state_eq]
  obtain hoptimize | ⟨rfl, hsupply⟩ := h
  · obtain ⟨m₂, h12, h2, hy⟩ := optimize_recasts config.alike z _ (.refl _) (h1.drop g).fair _ _ _ (h1.drop g) hoptimize
    rw [Watch.drop_none] at hy
    exact ⟨m₂, hlater.trans h12.further, h2, hz.trans hy hlater.ages h12.ages⟩
  · exact ⟨_, hlater, hsupply ▸ h1.drop g, hz⟩

/-- What a construction gives, seen when it is done. -/
theorem Provides.ready {x : Build α} {P : Watch → α → Prop} (hx : ∀ m', m.Onward m' → Provides m' x (P m'))
    (hm : m.Ready q) (ha : m.Aside q q') {a : α} [ho : Onward x] (h : x q = .ok a q') :
    ∃ m', m.Onward m' ∧ m'.Ready q' ∧ P m' a := by
  obtain ⟨hmm, hm'⟩ := hm.extend (ho.below _ _ _ h)
  exact ⟨_, hmm, hm', hx _ hmm _ _ _ h (hm.clear ha)⟩

/-- Code outside the machine does not depend on what was dropped. -/
theorem Obeys.regone (h : Obeys m (.outside false) x) (gone : Nat → Prop) :
    Obeys { m with gone } (.outside false) x := by
  generalize hrole : Role.outside false = role at h
  induction h with
  | absent => cases hrole; exact .absent
  | @node _ i r t d hr hd _ ih =>
    cases hrole
    refine .node (fun hne => ⟨(hr hne).within, (hr hne).other⟩) ?_ fun c hc => ih c hc rfl
    unfold Watch.Ordinary at hd ⊢
    cases d with
    | var v => exact ⟨hd.foreign, hd.loose, hd.within⟩
    | block vs xs => exact ⟨fun v hv => ⟨(hd.1 v hv).foreign, (hd.1 v hv).within, (hd.1 v hv).type⟩, ⟨hd.2.within, hd.2.other⟩⟩
    | assign op t v => exact fun w hw => ⟨(hd w hw).foreign, (hd w hw).loose, (hd w hw).within⟩
    | protect b hs f g =>
      exact fun c hc w hw => ⟨(hd c hc w hw).foreign, (hd c hc w hw).loose, (hd c hc w hw).within⟩
    | label l x => exact ⟨hd.foreign, hd.loose, hd.within⟩
    | lambda nm ps b k f =>
      exact fun w hw => ⟨⟨(hd w hw).plain.foreign, (hd w hw).plain.loose, (hd w hw).plain.within⟩, (hd w hw).other⟩
    | _ => trivial
  | _ => cases hrole

/-! ### One lambda -/

/-- The variables of the target are those of the lambda, and new ones. -/
def Lower.Targets (target : Build Target) (params : List Var) : Prop :=
  ∀ q t q', target q = .ok t q' → ∀ m : Watch, (∀ v ∈ params, m.Bound v) →
    (∀ v : Var, q.names < v.id → v.id ≤ q'.names → m.Bound v) → t.Strange m

/-- **A lambda with a machine of its own** is code outside the watched machine. -/
theorem made_other [ho : Onward target] (ht : Lower.Targets target params) {b : Splitter} (hm : m.Ready s.supply)
    (ha : m.Aside s.supply s'.supply) (hparams : ∀ v ∈ params, m.Bound v) (hbody : m.Foreign hosts body)
    (h : Lower.Made config s e name kind params body target y s' p b) :
    ∃ m', m.Further m' ∧ m'.Ready s'.supply ∧ m'.Foreign hosts y := by
  obtain @⟨s₁, s₂, s₃, u, b₁, x, z, slots, hplan, h1, h2, hs₂, h3, h4, hmachines⟩ := h
  obtain ⟨q, hrefs, hnames, htarget, hp, -⟩ := Lower.plan_run hplan
  have hq : s.supply.Below q := ⟨hnames ▸ Nat.le_add_right _ 5, hrefs.ge⟩
  have hq₁ := ho.below _ _ _ htarget
  have hb₁ := ((inferInstance : Keeps (Lower.splitBody body)).later p _ u b₁ h1).2.supply
  have hb := ((inferInstance : Keeps (do assemble (← emitDispatch) : Split _)).later p b₁ _ b h2).2.supply
  have hs₃ := ((inferInstance : Keeps (Lower.polish name (slots ++ params) x)).later config s₂ z s₃ h3).2
  rw [hs₂] at hs₃
  have hs' := Onward.below _ _ _ h4
  have ha₁ : m.Aside s.supply s₁.supply := ha.mono (.refl _) ((hb₁.trans hb).trans (hs₃.trans hs'))
  -- the names of the plan are new
  obtain ⟨h01, hm₁⟩ := hm.extend (hq.trans hq₁)
  have hnew : ∀ v : Var, s.supply.names < v.id → v.id ≤ q.names → Watch.Bound { m with limit := s₁.supply } v :=
    fun v hv hle => ha₁.bound hv (Nat.le_trans hle hq₁.names)
  have hstrange : p.Strange { m with limit := s₁.supply } :=
    { stateVar := (hnew p.stateVar (by rw [hp.stateVar]; simp) (by rw [hp.stateVar]; simp; omega)).plain
      resumeVar := (hnew p.resumeVar (by rw [hp.resumeVar]; simp) (by rw [hp.resumeVar]; simp; omega)).plain
      excVar := (hnew p.excVar (by rw [hp.excVar]; simp) (by rw [hp.excVar]; simp; omega)).plain
      target := ht _ _ _ htarget _ (fun v hv => (hparams v hv).ages h01.ages) fun v hv hle =>
        ha₁.bound (Nat.lt_of_le_of_lt hq.names hv) hle }
  obtain ⟨m₂, h12, h2, hx⟩ := enclose_other hm₁ hstrange (hbody.later_onward h01) h1 h2
    ((ha.ages h01.ages).mono (hq.trans hq₁) (hs₃.trans hs'))
  have hhosted : m₂.Hosted x := by
    cases hosts with
    | true => exact .inl hx
    | false => exact .inl hx.widen
  obtain ⟨m₃, h23, h3, hz⟩ := polish_later (hs₂.symm ▸ h2) hhosted h3
  have h03 := (h01.trans h12).further.trans h23
  obtain ⟨m₄, h34, h4, hy⟩ := Provides.ready (P := fun m' => m'.Foreign hosts) (fun m' hmm => lambdaOf_gives
    (fun v hv => (hparams v hv).ages (h03.trans hmm.further).ages) ((hz.obeys _ hx).later_onward hmm)) h3
    ((ha.ages h03.ages).mono ((hq.trans hq₁).trans ((hb₁.trans hb).trans hs₃)) (.refl _)) h4
  exact ⟨m₄, h03.trans h34.further, h4, hy⟩

/-! ### The lambda that the machine comes from -/

/-- The names and the copies of the second machine came after all that the first one knows. -/
structure Watch.Since (n m : Watch) : Prop where
  below : n.limit.Below m.limit
  marks : ∀ i, m.Marks i → n.limit.names < i
  copies : ∀ r, m.copies r → n.limit.refs < r

namespace Watch

theorem Plain.since {i : Nat} (h : n.Plain i) (hs : n.Since m) : m.Plain i where
  foreign ho := absurd h.within (Nat.not_le.mpr (hs.marks i (.inl ho)))
  loose hp := absurd h.within (Nat.not_le.mpr (hs.marks i (.inr (.inl hp))))
  within := Nat.le_trans h.within hs.below.names

theorem Declarable.since {v : Var} (h : n.Declarable v) (hs : n.Since m) : m.Declarable v where
  foreign ho := absurd h.within (Nat.not_le.mpr (hs.marks _ (.inl ho)))
  within := Nat.le_trans h.within hs.below.names
  type hp := absurd h.within (Nat.not_le.mpr (hs.marks _ (.inr (.inl hp))))

theorem Ground.since {r : Nat} (h : n.Ground r) (hs : n.Since m) : m.Ground r where
  within := Nat.le_trans h.within hs.below.refs
  other hc := absurd h.within (Nat.not_le.mpr (hs.copies r hc))

theorem Bound.since {v : Var} (h : n.Bound v) (hs : n.Since m) : m.Bound v where
  plain := h.plain.since hs
  other hc := absurd h.plain.within (Nat.not_le.mpr (hs.marks _ (.inr (.inr hc))))

theorem Ordinary.since {r : Nat} {d : Data Expr} (h : n.Ordinary r d) (hs : n.Since m) : m.Ordinary r d := by
  unfold Ordinary at h ⊢
  cases d with
  | var v => exact Plain.since h hs
  | block vs xs => exact ⟨fun v hv => (h.1 v hv).since hs, h.2.since hs⟩
  | assign op t v => exact fun w hw => (h w hw).since hs
  | protect b hs' f g => exact fun c hc w hw => (h c hc w hw).since hs
  | label l x => exact Plain.since h hs
  | lambda nm ps b k f => exact fun w hw => (h w hw).since hs
  | _ => trivial

end Watch

/-- Code outside one machine is code outside another one that came later. -/
theorem Obeys.since (h : Obeys n (.outside false) x) (hs : n.Since m) : Obeys m (.outside false) x := by
  generalize hrole : Role.outside false = role at h
  induction h with
  | absent => cases hrole; exact .absent
  | @node _ i r t d hr hd _ ih =>
    cases hrole
    exact .node (fun hne => (hr hne).since hs) (hd.since hs) fun c hc => ih c hc rfl
  | _ => cases hrole

/-- The watch is that of the recorded machine. -/
structure Watch.Suits (m : Watch) (M : Machine) : Prop where
  stateVar : M.stateVar = some m.state
  resumeVar : M.resumeVar = some m.resume
  cellVar : M.cellVar = some m.cell
  continuationVar : M.continuationVar = some m.continuation
  good : ∀ n, m.good n ↔ ∃ st ∈ M.stateList, st.kind ≠ .cleanup ∧ st.id = n
  clean : ∀ n, m.clean n ↔ ∃ st ∈ M.stateList, st.kind = .cleanup ∧ st.id = n
  parked : ∀ i, m.parked i ↔ ∃ g v, (M.graph.guard g).parked = some v ∧ v.id = i

theorem Watch.Suits.ages {M : Machine} (h : m.Suits M) (ha : m.Ages m') : m'.Suits M := by
  obtain ⟨_, _, _, rfl, -, -⟩ := ha
  exact ⟨h.stateVar, h.resumeVar, h.cellVar, h.continuationVar, h.good, h.clean, h.parked⟩

/-- The watch is that of a machine that was made between the numbers `q` and `q'`. -/
structure Watch.Born (m : Watch) (M : Machine) (q q' : Supply) : Prop where
  below : q.Below q'
  suits : m.Suits M
  ready : m.Ready q'
  marks : ∀ i, m.Marks i → q.names < i ∧ i ≤ q'.names
  copies : ∀ r, m.copies r → q.refs < r
  kept : ¬ m.gone m.state.id

/-- A machine that was made later was made since. -/
theorem Watch.Born.early {M : Machine} {q₁ : Supply} (h : m.Born M q₁ q') (hq : q.Below q₁) : m.Born M q q' where
  below := hq.trans h.below
  suits := h.suits
  ready := h.ready
  marks i hi := ⟨Nat.lt_of_le_of_lt hq.names (h.marks i hi).1, (h.marks i hi).2⟩
  copies r hr := Nat.lt_of_le_of_lt hq.refs (h.copies r hr)
  kept := h.kept

/-- The target of an async lambda takes two names. -/
theorem asyncTarget_run {backend : Backend} {t : Target} (h : Lower.asyncTarget backend q = .ok t q') :
    t = .async backend ⟨q.names + 2, "cell", backend.cell⟩ ⟨q.names + 1, "continuation", .thunk⟩ ∧
      q'.names = q.names + 2 ∧ q'.refs = q.refs := by
  cases h
  exact ⟨rfl, rfl, rfl⟩

theorem lambdaOf_run {t : Ty} {fallible : Bool} (h : lambdaOf t name kind fallible params body q = .ok y q') :
    ∃ i, y = .node i q'.refs t (.lambda name params body kind fallible) ∧ q'.refs = q.refs + 1 := by
  obtain ⟨fits, hfits⟩ : ∃ fits : Bool, lambdaOf t name kind fallible params body =
      if fits then node t (.lambda name params body kind fallible) else throw _ := ⟨_, rfl⟩
  rw [hfits] at h
  cases fits with
  | true =>
    cases h
    exact ⟨_, rfl, rfl⟩
  | false => cases h

/-- **The lambda that a machine comes from** hosts it. -/
theorem made_own {backend : Backend} {b : Splitter} (hn : n.Ready s.supply) (hparams : ∀ v ∈ params, n.Bound v)
    (hbody : n.Foreign false body)
    (h : Lower.Made config s e name .async params body (Lower.asyncTarget backend) y s' p b) :
    ∃ (m : Watch) (M : Machine), s'.machines = s.machines.push M ∧ m.Born M s.supply s'.supply ∧ m.Foreign true y := by
  obtain @⟨s₁, s₂, s₃, u, b₁, x, z, slots, hplan, h1, h2, hs₂, h3, h4, hmachines⟩ := h
  obtain ⟨q, hrefs, hnames, htarget, hp, -⟩ := Lower.plan_run hplan
  obtain ⟨htarget, hnames₁, hrefs₁⟩ := asyncTarget_run htarget
  -- the names of the machine come before everything that is built with them
  have hown : p.Own ⟨q.names + 2, "cell", backend.cell⟩ ⟨q.names + 1, "continuation", .thunk⟩ s₁.supply :=
    { target := ⟨backend, htarget⟩
      apart := by rw [hp.stateVar, hp.resumeVar, hp.excVar, hp.brk]; simp; omega
      within := by rw [hp.stateVar, hp.resumeVar, hp.excVar, hp.brk]; simp; omega
      types := by rw [hp.stateVar, hp.resumeVar]; exact ⟨rfl, rfl⟩
      label := by rw [hp.brk]; rfl }
  obtain ⟨hlt, hready, hopens⟩ := enclose_own hown h1 h2
  have hb := ((inferInstance : Keeps (Lower.splitBody body)).later p _ u b₁ h1).2.trans
    ((inferInstance : Keeps (do assemble (← emitDispatch) : Split _)).later p b₁ _ b h2).2
  have hs₃ := ((inferInstance : Keeps (Lower.polish name (slots ++ params) x)).later config s₂ z s₃ h3).2
  rw [hs₂] at hs₃
  have hs' := hs₃.trans (Onward.below _ _ _ h4)
  -- the machine to watch: all its names and copies are newer than the tree
  generalize hm : Watch.born p ⟨q.names + 2, "cell", backend.cell⟩ ⟨q.names + 1, "continuation", .thunk⟩ b = m
    at hready hopens
  have hlimit : m.limit = b.supply := hready.limit
  have hbnames := hb.supply.names
  have hbrefs := hb.supply.refs
  simp only at hbnames hbrefs
  have hmarks : ∀ i, m.Marks i → s.supply.names < i := by
    subst hm
    rintro i ((rfl | rfl | rfl | rfl) | ⟨g, v, hv, rfl⟩ | rfl)
    · simp [Watch.born, hp.stateVar]
    · simp [Watch.born, hp.resumeVar]
    · simp [Watch.born]; omega
    · simp [Watch.born, hp.brk]
    · have := hb.parked g (Nat.zero_le g) v hv
      simp only at this
      omega
    · simp [Watch.born]; omega
  have hcopies : ∀ r, m.copies r → s.supply.refs < r := by
    subst hm
    intro r hr
    rw [show r = b.supply.refs from hr, ← hrefs, ← hrefs₁]
    exact hlt
  have hsince : n.Since m :=
    ⟨⟨by rw [hn.limit, hlimit]; omega, by rw [hn.limit, hlimit]; omega⟩, hn.limit ▸ hmarks, hn.limit ▸ hcopies⟩
  obtain ⟨hx, hparked⟩ := hopens (hbody.since hsince)
  -- polishing the body and closing the lambda are later states of the same watch
  obtain ⟨m₃, h03, hm₃, hz⟩ := polish_later (hs₂.symm ▸ hready) (.inr hx) h3
  have hs₄ := Onward.below _ _ _ h4
  have hs'names := hs'.names
  have hs'refs := hs'.refs
  obtain ⟨h34, hm₄⟩ := hm₃.extend hs₄
  have h04 := h03.trans h34.further
  obtain ⟨i, rfl, hrefs₄⟩ := lambdaOf_run h4
  refine ⟨_, _, hmachines, ⟨⟨by omega, by omega⟩, ?_, hm₄, fun j hj => ?_, fun r hr => ?_, fun hg => ?_⟩,
    .host ⟨Nat.le_refl _, fun hc => ?_⟩ (fun v hv => ((hparams v hv).since hsince).ages h04.ages)
      ((hz.obeys _ hx).later_onward h34)⟩
  · refine Watch.Suits.ages (m := m) ?_ h04.ages
    subst hm
    exact
      { stateVar := rfl
        resumeVar := rfl
        cellVar := by rw [htarget]; rfl
        continuationVar := by rw [htarget]; rfl
        good := fun n => by simp [Watch.born, Machine.stateList]
        clean := fun n => by simp [Watch.born, Machine.stateList]
        parked := fun i => Iff.rfl }
  · have hj' : m.Marks j := by
      obtain ⟨_, _, _, heq, -, -⟩ := h04.ages
      rw [heq] at hj
      exact hj
    refine ⟨hmarks j hj', ?_⟩
    subst hm
    obtain (rfl | rfl | rfl | rfl) | hj' | rfl := hj'
    · simp [Watch.born, hp.stateVar]; omega
    · simp [Watch.born, hp.resumeVar]; omega
    · simp [Watch.born]; omega
    · simp [Watch.born, hp.brk]; omega
    · exact Nat.le_trans (hparked j hj') hs'names
    · simp [Watch.born]; omega
  · by_cases hle : r ≤ m.limit.refs
    · exact hcopies r (h04.others r hle hr)
    · rw [hlimit] at hle
      omega
  · refine h04.kept (fun hg' => ?_) hg
    subst hm
    exact hg'
  · have := hm₃.copies _ hc
    omega

/-! ### Any node -/

instance (backend : Backend) : Onward (Lower.asyncTarget backend) := by unfold Lower.asyncTarget; infer_instance

instance (shape : Ty) (params : List Var) : Onward (Lower.iteratorTarget shape params) := by
  unfold Lower.iteratorTarget
  infer_instance

theorem asyncTarget_targets (backend : Backend) : Lower.Targets (Lower.asyncTarget backend) params := by
  intro q t q' h m _ hnew
  cases h
  exact ⟨(hnew ⟨_, "cell", _⟩ (by simp) (by simp)).plain,
    (hnew ⟨_, "continuation", _⟩ (by simp) (by simp)).plain⟩

theorem iteratorTarget_targets (shape : Ty) : Lower.Targets (Lower.iteratorTarget shape params) params := by
  intro q t q' h m hparams hnew
  cases h
  exact ⟨hparams, hnew _ (by simp) (by simp), hnew _ (by simp) (by simp)⟩

/-- What lowering a node amounts to. -/
inductive Lower.Stepped (config : LowerConfig) (s : Lowering) (e y : Expr) (s' : Lowering) : Prop
  | same (hy : y = e) (hmachines : s'.machines = s.machines) : Stepped config s e y s'
  | fast {i r : Nat} {t : Ty} {name name' : String} {params : List Var} {body : Expr} {kind : LambdaKind} {fallible : Bool}
    {backend : Backend} {x : Expr} {s₀ : Lowering} {q : Supply}
    (he : e = .node i r t (.lambda name' params body kind fallible)) (hkind : kind ≠ .plain)
    (h0 : s.supply.Below s₀.supply) (hx : backend.fastPath body s₀.supply = .ok x q)
    (hy : lambdaOf t name .plain false params x q = .ok y s'.supply)
    (hmachines : s'.machines = s.machines.push { name, kind, fast := true }) : Stepped config s e y s'
  | made {i r : Nat} {t : Ty} {name name' : String} {params : List Var} {body : Expr} {kind : LambdaKind} {fallible : Bool}
    {target : Build Target} {s₀ : Lowering} {p : Plan} {b : Splitter} [Onward target]
    (he : e = .node i r t (.lambda name' params body kind fallible)) (hkind : kind ≠ .plain)
    (h0 : s.supply.Below s₀.supply) (h0' : s₀.machines = s.machines) (ht : Targets target params)
    (hasync : kind = .async → ∃ backend, target = asyncTarget backend)
    (hiterator : kind = .iterator → ∃ shape, target = iteratorTarget shape params)
    (h : Made config s₀ e name kind params body target y s' p b) : Stepped config s e y s'

section
variable {i r : Nat} {t : Ty} {fallible : Bool} {name' : String}

/-- A run of lowering an async lambda is a step. -/
theorem Lower.async_run (h : Lower.lambda (.node i r t (.lambda name' params body .async fallible)) .async params body
    config s = .ok y s') :
    Lower.Stepped config s (.node i r t (.lambda name' params body .async fallible)) y s' := by
  unfold Lower.lambda at h
  dsimp only at h
  obtain ⟨handle, s₁, h1, h⟩ := exists_of_bind h
  obtain ⟨q₁, hresult, rfl⟩ := Lower.build_run h1
  have hq₁ := Onward.below _ _ _ hresult
  cases hbackend : Backend.find? handle with
  | none =>
    simp only [hbackend] at h
    cases h
    exact .same rfl rfl
  | some backend =>
    simp only [hbackend] at h
    split at h
    · obtain ⟨_, s₂, h2, h⟩ := exists_of_bind h
      cases h2
      obtain ⟨x, s₃, h3, h⟩ := exists_of_bind h
      obtain ⟨q₃, hfast, rfl⟩ := Lower.build_run h3
      obtain ⟨q₄, hlambda, rfl⟩ := Lower.build_run h
      exact .fast rfl (by decide) hq₁ hfast hlambda rfl
    · obtain ⟨rfl, hmachines⟩ | ⟨p, b, hmade⟩ := Lower.machine_run h
      · exact .same rfl hmachines
      · have hbelow : s.supply.Below ({ s with supply := q₁ } : Lowering).supply := hq₁
        exact .made rfl (by decide) hbelow rfl
          (asyncTarget_targets backend) (fun _ => ⟨backend, rfl⟩) (fun hk => by cases hk) hmade

/-- A run of lowering an iterator is a step. -/
theorem Lower.iterator_run (h : Lower.lambda (.node i r t (.lambda name' params body .iterator fallible)) .iterator
    params body config s = .ok y s') :
    Lower.Stepped config s (.node i r t (.lambda name' params body .iterator fallible)) y s' := by
  unfold Lower.lambda at h
  dsimp only at h
  obtain ⟨handle, s₁, h1, h⟩ := exists_of_bind h
  obtain ⟨q₁, hresult, rfl⟩ := Lower.build_run h1
  have hq₁ := Onward.below _ _ _ hresult
  split at h
  · cases h
    exact .same rfl rfl
  · obtain ⟨rfl, hmachines⟩ | ⟨p, b, hmade⟩ := Lower.machine_run h
    · exact .same rfl hmachines
    · have hbelow : s.supply.Below ({ s with supply := q₁ } : Lowering).supply := hq₁
      exact .made rfl (by decide) hbelow rfl
        (iteratorTarget_targets handle) (fun hk => by cases hk) (fun _ => ⟨handle, rfl⟩) hmade

end

/-- A run of lowering a lambda is a step. -/
theorem Lower.step_run (h : Lower.step e config s = .ok y s') : Lower.Stepped config s e y s' := by
  cases e with
  | absent =>
    cases h
    exact .same rfl rfl
  | node i r t d =>
    cases d with
    | lambda name params body kind fallible =>
      change Lower.lambda _ kind params body config s = _ at h
      cases kind with
      | async => exact Lower.async_run h
      | iterator => exact Lower.iterator_run h
      | plain =>
        unfold Lower.lambda at h
        dsimp only at h
        split at h <;> (cases h; exact .same rfl rfl)
    | _ =>
      cases h
      exact .same rfl rfl

theorem Obeys.lambda_parts {i r : Nat} {t : Ty} {fallible : Bool}
    (h : m.Foreign hosts (.node i r t (.lambda name params body kind fallible))) (hk : kind ≠ .plain) :
    (∀ v ∈ params, m.Bound v) ∧ m.Foreign hosts body := by
  cases h with
  | node _ hd hc => exact ⟨hd, hc body (by simp [operands])⟩
  | host => exact absurd rfl hk

/-- **Lowering a node of code outside the machine** gives such code. -/
theorem step_other (hm : m.Ready s.supply) (ha : m.Aside s.supply s'.supply) (he : m.Foreign hosts e)
    (h : Lower.step e config s = .ok y s') : ∃ m', m.Further m' ∧ m'.Ready s'.supply ∧ m'.Foreign hosts y := by
  have hbelow := ((inferInstance : Keeps (Lower.step e)).later config s y s' h).2
  cases Lower.step_run h with
  | same hy =>
    obtain ⟨hmm, hm'⟩ := hm.extend hbelow
    exact ⟨_, hmm.further, hm', hy ▸ he.later_onward hmm⟩
  | @fast _ _ _ _ _ _ _ _ _ backend x s₀ q he' hk h0 hx hy =>
    subst he'
    obtain ⟨hparams, hbody⟩ := he.lambda_parts hk
    have hq := Onward.below _ _ _ hx
    have hs' := Onward.below _ _ _ hy
    obtain ⟨h01, hm₁⟩ := hm.extend h0
    obtain ⟨m₂, h12, hm₂, hx⟩ := Provides.ready (P := fun m' => m'.Foreign hosts) (fun m' hmm =>
      Backend.fastPath_gives (hbody.later_onward (h01.trans hmm))) hm₁ ((ha.ages h01.ages).mono h0 hs') hx
    have h02 := h01.trans h12
    obtain ⟨m₃, h23, hm₃, hy⟩ := Provides.ready (P := fun m' => m'.Foreign hosts) (fun m' hmm => lambdaOf_gives
      (fun v hv => (hparams v hv).ages (h02.trans hmm).ages) (hx.later_onward hmm)) hm₂
      ((ha.ages h02.ages).mono (h0.trans hq) (.refl _)) hy
    exact ⟨m₃, (h02.trans h23).further, hm₃, hy⟩
  | @made _ _ _ _ _ _ _ _ _ _ s₀ p b _ he' hk h0 _ ht _ _ hmade =>
    subst he'
    obtain ⟨hparams, hbody⟩ := he.lambda_parts hk
    obtain ⟨h01, hm₁⟩ := hm.extend h0
    obtain ⟨m', hmm, hm', hy⟩ := made_other ht hm₁ ((ha.ages h01.ages).mono h0 (.refl _))
      (fun v hv => (hparams v hv).ages h01.ages) (hbody.later_onward h01) hmade
    exact ⟨m', h01.further.trans hmm, hm', hy⟩

/-- A lambda with a machine becomes a new lambda. -/
theorem Lower.Made.fresh [ho : Onward target] {b : Splitter}
    (h : Lower.Made config s e name kind params body target y s' p b) : s.supply.refs < y.ref := by
  obtain @⟨s₁, s₂, s₃, u, b₁, x, z, slots, hplan, h1, h2, hs₂, h3, h4, -⟩ := h
  have hq₁ := ((inferInstance : Keeps (Lower.plan name body (kind == .iterator) target)).later config s p s₁ hplan).2.refs
  have hb₁ := ((inferInstance : Keeps (Lower.splitBody body)).later p _ u b₁ h1).2.supply.refs
  have hb := ((inferInstance : Keeps (do assemble (← emitDispatch) : Split _)).later p b₁ _ b h2).2.supply.refs
  have hs₃ := ((inferInstance : Keeps (Lower.polish name (slots ++ params) x)).later config s₂ z s₃ h3).2.refs
  rw [hs₂] at hs₃
  obtain ⟨i, rfl, hrefs⟩ := lambdaOf_run h4
  show s.supply.refs < s'.supply.refs
  exact Nat.lt_of_le_of_lt (hq₁.trans (hb₁.trans (hb.trans hs₃))) (hrefs ▸ Nat.lt_succ_self _)

theorem Lower.Made.recorded {b : Splitter} (h : Lower.Made config s e name kind params body target y s' p b) :
    ∃ M : Machine, s'.machines = s.machines.push M ∧ M.kind = kind := by
  obtain ⟨-, -, -, -, -, -, hmachines⟩ := h
  exact ⟨_, hmachines, rfl⟩

/-- A node stays as it is, or it becomes a new one. -/
theorem step_fresh (h : Lower.step e config s = .ok y s') : y = e ∨ s.supply.refs < y.ref := by
  cases Lower.step_run h with
  | same hy => exact .inl hy
  | fast _ _ h0 hx hy =>
    have hq := (Onward.below _ _ _ hx).refs
    obtain ⟨i, rfl, hrefs⟩ := lambdaOf_run hy
    refine .inr ?_
    show s.supply.refs < s'.supply.refs
    exact Nat.lt_of_le_of_lt (h0.refs.trans hq) (hrefs ▸ Nat.lt_succ_self _)
  | made _ _ h0 _ _ _ _ hmade => exact .inr (Nat.lt_of_le_of_lt h0.refs hmade.fresh)

/-- **Lowering the lambda that a machine comes from** gives a lambda that hosts it. -/
theorem step_own (hn : n.Ready s.supply) (he : n.Foreign false e) (h : Lower.step e config s = .ok y s') {M : Machine}
    (hM : M ∈ s'.machines) (hkind : M.kind = .async) (hslot : M.stateVar.isSome = true) :
    M ∈ s.machines ∨ (e.ref ≤ s.supply.refs ∧ s.supply.refs < y.ref ∧ e.hasKind .lambda = true) ∧
      ∃ m : Watch, m.Born M s.supply s'.supply ∧ m.Foreign true y := by
  have hpush : ∀ M', s'.machines = s.machines.push M' → M ∈ s.machines ∨ M = M' := fun M' h' =>
    Array.mem_push.mp (h' ▸ hM)
  cases Lower.step_run h with
  | same _ hmachines => exact .inl (hmachines ▸ hM)
  | fast _ _ _ _ _ hmachines =>
    refine (hpush _ hmachines).imp_right fun heq => ?_
    rw [heq] at hslot
    cases hslot
  | @made _ _ _ _ _ _ _ kind _ _ s₀ p b _ he' hk h0 h0' ht hasync _ hmade =>
    subst he'
    obtain ⟨hparams, hbody⟩ := he.lambda_parts hk
    obtain ⟨M', hM', hkind'⟩ := hmade.recorded
    refine (hpush M' (h0' ▸ hM')).imp_right fun heq => ⟨⟨?_, Nat.lt_of_le_of_lt h0.refs hmade.fresh, rfl⟩, ?_⟩
    · cases he with
      | node hr => exact hn.limit ▸ (hr (by simp [operands])).within
    · obtain ⟨backend, rfl⟩ := hasync (hkind' ▸ heq ▸ hkind)
      obtain rfl : kind = .async := hkind' ▸ heq ▸ hkind
      obtain ⟨h01, hn₁⟩ := hn.extend h0
      obtain ⟨m, M₁, hM₁, hborn, hy⟩ :=
        made_own hn₁ (fun v hv => (hparams v hv).ages h01.ages) (hbody.later_onward h01) hmade
      obtain rfl : M₁ = M := heq ▸ (Array.push_eq_push.mp (hM₁.symm.trans hM')).1
      exact ⟨m, hborn.early h0, hy⟩

end

end Resumable
