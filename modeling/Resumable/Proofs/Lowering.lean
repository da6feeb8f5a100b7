import Resumable.Proofs.Machine
import Resumable.Proofs.Passes
import Resumable.Proofs.Reports
import Resumable.Proofs.Rewriting

/-!
# `Proofs.Lowering`: lowering gives plain lambdas and sound machines

A body is split from an empty machine on; if no usage error was met, nothing waits to be finished at the
end and the machine is sound. So the checker has nothing to add, no lambda is left as it is, and bottom-up
rewriting replaces every async and iterator lambda of the tree.

**Contents**
* `Lower.splitBody_ensures`: splitting a whole body.
* `Calm`: what holds of lowering as long as no usage error is known.
* `Lower.machine_calmly`, `Lower.lambda_calmly`: one lambda.
* `rewrite_calmly`, `tree_calmly`, `lower_sound`: whole trees.
-/

namespace Resumable

open Resumable.Expr Build

/-! ### Splitting a whole body -/

namespace Split

/-- The ledger at the entry of a body whose visit reaches the given labels. -/
def start (b : Splitter) (goals : List Label) : Ledger :=
  { base := b.reporter.seen, refs := b.supply.refs, goals, known := [.state 0] }

/-- The invariant holds in the entry state. -/
theorem inv_start (p : Plan) (supply : Supply) (reporter : Reporter) (moments : Array Moment)
    (body : Expr) (goals : List Label) :
    Ensures p { supply, reporter, moments } (do goOnIn (← newState .entry body .void)) fun _ s' =>
      Inv (start { supply, reporter, moments } goals) s' := by
  refine Ensures.of_run rfl ?_
  exact
    { base := fun _ h => h
      refs := Nat.le_refl _
      known := fun f hf => by
        cases List.mem_singleton.mp hf
        exact ⟨Nat.zero_lt_one, by simp⟩
      held := fun r hr => by cases hr
      current := Nat.zero_lt_one
      numbered := fun i r hi => by
        cases i with
        | zero =>
          cases hi
          exact ⟨Nat.zero_lt_one, rfl⟩
        | succ i => simp at hi
      wired := fun r hr => by
        cases Nat.lt_one_iff.mp hr
        exact wired_empty rfl rfl rfl
      guarded := fun g hg => absurd hg (Nat.not_lt_zero g)
      paired := fun a b _ hb => absurd hb (Nat.not_lt_zero b)
      frames := fun f hf => by cases hf
      labels := fun l r hl => by cases hl
      rethrow := fun r hr => by cases hr
      placed := fun _ l hl => by cases hl
      covered := fun _ r hr _ => by
        have hr' : r = 0 := by simpa using hr
        exact Or.inl hr' }

end Split

namespace Lower

variable {p : Plan} {config : LowerConfig} {s s' : Lowering} {b : Splitter} {e x y body : Expr}
  {name : String} {kind : LambdaKind} {params : List Var}

open Split in
/-- Every state of a split body is finished, or waits for the place of a label. -/
theorem splitBody_ensures (p : Plan) (supply : Supply) (reporter : Reporter) (moments : Array Moment)
    (hbody : Body body) : Ensures p { supply, reporter, moments } (splitBody body) fun _ s' =>
      Left ((start { supply, reporter, moments } (p.index.aims body)).enter (p.index.marks body)) s' := by
  unfold splitBody
  rw [← bind_assoc]
  refine (inv_start p supply reporter moments body (p.index.aims body)).bind fun _ s₁ h1 => ?_
  refine (visit_ensures h1 ⟨hbody, fun _ hl => hl⟩).bind ?_
  rintro v s₂ ⟨hv, h2⟩
  refine .current ?_
  split
  · exact finish_ensures h2 hv
  · rename_i hdone
    refine Ensures.pure ⟨h2, fun hmem => ?_⟩
    -- a state of the loop is not dead: its number is its index
    obtain ⟨i, hi⟩ := Array.mem_iff_getElem?.mp hmem
    have hid : ¬ (s₂.graph.state s₂.current).id < 0 := by
      rw [(h2.numbered i _ hi).2]
      omega
    simpa [State.isDead, hid] using hdone

/-! ### Without errors -/

end Lower

/-- The reporter knows of no error, and its bag holds nothing else than what it knows of. -/
structure Reporter.Tidy (r : Reporter) : Prop where
  seen : ∀ f ∈ r.seen, f.severity ≠ .error
  bag : ∀ d ∈ r.bag.items, d.fingerprint ∈ r.seen

theorem Reporter.Tidy.hasErrors {r : Reporter} (h : r.Tidy) : r.bag.hasErrors = false := by
  unfold Bag.hasErrors
  rw [List.any_eq_false]
  exact fun d hd => by simpa [Diagnostic.fingerprint] using h.seen _ (h.bag d hd)

/-- A reporter stays tidy when it is told of anything but an error. -/
theorem Reporter.Tidy.report {r : Reporter} (h : r.Tidy) {d : Diagnostic}
    (hd : d.severity ≠ .error) : (r.report d).Tidy := by
  unfold Reporter.report
  split
  · exact h
  · refine ⟨fun f hf => ?_, fun c hc => ?_⟩
    · obtain rfl | hf := List.mem_cons.mp hf
      · exact hd
      · exact h.seen f hf
    · unfold Bag.add at hc
      split at hc
      · exact List.mem_cons_of_mem _ (h.bag c hc)
      · obtain hc | hc := List.mem_append.mp hc
        · exact List.mem_cons_of_mem _ (h.bag c hc)
        · cases List.mem_singleton.mp hc
          exact List.mem_cons_self

/-- Checking a sound machine adds warnings at most. -/
theorem Machine.Sound.check_tidy {m : Machine} (hm : m.Sound) {r : Reporter} (h : r.Tidy) :
    (m.check r).Tidy := by
  unfold Machine.check
  have hfold : ∀ (ds : List Diagnostic) (r : Reporter), (∀ d ∈ ds, d.severity ≠ .error) → r.Tidy →
      (ds.foldl Reporter.report r).Tidy := by
    intro ds
    induction ds with
    | nil => exact fun r _ hr => hr
    | cons d ds ih =>
      intro r hds hr
      rw [List.forall_mem_cons] at hds
      exact ih _ hds.2 (hr.report hds.1)
  refine hfold m.findings r (fun d hd => ?_) h
  rw [hm.warning_of_mem_findings hd]
  decide

/-- Lowering so far: no error is known, and the machines are sound. -/
structure Calm (s : Lowering) : Prop where
  tidy : s.reporter.Tidy
  sound : ∀ m ∈ s.machines, m.Sound

/-- The later state has no other reports and machines, and identities were only handed out. -/
structure Beside (s s' : Lowering) : Prop where
  reporter : s'.reporter = s.reporter
  machines : s'.machines = s.machines
  refs : s.supply.refs ≤ s'.supply.refs

theorem Beside.trans {s s' s'' : Lowering} (h : Beside s s') (h' : Beside s' s'') : Beside s s'' :=
  ⟨h'.1.trans h.1, h'.2.trans h.2, Nat.le_trans h.3 h'.3⟩

theorem Calm.beside {s s' : Lowering} (h : Calm s) (hs : Beside s s') : Calm s' :=
  ⟨hs.reporter ▸ h.tidy, hs.machines ▸ h.sound⟩

namespace Lower

/-! ### Steps of lowering -/

theorem build_ensures {x : Build α} {P : α → Prop} (hx : Builds x P) :
    Ensures config s (liftM x : Lower α) fun a s' => P a ∧ Beside s s' := by
  intro a s' hrun
  change build x config s = _ at hrun
  unfold build at hrun
  split at hrun
  · rename_i q hq
    cases hrun
    obtain ⟨ha, hle⟩ := hx _ _ _ hq
    exact ⟨ha, rfl, rfl, hle⟩
  · cases hrun

theorem phase_ensures (name note : String) :
    Ensures config s (phase name note) fun _ s' => s' = { s with phases := s.phases.push (name, note) } :=
  Ensures.of_run rfl rfl

/-- A step of splitting does to the splitter what it ensures, and nothing else to lowering. -/
theorem split_ensures {x : Split α} {Q : α → Splitter → Prop}
    (hx : Ensures p { b with supply := s.supply, reporter := s.reporter, moments := s.moments } x Q) :
    Ensures config s (split p b x) fun r s' => Q r.1 r.2 ∧
      s' = { s with supply := r.2.supply, reporter := r.2.reporter, moments := r.2.moments } := by
  rintro ⟨a, b'⟩ s' hrun
  unfold split at hrun
  dsimp only at hrun
  split at hrun
  · rename_i hx'
    cases hrun
    exact ⟨hx _ _ hx', rfl⟩
  · cases hrun

/-- Jumps without a place to go to are usage errors. -/
theorem reportUndefined_calmly (gs : List Expr) (loc : Expr → Location) (msg : Expr → String) :
    Calmly config s (forIn gs PUnit.unit fun g (_ : PUnit) => do
        report .undefinedLabel (loc g) (msg g)
        pure (ForInStep.yield PUnit.unit))
      fun _ s' => gs = [] ∧ s' = s := by
  cases gs with
  | nil => exact Calmly.pure ⟨rfl, rfl⟩
  | cons g gs =>
    rw [List.forIn_cons, bind_assoc]
    refine Calmly.report _ _ _ (k := fun _ => ?_)
    rw [pure_bind]
    infer_instance

/-- A plan is made for bodies whose jumps all have a place to go to. -/
theorem plan_calmly {isIterator : Bool} {target : Build Target} [Onward target] (ht : Builds target fun _ => True) :
    Calmly config s (plan name body isIterator target) fun p s' => Beside s s' ∧
      p.index = JumpIndex.ofBody body ∧ (JumpIndex.ofBody body).undefined = [] := by
  unfold plan
  refine .after (build_ensures (newVar_builds _ _)) ?_
  rintro stateVar s₁ ⟨_, h1⟩
  refine .after (build_ensures (newVar_builds _ _)) ?_
  rintro resumeVar s₂ ⟨_, h2⟩
  refine .after (build_ensures (newVar_builds _ _)) ?_
  rintro excVar s₃ ⟨_, h3⟩
  refine .after (build_ensures (newLabel_builds _ _)) ?_
  rintro brk s₄ ⟨_, h4⟩
  refine .after (build_ensures (newLabel_builds _ _)) ?_
  rintro cont s₅ ⟨_, h5⟩
  refine (reportUndefined_calmly _ _ _).bind ?_
  rintro _ s₆ ⟨hdef, h6⟩
  refine .read ?_
  subst h6
  refine .after (build_ensures ht) ?_
  rintro target s₇ ⟨_, h7⟩
  refine .pure ⟨?_, rfl, hdef⟩
  exact ((((h1.trans h2).trans h3).trans h4).trans h5).trans h7

/-! ### One lambda -/

/-- What lowering makes of a lambda: the lambda itself or a new one, lowered in any case. -/
structure Plainly (s : Lowering) (e y : Expr) (s' : Lowering) : Prop where
  calm : Calm s'
  le : s.supply.refs ≤ s'.supply.refs
  same : y = e ∨ s.supply.refs < y.ref ∧ y.ref ≤ s'.supply.refs
  kind : y.kind? = some .lambda
  lowered : Expr.IsLowered y

theorem Plainly.since (h : Plainly s e y s') {s₀ : Lowering} (hle : s₀.supply.refs ≤ s.supply.refs) :
    Plainly s₀ e y s' :=
  ⟨h.calm, Nat.le_trans hle h.le, h.same.imp_right fun hy => ⟨Nat.lt_of_le_of_lt hle hy.1, hy.2⟩,
    h.kind, h.lowered⟩

theorem lambdaResult_builds (e : Expr) : Builds e.lambdaResult fun _ => True := by
  unfold lambdaResult
  split
  · exact Builds.pure trivial
  · exact Builds.throw _
  · exact Builds.pure trivial

theorem lambdaOf_fresh {t : Ty} {fallible : Bool} {q q' : Supply}
    (h : lambdaOf t name kind fallible params body q = .ok y q') :
    y.kind? = some .lambda ∧ y.ref = q.refs + 1 ∧ q'.refs = q.refs + 1 := by
  obtain ⟨fits, hfits⟩ : ∃ fits : Bool, lambdaOf t name kind fallible params body =
      if fits then node t (.lambda name params body kind fallible) else throw _ := ⟨_, rfl⟩
  rw [hfits] at h
  cases fits with
  | true =>
    cases h
    exact ⟨rfl, rfl, rfl⟩
  | false => cases h

/-- A new plain lambda around a lowered body. -/
theorem lambdaOf_calmly {s₀ : Lowering} (t : Ty) (h : Calm s) (hle : s₀.supply.refs ≤ s.supply.refs)
    (hbody : Expr.IsLowered body) : Calmly config s (Build.lambdaOf t name .plain false params body)
      (Plainly s₀ e) := by
  refine .of_ensures fun y s' hrun => ?_
  obtain ⟨hlow, hbeside⟩ := build_ensures (lambdaOf_builds hbody) y s' hrun
  change build _ config s = _ at hrun
  unfold build at hrun
  split at hrun
  · rename_i hq
    cases hrun
    obtain ⟨hkind, href, hrefs⟩ := lambdaOf_fresh hq
    refine ⟨h.beside hbeside, Nat.le_trans hle hbeside.refs, Or.inr ⟨?_, ?_⟩, hkind, hlow⟩
    · rw [href]
      exact Nat.lt_succ_of_le hle
    · rw [href]
      exact Nat.le_of_eq hrefs.symm
  · cases hrun

/-- The splitter builds with the supply of lowering and reports to its reporter. -/
structure Agrees (b : Splitter) (s : Lowering) : Prop where
  supply : b.supply = s.supply
  reporter : b.reporter = s.reporter
  moments : b.moments = s.moments

theorem Agrees.eq (h : Agrees b s) :
    { b with supply := s.supply, reporter := s.reporter, moments := s.moments } = b := by
  rw [← h.supply, ← h.reporter, ← h.moments]

/-- The ledger after a body was split. -/
def finished (p : Plan) (s : Lowering) (body : Expr) : Split.Ledger :=
  (Split.start ⟨s.supply, s.reporter, s.moments, {}, #[], 0, [], [], 0, none, #[], none, []⟩
    (p.index.aims body)).enter (p.index.marks body)

/-- Without a usage error nothing is left to be finished in a split body. -/
theorem splitBody_calmly (hbody : Body body) :
    Calmly config s (split p { supply := s.supply, reporter := s.reporter } (splitBody body))
      fun r s' => Split.Settled (finished p s body) r.2 ∧ Agrees r.2 s' ∧ Beside s s' := by
  refine Ensures.mono (split_ensures ((splitBody_ensures p s.supply s.reporter s.moments hbody).and
    (Keeps.later p _))) ?_
  intro r s' ⟨⟨hleft, hlater⟩, hs'⟩ hquiet
  subst hs'
  exact ⟨⟨hleft, hquiet⟩, ⟨rfl, rfl, rfl⟩, ⟨hlater.1.2 hquiet, rfl, hleft.inv.refs⟩⟩

/-- The dispatch loop of a finished machine is put into a lowered tree. -/
theorem assemble_ensures {L : Split.Ledger} (h : Split.Settled L b) (hb : Agrees b s) :
    Ensures config s (split p b (do Split.assemble (← Split.emitDispatch))) fun r s' =>
      Expr.IsLowered r.1.1 ∧ Split.Settled L r.2 ∧ s'.reporter = s.reporter ∧
        s'.machines = s.machines ∧ L.refs ≤ s'.supply.refs := by
  refine (split_ensures (Q := fun r b' => (Expr.IsLowered r.1 ∧ Split.Settled L b') ∧
    Forward.later b b') ?_).mono ?_
  · rw [hb.eq]
    refine Ensures.and ?_ (Keeps.later p b)
    refine (Split.emitDispatch_ensures h).bind ?_
    rintro x b₁ ⟨hx, h1⟩
    exact Split.assemble_ensures h1 hx
  · rintro r s' ⟨⟨⟨hlow, hset⟩, hlater⟩, rfl⟩
    exact ⟨hlow, hset, (hlater.1.2 hset.quiet).trans hb.reporter, rfl, hset.left.inv.refs⟩

/-- The passes after lowering leave a tree lowered. -/
theorem polish_ensures {ignore : List Var} (hx : Expr.IsLowered x) :
    Ensures config s (polish name ignore x) fun y s' => Expr.IsLowered y ∧ Beside s s' := by
  unfold polish
  refine (build_ensures (rescope_builds ignore hx)).bind ?_
  rintro y s₁ ⟨hy, h1⟩
  refine (phase_ensures _ _).bind fun _ s₂ h2 => .read ?_
  subst h2
  split
  · refine .read ((build_ensures (optimize_builds config.alike hy)).bind ?_)
    rintro z s₃ ⟨hz, h3⟩
    refine (phase_ensures _ _).bind fun _ s₄ h4 => ?_
    subst h4
    exact Ensures.pure ⟨hz, h3.reporter.trans h1.reporter, h3.machines.trans h1.machines,
      Nat.le_trans h1.refs h3.refs⟩
  · exact Ensures.pure ⟨hy, h1.reporter, h1.machines, h1.refs⟩

/-- Recording a sound machine reports nothing. -/
theorem record_ensures {m : Machine} (hm : m.Sound) (h : Calm s) :
    Ensures config s (record m) fun _ s' => Calm s' ∧ s'.supply = s.supply := by
  have hpush : ∀ q ∈ s.machines.push m, q.Sound := by
    intro q hq
    obtain hq | rfl := Array.mem_push.mp hq
    · exact h.sound q hq
    · exact hm
  unfold record
  refine .read ?_
  split
  · exact Ensures.of_run rfl ⟨⟨hm.check_tidy h.tidy, hpush⟩, rfl⟩
  · exact Ensures.of_run rfl ⟨⟨h.tidy, hpush⟩, rfl⟩

/-- **A body that is split without usage errors gives a sound machine and a plain lambda.** -/
theorem machine_calmly {target : Build Target} [Onward target] (ht : Builds target fun _ => True) (h : Calm s)
    (hbody : Body body) :
    Calmly config s (machine e name kind params body target) (Plainly s e) := by
  unfold machine
  refine (plan_calmly ht).bind (k := ?_) ?_
  · rintro p s₁ ⟨h1, hindex, hdef⟩
    refine .get ?_
    refine (splitBody_calmly hbody).bind (k := ?_) ?_
    · rintro ⟨_, b⟩ s₂ ⟨hset, hagree, h2⟩
      refine .after (phase_ensures _ _) fun _ s₃ hs₃ => ?_
      have h3 : Calm s₃ := by
        rw [hs₃]
        exact ⟨((h.beside h1).beside h2).tidy, ((h.beside h1).beside h2).sound⟩
      show Calmly _ _ (if _ then _ else _) _
      -- nothing was reported, so the machine is assembled
      rw [h3.tidy.hasErrors, if_neg Bool.false_ne_true]
      refine .after (assemble_ensures hset ?_) ?_
      · rw [hs₃]
        exact ⟨hagree.supply, hagree.reporter, hagree.moments⟩
      rintro ⟨⟨lowered, slots⟩, b'⟩ s₄ ⟨hlow, hset', hrep, hmach, hrefs⟩
      refine .after (phase_ensures _ _) fun _ s₅ hs₅ => ?_
      have h5 : Calm s₅ := by
        rw [hs₅]
        exact ⟨hrep ▸ h3.tidy, hmach ▸ h3.sound⟩
      refine .after (polish_ensures hlow) ?_
      rintro y s₆ ⟨hy, h6⟩
      refine .after (record_ensures ?_ (h5.beside h6)) ?_
      · refine hset'.sound rfl (fun l hl => ?_) ?_ name kind _ _ _ _
        · -- every jump of the body aims at a mark, and the visit entered all of them
          rw [finished, hindex] at hl ⊢
          exact List.mem_append_left _ (JumpIndex.aims_subset_marks hdef hl)
        · have hentry := hset'.left.inv.known (.state 0) List.mem_cons_self
          exact Nat.ne_of_gt (Array.size_pos_of_mem hentry.2)
      · rintro _ s₇ ⟨h7, hsupply⟩
        refine lambdaOf_calmly e.type h7 ?_ hy
        rw [hsupply]
        rw [hs₅] at h6
        exact Nat.le_trans h1.refs (Nat.le_trans hrefs h6.refs)
    · rintro ⟨_, b⟩
      infer_instance
  · intro p
    repeat' first | infer_instance | split | refine .seq ?_ fun _ => ?_

/-- A plain lambda without suspension points of its own is lowered. -/
theorem lowered_plain {i r : Nat} {t : Ty} {fallible : Bool} (hbody : Body body)
    (hasync : body.isAsync = false) :
    Expr.IsLowered (.node i r t (.lambda name params body .plain fallible)) :=
  lowered_node.mpr ⟨rfl, fun c hc => by
    cases List.mem_singleton.mp hc
    exact hbody.prepared.lowered hasync⟩

/-- **A lambda is lowered when no usage error is met.** -/
theorem lambda_calmly {fallible : Bool} (h : Calm s)
    (he : e.data? = some (.lambda name params body kind fallible)) (hbody : Body body) :
    Calmly config s (lambda e kind params body) (Plainly s e) := by
  unfold lambda
  cases kind with
  | plain =>
    dsimp only
    split
    · exact Calmly.report _ _ _
    · -- a body that never awaits becomes its own fast path, without a machine
      rename_i hasync
      cases e with
      | absent => cases he
      | node i r t d =>
        cases he
        exact .pure ⟨h, Nat.le_refl _, Or.inl rfl, rfl, lowered_plain hbody (by simpa using hasync)⟩
  | async =>
    refine .after (build_ensures (lambdaResult_builds e)) ?_
    rintro handle s₁ ⟨_, h1⟩
    split
    · exact Calmly.report _ _ _
    · rename_i backend _
      split
      · rename_i hasync
        refine .modify (.after (build_ensures (Backend.fastPath_builds ?_)) ?_)
        · exact hbody.prepared.lowered (by simpa using hasync)
        · rintro y s₃ ⟨hy, h3⟩
          refine lambdaOf_calmly e.type (Calm.beside ⟨h1.reporter ▸ h.tidy, fun m hm => ?_⟩ h3)
            (Nat.le_trans h1.refs h3.refs) hy
          obtain hm | rfl := Array.mem_push.mp hm
          · exact (h.beside h1).sound m hm
          · exact Machine.sound_of_fast _ _
      · refine (machine_calmly ?_ (h.beside h1) hbody).mono fun y s' hy => hy.since h1.refs
        exact (newVar_builds _ _).bind fun _ _ => (newVar_builds _ _).bind fun _ _ => .pure trivial
  | iterator =>
    refine .after (build_ensures (lambdaResult_builds e)) ?_
    rintro handle s₁ ⟨_, h1⟩
    split
    · exact Calmly.report _ _ _
    · refine (machine_calmly ?_ (h.beside h1) hbody).mono fun y s' hy => hy.since h1.refs
      exact (newVar_builds _ _).bind fun _ _ => (newVar_builds _ _).bind fun _ _ => .pure trivial

/-! ### A tree -/

/-- Rewriting a tree leaves lowering calm. -/
structure Rewrites (s : Lowering) (x y : Expr) (s' : Lowering) : Prop where
  calm : Calm s'
  rewritten : Rewritten s.supply.refs s'.supply.refs x y

/-- Trees are rewritten in order. -/
theorem mapM_calmly {f : γ → Lower Expr} {g : γ → Expr} {cs : List γ} (hk : ∀ c, Keeps (f c))
    (hf : ∀ c ∈ cs, ∀ s, Calm s → Proper s.supply.refs (g c) →
      Calmly config s (f c) (Rewrites s (g c)))
    (h : Calm s) (hcs : ∀ c ∈ cs, Proper s.supply.refs (g c)) :
    Calmly config s (cs.mapM f) fun ys s' =>
      Calm s' ∧ Chain s.supply.refs s'.supply.refs (cs.map g) ys := by
  induction cs generalizing s with
  | nil =>
    rw [List.mapM_nil]
    exact .pure ⟨h, .nil _⟩
  | cons c cs ih =>
    rw [List.mapM_cons]
    refine (hf c List.mem_cons_self s h (hcs c List.mem_cons_self)).bind fun y s₁ h1 => ?_
    have hrest : ∀ c ∈ cs, Proper s₁.supply.refs (g c) := fun c hc =>
      (hcs c (List.mem_cons_of_mem _ hc)).mono h1.rewritten.own.le
    refine (ih (fun c hc => hf c (List.mem_cons_of_mem _ hc)) h1.calm hrest).bind ?_
    rintro ys s₂ ⟨h2, hchain⟩
    exact .pure ⟨h2, .cons h1.rewritten hchain⟩

/-- The operands are rewritten first, and the node is copied when one of them was. -/
theorem mapChildren_calmly {f : Expr → Lower Expr} (hk : ∀ c, Keeps (f c))
    (hf : ∀ c ∈ x.children, ∀ s, Calm s → Proper s.supply.refs c → Calmly config s (f c) (Rewrites s c))
    (h : Calm s) (hx : Proper s.supply.refs x) (hnode : x.isAbsent = false) :
    Calmly config s (x.mapChildren fun c _ => f c) fun y s' => Calm s' ∧
      ∃ q₁, Renovated s.supply.refs q₁ s'.supply.refs x y := by
  cases x with
  | absent => cases hnode
  | node i r t d =>
    rw [mapChildren_eq]
    have hmap : Calmly config s ((Expr.node i r t d).children.mapM f) fun ys s' => Calm s' ∧
        Chain s.supply.refs s'.supply.refs ((Expr.node i r t d).children.map id) ys :=
      mapM_calmly hk hf h fun c hc => hx.operand (List.mem_filter.mp hc).1
    refine hmap.bind (k := fun cs => ?_) ?_
    · rintro cs s₁ ⟨h1, hchain⟩
      rw [List.map_id] at hchain
      split
      · rename_i hsame
        exact .pure ⟨h1, _, .of_same hchain hx hsame⟩
      · refine .after (R := fun r s' => r = s₁.supply.refs + 1 ∧ Calm s' ∧
          s'.supply.refs = s₁.supply.refs + 1) (Ensures.of_run rfl ⟨rfl, ⟨h1.tidy, h1.sound⟩, rfl⟩) ?_
        rintro r s₂ ⟨hr, h2, hrefs⟩
        refine .pure ⟨h2, s₁.supply.refs, ?_⟩
        rw [hr, hrefs]
        exact .of_copy hchain hx
    · dsimp only
      infer_instance

/-- What the step makes of a node whose operands were rewritten. -/
theorem step_calmly {q q₁ : Nat} (h : Calm s) (hx : Proper q x)
    (hy : Renovated q q₁ s.supply.refs x y) : Calmly config s (step y) fun z s' =>
      Calm s' ∧ Rewritten q s'.supply.refs x z := by
  unfold step
  split
  · rename_i hd
    refine (lambda_calmly h hd (hy.body hx hd)).mono fun z s' hz => ⟨hz.calm, ?_⟩
    have hkind : y.kind? = some .lambda := by
      rw [kind?, hd]
      rfl
    exact hy.lambda (hy.kind ▸ hkind) hz.le hz.same hz.kind hz.lowered
  · rename_i hlambda
    refine .pure ⟨h, hy.rewritten hx fun hkind => ?_⟩
    obtain ⟨d, hd, hk⟩ := Option.map_eq_some_iff.mp (hy.kind.trans hkind)
    cases d <;> cases hk
    exact hlambda _ _ _ _ _ hd

/-- **Bottom-up rewriting lowers every lambda of a tree**, as long as no usage error is met. -/
theorem rewrite_calmly (x : Expr) (h : Calm s) (hx : Proper s.supply.refs x) :
    Calmly config s (x.rewrite step) (Rewrites s x) := by
  rw [Expr.rewrite]
  split
  · rename_i habs
    cases x with
    | absent => exact .pure ⟨h, rewritten_absent _⟩
    | node => cases habs
  · rename_i hnode
    refine (mapChildren_calmly (fun c => keeps_rewrite c step inferInstance)
      (fun c hc s hs hp => rewrite_calmly c hs hp) h hx (by simpa using hnode)).bind ?_
    rintro y s₁ ⟨h1, q₁, hy⟩
    exact (step_calmly h1 hx hy).mono fun z s' hz => ⟨hz.1, hz.2⟩
  termination_by sizeOf x
  decreasing_by exact sizeOf_lt_of_mem_children hc

/-- A whole tree is lowered, and has at least one machine. -/
structure Finished (out : Expr) (s : Lowering) : Prop where
  calm : Calm s
  lowered : Expr.IsLowered out
  present : out.isAbsent = false
  machines : s.machines.isEmpty = false

/-- A tree that lowering has rewritten is finished. -/
theorem Rewrites.finished (h : Rewrites s x y s') (hx : x.isAbsent = false)
    (hasync : x.kind? = some .lambda ∨ x.isAsync = false) (hm : s'.machines.isEmpty = false) :
    Finished y s' := by
  have hkind := h.rewritten.kind?_eq
  refine ⟨h.calm, ?_, ?_, hm⟩
  · obtain hlambda | hasync := hasync
    · cases y with
      | absent => cases hkind.trans hlambda
      | node i r t d =>
        exact (prepared_lambda (Option.some.inj (hkind.trans hlambda))).mp h.rewritten.prepared
    · refine h.rewritten.prepared.lowered_of_own fun n hn => ?_
      have hnone : x.ownNodes.any suspends = false := by
        rw [List.any_eq_false]
        exact fun m hm => by simp [not_suspends_of_not_isAsync hasync hm]
      rw [← h.rewritten.any_suspends, List.any_eq_false] at hnone
      simpa using hnone n hn
  · cases x with
    | absent => cases hx
    | node =>
      cases y with
      | absent => cases hkind
      | node => rfl

/-- **A tree in which no usage error is met is lowered as a whole.** -/
theorem tree_calmly (e : Expr) (h : Calm s) (he : Proper s.supply.refs e) :
    Calmly config s (tree e) Finished := by
  unfold tree
  dsimp only
  split
  · exact Calmly.report _ _ _
  · rename_i hpresent
    split
    · exact Calmly.report _ _ _
    · rename_i hasync
      refine (rewrite_calmly e h he).bind fun out s₁ h1 => .get ?_
      show Calmly _ _ (if (s₁.machines.isEmpty && !s₁.reporter.bag.hasErrors) = true then _ else _) _
      rw [h1.calm.tidy.hasErrors]
      split
      · exact Calmly.report _ _ _
      · rename_i hm
        refine .pure (h1.finished (by simpa using hpresent) ?_ (by simpa using hm))
        by_cases hlambda : e.hasKind .lambda = true
        · exact Or.inl (beq_iff_eq.mp hlambda)
        · exact Or.inr (by simpa [hlambda] using hasync)

end Lower

/-! ### The whole outcome -/

theorem Bag.hasErrors_sort (b : Bag) : b.sort.hasErrors = b.hasErrors := by
  unfold Bag.hasErrors Bag.sort
  exact (List.mergeSort_perm _ _).any_eq

/-- The outcome keeps the rules for outcomes when its machines are not too large. -/
theorem Lower.Finished.invariantFault?_eq_none {out : Expr} {s : Lowering} (h : Lower.Finished out s)
    (hsize : ∀ m ∈ s.machines, m.states.length ≤ Machine.maxStates) :
    invariantFault? out s.machines.toList = none := by
  have hfind : out.allNodes.find? Expr.isUnlowered = none := by
    rw [List.find?_eq_none]
    exact fun n hn => by simp [h.lowered n hn]
  have hne : s.machines.toList.isEmpty = false := by simpa using h.machines
  unfold invariantFault?
  rw [h.present, hfind, hne]
  simp only [Bool.false_eq_true, if_false, List.findSome?_eq_none_iff]
  intro m hm
  have hm' := Array.mem_toList_iff.mp hm
  rw [(h.calm.sound m hm').fault?_eq_none (hsize m hm')]
  rfl

/-- **Lowering is structurally sound.** Take any tree with every node at one place, and any options. When
lowering comes to an end without having met a usage error, its outcome is a tree in which nothing
suspends and no lambda is left to be lowered, all of its machines are sound, the checker finds no error in
them, and the outcome keeps the rules for outcomes as long as no machine has too many states. -/
theorem lower_sound (config : LowerConfig) (e : Expr) (supply : Supply) (he : e.Proper supply.refs)
    {out : Expr} {s : Lowering} (hrun : Lower.tree e config (.start config supply) = .ok out s)
    (hquiet : Quiet s.reporter.seen) :
    (lower config e supply).1 = .ok (.done ⟨out, s.machines.toList, s.phases.toList⟩) ∧
      (∀ n ∈ out.allNodes, n.isUnlowered = false) ∧
      (∀ m ∈ s.machines.toList, m.Sound ∧ ∀ d ∈ m.findings, d.severity ≠ .error) ∧
      ((∀ m ∈ s.machines.toList, m.states.length ≤ Machine.maxStates) →
        invariantFault? out s.machines.toList = none) := by
  have hcalm : Calm (.start config supply) :=
    { tidy := { seen := fun f hf => (by cases hf), bag := fun d hd => (by cases hd) }
      sound := fun m hm => by simp [Lowering.start] at hm }
  have h := Lower.tree_calmly e hcalm he out s hrun hquiet
  refine ⟨?_, h.lowered, fun m hm => ?_, fun hsize => ?_⟩
  · unfold lower
    simp only [hrun, Bag.hasErrors_sort, h.calm.tidy.hasErrors, Bool.false_eq_true, if_false]
  · have hsound := h.calm.sound m (Array.mem_toList_iff.mp hm)
    refine ⟨hsound, fun d hd => ?_⟩
    rw [hsound.warning_of_mem_findings hd]
    decide
  · exact h.invariantFault?_eq_none fun m hm => hsize m (Array.mem_toList_iff.mpr hm)

/-- An async lambda that awaits its parameter, with a handler and a cleanup block around it. -/
def guardedAwait : Expr :=
  let task : Var := ⟨1, "task", .task .int⟩
  .node 6 6 (.func [.task .int] false [.task .int]) (.lambda "guarded" [task]
    (.node 5 5 .int (.protect
      (.node 2 2 .int (.await (.node 1 1 (.task .int) (.var task)) none))
      [{ test := .error, var := none, filter := .absent,
         body := .node 3 3 .int (.constant (some (.ofInt 0))) }]
      (.node 4 4 .void .default) .absent)) .async false)

theorem guardedAwait_proper : guardedAwait.Proper 6 :=
  ⟨by decide +kernel, by decide +kernel, by decide +kernel⟩

/-- Every machine is checked, and no two constants are alike. -/
def verifying : LowerConfig := ⟨{ verify := true }, fun _ _ => false⟩

/-- An await inside a protected body. -/
theorem lower_sound_guardedAwait :
    ∃ r, (lower verifying guardedAwait ⟨6, 1, 6⟩).1 = .ok (.done r) ∧
      (∀ n ∈ r.tree.allNodes, n.isUnlowered = false) ∧
        ∀ m ∈ r.machines, m.Sound ∧ ∀ d ∈ m.findings, d.severity ≠ .error := by
  have hclean : (match Lower.tree guardedAwait verifying (.start verifying ⟨6, 1, 6⟩) with
      | .ok _ s => s.reporter.seen.isEmpty
      | .error _ _ => false) = true := by decide +kernel
  cases hrun : Lower.tree guardedAwait verifying (.start verifying ⟨6, 1, 6⟩) with
  | error f s =>
    rw [hrun] at hclean
    cases hclean
  | ok out s =>
    rw [hrun] at hclean
    have hquiet : Quiet s.reporter.seen := by
      rw [List.isEmpty_iff.mp hclean]
      exact fun f hf => absurd hf List.not_mem_nil
    obtain ⟨hdone, hlow, hsound, -⟩ :=
      lower_sound verifying guardedAwait ⟨6, 1, 6⟩ guardedAwait_proper hrun hquiet
    exact ⟨_, hdone, hlow, hsound⟩

end Resumable
