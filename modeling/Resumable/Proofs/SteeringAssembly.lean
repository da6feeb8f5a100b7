import Resumable.Proofs.SteeringEmission
import Resumable.Proofs.SteeringPasses

/-!
# `Proofs.SteeringAssembly`: the lowered lambda heeds a helm

The cases become the arms of a switch over the slot of the next state, and the loop around it becomes a
function. Around the loop only the start and the end are stored into the slots. When the numbers that are live
are closed under what the cases store, the function keeps to its licence.

**Contents**
* `Voyage.Closed`: the live numbers are closed.
* `emitCases_emits`, `emitDispatch_emits`: the dispatch loop.
* `assemble_heeding`: the lambda around it.
-/

namespace Resumable

open Resumable.Expr Split Build

namespace Voyage

variable (c : Voyage)

/-- Making what stands around the cases. -/
def assembling : Voyage := c.storing (fun n => n = -1 ∨ n = 0) True

/-- The numbers that are live are closed under what the cases store, when the helm belongs to the machine. -/
structure Closed : Prop where
  halt : c.view.own = true → c.helm.live (-1)
  start : c.view.own = true → c.helm.live 0
  follows : c.view.own = true → ∀ r ∈ c.view.last.states, ∀ n, c.Follows r n →
    c.helm.live (c.view.last.graph.state r).id → c.helm.live n

/-- The case of a state. -/
structure ArmOf (r : StateRef) (arm : List Expr × Expr) : Prop where
  listed : r ∈ c.view.last.states
  test : ∃ x, arm.1 = [x] ∧ Watch.Number (· = (c.view.last.graph.state r).id) x
  body : Loyal (c.arm r) arm.2

instance [hc : c.Sees] : c.assembling.Sees :=
  hc.storing (fun _ h => h.elim .inl fun h => .inr (.inl h)) (.inl rfl)

variable {c}

theorem Closed.within (h : c.Closed) : c.assembling.licence.Within c.helm.body where
  turns _ := trivial
  stores _ _ hn := hn.2.2.elim (fun h' => h' ▸ h.halt hn.1) fun h' => h' ▸ h.start hn.1
  reads _ := trivial

theorem Closed.arm_within (h : c.Closed) (ht : ¬ c.turning) {r : StateRef} (hr : r ∈ c.view.last.states) :
    (c.arm r).licence.Within (c.helm.arm (c.view.last.graph.state r).id) where
  turns hz := ht hz.1
  stores _ n hn hlive := h.follows hn.1 r hr n hn.2.2 hlive
  reads _ := trivial

end Voyage

section
variable {c : Voyage} [hc : c.Sees] {x : Expr}

/-! ### The cases -/

instance {r : StateRef} : Heedful c (announce r) := by
  unfold announce
  repeat' first
    | infer_instance | split | dsimp only | refine Heedful.read ?_ | refine .seq ?_ fun _ => ?_
    | refine Heedful.next ?_ (fun _ _ => ?_) fun _ => ?_

/-- Every case is an arm of a state. -/
theorem emitCases_emits (he : c.ending) (ht : ¬ c.turning) (fuel i : Nat) {s : Splitter} (hs : Tidy c s) (hp : s.Placed) :
    Onto c s (emitCases fuel i) fun cs s' => (∀ arm ∈ cs, ∃ r, c.ArmOf r arm) ∧ Tidy c s' := by
  induction fuel generalizing i s with
  | zero => exact .pure ⟨by simp, hs⟩
  | succ fuel ih =>
    unfold emitCases
    refine Ensures.get ?_
    split
    · exact Onto.pure ⟨by simp, hs⟩
    · rename_i r hr
      have hannounce : Heedful c (announce r) := inferInstance
      refine ((Emits.of_heedful hannounce s hs).ensuring (Idle.alike _ s)).bind fun _ s₁ h => ?_
      obtain ⟨⟨_, h1⟩, h01⟩ := h
      refine Onto.bind ((Emits.of_storing (caseBody_emits he ht) s₁ h1).ensuring (Frugal.spends _ s₁))
        fun body s₂ h => Onto.before fun hlast _ => ?_
      obtain ⟨⟨hbody, h2⟩, h12⟩ := h
      have h02 := h01.spends.trans h12
      have hmem : r ∈ s₂.states := Array.mem_of_getElem? (getElem?_of_registered h02 hr)
      have hid : (s₂.graph.state r).id = (c.view.last.graph.state r).id :=
        (hlast.state r (h02.placed hp r hmem)).1.symm
      refine Ensures.state ?_
      refine ((Emits.of_heeding (Heeding.build (constInt_erects _)) s₂ h2).ensuring (Idle.alike _ s₂)).bind
        fun test s₃ h => ?_
      obtain ⟨⟨htest, h3⟩, h23⟩ := h
      refine (ih (i + 1) h3 (h23.placed (h02.placed hp))).bind fun cs s₄ h => ?_
      obtain ⟨hcs, h4⟩ := h
      refine .pure ⟨fun arm harm => ?_, h4⟩
      obtain rfl | harm := List.mem_cons.mp harm
      · exact ⟨r, hlast.registered r hmem, ⟨test, rfl, htest.mono fun _ h => h.trans hid⟩, hbody⟩
      · exact hcs arm harm

/-! ### The loop -/

omit hc in
/-- A node that does what the licence says. -/
theorem node_erects {t : Ty} {d : Data Expr} (h : ∀ i r, Heeds c.helm c.licence (.node i r t d))
    (hv : ∀ v, d ≠ .var v) : Erects c (node t d) (Loyal c) := by
  intro q a q' heq _
  cases heq
  exact .of_heeds (h _ _) fun v h => absurd h (hv v)

omit hc in
/-- A call of a library function of parts that heed the helm. -/
theorem callLibrary_erects {f : Library} {xs : List Expr} (hxs : ∀ x ∈ xs, Heeds c.helm c.licence x) :
    Erects c (callLibrary f xs) (Loyal c) := by
  unfold callLibrary callFunc call
  refine Erects.bind (P := Loyal c) (Built.erects) fun fn hfn => ?_
  refine Erects.bind (P := fun _ => True) (fun _ _ _ _ _ => trivial) fun t _ => ?_
  extract_lets tail
  split
  · exact fun q a q' heq => by cases heq
  · refine Erects.bind (P := fun _ => True) (fun _ _ _ _ _ => trivial) fun u _ => ?_
    refine node_erects (fun i r => .node trivial (by simp [Data.kind]) fun k hk => ?_) (by simp)
    obtain rfl | hk := List.mem_cons.mp hk
    · exact hfn.heeds
    · exact hxs k hk

/-- A number that no state has is reported together with the number. -/
instance unknownState_heedful : Heedful c unknownState := by
  unfold unknownState
  refine .read ?_
  split
  · refine .read ⟨(Heeding.build (ref_erects _)).bind fun a ⟨⟨i, r, t, ha⟩, _⟩ => ?_⟩
    have hheeds : ∀ y ∈ [a], Heeds c.helm c.licence y := fun y hy => by
      rw [List.mem_singleton.mp hy, ha]
      exact .node hc.state.admits (by simp [Data.kind]) (by simp [operands])
    refine (Heeding.build (callLibrary_erects hheeds)).bind fun y _ => ?_
    exact (inferInstance : Heedful c (liftM (raise y) : Split Expr)).heeding
  · repeat' first | infer_instance | refine .seq ?_ fun _ => ?_ | refine Heedful.next ?_ (fun _ _ => ?_) fun _ => ?_

/-- The number that an arm is for. -/
def Expr.armNumber : List Expr → Int
  | [.node _ _ _ (.constant (some (.int _ n)))] => n
  | _ => 0

theorem Watch.Number.armNumber {n : Int} (h : Watch.Number (· = n) x) : Expr.armNumber [x] = n := by
  unfold Watch.Number at h
  split at h
  · exact h.2.2
  · cases h

end

section
variable {c : Voyage} [hc : c.Sees] {x : Expr}

/-- The switch over the slot of the next state. -/
theorem switch_erects (hclosed : c.Closed) (ht : ¬ c.turning) {cs : List (List Expr × Expr)} {slot other : Expr}
    (hcs : ∀ arm ∈ cs, ∃ r, c.ArmOf r arm) (hslot : slot.Names c.plan.stateVar) (ho : Loyal c.assembling other) :
    Erects c.assembling (switch .void slot other none cs) (Loyal c.assembling) := by
  obtain ⟨i', r', t', rfl⟩ := hslot
  refine node_erects (fun i r => ?_) (by simp)
  by_cases hown : c.view.own = true
  · refine @Heeds.turn c.helm c.assembling.licence i r i' r' .void t' c.plan.stateVar cs other armNumber ⟨trivial, hown⟩
      (hc.state.steers.mpr hown) hc.state.type (fun arm harm => ?_) (fun arm harm => ?_) ho.heeds
    · obtain ⟨q, -, ⟨test, htest, hnumber⟩, -⟩ := hcs arm harm
      refine ⟨test, htest, ?_⟩
      rw [htest, hnumber.armNumber]
      exact hnumber
    · obtain ⟨q, hq, ⟨test, htest, hnumber⟩, hbody⟩ := hcs arm harm
      rw [htest, hnumber.armNumber]
      exact hbody.heeds.mono (hclosed.arm_within ht hq)
  · -- the helm belongs to another machine
    refine .node trivial (by simp [Data.kind]) fun k hk => ?_
    obtain rfl | ⟨arm, harm, hk⟩ | rfl := mem_operands_switch.mp hk
    · exact .node (fun hs => absurd (hc.state.steers.mp hs) hown) (by simp [Data.kind]) (by simp [operands])
    · obtain ⟨q, -, ⟨test, htest, hnumber⟩, hbody⟩ := hcs arm harm
      obtain hk | rfl := hk
      · cases List.mem_singleton.mp (htest ▸ hk)
        exact hnumber.heeds
      · exact hbody.heeds.mono ((c.arm q).licence_within hown _)
    · exact ho.heeds

/-- **The dispatch loop.** -/
theorem emitDispatch_emits (hclosed : c.Closed) (he : c.ending) (ht : ¬ c.turning) {s : Splitter} (hs : Tidy c s)
    (hp : s.Placed) : Onto c s emitDispatch fun x s' => Loyal c.assembling x ∧ Tidy c.assembling s' := by
  unfold emitDispatch
  refine Ensures.get ?_
  refine (emitCases_emits he ht _ 0 hs hp).bind fun cs s₁ ⟨hcs, h1⟩ => ?_
  refine Onto.of_toward (c := c.assembling) ((?_ : Heeding c.assembling _ (Loyal c.assembling)) s₁ (h1.storing _ _))
  refine Heeding.read ?_
  refine (Heeding.build (ref_erects _)).bind fun slot hslot => .next inferInstance fun other ho => ?_
  refine (Heeding.build (switch_erects hclosed ht hcs hslot.1 ho)).bind fun sw _ => ?_
  exact (inferInstance : Heedful c.assembling (liftM (loop sw _ _) : Split Expr)).heeding

/-! ### The lambda around the loop -/

omit hc in
/-- A function keeps to its own licence. -/
theorem lambda_erects (hclosed : c.Closed) {name : String} {fallible : Bool} {params : List Var}
    (hp : ∀ v ∈ params, ¬ c.helm.steers v.id) [hx : Loyal c.assembling x] :
    Erects c.assembling (lambda name fallible params x) (Loyal c.assembling) := by
  unfold lambda lambdaOf
  refine Erects.bind (P := fun _ => True) (fun _ _ _ _ _ => trivial) fun t _ => ?_
  extract_lets outs fits
  split
  · exact node_erects (fun i r => .lambda hp (hx.heeds.mono hclosed.within)) (by simp)
  · exact .throw _

omit hc in
/-- A block that declares slots of the machine. -/
theorem block_erects {vars : List Var} {xs : List Expr} (hv : ∀ v ∈ vars, c.helm.Typed v)
    [hxs : Loyal c.assembling xs] : Erects c.assembling (block vars xs) (Loyal c.assembling) := by
  unfold block typedBlock
  extract_lets tail
  have htail : ∀ t, Erects c.assembling (tail t) (Loyal c.assembling) := fun t =>
    node_erects (fun i r => .node hv (by simp [Data.kind]) fun k hk => (hxs.of_mem hk).heeds) (by simp)
  split
  · exact Erects.bind (P := fun _ => True) (fun _ _ _ _ _ => trivial) fun t _ => htail t
  · exact htail .void

omit hc in
/-- An error that leaves the loop is caught around it. -/
theorem catchAll_erects {v : Var} {y : Expr} (hx : Heeds c.helm c.assembling.licence x) (hv : Loyal c.assembling v)
    (hy : Loyal c.assembling y) : Erects c.assembling (catchAll x v y) (Loyal c.assembling) := by
  unfold catchAll protect
  refine Erects.bind (P := fun _ => True) (fun _ _ _ _ _ => trivial) fun t _ => ?_
  refine node_erects (fun i r => .node (fun k hk w hw => ?_) (by simp [Data.kind]) fun k hk => ?_) (by simp)
  · cases List.mem_singleton.mp hk
    cases hw
    exact hv.free
  · obtain rfl | ⟨h, hh, hk⟩ | rfl | rfl := mem_operands_protect.mp hk
    · exact hx
    · cases List.mem_singleton.mp hh
      obtain rfl | rfl := hk
      · exact .absent
      · exact hy.heeds
    · exact .absent
    · exact .absent

/-- The slots are declared as what they are. -/
theorem Voyage.typed_slots {s : Splitter} (hs : Tidy c.assembling s) {vs : List Var}
    (hvs : ∀ v ∈ vs, ¬ c.helm.steers v.id) :
    ∀ v ∈ s.vars.toList ++ [c.plan.stateVar, c.plan.resumeVar, c.plan.excVar] ++ vs, c.helm.Typed v := by
  intro v hv
  simp only [List.mem_append, List.mem_cons, List.not_mem_nil, or_false, Array.mem_toList_iff] at hv
  obtain (hv | rfl | rfl | rfl) | hv := hv
  · exact hs.vars v hv
  · exact fun _ => hc.state.type
  · exact fun _ => hc.resume.type
  · exact fun h => absurd h hc.excVar
  · exact fun h => absurd h (hvs v hv)

/-- **The function of an async lambda** is heeded. -/
theorem assembleAsync_heedful (hclosed : c.Closed) {backend : Backend} {cell continuation : Var}
    (hcell : ¬ c.helm.steers cell.id) (hcont : ¬ c.helm.steers continuation.id) [Loyal c.assembling x] :
    Heedful c.assembling (assembleAsync backend cell continuation x) := by
  have : Loyal c.assembling cell := ⟨hcell⟩
  have : Loyal c.assembling continuation := ⟨hcont⟩
  have hhalt := setStateId_heedful (c := c.assembling) (.inl rfl)
  have hstart := setStateId_heedful (c := c.assembling) (.inr rfl)
  unfold assembleAsync
  refine .read (.next inferInstance (fun ex _ => .next hhalt (fun reset _ => ?_) fun _ => ?_) fun _ => ?_)
  refine .next inferInstance (fun a _ => .next inferInstance (fun b _ => ?_) fun _ => ?_) fun _ => ?_
  refine .next inferInstance (fun fail _ => .next inferInstance (fun handler _ => ?_) fun _ => ?_) fun _ => ?_
  refine .next inferInstance (fun guarded _ => .next inferInstance (fun s hs => ?_) fun _ => ?_) fun _ => ?_
  extract_lets vars
  refine .next hstart (fun start _ => ⟨(Heeding.build (ref_erects _)).andThen (fun a ha => ?_) fun _ => ?_⟩) fun _ => ?_
  refine (Heeding.build (constInt_erects (-1))).andThen (fun b hb => ?_) fun _ => ?_
  refine .next (store_heedful (c := c.assembling) (.inr rfl) ha.1 hb (.inl rfl)) (fun resume _ => ?_) (k := fun _ => ?_)
  refine .next inferInstance (fun a _ => .next inferInstance (fun b _ => ?_) (k := fun _ => ?_)) (k := fun _ => ?_)
  refine .next inferInstance (fun create _ => .next inferInstance (fun a _ => ?_) (k := fun _ => ?_)) (k := fun _ => ?_)
  refine (Heeding.build (lambda_erects hclosed (by simp))).andThen (fun f _ => ?_) fun _ => ?_
  refine .next inferInstance (fun closure _ => .next inferInstance (fun d _ => ?_) (k := fun _ => ?_)) (k := fun _ => ?_)
  refine .next inferInstance (fun run _ => .next inferInstance (fun e _ => ?_) (k := fun _ => ?_)) (k := fun _ => ?_)
  refine .next inferInstance fun handle _ => .build (block_erects fun v hv => ?_)
  have hvars : ∀ v ∈ [cell, continuation], ¬ c.helm.steers v.id := by simpa using ⟨hcell, hcont⟩
  refine Voyage.typed_slots hs.good hvars v ?_
  rw [List.append_assoc]
  exact hv
  all_goals repeat' first | infer_instance | split | dsimp only | refine .seq ?_ fun _ => ?_

/-- **The function of an iterator** is heeded. -/
theorem assembleIterator_heeding (hclosed : c.Closed) {shape : Ty} {params : List Var} {dispose current : Var}
    (hparams : Loyal c.assembling params) (hdispose : ¬ c.helm.steers dispose.id) (hcurrent : ¬ c.helm.steers current.id)
    [hx : Loyal c.assembling x] : Heeding c.assembling (assembleIterator shape params dispose current x) fun q =>
      Loyal c.assembling q.1 := by
  have hhalt := setStateId_heedful (c := c.assembling) (.inl rfl)
  have hstart := setStateId_heedful (c := c.assembling) (.inr rfl)
  unfold assembleIterator
  refine Heeding.read ?_
  refine .next (.mapM fun p _ => .bind inferInstance fun w _ => inferInstance) (fun copies hcopies => ?_) (k := fun _ => ?_)
  have hpair : ∀ v w, (v, w) ∈ copies → ¬ c.helm.steers v.id ∧ ¬ c.helm.steers w.id := fun v w hvw =>
    ⟨(hcopies.of_mem hvw).fst.free, (hcopies.of_mem hvw).snd.free⟩
  -- a parameter and its copy are variables of the client, never those that steer
  have hlookup : ∀ v w, copies.reverse.lookup v = some w → ¬ c.helm.steers v.id ∧ ¬ c.helm.steers w.id := by
    intro v w hw
    refine hpair v w (List.mem_reverse.mp ?_)
    exact List.lookup_eq_some_iff.mp hw |>.elim fun l₁ h => h.elim fun l₂ h => h.1 ▸ by simp
  refine .next (.mapM fun q hq => ?_) (fun prologue _ => ?_) (k := fun _ => ?_)
  · obtain ⟨p, w⟩ := q
    have := hq.fst
    have := hq.snd
    repeat' first | infer_instance | refine .seq ?_ fun _ => ?_ | refine Heedful.next ?_ (fun _ _ => ?_) fun _ => ?_
  refine Heeding.andThen (Heeding.build fun q y q' hrun _ =>
    ((substitute_abides (K := fun _ => True) hlookup x) q y q' hrun).1.heeds _ trivial hx.heeds) (fun loop hloop => ?_)
      fun _ => ?_
  refine .next inferInstance (fun ex hex => .next hhalt (fun reset _ => ?_) (k := fun _ => ?_)) (k := fun _ => ?_)
  refine .next inferInstance (fun a _ => .next inferInstance (fun again _ => ?_) (k := fun _ => ?_)) (k := fun _ => ?_)
  refine .next inferInstance (fun handler hh => ?_) (k := fun _ => ?_)
  refine (Heeding.build (catchAll_erects hloop hex hh)).andThen (fun guarded _ => ?_) fun _ => ?_
  refine (Heeding.build (lambda_erects hclosed (by simpa using ⟨hdispose, hcurrent⟩))).andThen (fun step _ => ?_)
    fun _ => ?_
  refine .next inferInstance (fun s hs => ?_) (k := fun _ => ?_)
  extract_lets vars
  refine .next hstart (fun start _ => ?_) (k := fun _ => ?_)
  refine (Heeding.build (ref_erects _)).andThen (fun a ha => ?_) fun _ => ?_
  refine (Heeding.build (constInt_erects (-1))).andThen (fun b hb => ?_) fun _ => ?_
  refine .next (store_heedful (c := c.assembling) (.inr rfl) ha.1 hb (.inl rfl)) (fun resume _ => ?_) (k := fun _ => ?_)
  refine (Heeding.build (block_erects (Voyage.typed_slots hs.good fun v hv => ?_))).andThen (fun body _ => ?_)
    fun _ => ?_
  · obtain ⟨p, -, hv⟩ := List.mem_filterMap.mp hv
    exact (hlookup p v hv).2
  refine (Heeding.build (lambda_erects hclosed (by simp))).andThen (fun factory _ => ?_) fun _ => ?_
  refine .next inferInstance (fun seq _ => ?_) (k := fun _ => ?_)
  · split
    · exact .pure inferInstance
    · refine .next inferInstance fun value _ => .next inferInstance fun adapted _ => .next inferInstance fun out _ => ?_
      exact .pure inferInstance
  all_goals repeat' first | infer_instance | split | dsimp only | refine .seq ?_ fun _ => ?_

/-- **The lambda around the loop.** -/
theorem assemble_heeding (hclosed : c.Closed) [Loyal c.assembling x] : Heeding c.assembling (assemble x) fun q =>
    Loyal c.assembling q.1 := by
  have htarget := hc.target
  unfold assemble
  refine Heeding.read ?_
  extract_lets slots
  split
  · rename_i backend cell continuation heq
    have heq : c.plan.target = _ := heq
    rw [heq] at htarget
    exact .next (assembleAsync_heedful hclosed htarget.1 htarget.2) fun y _ => .pure inferInstance
  · rename_i shape params dispose current heq
    have heq : c.plan.target = _ := heq
    rw [heq] at htarget
    refine (assembleIterator_heeding hclosed ⟨htarget.1⟩ htarget.2.1 htarget.2.2).bind fun q hq => ?_
    obtain ⟨body, copies⟩ := q
    exact .pure hq

end

end Resumable
