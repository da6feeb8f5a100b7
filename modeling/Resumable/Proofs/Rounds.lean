import Resumable.Proofs.Statements

/-!
# `Proofs.Rounds`: the dispatch loop

The code of an instance from a single statement up to the body of the function that runs the loop. Every
turn starts with an instance that can be dispatched, so that the switch finds a case; and whatever stops
the loop, an error that is caught around it finds an instance that nobody else calls.

**Contents**
* `declareAll_drives`, `handlerScope_drives`: scopes inside the instance.
* `evalProtect_drives`: a protected body with one handler.
* `evalNode_inside`: one statement, given its parts.
* `evalNode_choosing`, `evalNode_turning`, `evalNode_failing`, `evalNode_guarded`: the loop.
-/

namespace Resumable

open Resumable.Expr Run

section
variable {m : Watch} {k : Nat} {κ : Closure} {env : Env} {w : World} {n : Nat} {a b armed bare : Bool}
  {x : Expr}

theorem Going.disarm (h : Going m k κ armed w) : Going m k κ false w := ⟨h.idle, h.ready, by simp⟩

theorem Stops.disarm {s : Stop} (h : Stops m k κ armed bare s w) : Stops m k κ false bare s w := by
  unfold Stops at h ⊢
  split
  · exact fun hc => (h hc).imp_left (·.disarm)
  · exact h.imp_right (·.disarm)
  · trivial

/-! ### Scopes -/

theorem ScopeOf.bind {v : Var} {c : Nat} {s : Slot} (h : ScopeOf m κ env w) (hc : w.slots[c]? = some s)
    (hs : s.var = v.id) (hv : ¬ m.Owns v.id) : ScopeOf m κ (env.bind v c) w where
  leads := h.leads.bind hc hs
  own x hx := by
    rw [Env.slot?_bind, if_neg fun hxv : x = v.id => hv (hxv ▸ hx)]
    exact h.own x hx

section
variable {P : World → Prop} [Lasting m P] {J : Stop → World → Prop}

theorem makeSlot_drives {v : Var} {y : Value} (hg : SlotGood m ⟨v.id, y⟩) (hv : ¬ m.Owns v.id) :
    Drives m k (fun w => ScopeOf m κ env w ∧ P w) (makeSlot v y)
      (fun c w => ScopeOf m κ (env.bind v c) w ∧ P w) J := by
  refine .of_outcome inferInstance fun w hs hw => ?_
  have hspares := Respects.push hs hg
  refine .inl ⟨_, _, rfl, hspares.sane hs, hspares.follows, ?_, Lasting.follows hs hw.2 hspares.follows⟩
  exact ScopeOf.bind ⟨hw.1.leads.follows (hspares.follows : Proceeds m none w _), hw.1.own⟩
    Array.getElem?_push_size rfl hv

/-- Declaring the variables of a block leaves the instance where it stands. -/
theorem declareAll_drives (hm : m.Fair) {vars : List Var} (hv : ∀ v ∈ vars, m.Declarable v)
    {f : Env → Run β} {Q : β → World → Prop}
    (hf : ∀ env, Drives m k (fun w => ScopeOf m κ env w ∧ P w) (f env) Q J) :
    Drives m k (fun w => ScopeOf m κ env w ∧ P w) (vars.foldlM declare env >>= f) Q J := by
  induction vars generalizing env with
  | nil => exact hf env
  | cons v vars ih =>
    rw [List.foldlM_cons]
    unfold declare
    simp only [bind_assoc, pure_bind]
    have hv' := hv v List.mem_cons_self
    exact (makeSlot_drives (hv'.slotGood hm) hv'.foreign).bind fun c =>
      ih fun u hu => hv u (List.mem_cons_of_mem _ hu)

/-- The handler of an error runs in a scope inside the instance. -/
theorem handlerScope_drives {ex : Var} (hex : m.Plain ex.id) (err : Value) {f : Env → Run β}
    {Q : β → World → Prop} (hf : ∀ env, Drives m k (fun w => ScopeOf m κ env w ∧ P w) (f env) Q J)
    (hJ : ∀ s w, P w → J s w) :
    Drives m k (fun w => ScopeOf m κ env w ∧ P w) (handlerScope (some ex) err env >>= f) Q J := by
  have hfirst : ∀ {α : Type} {y : Run α}, Stays m (fun w => ScopeOf m κ env w ∧ P w) y →
      Drives m k (fun w => ScopeOf m κ env w ∧ P w) y (fun _ w => ScopeOf m κ env w ∧ P w) J := fun h =>
    (Drives.of_stays h).mono (fun _ _ h => h) (fun _ _ _ h => h) fun _ _ _ h => hJ _ _ h.2
  unfold handlerScope
  dsimp only
  rw [bind_assoc]
  refine (hfirst inferInstance).bind fun y => ?_
  unfold declareAs
  cases y with
  | none =>
    have hnever : Run.Yields (panicError "reflect: call of reflect.Value.Set on zero Value" : Run Env)
        fun _ => False := fun w r w' hrun => by cases hrun
    exact ((hfirst inferInstance).yields hnever).bind fun env => .of_fact (hf env).later False.elim
  | some y =>
    rw [bind_assoc]
    simp only [pure_bind]
    have hscope : Drives m k (fun w => ScopeOf m κ env w ∧ P w) (makeSlot ex y)
        (fun c w => ScopeOf m κ (Env.bind { env with caught := some err } ex c) w ∧ P w) J :=
      (makeSlot_drives (hex.slotGood y) hex.foreign).before
        fun _ _ hw => ⟨⟨hw.1.leads, hw.1.own⟩, hw.2⟩
    exact hscope.bind fun c => hf _

end

/-! ### Protected bodies -/

/-- A protected body with one handler: what is caught leads to the handler, the rest passes through. -/
theorem evalProtect_drives {P C Q : World → Prop} {JB J : Stop → World → Prop} [Lasting m C]
    [Lasting m Q] {t test : Ty} {body handler : Expr} {ex : Var} (hex : m.Plain ex.id)
    (hbody : Drives m k (fun w => ScopeOf m κ env w ∧ P w) ((Calls.level n).eval body env) (fun _ => Q) JB)
    (hhandler : ∀ env, Drives m k (fun w => ScopeOf m κ env w ∧ C w) ((Calls.level n).eval handler env)
      (fun _ => Q) J)
    (hcatch : ∀ s w, isCatchable s = true → JB s w → C w)
    (hpass : ∀ s w, isCatchable s = false → JB s w → J s w) (hC : ∀ s w, C w → J s w)
    (hQ : ∀ s w, Q w → J s w) :
    Drives m k (fun w => ScopeOf m κ env w ∧ P w)
      (evalProtect (Calls.level n) t body [⟨test, some ex, .absent, handler⟩] .absent .absent env)
      (fun _ => Q) J := by
  -- only what can be caught reaches the handler
  have hrecover : ∀ s, Drives m k (fun w => ScopeOf m κ env w ∧ JB s w)
      (Run.recover (Calls.level n) [⟨test, some ex, .absent, handler⟩] .absent env s)
      (Drives.After (fun _ => Q) J) J := by
    intro s
    unfold Run.recover
    by_cases hc : isCatchable s = true
    · obtain ⟨e, rfl⟩ : ∃ e, s = .raised e := by
        cases s with
        | raised e => exact ⟨e, rfl⟩
        | _ => cases hc
      simp only [hc, Bool.not_true, Bool.false_eq_true, if_false, isAbsent, if_true]
      unfold handle
      refine Drives.before (P := fun w => ScopeOf m κ env w ∧ C w) ?_
        fun w _ hw => ⟨hw.1, hcatch _ w hc hw.2⟩
      split
      · exact .pure fun w _ hw => hC _ w hw.2
      · refine handlerScope_drives hex e (fun scope => ?_) hC
        exact (hhandler scope).attempt
    · simp only [hc]
      exact .pure fun w _ hw => hpass s w (by simpa using hc) hw.2
  have hleave : ∀ r, Drives m k (Drives.After (fun _ => Q) J r)
      (Run.leave (Calls.level n) t .absent env r) (fun _ => Q) J := by
    intro r
    unfold Run.leave
    simp only [isAbsent, Bool.not_true, Bool.and_false, Bool.false_eq_true, if_false]
    cases r with
    | ok v =>
      exact (Drives.of_stays (E := Q) inferInstance).mono (fun _ _ h => h) (fun _ _ _ h => h)
        fun _ _ _ h => hQ _ _ h
    | error s => exact .throw fun w _ hw => hw
  unfold evalProtect
  refine hbody.keep.attempt.bind fun r => ?_
  cases r with
  | ok v => exact (hleave (.ok v)).before fun _ _ hw => hw.2
  | error s => exact (hrecover s).bind hleave

/-! ### Statements -/

theorem evalAs_inside (hu : Upright m n) (hx : Obeys m (.inside a b) x)
    (harmed : a = true → armed = true) (hsp : ¬ m.Special armed x) (t : Ty) :
    Drives m k (fun w => ScopeOf m κ env w ∧ Going m k κ armed w) (evalAs (Calls.level n) x t env)
      (fun _ => Going m k κ armed) (Stops m k κ armed b) := by
  refine (hu.inside hx harmed hsp).bind fun v => ?_
  exact (Drives.of_stays (E := Going m k κ armed) inferInstance).mono (fun _ _ h => h)
    (fun _ _ _ h => h) fun _ _ _ h => .of_going h

/-- An arm of a branching statement. -/
theorem evalAs_arm (hu : Upright m n) (hx : Obeys m (.inside false false) x)
    (hsp : ¬ m.Special false x) (t : Ty) :
    Drives m k (fun w => ScopeOf m κ env w ∧ Going m k κ armed w) (evalAs (Calls.level n) x t env)
      (fun _ => Going m k κ armed) (Stops m k κ armed bare) :=
  (evalAs_inside hu hx (by simp) (fun h => hsp (h.mono (by simp))) t).mono (fun _ _ h => h)
    (fun _ _ _ h => h) fun _ _ _ h => h.loosen

theorem Stays.framed {α : Type} {y : Run α} (h : Stays m (Scoped m false env) y) {P : World → Prop} :
    Stays m (fun w => ScopeOf m κ env w ∧ P w) y :=
  h.mono fun _ _ h => h.1.scoped

/-- A statement of the machine keeps the instance going. -/
theorem evalNode_inside (hm : m.Fair) (hu : Upright m n) (hx : Obeys m (.inside a b) x)
    (harmed : a = true → armed = true) (hsp : ¬ m.Special armed x) :
    Drives m k (fun w => ScopeOf m κ env w ∧ Going m k κ armed w) (evalNode (Calls.level n) x env)
      (fun _ => Going m k κ armed) (Stops m k κ armed b) := by
  have := hu.spared
  -- parts of other code keep the frame of the instance; the statements of the machine are known by their roles
  cases hx with
  | user hx =>
    have hstays : Stays m (Scoped m false env) (evalNode (Calls.level n) x env) := evalNode_stays hm hx
    exact (Drives.first (hstays.framed (κ := κ) (P := Going m k κ armed))).mono (fun _ _ h => h) (fun _ _ _ h => h.2) fun _ _ _ h => h
  | raw hx =>
    exact (hx.drives n hm hsp).mono (fun _ _ h => h) (fun _ _ _ h => h) fun _ _ _ h => .of_harmless h
  | hand ha hk => exact absurd (.hands ⟨rfl, hk⟩) hsp
  | block hg hv hb hs =>
    exact declareAll_drives hm hv fun env => runBlock_drives hm hu _ hb (hs.mono harmed)
  | conditional ht ha hsa hb hsb =>
    have htest := evalBool_stays (c := Calls.level n) ht env
    refine (Drives.first htest.framed).bind fun r => ?_
    cases r
    · exact evalAs_arm hu hb hsb _
    · exact evalAs_arm hu ha hsa _
  | @switch _ _ i r t value other cases comparer hv ht ha hs ho hso =>
    show Drives m k _ (evalSwitch _ _ value cases other comparer env) _ _
    unfold evalSwitch
    refine (Drives.first (hu.spared.eval hv env).framed).bind fun v => ?_
    refine (Drives.first (recordOn_stays (x := v) hv _ fun _ _ => .inl rfl).framed).bind fun _ => ?_
    have hchoose : Stays m (Scoped m false env) (choose (hits (Calls.level n) (.node i r t
        (.switch value cases other comparer)) v comparer env) cases) :=
      choose_of fun arm harm x hx => hits_stays (ht arm harm x hx) v comparer
    have hlater := hu.spared.later
    refine ((Drives.first hchoose.framed).yields (choose_yields cases)).bind fun r =>
      .of_fact ?_ fun hr => ?_
    · cases r <;> infer_instance
    cases r with
    | some body =>
      obtain ⟨arm, harm, rfl⟩ := hr body rfl
      exact evalAs_arm hu (ha arm harm) (hs arm harm) _
    | none =>
      -- no case was taken, which the trail notes before the default runs
      have hmissed : Stays m (Scoped m false env) (recordOn value env .missed) :=
        recordOn_stays (x := v) hv .missed fun _ _ => .inr (.inl rfl)
      refine (Drives.first hmissed.framed).bind fun _ => ?_
      split
      · exact (Drives.first inferInstance).mono (fun _ _ h => h) (fun _ _ _ h => h.2) fun _ _ _ h => h
      · exact evalAs_arm hu ho hso _
  | protect hb hsb hex hh hsh =>
    refine evalProtect_drives hex (hu.inside hb harmed fun h => hsb (h.mono harmed)) (fun scope => ?_)
      ?_ (fun _ _ _ h => h.loosen) (fun _ _ h => .of_going h) fun _ _ h => .of_going h
    · exact (hu.inside hh (by simp) fun h => hsh (h.mono (by simp))).mono (fun _ _ h => h)
        (fun _ _ _ h => h) fun _ _ _ h => h.loosen
    · intro s w hc h
      cases s with
      | raised e => exact (h hc).resolve_right fun hb => by cases hb.1
      | _ => cases hc

/-! ### The switch over the states -/

/-- Comparing a number with the number of a state is comparing integers. -/
theorem equal_int (i j : Int) : equal (some (.int .int i)) (some (.int .int j)) w = .ok (i == j) w := by
  have halign : alignNumber (.int .int i) (.int .int j) = pure (.int .int j) := by
    simp [alignNumber, Value.typeOf]
  have hcompare : (Value.int .int i).equalContents? (.int .int j) = .ok (i == j) := by
    simp [Value.equalContents?, Value.content, Value.equal?]
  unfold equal
  dsimp only
  rw [halign, pure_bind, hcompare]
  rfl

/-- What the switch over the states finds for a number. -/
inductive Choice (e : Expr) (env : Env) (cases : List (List Expr × Expr)) (w : World) (n : Nat) (j : Int) :
    Prop
  | found (arm : List Expr × Expr) (test : Expr) (harm : arm ∈ cases) (htest : arm.1 = [test])
    (hnumber : Watch.Number (· = j) test)
    (hrun : choose (hits (Calls.level n) e (some (.int .int j)) none env) cases w = .ok (some arm.2) w)
  | stopped (s : Stop) (hs : Harmless s)
    (hrun : choose (hits (Calls.level n) e (some (.int .int j)) none env) cases w = .error s w)
  | missed (hnone : ∀ arm ∈ cases, ∀ test, arm.1 = [test] → ¬ Watch.Number (· = j) test)
    (hrun : choose (hits (Calls.level n) e (some (.int .int j)) none env) cases w = .ok none w)

theorem Watch.Number.eq {i j : Int} (hi : Watch.Number (· = i) x) (hj : Watch.Number (· = j) x) : i = j := by
  unfold Watch.Number at hi hj
  split at hi
  · exact hi.2.2.symm.trans hj.2.2
  · cases hi

/-- The switch compares the number with one state after the other. -/
theorem choice (e : Expr) (j : Int) {cases : List (List Expr × Expr)}
    (ht : ∀ arm ∈ cases, ∃ i test, arm.1 = [test] ∧ Watch.Number (· = i) test) :
    Choice e env cases w n j := by
  -- the tests are numbers, so evaluating one of them neither changes the world nor fails, unless the steps run out
  induction cases with
  | nil => exact .missed (fun _ h => by cases h) rfl
  | cons arm rest ih =>
    obtain ⟨tests, body⟩ := arm
    obtain ⟨i, test, rfl, hnumber⟩ := ht _ List.mem_cons_self
    have hstep : ∀ {b : Bool}, hits (Calls.level n) e (some (.int .int j)) none env test w = .ok b w →
        choose (hits (Calls.level n) e (some (.int .int j)) none env) (([test], body) :: rest) w =
          (if b then pure (some body)
            else choose (hits (Calls.level n) e (some (.int .int j)) none env) rest) w := by
      intro b h
      have hany : List.anyM (hits (Calls.level n) e (some (.int .int j)) none env) [test] w = .ok b w := by
        rw [List.anyM_cons, bind_ok h]
        cases b <;> rfl
      rw [choose, bind_ok hany]
    obtain ⟨i', rfl, heval⟩ | ⟨s, hs, heval⟩ := hnumber.evaluates (n := n) (w := w)
    · have hhit : hits (Calls.level n) e (some (.int .int j)) none env test w = .ok (j == i') w := by
        unfold hits
        rw [bind_ok heval]
        exact equal_int j i'
      by_cases hij : j = i'
      · subst hij
        refine .found _ test List.mem_cons_self rfl hnumber ?_
        rw [hstep hhit, beq_self_eq_true]
        rfl
      · have hrest := hstep hhit
        rw [beq_eq_false_iff_ne.mpr hij] at hrest
        cases ih fun arm harm => ht arm (List.mem_cons_of_mem _ harm) with
        | found arm test' harm htest hnumber' hrun =>
          exact .found arm test' (List.mem_cons_of_mem _ harm) htest hnumber' (hrest.trans hrun)
        | stopped s hs hrun => exact .stopped s hs (hrest.trans hrun)
        | missed hnone hrun =>
          refine .missed (fun arm harm test' htest hnumber' => ?_) (hrest.trans hrun)
          obtain rfl | harm := List.mem_cons.mp harm
          · obtain rfl : test = test' := by simpa using htest
            exact hij (hnumber'.eq hnumber)
          · exact hnone arm harm test' htest hnumber'
    · refine .stopped s hs ?_
      rw [choose]
      refine bind_error ?_
      rw [List.anyM_cons]
      refine bind_error ?_
      unfold hits
      exact bind_error heval

/-- Noting the turn of the switch changes nothing for the instance. -/
theorem Going.mark_switched (h : Going m k κ armed w) {v c : Nat} {y : Option Value} :
    Going m k κ armed (w.add (.switched v c y)) where
  idle :=
    { inst := instance_add.mpr h.idle.inst
      rests := by
        rintro ⟨ι, hι, hwaits⟩
        refine h.idle.rests ⟨ι, instance_add.mp hι, ?_⟩
        unfold Waits at hwaits ⊢
        rw [entries_mark_of_slot rfl] at hwaits
        refine Nat.le_trans hwaits (Nat.le_of_eq ?_)
        cases ι.env.slot? m.continuation.id with
        | none => rfl
        | some b => exact List.countP_cons_of_neg (by simp [Footprint.isHanded]) }
  ready :=
    { state := fun b hb => ⟨(h.ready.state b hb).1, fun hmem => by
        obtain heq | hmem := List.mem_cons.mp hmem
        · cases heq
        · exact (h.ready.state b hb).2 hmem⟩
      resume := h.ready.resume }
  aimed := h.aimed

/-- A turn of the switch finds the number of a state, and for a cleanup block a place to go on. -/
theorem Going.goodStep (hs : Sane m w) (h : Going m k κ armed w) {c : Nat} {j : Int}
    (hc : κ.env.slot? m.state.id = some c) (hj : w.Holds c (· = j)) :
    m.Known j ∧ GoodStep m w w.trail (.switched m.state.id c (some (.int .int j))) := by
  obtain ⟨hholds, hover⟩ := h.ready.state c hc
  have hknown : m.Known j := by
    obtain ⟨s, i, hslot, hval, hi⟩ := hholds
    obtain ⟨s', _, hslot', hval', rfl⟩ := hj
    rw [hslot] at hslot'
    cases hslot'
    rw [hval] at hval'
    cases hval'
    exact hi
  refine ⟨hknown, fun _ => ⟨j, rfl, hknown, hover, fun hclean b hpair => ?_⟩⟩
  obtain ⟨k', κ', hi, hc', hb⟩ := hpair
  obtain rfl := hs.apart k' k κ' κ _ c hi h.idle.inst Watch.owns_state hc' hc
  cases hi.closure.symm.trans h.idle.inst.closure
  obtain ⟨s, i, hslot, hval, hi'⟩ := h.ready.resume c b hc hb (hj.mono fun _ h => h ▸ hclean)
  obtain ⟨s', hslot', hval'⟩ := hs.echo k' κ b hi hb
  rw [hslot] at hslot'
  cases hslot'
  exact ⟨i, hval'.symm.trans hval, hi'⟩

/-- The switch over the states runs the case of the state that it finds. -/
theorem evalNode_choosing (hu : Upright m n) (hx : Obeys m .choosing x) :
    Drives m k (fun w => ScopeOf m κ env w ∧ Going m k κ false w) (evalNode (Calls.level n) x env)
      (fun _ => Going m k κ false) (Stops m k κ false true) := by
  have hlater := hu.spared.later
  cases hx with
  | @choosing i r i' r' t cases other isArmed ht hc hs hall ho =>
    show Drives m k _ (evalSwitch _ _ (.node i' r' .int (.var m.state)) cases other none env) _ _
    unfold evalSwitch
    have hread : Drives m k (fun w => ScopeOf m κ env w ∧ Going m k κ false w)
        ((Calls.level n).eval (.node i' r' .int (.var m.state)) env)
        (fun v w => ∃ c j, env.slot? m.state.id = some c ∧ v = some (.int .int j) ∧
          w.Holds c (· = j) ∧ ScopeOf m κ env w ∧ Going m k κ false w) (Stops m k κ false true) := by
      refine Drives.of_node (fun n => .of_outcome inferInstance fun w hs hw => ?_)
        (fun _ _ _ => trivial) n
      cases hslot : env.slot? m.state.id with
      | none =>
        obtain ⟨s, hharm, hrun⟩ := eval_var_unscoped (w := w) (i := i') (r := r') (t := .int)
          (Calls.level n) hslot
        exact .inr ⟨s, w, hrun, hs, .refl _, .of_harmless hharm⟩
      | some c =>
        have hown := hw.1.own _ Watch.owns_state
        rw [hslot] at hown
        obtain ⟨s, j, hs', hval, -⟩ := (hw.2.ready.state c hown.symm).1
        refine .inl ⟨_, w, eval_var _ hslot hs', hs, .refl _, c, j, rfl, by rw [hval], ?_, hw⟩
        exact ⟨s, j, hs', hval, rfl⟩
    refine hread.bind fun v => .of_cases ?_ fun w _ hw => ?_
    · repeat' first | infer_instance | split | refine @Runs.bind _ _ _ _ _ _ ?_ fun _ => ?_
    obtain ⟨c, j, hslot, rfl, hj, hw⟩ := hw
    have hmark : Drives m k (fun w => w.Holds c (· = j) ∧ ScopeOf m κ env w ∧ Going m k κ false w)
        (recordOn (.node i' r' .int (.var m.state)) env (.switched · · (some (.int .int j))))
        (fun _ w => m.Known j ∧ ScopeOf m κ env w ∧ Going m k κ false w ∧ (m.clean j → Aimed m κ w))
        (Stops m k κ false true) := by
      refine .of_outcome inferInstance fun w hs hw => .inl ?_
      obtain ⟨hj, hframe, hgoing⟩ := hw
      have hc := (hframe.own _ Watch.owns_state).symm.trans hslot
      obtain ⟨hknown, hgood⟩ := hgoing.goodStep hs hc hj
      rw [recordOn_some rfl hslot]
      refine ⟨_, _, rfl, hs.mark hgoing Watch.owns_state hc rfl (fun _ _ _ h => by cases h) hgood,
        .mark hgoing.idle.inst Watch.owns_state hc rfl, hknown, ⟨hframe.leads, hframe.own⟩,
        hgoing.mark_switched, fun hclean b hb => ?_⟩
      exact hgoing.ready.resume c b hc hb (hj.mono fun _ h => h ▸ hclean)
    refine ⟨_, hmark.bind fun _ => .of_fact ?_ fun hknown => ?_, hj, hw⟩
    · repeat' first | infer_instance | split | refine @Runs.bind _ _ _ _ _ _ ?_ fun _ => ?_
    have hchoose : Drives m k
        (fun w => ScopeOf m κ env w ∧ Going m k κ false w ∧ (m.clean j → Aimed m κ w))
        (choose (hits (Calls.level n) (.node i r t (.switch (.node i' r' .int (.var m.state)) cases
          other none)) (some (.int .int j)) none env) cases)
        (fun body w => (∃ arm ∈ cases, body = some arm.2 ∧ (isArmed arm = true → m.clean j)) ∧
          ScopeOf m κ env w ∧ Going m k κ false w ∧ (m.clean j → Aimed m κ w))
        (Stops m k κ false true) := by
      refine .of_outcome inferInstance fun w hs hw => ?_
      cases choice (w := w) (n := n) (.node i r t (.switch (.node i' r' .int (.var m.state))
        cases other none)) j (fun arm harm => (ht arm harm).imp fun i h => h.imp fun _ h => ⟨h.1, h.2.1⟩) with
      | found arm test harm htest hnumber hrun =>
        refine .inl ⟨_, w, hrun, hs, .refl _, ⟨arm, harm, rfl, fun harmed => ?_⟩, hw⟩
        obtain ⟨i, test', htest', hnumber', hclean⟩ := ht arm harm
        obtain rfl : test = test' := by simpa using htest.symm.trans htest'
        exact hnumber.eq hnumber' ▸ hclean harmed
      | stopped s hharm hrun => exact .inr ⟨s, w, hrun, hs, .refl _, .of_harmless hharm⟩
      | missed hnone =>
        -- every state has a case
        obtain ⟨arm, harm, test, htest, hnumber⟩ := hall j hknown
        exact absurd hnumber (hnone arm harm test htest)
    refine hchoose.bind fun body => .of_fact (by cases body <;> infer_instance) fun hbody => ?_
    obtain ⟨arm, harm, rfl, hclean⟩ := hbody
    refine (evalAs_inside hu (hc arm harm) id (hs arm harm) t).mono
      (fun w _ hw => ⟨hw.1, hw.2.1.idle, hw.2.1.ready, fun h => hw.2.2 (hclean h)⟩)
      (fun _ _ _ h => h.disarm) fun _ _ _ h => h.disarm

/-! ### The loop and what is around it -/

theorem Stops.leaving {s : Stop} (h : Stops m k κ armed bare s w) : Leaving m k κ s w := by
  unfold Stops at h
  unfold Leaving
  split
  · exact fun hc => (h hc).elim (·.idle) (·.2)
  · trivial

/-- The loop turns as long as the instance is going. -/
theorem evalNode_turning (hu : Upright m n) (hx : Obeys m .turning x) :
    Drives m k (fun w => ScopeOf m κ env w ∧ Going m k κ false w) (evalNode (Calls.level n) x env)
      (fun _ _ => True) (Leaving m k κ) := by
  cases hx with
  | @turning i r brk cont body hb hbody =>
    refine Drives.iterate (I := fun _ w => ScopeOf m κ env w ∧ Going m k κ false w) (fun _ => ?_)
      (fun _ => trivial) _ ()
    unfold stepLoop
    refine (hu.choosing hbody).keep.attempt.bind fun o => ?_
    cases o with
    | ok v => exact .pure fun _ _ hw => hw
    | error s =>
      cases s with
      | jump l v =>
        dsimp only
        by_cases hl : brk.id = l.id
        · rw [if_pos (by simpa using hl)]
          exact .pure fun _ _ _ => trivial
        · rw [if_neg (by simpa using hl)]
          split
          · exact .pure fun _ _ hw => ⟨hw.1, hw.2.resolve_left fun h => hl (hb.trans h.symm)⟩
          · exact .throw fun _ _ _ => trivial
      | _ => exact .throw fun _ _ hw => hw.2.leaving

/-- A block of statements that place no label ends with the statement that stops. -/
theorem afterStep_last {body : List Expr} (hbody : ∀ x ∈ body, ∀ i r t l d, x ≠ .node i r t (.label l d))
    {P : World → Prop} (left : Nat) (o : Except Stop (Option Value)) :
    Drives m k P (afterStep body [] o >>= goOn (Calls.level n) body env left) (fun _ _ => True)
      fun _ _ => True := by
  cases o with
  | ok v =>
    show Drives m k P (iterate (stepBlock (Calls.level n) body env) left ([], v)) _ _
    cases left with
    | zero => exact .giveUp fun _ => trivial
    | succ left => exact .pure fun _ _ _ => trivial
  | error s =>
    cases s with
    | jump l v =>
      have hnone : Drives m k P (afterLabel l body) (fun r _ => r = none) fun _ _ => True := by
        refine .of_outcome inferInstance fun w hs _ => ?_
        obtain ⟨r, hrun, hr⟩ | ⟨p, hrun⟩ := afterLabel_run (w := w) l body
        · refine .inl ⟨r, w, hrun, hs, .refl _, ?_⟩
          cases r with
          | none => rfl
          | some rest =>
            obtain ⟨front, i, r, t, l', d, heq, -⟩ := hr rest rfl
            exact absurd rfl (hbody (.node i r t (.label l' d)) (by simp [heq]) i r t l' d)
        · exact .inr ⟨_, w, hrun, hs, .refl _, trivial⟩
      refine Drives.bind (Q := fun _ _ => False) (hnone.bind fun r => ?_) fun o => ?_
      · cases r with
        | none => exact .throw fun _ _ _ => trivial
        | some rest =>
          refine Drives.before (P := fun w => False ∧ True) (.of_fact ?_ False.elim) fun _ _ h => by cases h
          exact inferInstanceAs (Runs Later (convertTo v l.type >>= fun x => pure _))
      · exact Drives.before (P := fun w => False ∧ True) (.of_fact inferInstance False.elim) fun _ _ h => h.elim
    | _ => exact .throw fun _ _ _ => trivial

/-- The handler around the loop marks the machine as over and makes the cell fail. -/
theorem evalNode_failing (hm : m.Fair) (hu : Upright m n) (hx : Obeys m .failing x) :
    Drives m k (fun w => ScopeOf m κ env w ∧ Idle m k κ w) (evalNode (Calls.level n) x env)
      (fun _ _ => True) (fun _ _ => True) := by
  have := hu.spared
  cases hx with
  | failed hx =>
    have hstays : Stays m (Scoped m false env) (evalNode (Calls.level n) x env) := evalNode_stays hm hx
    exact (Drives.of_stays (hstays.framed (κ := κ) (P := Idle m k κ))).mono (fun _ _ h => h)
      (fun _ _ _ _ => trivial) fun _ _ _ _ => trivial
  | @failing i r t vs x y hg hv hx hy hsimple hcalls =>
    obtain ⟨i', r', t', receiver, name, args, rfl⟩ := hcalls.methodCall
    -- neither statement places a label, so that no jump leads back
    have hlabel : ∀ z ∈ [x, .node i' r' t' (.methodCall receiver name args)],
        ∀ i r t l d, z ≠ .node i r t (.label l d) := by
      rintro z hz i r t l d rfl
      obtain rfl | hz := List.mem_cons.mp hz
      · exact hx
      · cases List.mem_singleton.mp hz
    have hlater := hu.spared.later
    refine declareAll_drives hm hv fun env => ?_
    have hcall : ∀ {n' : Nat}, n = n' + 1 → Drives m k (fun w => ScopeOf m κ env w ∧ Idle m k κ w)
        (callOn (Calls.level n') (.node i' r' t' (.methodCall receiver name args)) receiver name args env)
        (fun _ => Idle m k κ) fun _ _ => True := fun hn =>
      (Drives.of_stays ((hu.calling hn hy).framed (P := Idle m k κ))).mono (fun _ _ h => h)
        (fun _ _ _ h => h.2) fun _ _ _ _ => trivial
    have hfault := fault_drives (Q := fun _ _ => True) (J := fun _ _ => True) hm hx hcalls.1 hcalls.2 hcall
      (fun _ _ _ => trivial) (Calls.level n).turns (fun left _ o => afterStep_last hlabel left o) none
    refine hfault.bind fun v => ?_
    exact (Drives.of_stays (E := fun _ => True) inferInstance).mono (fun _ _ h => h)
      (fun _ _ _ _ => trivial) fun _ _ _ _ => trivial

/-- What is caught around the loop ends the instance. -/
theorem evalNode_guarded (hu : Upright m n) (hx : Obeys m .guarded x) :
    Drives m k (fun w => ScopeOf m κ env w ∧ Going m k κ false w) (evalNode (Calls.level n) x env)
      (fun _ _ => True) (fun _ _ => True) := by
  cases hx with
  | guarded hb hex hh =>
    refine evalProtect_drives (C := Idle m k κ) hex (hu.turning hb) (fun scope => hu.failing hh) ?_
      (fun _ _ _ _ => trivial) (fun _ _ _ => trivial) fun _ _ _ => trivial
    intro s w hc h
    cases s with
    | raised e => exact h hc
    | _ => cases hc

end

end Resumable
