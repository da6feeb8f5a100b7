import Resumable.Proofs.Acting
import Resumable.Proofs.Rounds
import Resumable.Proofs.Steering

/-!
# `Proofs.SteeringRuns`: what runs under a helm

While code runs that heeds a helm, the variables that steer hold live numbers only. A store puts a literal there
that the licence allows, or what another such variable holds; a switch over one of them runs the arm of a number
that is live, so that what this arm may store is live as well; and closures are made of code that heeds the helm.

**Contents**
* `Steered`, `Steadies`: worlds in which the variables hold live numbers, and what leaves them so.
* `Helm.rights`, `Helm.terrain`: code that heeds the helm.
* `makeClosure_steadies`, `evalStore_steadies`, `evalTurn_steadies`: what else such code does.
* `evalNode_steadies`, `callFunc_steadies`, `Calls.level_steadies`: nodes, calls, and all that runs.
* `Reaches.steered`: whatever the program around a tree does.
-/

namespace Resumable

open Resumable.Expr Run

/-! ### Worlds -/

/-- The value is a live number. -/
def Helm.Holds (h : Helm) (x : Value) : Prop := ∃ n, x = .int .int n ∧ h.live n

/-- What is stored into a variable that steers, and what one is turned on with, is a live number. -/
def Helm.Marks (h : Helm) : Footprint → Prop
  | .stored i _ x => h.steers i → h.Holds x
  | .switched i _ x => h.steers i → ∃ y, x = some y ∧ h.Holds y
  | _ => True

/-- The variables that steer hold live numbers and always did, and no closure will change that. -/
structure Steered (h : Helm) (w : World) : Prop where
  leads : ∀ κ ∈ w.closures, κ.env.Leads w
  closures : ∀ κ ∈ w.closures, Heeds h .none κ.lambda
  slots : ∀ (a : Nat) s, w.slots[a]? = some s → h.steers s.var → h.Holds s.value
  trail : ∀ f ∈ w.trail, h.Marks f

/-- From a world with the property `E` on, the variables that steer keep holding live numbers. -/
def Steadies (h : Helm) (E : World → Prop) (w w' : World) : Prop :=
  Steered h w → E w → Steered h w' ∧ Persists w w'

/-- All that the licence allows to store is live. -/
def Licence.Sound (h : Helm) (z : Licence) : Prop := ∀ v n, z.stores v n → h.live n

/-- The tree heeds the helm, and stores live numbers only. -/
def Helm.Runs (h : Helm) (e : Expr) : Prop := ∃ z, z.Sound h ∧ Heeds h z e

attribute [local instance] Conditional.walk

section
variable {h : Helm} {E F : World → Prop} {w w' w'' : World} {env : Env} {e : Expr} {v : Var} {a : Nat}

theorem Licence.none_sound : Licence.none.Sound h := fun _ _ hn => hn.elim

theorem Helm.body_sound : h.body.Sound h := fun _ _ hn => hn

theorem Helm.arm_sound {n : Int} (hn : h.live n) : (h.arm n).Sound h := fun _ _ hk => hk hn

theorem Heeds.runs (he : Heeds h .none e) : h.Runs e := ⟨.none, Licence.none_sound, he⟩

/-- What neither changes slots nor makes closures, and leaves good marks. -/
theorem Steered.of_same (hw : Steered h w) (hs : w'.slots = w.slots) (hc : w'.closures = w.closures)
    (ht : ∀ f ∈ w'.trail, f ∈ w.trail ∨ h.Marks f) : Steered h w' where
  leads κ hκ := (hw.leads κ (hc ▸ hκ)).persists (.of_slots hs)
  closures κ hκ := hw.closures κ (hc ▸ hκ)
  slots a s ha := hw.slots a s (hs ▸ ha)
  trail f hf := (ht f hf).elim (hw.trail f) id

theorem Steadies.of_same (hs : w'.slots = w.slots) (hc : w'.closures = w.closures)
    (ht : ∀ f ∈ w'.trail, f ∈ w.trail ∨ h.Marks f) : Steadies h E w w' :=
  fun hw _ => ⟨hw.of_same hs hc ht, .of_slots hs⟩

/-- A new footprint. -/
theorem Steadies.add {f : Footprint} (hf : h.Marks f) : Steadies h E w (w.add f) := by
  refine .of_same rfl rfl fun g hg => ?_
  obtain rfl | hg := List.mem_cons.mp hg
  · exact .inr hf
  · exact .inl hg

theorem Steadies.trans_to [hE : Lasts E] (hw : Steadies h E w w')
    (hF : Steered h w → E w → Steered h w' → E w' → F w') (hw' : Steadies h F w' w'') : Steadies h E w w'' := by
  intro hs hEw
  obtain ⟨hs', hp⟩ := hw hs hEw
  obtain ⟨hs'', hp'⟩ := hw' hs' (hF hs hEw hs' (hE.persists hp hEw))
  exact ⟨hs'', hp.trans hp'⟩

theorem Helm.marks_ofCell {f : Footprint} (hf : f.ofCell = true) : h.Marks f := by
  unfold Helm.Marks
  split
  · cases hf
  · cases hf
  · trivial

instance (h : Helm) : Conditional (Steadies h) where
  sound := Steered h
  walk _ _ :=
    { same := fun ha => .of_same ha.slots ha.closures fun _ hf => .inl (ha.trail ▸ hf)
      post := fun _ _ => .of_same rfl rfl fun _ => .inl
      schedule := fun _ _ _ => .of_same rfl rfl fun _ => .inl
      mark := fun _ _ hf => .add (Helm.marks_ofCell hf)
      trans := fun hw hw' => hw.trans_to (fun _ _ _ hE => hE) hw' }
  mono hE hw hs hF := hw hs (hE _ hF)
  trans_to := Steadies.trans_to
  vacuous _ hE _ hEw := absurd hEw hE

/-- A slot for a variable with a value that it may hold. -/
theorem makeSlot_steadies {x : Value} (hx : h.steers v.id → h.Holds x) : Runs (Steadies h E) (makeSlot v x) where
  left w hw _ := by
    have hp : Persists w (w.push v x) := fun b s hb => ⟨s, getElem?_push_of_some hb, rfl⟩
    refine ⟨⟨fun κ hκ => (hw.leads κ hκ).persists hp, hw.closures, fun b s hb hs => ?_, hw.trail⟩, hp⟩
    obtain hb | ⟨-, rfl⟩ := getElem?_push_cases hb
    · exact hw.slots b s hb hs
    · exact hx hs

/-- A slot is filled with a value that its variable may hold. -/
theorem Steered.put {s : Slot} {x : Value} (hw : Steered h w) (ha : w.slots[a]? = some s)
    (hx : h.steers s.var → h.Holds x) : Steered h (w.put a ⟨s.var, x⟩) ∧ Persists w (w.put a ⟨s.var, x⟩) := by
  have hp : Persists w (w.put a ⟨s.var, x⟩) := fun b t hb => by
    by_cases hba : b = a
    · subst hba
      rw [ha] at hb
      cases hb
      exact ⟨_, World.put_self ha, rfl⟩
    · exact ⟨t, by rw [World.put_ne hba]; exact hb, rfl⟩
  refine ⟨⟨fun κ hκ => (hw.leads κ hκ).persists hp, hw.closures, fun b t hb hs => ?_, fun f hf => ?_⟩, hp⟩
  · by_cases hba : b = a
    · subst hba
      rw [World.put_self ha] at hb
      cases hb
      exact hx hs
    · rw [World.put_ne hba] at hb
      exact hw.slots b t hb hs
  · obtain rfl | hf := List.mem_cons.mp hf
    · exact hx
    · exact hw.trail f hf

theorem fillSlot_steadies {y : Nat} {x : Value} (hy : ¬ h.steers y) (ha : env.slot? y = some a) :
    Runs (Steadies h env.Leads) (fillSlot a x) where
  left w hw hl := by
    obtain ⟨s, hs, hvar⟩ := hl y a ha
    rw [fillSlot_left hs]
    exact hw.put hs fun h => absurd (hvar ▸ h) hy

/-- What a variable that steers holds is a live number. -/
theorem Steered.holds (hw : Steered h w) (hl : env.Leads w) (hv : h.steers v.id) (ha : env.slot? v.id = some a) :
    ∃ s, w.slots[a]? = some s ∧ h.Holds s.value := by
  obtain ⟨s, hs, hvar⟩ := hl v.id a ha
  exact ⟨s, hs, hw.slots a s hs (hvar ▸ hv)⟩

/-! ### Code that heeds the helm -/

/-- The rights of code that heeds the helm. -/
def Helm.rights (h : Helm) : Rights where
  scope := Env.Leads
  tree := h.Runs
  declares := h.Typed
  binds v := ¬ h.steers v.id
  stores i := ¬ h.steers i
  turns i x := h.steers i → ∃ y, x = some y ∧ h.Holds y

instance (h : Helm) (env : Env) : Lasts (h.rights.scope env) := inferInstanceAs (Lasts env.Leads)

/-- A variable that is read is an integer if it steers. -/
theorem Helm.Runs.admits (he : h.Runs e) (hv : e.asVar? = some v) (hs : h.steers v.id) : v.type = .int := by
  obtain ⟨z, -, he⟩ := he
  unfold asVar? at hv
  split at hv
  · cases hv
    cases he with
    | node hd => exact (hd hs).2
  · cases hv

theorem recordOn_steadies {event : Nat → Nat → Footprint} (hf : ∀ i a, h.Marks (event i a)) :
    Runs (Steadies h env.Leads) (recordOn e env event) := by
  have hrecord : ∀ i a, Runs (Steadies h env.Leads) (record (event i a)) := fun i a => ⟨fun _ => .add (hf i a)⟩
  unfold recordOn
  repeat' first | infer_instance | split

/-- Code that heeds the helm leaves live numbers in the variables. -/
theorem Helm.terrain (h0 : h.live 0) : Terrain (Steadies h) h.rights where
  declares hv := makeSlot_steadies fun hs => ⟨0, by rw [hv hs]; rfl, h0⟩
  binds hv := makeSlot_steadies fun hs => absurd hs hv
  enters _ hrun _ _ hl := by
    cases hrun
    exact hl.bind Array.getElem?_push_size rfl
  caught := Iff.rfl
  fills := fillSlot_steadies
  turns hx _ := ⟨⟨fun _ => .add hx⟩, ⟨fun _ => .add trivial⟩⟩
  hands _ _ := ⟨recordOn_steadies fun _ _ => trivial, recordOn_steadies fun _ _ => trivial⟩
  field he := by
    obtain ⟨z, hz, he⟩ := he
    cases he with
    | node _ _ hc => exact ⟨z, hz, hc _ (List.mem_singleton_self _)⟩
  fielded {o v} ho hv := by
    by_cases hs : h.steers v.id
    · refine .inr ⟨ho.admits hv hs, fun hw hl ha => ?_⟩
      obtain ⟨s, hslot, n, hn, -⟩ := hw.holds hl hs ha
      exact ⟨s, n, hslot, hn, trivial⟩
    · exact .inl hs

/-- A closure is made of code that heeds the helm. -/
theorem makeClosure_steadies (he : Heeds h .none e) (name : String) (kind : LambdaKind) :
    Runs (Steadies h env.Leads) (makeClosure e name kind env) := by
  have hpush : Runs (Steadies h env.Leads) (modifyGet fun w =>
      (Value.func e.type (.closure w.closures.size),
        { w with closures := w.closures.push ⟨e, env⟩ }) : Run Value) := by
    refine ⟨fun w hw hl => ⟨⟨fun κ hκ => ?_, fun κ hκ => ?_, hw.slots, hw.trail⟩, .of_slots rfl⟩⟩
    · obtain hκ | rfl := Array.mem_push.mp hκ
      · exact hw.leads κ hκ
      · exact hl
    · obtain hκ | rfl := Array.mem_push.mp hκ
      · exact hw.closures κ hκ
      · exact he
  unfold makeClosure
  repeat' first | infer_instance | split

/-- What may be stored into a variable that steers evaluates to a live number. -/
theorem Helm.Sets.evaluates {z : Licence} {x : Expr} {n : Nat} (hz : z.Sound h) (hx : h.Sets z v x) (hw : Steered h w)
    (hl : env.Leads w) : Evaluates n x env w h.live := by
  obtain hx | ⟨-, u, hu, -, hx⟩ := hx
  · exact (hx.mono fun k hk => hz v k hk).evaluates
  · refine hx.evaluates hl fun a s ha hs hvar => ?_
    exact hw.slots a s hs (hvar ▸ hu)

/-- A store into a variable that steers. -/
theorem evalStore_steadies {z : Licence} {i r i' r' n : Nat} {t t' : Ty} {x : Expr} (hz : z.Sound h)
    (ht : v.type = .int) (hx : h.Sets z v x) :
    Runs (Steadies h env.Leads)
      (evalNode (Calls.level n) (.node i r t (.assign .plain (.node i' r' t' (.var v)) x)) env) where
  left w hw hl := by
    have hputs : Watch.Puts v (· = x) (.node i r t (.assign .plain (.node i' r' t' (.var v)) x)) := ⟨rfl, rfl⟩
    obtain ⟨a, s, j, -, hslot, hvar, hj, hrun⟩ | ⟨s, -, hrun⟩ :=
      evalNode_puts hputs ht hl fun value heq => heq ▸ hx.evaluates (n := n) hz hw hl
    · rw [left_ok hrun, ← hvar]
      exact hw.put hslot fun _ => ⟨j, rfl, hj⟩
    · rw [left_error hrun]
      exact ⟨hw, .refl w⟩

end

/-! ### Nodes -/

section
variable {h : Helm} {env : Env} {e : Expr} {n : Nat} [hc : Treads (Steadies h) h.rights (Calls.level n)] (h0 : h.live 0)
include h0

/-- A switch over a variable that steers runs the arm of a number that is live. -/
theorem evalTurn_steadies {z : Licence} {i r : Nat} {t : Ty} {other : Expr} {v : Var} {cases : List (List Expr × Expr)}
    {number : List Expr → Int} (hz : z.Sound h) (hv : h.steers v.id) (ht : v.type = .int)
    (hn : ∀ arm ∈ cases, ∃ test, arm.1 = [test] ∧ Watch.Number (· = number arm.1) test)
    (ha : ∀ arm ∈ cases, Heeds h (h.arm (number arm.1)) arm.2) (ho : Heeds h z other) :
    Runs (Steadies h env.Leads)
      (evalSwitch (Calls.level n) e (.node i r t (.var v)) cases other none env) := by
  -- the switch reads the state slot, and its arms are told by number
  have hvalue : Heeds h h.body (.node i r t (.var v)) :=
    .node (fun _ => ⟨trivial, ht⟩) (by simp [Data.kind]) (by simp [Expr.operands])
  refine evalSwitch_treads (T := h.rights) (Helm.terrain h0) ⟨_, Helm.body_sound, hvalue⟩ (fun arm harm x hx => ?_) (fun x hx => ?_) ⟨z, hz, ho⟩
  · obtain ⟨test, htest, hnumber⟩ := hn arm harm
    cases List.mem_singleton.mp (htest ▸ hx)
    exact (hnumber.heeds).runs
  · obtain ⟨y, rfl, j, rfl, hj⟩ := hx v rfl hv
    intro w r w' hrun body hr
    -- the slot holds a state that leads here, so the arm of that number runs
    have hchoice : Choice e env cases w n j := choice e j fun arm harm => ⟨_, hn arm harm⟩
    cases hchoice with
    | found arm test harm htest hnumber hfound =>
      rw [hfound] at hrun
      cases hrun
      cases hr
      obtain ⟨test', htest', hnumber'⟩ := hn arm harm
      obtain rfl : test = test' := by simpa using htest.symm.trans htest'
      exact ⟨_, Helm.arm_sound (hnumber.eq hnumber' ▸ hj), ha arm harm⟩
    | stopped s _ hstop =>
      rw [hstop] at hrun
      cases hrun
    | missed _ hnone =>
      rw [hnone] at hrun
      cases hrun
      cases hr

/-- **A node keeps live numbers in the variables** when its operands do. -/
theorem evalNode_steadies (he : h.Runs e) : Runs (Steadies h env.Leads) (evalNode (Calls.level n) e env) := by
  obtain ⟨z, hz, he⟩ := he
  cases he with
  | absent =>
    unfold evalNode
    infer_instance
  | @node _ i r t d hd hk hc =>
    refine evalNode_treads (T := h.rights) (Helm.terrain h0) ?_ (fun x hx => ⟨z, hz, hc x hx⟩) fun hl => absurd hl hk
    cases d with
    | block | assign | protect => exact hd
    | _ => trivial
  | lambda hp hb =>
    refine evalNode_treads (T := h.rights) (Helm.terrain h0) trivial (fun x hx => ?_) fun _ => makeClosure_steadies (.lambda hp hb)
    cases List.mem_singleton.mp hx
    exact ⟨_, Helm.body_sound, hb⟩
  | store _ ht hx => exact evalStore_steadies hz ht hx
  | turn _ hv ht hn ha ho =>
    exact evalTurn_steadies h0 hz hv ht hn ha ho

/-! ### Calls -/

/-- A call of a closure runs its body in its scope. -/
theorem callClosure_steadies {κ : Closure} (hκ : Heeds h .none κ.lambda) (args : List Value) :
    Runs (Steadies h κ.env.Leads) (callClosure (Calls.level n) κ args) := by
  refine callClosure_of fun i r t name params body kind fallible res heq => ?_
  rw [heq] at hκ
  obtain ⟨hp, hb⟩ := hκ.lambda_parts
  exact enter_treads (T := h.rights) (Helm.terrain h0) hp (hc.eval ⟨_, Helm.body_sound, hb⟩) _ _ _

theorem callFunc_steadies (f : Value) (args : List Value) :
    Runs (Steadies h fun _ => True) (callFunc (Calls.level n) f args) := by
  have := hc.calls fun _ => True
  refine callFunc_of fun w id κ hκ hw _ => ?_
  have hmem := Array.mem_of_getElem? hκ
  have hmark : Steadies h (fun _ => True) w (w.add (.entered id)) := .add trivial
  exact (callClosure_steadies h0 (hw.closures κ hmem) args).left _ (hmark hw trivial).1 (hw.leads κ hmem)

end

/-- A variable that steers is turned on while it holds a live number. -/
theorem Steered.turns {h : Helm} {w w' : World} {env : Env} {e : Expr} {v : Var} {x : Option Value} {n : Nat}
    (hw : Steered h w) (hl : env.Leads w) (hv : e.asVar? = some v) (hrun : (Calls.level n).eval e env w = .ok x w')
    (hs : h.steers v.id) : ∃ y, x = some y ∧ h.Holds y := by
  cases n with
  | zero => cases hrun
  | succ n =>
    unfold asVar? at hv
    split at hv
    · cases hv
      cases ha : env.slot? v.id with
      | none =>
        obtain ⟨s, -, hstop⟩ := eval_var_unscoped (w := w) (Calls.level n) ha
        cases hstop.symm.trans hrun
      | some a =>
        obtain ⟨s, hslot, hholds⟩ := hw.holds hl hs ha
        cases (eval_var (Calls.level n) ha hslot).symm.trans hrun
        exact ⟨_, rfl, hholds⟩
    · cases hv

/-- **All that runs keeps live numbers in the variables**, on whatever amount of fuel. -/
theorem Calls.level_steadies {h : Helm} (h0 : h.live 0) (n : Nat) : Treads (Steadies h) h.rights (level n) := by
  induction n with
  | zero =>
    exact
      { later := inferInstance
        calls := fun _ _ => ⟨fun _ _ => Runs.throw _, fun _ => Runs.throw _⟩
        eval := fun _ _ => Runs.throw _
        reads := fun _ hv hrun hw hl => hw.turns hl hv hrun }
  | succ n ih =>
    exact
      { later := inferInstance
        calls := fun E _ =>
          have := ih.calls E
          ⟨fun f args => (callFunc_steadies h0 f args).weaken fun _ _ => trivial,
            fun k => inferInstanceAs (Runs (Steadies h E) (execCallback (level n) k))⟩
        eval := fun he _ => evalNode_steadies h0 he
        reads := fun _ hv hrun hw hl => hw.turns hl hv hrun }

/-! ### The program around a tree -/

section
variable {h : Helm} {e : Expr} {w w' : World}

instance : Overlooks (Steadies h fun _ => True) where
  still hs hc ht := .of_same hs hc fun _ hf => .inl (ht ▸ hf)

/-- Nothing has happened yet. -/
theorem World.Blank.steered (hw : w.Blank) : Steered h w where
  leads κ hκ := by simp [hw.closures] at hκ
  closures κ hκ := by simp [hw.closures] at hκ
  slots a s ha := by simp [hw.slots] at ha
  trail f hf := by simp [hw.trail] at hf

/-- **Whatever a program does** with a tree that heeds the helm, the variables that steer hold live numbers. -/
theorem Reaches.steered (hr : Reaches e w w') (h0 : h.live 0) (he : Heeds h .none e) (hw : Steered h w) :
    Steered h w' := by
  induction hr with
  | refl => exact hw
  | @act v n a _ ih =>
    have hlevel := Calls.level_steadies h0 n
    have := hlevel.calls fun _ => True
    have hrun : Runs (Steadies h fun _ => True) ((Calls.level n).eval e {}) :=
      (hlevel.eval he.runs {}).weaken fun w _ x a hx => by simp [Env.slot?] at hx
    exact ((a.runs hrun).left v ih trivial).1

end

end Resumable
