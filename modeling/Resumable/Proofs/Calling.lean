import Resumable.Proofs.Opening

/-!
# `Proofs.Calling`: every run leaves a machine sane

A call of the function that runs a dispatch loop drives its instance; a call of any other function leaves
the machine alone. With one lemma per form of code, an induction on the fuel shows that whatever is
evaluated, called or run keeps the world sane.

**Contents**
* `Obeys.turnsOn`: how the trail's reader knows the function that runs the dispatch loop.
* `callClosure_drives`, `callFunc_stays`: calls.
* `level_upright`: the induction.
-/

namespace Resumable

open Resumable.Expr Run

section
variable {m : Watch} {k n : Nat} {κ : Closure} {env : Env} {w : World} {hosts : Bool}

/-- The function that runs the dispatch loop is the one that turns on the state. -/
theorem Obeys.turnsOn {e : Expr} (h : Obeys m .running e) : e.turnsOn m.state.id = true := by
  cases h with
  | running hguarded =>
    cases hguarded with
    | guarded hturning hex hh =>
      cases hturning with
      | turning hb hchoosing =>
        cases hchoosing with
        | choosing =>
          simp [Expr.turnsOn, Expr.turnsHere, lambdaBody?, ownNodes_node, Data.kind, Expr.operands, asVar?]

/-- The call of a closure adds a footprint that is no store. -/
theorem entries_entered (w : World) (j k : Nat) :
    entries (w.add (.entered k)).trail j = entries w.trail j + if j = k then 1 else 0 := by
  have hcount : entries (w.add (.entered k)).trail j =
      entries w.trail j + if (k == j) = true then 1 else 0 := List.countP_cons
  rw [hcount]
  by_cases h : j = k
  · rw [if_pos h, if_pos (beq_iff_eq.mpr h.symm)]
  · rw [if_neg h, if_neg fun hb => h (beq_iff_eq.mp hb).symm]

theorem handings_entered (w : World) (k v : Nat) (a : Option Nat) :
    handings (w.add (.entered k)).trail v a = handings w.trail v a := by
  cases a with
  | none => rfl
  | some a => exact List.countP_cons_of_neg (by simp [Footprint.isHanded])

/-- Entering an instance of the machine only adds to the trail. -/
theorem Proceeds.entered (k : Nat) (w : World) : Proceeds m (some k) w (w.add (.entered k)) where
  later := ⟨List.suffix_cons _ w.trail, fun _ _ h => h⟩
  quiet g l hl hg := by
    obtain rfl : [.entered k] = l := List.append_cancel_right (show _ ++ w.trail = l ++ w.trail from hl)
    obtain rfl := List.mem_singleton.mp hg
    refine And.intro (fun b hb => by cases hb) fun j ι hj _ hne => ?_
    simpa [Footprint.isEntered] using fun h : k = j => hne (congrArg some h)
  slots a s h := ⟨s, h, rfl⟩
  shielded _ _ := rfl
  fresh j ι y b hj hn := by
    have := hj.closure
    rw [show (w.add (.entered k)).closures = w.closures from rfl, hn] at this
    cases this

/-- An instance is called only when a call of it is owed. -/
theorem Sane.waiting_of_lawful (hi : Instance m w k κ) (hl : m.Lawful (w.add (.entered k))) :
    Waits m w.trail k κ.env := by
  have := hl.once k κ hi.closure hi.running.turnsOn _ (List.suffix_refl _)
  rw [entries_entered, handings_entered, if_pos rfl] at this
  exact Nat.le_of_succ_le_succ this

/-- From the call on, the instance can be dispatched, and no other call of it is owed. -/
theorem Sane.enter (hs : Sane m w) (hi : Instance m w k κ) (hl : m.Lawful (w.add (.entered k))) :
    Sane m (w.add (.entered k)) ∧ Going m k κ false (w.add (.entered k)) := by
  have hwaits := Sane.waiting_of_lawful hi hl
  have hready := hs.waiting k κ hi hwaits
  have hsane : Sane m (w.add (.entered k)) := by
    refine hs.mark_of (fun _ _ _ h => by cases h) (fun _ h => by cases h) trivial (fun j ι hj hw => ?_)
      fun j ι hj => ?_
    · refine hs.waiting j ι hj ?_
      unfold Waits at hw ⊢
      rw [entries_entered, handings_entered] at hw
      exact Nat.le_trans (Nat.le_add_right _ _) hw
    · rw [entries_entered, handings_entered]
      exact Nat.le_trans (hs.owed j ι hj) (Nat.le_add_right _ _)
  refine ⟨hsane, ⟨⟨hi.closure, hi.running⟩, ?_⟩, ⟨fun a ha => ⟨(hready.state a ha).1, ?_⟩, hready.resume⟩,
    by simp⟩
  · rintro ⟨ι, hι, hw⟩
    cases hι.closure.symm.trans hi.closure
    unfold Waits at hw
    rw [entries_entered, handings_entered, if_pos rfl] at hw
    exact absurd (hs.owed k κ hi) (by omega)
  · intro hmem
    obtain hmem | hmem := List.mem_cons.mp hmem
    · cases hmem
    · exact (hready.state a ha).2 hmem

/-- However the computation ends. -/
theorem Drives.left {α : Type} {x : Run α} {P : World → Prop} {Q : α → World → Prop}
    {J : Stop → World → Prop} (h : Drives m k P x Q J) (hs : Sane m w) (hw : P w)
    (hl : m.Lawful (x.left w)) : Sane m (x.left w) ∧ Proceeds m (some k) w (x.left w) := by
  cases hres : x w with
  | ok a w' =>
    rw [left_ok hres] at hl ⊢
    obtain ⟨hs', hf, -⟩ := h.ok hs hw hres hl
    exact ⟨hs', hf⟩
  | error s w' =>
    rw [left_error hres] at hl ⊢
    obtain ⟨hs', hf, -⟩ := h.stop hs hw hres hl
    exact ⟨hs', hf⟩

/-- A call of an instance runs its dispatch loop. -/
theorem callClosure_drives (hu : Upright m n) (hκ : Obeys m .running κ.lambda) (args : List Value) :
    Drives m k (fun w => ScopeOf m κ κ.env w ∧ Going m k κ false w) (callClosure (Calls.level n) κ args)
      (fun _ _ => True) (fun _ _ => True) := by
  have hany : ∀ {α : Type} {y : Run α} [Runs (Kept m fun _ => True) y],
      Drives m k (fun _ => True) y (fun _ _ => True) (fun _ _ => True) := fun {_ _} h => .of_stays h
  obtain ⟨e, env⟩ := κ
  cases hκ with
  | @running i r t name kind fallible body hbody =>
    have henter : ∀ res, Drives m k
        (fun w => ScopeOf m ⟨.node i r t (.lambda name [] body kind fallible), env⟩ env w ∧
          Going m k ⟨.node i r t (.lambda name [] body kind fallible), env⟩ false w)
        (enter (Calls.level n) [] args body res env) (fun _ _ => True) (fun _ _ => True) := by
      intro res
      unfold enter
      rw [List.zip_nil_left, List.foldlM_nil, pure_bind]
      refine (hu.guarded hbody).bind fun v => ?_
      exact hany (y := if res.isVoid then pure none else convertTo v res)
    unfold callClosure
    refine (henter _).attempt.bind fun r => ?_
    have hdone : Drives.After (fun (_ : Option Value) (_ : World) => True) (fun _ _ => True) r =
        fun _ => True := by
      cases r <;> rfl
    rw [hdone]
    refine @hany _ _ ?_
    repeat' first
      | infer_instance | split | dsimp only | refine @Runs.bind _ _ _ _ _ _ ?_ fun _ => ?_

/-- A call of a closure that is no instance leaves the machine alone. -/
theorem callClosure_outside (hu : Upright m n) (hκ : Obeys m (.outside hosts) κ.lambda)
    (args : List Value) : Stays m (Scoped m hosts κ.env) (callClosure (Calls.level n) κ args) := by
  have := hu.spared
  refine callClosure_of fun i r t name params body kind fallible res heq => ?_
  rw [heq] at hκ
  cases hκ with
  | node _ hd hc => exact enter_stays (fun v hv => (hd v hv).plain) (fun env => hu.spared.eval (hc _ (List.mem_singleton_self _)) env) _ _ _
  | host _ hp hbody => exact enter_stays (fun v hv => (hp v hv).plain) (fun env => hu.opening hbody) _ _ _

/-- A call of a closure, with the footprint that it leaves. -/
theorem enterClosure_stays (hu : Upright m n) (id : Nat) (args : List Value) :
    Stays m (fun w => w.closures[id]? = some κ)
      (record (.entered id) >>= fun _ => callClosure (Calls.level n) κ args) where
  left w := by
    have := hu.spared.stay
    have hleft : (record (.entered id) >>= fun _ => callClosure (Calls.level n) κ args).left w =
        (callClosure (Calls.level n) κ args).left (w.add (.entered id)) := rfl
    rw [hleft]
    have hmark : Later w (w.add (.entered id)) := ⟨List.suffix_cons _ _, fun _ _ h => h⟩
    have hcall : Later (w.add (.entered id)) _ :=
      (inferInstance : Runs Later (callClosure (Calls.level n) κ args)).left (w.add (.entered id))
    refine ⟨hmark.trans hcall, fun hl hs hid => ?_⟩
    obtain ⟨hosts, hκ, hclear⟩ | ⟨hκ, -⟩ := hs.kinds id κ hid
    · have hspares : Respects m w (w.add (.entered id)) := by
        refine Respects.add hs (fun j ι hj => ?_) (fun a ha => by cases ha) (fun l => trivial) fun _ _ h => by cases h
        have hne : id ≠ j := by
          rintro rfl
          cases hj.closure.symm.trans hid
          exact hκ.not_running hj.running
        simpa [Footprint.isEntered] using hne
      have hs₁ := hspares.sane hs
      have hscoped : Scoped m hosts κ.env (w.add (.entered id)) := ⟨hs₁.leads id κ hid, hclear⟩
      obtain ⟨hs', hf⟩ := ((callClosure_outside hu hκ args).left _).keeps hl hs₁ hscoped
      exact ⟨hs', hspares.follows.trans hs hf⟩
    · have hi : Instance m w id κ := ⟨hid, hκ⟩
      obtain ⟨hs₁, hgoing⟩ := hs.enter hi (hl.earlier hcall)
      have hframe : ScopeOf m κ κ.env (w.add (.entered id)) := ⟨hs₁.leads id κ hid, fun _ _ => rfl⟩
      have hwaiting : Waiting m w id := ⟨κ, hi, Sane.waiting_of_lawful hi (hl.earlier hcall)⟩
      obtain ⟨hs', hf⟩ := (callClosure_drives (k := id) hu hκ args).left hs₁ ⟨hframe, hgoing⟩ hl
      exact ⟨hs', ((Proceeds.entered id w).trans hs hf).of_waiting hwaiting⟩

/-- Whatever is called, the machine is left sane. -/
theorem callFunc_stays (hu : Upright m n) (f : Value) (args : List Value) :
    Stays m (fun _ => True) (callFunc (Calls.level n) f args) := by
  have := hu.spared.stay
  refine callFunc_of fun w id κ hid => ?_
  have hcall := (enterClosure_stays hu id args (κ := κ)).left w
  exact ⟨hcall.later, fun hl hs _ => hcall.keeps hl hs hid⟩

/-! ### The induction -/

/-- At level 0 every call is refused. -/
theorem Upright.zero : Upright m 0 where
  spared :=
    { stay := ⟨fun _ _ => Runs.throw _, fun _ => Runs.throw _⟩
      later := inferInstance
      eval := fun _ _ => Runs.throw _ }
  calling hn := by cases hn
  inside _ _ _ := .throw fun _ _ _ => trivial
  hand _ _ := .throw fun _ _ _ => trivial
  choosing _ := .throw fun _ _ _ => trivial
  turning _ := .throw fun _ _ _ => trivial
  failing _ := .throw fun _ _ _ => trivial
  guarded _ := .throw fun _ _ _ => trivial
  starting _ := Runs.throw _
  opening _ := Runs.throw _

/-- Whatever runs, however long, every world is sane in which other code runs. -/
theorem level_upright (hm : m.Fair) (n : Nat) : Upright m n := by
  induction n with
  | zero => exact .zero
  | succ n ih =>
    have := ih.spared
    have hstay := ih.spared.stay
    exact
      { spared :=
          { stay := ⟨fun f args => callFunc_stays ih f args, fun k =>
              inferInstanceAs (Stays m _ (execCallback (Calls.level n) k))⟩
            later := inferInstance
            eval := fun he _ => evalNode_stays hm he }
        calling := fun hn he => by
          cases hn
          exact callOn_stays he
        inside := fun hx harmed hsp => evalNode_inside hm ih hx harmed hsp
        hand := fun hx hobeys => hx.drives ih hobeys
        choosing := fun hx => evalNode_choosing ih hx
        turning := fun hx => evalNode_turning ih hx
        failing := fun hx => evalNode_failing hm ih hx
        guarded := fun hx => evalNode_guarded ih hx
        starting := fun hx => hx.stays ih
        opening := fun hx => evalNode_opening hm ih hx }

end

end Resumable
