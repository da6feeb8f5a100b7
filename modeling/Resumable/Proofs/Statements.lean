import Resumable.Proofs.Completing
import Resumable.Proofs.Stores

/-!
# `Proofs.Statements`: lists of statements of a machine

A store into the state slot or the resume slot leaves the instance ready, or is followed by the statement
that makes it so; handing on the loop is followed by leaving it; and when an error gets to the handler
around the loop, no other call of the instance is owed.

**Contents**
* `Stops`: how the statements of a list stop.
* `Upright`: what the levels of the evaluator below do.
* `watchHanding_drives`: asking for another call.
* `fault_drives`: the two statements by which an instance faults.
* `Between`, `goOn_drives`, `runBlock_drives`: a list of statements.
-/

namespace Resumable

open Resumable.Expr Run

section
variable {m : Watch} {k : Nat} {κ : Closure} {env : Env} {w : World} {n : Nat} {N : Int → Prop}

/-! ### One statement -/

/-- How the statements of a list stop. A jump leaves the machine, or the instance is still going; so it is
when an error is caught, unless the list is `bare` of handlers, where it is enough that no other call of the
instance is owed. -/
def Stops (m : Watch) (k : Nat) (κ : Closure) (armed bare : Bool) (s : Stop) (w : World) : Prop :=
  match s with
  | .raised e => isCatchable (.raised e) = true → Going m k κ armed w ∨ bare = true ∧ Idle m k κ w
  | .jump l _ => l.id = m.leave ∨ Going m k κ armed w
  | _ => True

section
variable {armed bare : Bool}

theorem Stops.of_harmless {s : Stop} (h : Harmless s) : Stops m k κ armed bare s w := by
  unfold Stops
  split
  · intro hc
    rw [h.not_catchable] at hc
    cases hc
  · cases h
  · trivial

theorem Stops.of_going {s : Stop} (h : Going m k κ armed w) : Stops m k κ armed bare s w := by
  unfold Stops
  split
  · exact fun _ => .inl h
  · exact .inr h
  · trivial

theorem Stops.loosen {s : Stop} (h : Stops m k κ armed false s w) : Stops m k κ armed bare s w := by
  unfold Stops at h ⊢
  split
  · exact fun hc => .inl ((h hc).resolve_right fun hb => by cases hb.1)
  · exact h
  · trivial

/-- Code outside the machine may run before a statement goes on. -/
theorem Drives.first {α : Type} {y : Run α}
    (h : Stays m (fun w => ScopeOf m κ env w ∧ Going m k κ armed w) y) :
    Drives m k (fun w => ScopeOf m κ env w ∧ Going m k κ armed w) y
      (fun _ w => ScopeOf m κ env w ∧ Going m k κ armed w) (Stops m k κ armed bare) :=
  (Drives.of_stays h).mono (fun _ _ h => h) (fun _ _ _ h => h) fun _ _ _ h => .of_going h.2

/-- How the dispatch loop stops: when an error is caught, no other call of the instance is owed. -/
def Leaving (m : Watch) (k : Nat) (κ : Closure) (s : Stop) (w : World) : Prop :=
  match s with
  | .raised e => isCatchable (.raised e) = true → Idle m k κ w
  | _ => True

/-- What the levels below do. -/
structure Upright (m : Watch) (n : Nat) : Prop where
  spared : Spared m (Calls.level n)
  calling : ∀ {n' : Nat} {i r : Nat} {t : Ty} {receiver : Expr} {name : String} {args : List Expr} {env : Env},
    n = n' + 1 → Obeys m (.outside false) (.node i r t (.methodCall receiver name args)) →
    Stays m (Scoped m false env)
      (callOn (Calls.level n') (.node i r t (.methodCall receiver name args)) receiver name args env)
  inside : ∀ {a b armed : Bool} {x : Expr} {k : Nat} {κ : Closure} {env : Env},
    Obeys m (.inside a b) x → (a = true → armed = true) → ¬ m.Special armed x →
    Drives m k (fun w => ScopeOf m κ env w ∧ Going m k κ armed w) ((Calls.level n).eval x env)
      (fun _ => Going m k κ armed) (Stops m k κ armed b)
  hand : ∀ {a b armed bare : Bool} {x : Expr} {k : Nat} {κ : Closure} {env : Env},
    m.Hands x → Obeys m (.inside a b) x →
    Drives m k (fun w => ScopeOf m κ env w ∧ Going m k κ armed w) ((Calls.level n).eval x env)
      (fun _ _ => True) (Stops m k κ armed bare)
  choosing : ∀ {x : Expr} {k : Nat} {κ : Closure} {env : Env}, Obeys m .choosing x →
    Drives m k (fun w => ScopeOf m κ env w ∧ Going m k κ false w) ((Calls.level n).eval x env)
      (fun _ => Going m k κ false) (Stops m k κ false true)
  turning : ∀ {x : Expr} {k : Nat} {κ : Closure} {env : Env}, Obeys m .turning x →
    Drives m k (fun w => ScopeOf m κ env w ∧ Going m k κ false w) ((Calls.level n).eval x env)
      (fun _ _ => True) (Leaving m k κ)
  failing : ∀ {x : Expr} {k : Nat} {κ : Closure} {env : Env}, Obeys m .failing x →
    Drives m k (fun w => ScopeOf m κ env w ∧ Idle m k κ w) ((Calls.level n).eval x env)
      (fun _ _ => True) (fun _ _ => True)
  guarded : ∀ {x : Expr} {k : Nat} {κ : Closure} {env : Env}, Obeys m .guarded x →
    Drives m k (fun w => ScopeOf m κ env w ∧ Going m k κ false w) ((Calls.level n).eval x env)
      (fun _ _ => True) (fun _ _ => True)
  starting : ∀ {x : Expr} {env : Env}, m.Starts x → Stays m (fun _ => True) ((Calls.level n).eval x env)
  opening : ∀ {x : Expr} {env : Env}, Obeys m .opening x →
    Stays m (Scoped m true env) ((Calls.level n).eval x env)

theorem Drives.of_node {P : World → Prop} {x : Expr} {Q : Option Value → World → Prop}
    {J : Stop → World → Prop} (h : ∀ n, Drives m k P (evalNode (Calls.level n) x env) Q J)
    (hJ : ∀ w, Sane m w → P w → J .exhausted w) (n : Nat) :
    Drives m k P ((Calls.level n).eval x env) Q J := by
  cases n with
  | zero => exact .throw hJ
  | succ n => exact h n

/-- Reading a variable changes nothing. -/
theorem eval_var_runs {R : World → World → Prop} [Walk R] {x : Expr} (h : x.asVar?.isSome = true)
    (n : Nat) (env : Env) : Runs R ((Calls.level n).eval x env) := by
  cases n with
  | zero => exact Runs.throw _
  | succ n =>
    show Runs R (evalNode (Calls.level n) x env)
    unfold asVar? at h
    split at h
    · unfold evalNode
      dsimp only
      split <;> infer_instance
    · cases h

theorem instance_add {f : Footprint} {j : Nat} {ι : Closure} :
    Instance m (w.add f) j ι ↔ Instance m w j ι :=
  ⟨fun h => ⟨h.closure, h.running⟩, fun h => ⟨h.closure, h.running⟩⟩

/-- A footprint that is no store, when it makes no instance wait that is not ready. -/
theorem Sane.mark_of (hs : Sane m w) {f : Footprint} (hstore : ∀ y b v, f ≠ .stored y b v)
    (hbound : ∀ b, f.slot? = some b → b < w.slots.size) (hgood : GoodStep m w w.trail f)
    (hready : ∀ j ι, Instance m w j ι → Waits m (w.add f).trail j ι.env → Ready m w ι.env)
    (howed : ∀ j ι, Instance m w j ι →
      handings (w.add f).trail m.continuation.id (ι.env.slot? m.continuation.id) ≤
        entries (w.add f).trail j) : Sane m (w.add f) where
  leads := hs.leads
  kinds := hs.kinds
  slots := hs.slots
  apart j j' ι ι' y b hj hj' := hs.apart j j' ι ι' y b (instance_add.mp hj) (instance_add.mp hj')
  waiting j ι hj hwaits := by
    have hr := hready j ι (instance_add.mp hj) hwaits
    refine ⟨fun b hb => ⟨(hr.state b hb).1, fun hmem => ?_⟩, hr.resume⟩
    obtain heq | hmem := List.mem_cons.mp hmem
    · exact hstore _ _ _ heq.symm
    · exact (hr.state b hb).2 hmem
  owed j ι hj := howed j ι (instance_add.mp hj)
  echo j ι b hj hb := by
    obtain ⟨s, hslot, hval⟩ := hs.echo j ι b (instance_add.mp hj) hb
    refine ⟨s, hslot, hval.trans ?_⟩
    cases f with
    -- only a store would change what the resume slot is told to hold
    | stored y c v => exact absurd rfl (hstore y c v)
    | _ => rfl
  bounds g hg b hb := by
    obtain rfl | hg := List.mem_cons.mp hg
    · exact hbound b hb
    · exact hs.bounds g hg b hb
  trail l g l' hl := by
    have hsame : (w.add f).closures = w.closures := rfl
    cases l with
    | nil =>
      cases hl
      exact hgood.same hsame
    | cons g' l =>
      obtain ⟨-, htail⟩ := List.cons.inj hl
      exact (hs.trail l g l' htail).same hsame
  ended := hs.ended.cons fun b => hstore _ b _

theorem entries_mark_of_slot {f : Footprint} {a j : Nat} (hf : f.slot? = some a) :
    entries (w.add f).trail j = entries w.trail j := by
  refine List.countP_cons_of_neg ?_
  cases f with
  | entered i => cases hf
  | _ => simp [Footprint.isEntered]

/-- A footprint of a slot of the instance that is neither a store nor a call. -/
theorem Sane.mark (hs : Sane m w) (h : Going m k κ armed w) {x a : Nat} {f : Footprint} (hx : m.Owns x)
    (ha : κ.env.slot? x = some a) (hf : f.slot? = some a) (hstore : ∀ y b v, f ≠ .stored y b v)
    (hgood : GoodStep m w w.trail f) : Sane m (w.add f) := by
  -- the footprint says nothing about another instance
  have hother : ∀ {j ι}, Instance m w j ι → j ≠ k →
      handings (w.add f).trail m.continuation.id (ι.env.slot? m.continuation.id) =
        handings w.trail m.continuation.id (ι.env.slot? m.continuation.id) := by
    intro j ι hj hjk
    cases hb : ι.env.slot? m.continuation.id with
    | none => rfl
    | some b =>
      have hba := hs.slot_ne h.idle.inst hj hjk hx ha hb
      refine List.countP_cons_of_neg ?_
      cases f with
      | handed y c =>
        obtain rfl : c = a := Option.some.inj hf
        simp [Footprint.isHanded, Ne.symm hba]
      | _ => simp [Footprint.isHanded]
  refine hs.mark_of hstore (fun b hb => ?_) hgood (fun j ι hj hwaits => ?_) fun j ι hj => ?_
  · obtain rfl : a = b := Option.some.inj (hf.symm.trans hb)
    obtain ⟨s, hslot, -⟩ := hs.leads k κ h.idle.inst.closure x a ha
    exact (Array.getElem?_eq_some_iff.mp hslot).1
  · by_cases hjk : j = k
    · subst hjk
      cases hj.closure.symm.trans h.idle.inst.closure
      exact h.ready
    · unfold Waits at hwaits
      rw [entries_mark_of_slot hf, hother hj hjk] at hwaits
      exact hs.waiting j ι hj hwaits
  · rw [entries_mark_of_slot hf]
    by_cases hjk : j = k
    · -- one more request, where one more call was made than asked for
      subst hjk
      cases hj.closure.symm.trans h.idle.inst.closure
      have hlt : handings w.trail m.continuation.id (κ.env.slot? m.continuation.id) < entries w.trail j :=
        Nat.lt_of_not_le fun hle => h.idle.rests ⟨κ, hj, hle⟩
      cases hb : κ.env.slot? m.continuation.id with
      | none => exact Nat.zero_le _
      | some b =>
        rw [hb] at hlt
        refine Nat.le_trans ?_ (Nat.succ_le_of_lt hlt)
        show List.countP _ (f :: w.trail) ≤ List.countP _ w.trail + 1
        rw [List.countP_cons]
        exact Nat.add_le_add_left (by split <;> simp) _
    · rw [hother hj hjk]
      exact hs.owed j ι hj

/-- Noting a store to a slot of the instance is a step of this instance only. -/
theorem Proceeds.mark (hi : Instance m w k κ) {x a : Nat} {f : Footprint} (hx : m.Owns x)
    (ha : κ.env.slot? x = some a) (hf : f.slot? = some a) : Proceeds m (some k) w (w.add f) where
  later := ⟨List.suffix_cons f w.trail, fun _ _ h => h⟩
  quiet g l hl hg := by
    obtain rfl : [f] = l := List.append_cancel_right (show _ ++ w.trail = l ++ w.trail from hl)
    obtain rfl := List.mem_singleton.mp hg
    refine ⟨fun b hb _ hshield => ?_, fun _ _ _ _ _ => ?_⟩
    · obtain rfl : a = b := Option.some.inj (hf.symm.trans hb)
      exact (hshield.idle k κ x hi hx ha).2 rfl
    · cases g <;> first | rfl | cases hf
  slots a s h := ⟨s, h, rfl⟩
  shielded _ _ := rfl
  fresh j ι y b hj hn := by
    have := hj.closure
    rw [show (w.add f).closures = w.closures from rfl, hn] at this
    cases this

theorem recordOn_some {e : Expr} {v : Var} {a : Nat} {event : Nat → Nat → Footprint}
    (he : e.asVar? = some v) (ha : env.slot? v.id = some a) :
    recordOn e env event = record (event v.id a) := by
  have hfind : env.find? v = some a := ha
  unfold recordOn
  simp only [he, hfind]

theorem recordOn_none {e : Expr} {v : Var} {event : Nat → Nat → Footprint}
    (he : e.asVar? = some v) (ha : env.slot? v.id = none) : recordOn e env event = pure () := by
  have hfind : env.find? v = none := ha
  unfold recordOn
  simp only [he, hfind]

theorem watchHanding_onCompleted (arg : Expr) (run : Run α) :
    watchHanding "OnCompleted" [arg] env run = (do
      recordOn arg env .handed
      match ← attempt run with
      | .ok v => return v
      | .error .exhausted => throw .exhausted
      | .error s =>
        recordOn arg env .rejected
        throw s) := rfl

/-- Asking for another call of an instance that can be dispatched. No awaiter refuses, so that only the
fuel can run out. -/
theorem watchHanding_drives (hu : Upright m n) {bare : Bool} {arg : Expr} (hk : m.IsContinuation arg)
    {run : Run (Option Value)} (hrun : ∀ R [Walk R] [CallsRun R (Calls.level n)], Runs R run) :
    Drives m k (fun w => ScopeOf m κ env w ∧ Going m k κ armed w)
      (watchHanding "OnCompleted" [arg] env run) (fun _ _ => True) (Stops m k κ armed bare) := by
  have hvar := hk.asVar?
  have := hu.spared.stay
  have hlater := hrun Later
  have hstays : ∀ (E : World → Prop) [Lasting m E], Stays m E run := fun E _ => hrun (Kept m E)
  rw [watchHanding_onCompleted]
  cases ha : env.slot? m.continuation.id with
  | none =>
    -- nobody was asked: the variable is not in scope
    rw [recordOn_none hvar ha, recordOn_none hvar ha]
    have := hstays fun w => ScopeOf m κ env w ∧ Going m k κ armed w
    refine (Drives.of_stays (E := fun w => ScopeOf m κ env w ∧ Going m k κ armed w) ?_).mono
      (fun _ _ h => h) (fun _ _ _ _ => trivial) fun _ _ _ h => .of_going h.2
    repeat' first | infer_instance | split | refine @Runs.bind _ _ _ _ _ _ ?_ fun _ => ?_
  | some a =>
    rw [recordOn_some hvar ha, recordOn_some hvar ha]
    have hmark : Drives m k (fun w => ScopeOf m κ env w ∧ Going m k κ armed w)
        (record (.handed m.continuation.id a)) (fun _ _ => True) (Stops m k κ armed bare) := by
      refine .of_outcome inferInstance fun w hs hw => .inl ?_
      obtain ⟨hframe, hgoing⟩ := hw
      refine ⟨_, _, rfl, ?_, ?_, trivial⟩
      · rw [hframe.own _ Watch.owns_continuation] at ha
        exact hs.mark hgoing Watch.owns_continuation ha rfl (fun _ _ _ h => by cases h) trivial
      · rw [hframe.own _ Watch.owns_continuation] at ha
        exact .mark hgoing.idle.inst Watch.owns_continuation ha rfl
    refine hmark.bind fun _ => ?_
    refine Drives.bind (Drives.attempt (Drives.of_stays (hstays fun _ => True))) fun r => ?_
    cases r with
    | ok v => exact .pure fun _ _ _ => trivial
    | error s =>
      cases s with
      | exhausted => exact .throw fun _ _ _ => trivial
      | _ =>
        -- a refusal is on the trail, which lawful awaiters never leave
        refine ⟨inferInstance, fun _ _ hrun _ => ?_, fun _ _ hrun hl => ?_⟩
        · cases hrun
        · cases hrun
          exact absurd List.mem_cons_self (hl.taken a)

/-- Handing on the loop, unless it fails before. -/
theorem Watch.Hands.drives (hu : Upright m n) {a b bare : Bool} {x : Expr} (hx : m.Hands x)
    (hobeys : Obeys m (.inside a b) x) :
    Drives m k (fun w => ScopeOf m κ env w ∧ Going m k κ armed w) (evalNode (Calls.level n) x env)
      (fun _ _ => True) (Stops m k κ armed bare) := by
  unfold Watch.Hands at hx
  split at hx
  · rename_i i r t receiver name arg
    obtain ⟨rfl, hk⟩ := hx
    have hreceiver : Obeys m (.outside false) receiver := by
      cases hobeys with
      | user h =>
        -- code outside does not name the function
        have harg := h.operand (by simp [Data.kind]) (x := arg) (by simp [Expr.operands])
        exact absurd Watch.owns_continuation (harg.plain_of_asVar? hk.asVar?).foreign
      | raw h =>
        obtain ⟨_, _, _, ⟨_, _, _, h⟩ | ⟨_, h⟩⟩ := h.shape <;> cases h
      | hand h _ => exact h
    have hcall := hu.spared.stay
    have hlater := hu.spared.later
    have hawaiter : Stays m (fun w => ScopeOf m κ env w ∧ Going m k κ armed w)
        ((Calls.level n).eval receiver env) :=
      (hu.spared.eval hreceiver env).mono fun _ _ h => h.1.scoped
    have harg : ∀ sig, Stays m (fun w => ScopeOf m κ env w ∧ Going m k κ armed w)
        (evalArgs (Calls.level n) sig env [arg]) := by
      intro sig
      unfold evalArgs
      refine Runs.mapM_of fun c hx => ?_
      obtain ⟨x, i⟩ := c
      have hx := List.fst_mem_of_mem_zipIdx hx
      obtain rfl := List.mem_singleton.mp hx
      have := fun E [Lasting m E] => 
        eval_var_runs (R := Resumable.Kept m E) (by rw [hk.asVar?]; rfl) n env
      dsimp only
      unfold evalAs
      repeat' first | infer_instance | split | refine @Runs.bind _ _ _ _ _ _ ?_ fun _ => ?_
    show Drives m k _ (evalMethodCall _ _ receiver "OnCompleted" [arg] env) _ _
    unfold evalMethodCall callOn
    refine (Drives.first inferInstance).bind fun _ => (Drives.first inferInstance).bind fun v =>
      (Drives.first inferInstance).bind fun v => (Drives.first inferInstance).bind fun target => ?_
    split
    · exact (Drives.first inferInstance).mono (fun _ _ h => h) (fun _ _ _ _ => trivial) fun _ _ _ h => h
    · refine (Drives.first (harg _)).bind fun vs => ?_
      exact watchHanding_drives hu hk fun R _ _ => inferInstance
  · cases hx

/-- Leaving the loop does nothing but jump. -/
theorem Watch.Leaves.drives {P : World → Prop} {Q : Option Value → World → Prop} {x : Expr}
    (hx : m.Leaves x) :
    Drives m k P (evalNode (Calls.level n) x env) Q fun s _ => ∃ l v, s = .jump l v ∧ l.id = m.leave := by
  unfold Watch.Leaves at hx
  split at hx
  · obtain ⟨hl, rfl⟩ := hx
    exact .throw fun _ _ _ => ⟨_, none, rfl, hl⟩
  · cases hx

/-- Only a method call makes the cell fail. -/
theorem Watch.Calls.methodCall {x : Expr} (hx : m.Calls false x) :
    ∃ i r t receiver name args, x = .node i r t (.methodCall receiver name args) := by
  unfold Watch.Calls Watch.Settling at hx
  split at hx
  · exact ⟨_, _, _, _, _, _, rfl⟩
  · cases hx.1
  · cases hx

/-- Calls among the statements of the machine are code outside it. -/
theorem Watch.Calls.outside {a b c : Bool} {x : Expr} (hx : m.Calls c x) (h : Obeys m (.inside a b) x) :
    Obeys m (.outside false) x := by
  unfold Watch.Calls Watch.Settling at hx
  split at hx
  · cases h with
    | user h => exact h
    | raw h => obtain ⟨_, _, _, ⟨_, _, _, h⟩ | ⟨_, h⟩⟩ := h.shape <;> cases h
    | hand => cases c <;> simp [completes, fails] at hx
  · cases h with
    | user h => exact h
    | raw h => obtain ⟨_, _, _, ⟨_, _, _, h⟩ | ⟨_, h⟩⟩ := h.shape <;> cases h
  · cases hx

/-- What is called of variables to make the cell fail neither jumps nor touches the instance. -/
theorem Watch.Quits.drives (hu : Upright m n) {a b : Bool} {i r : Nat} {t : Ty} {receiver : Expr} {name : String}
    {args : List Expr} (hx : m.Quits (.node i r t (.methodCall receiver name args)))
    (hobeys : Obeys m (.inside a b) (.node i r t (.methodCall receiver name args))) {n' : Nat} (hn : n = n' + 1) :
    Drives m k (fun w => ScopeOf m κ env w ∧ Idle m k κ w)
      (callOn (Calls.level n') (.node i r t (.methodCall receiver name args)) receiver name args env)
      (fun _ => Idle m k κ) fun s w => (∀ l v, s ≠ .jump l v) ∧ Idle m k κ w := by
  obtain ⟨hcalls, _, _, _, _, _, _, heq, hr, ha⟩ := hx
  cases heq
  have hjumpless : Jumpless (callOn (Calls.level n') (.node i r t (.methodCall receiver name args)) receiver name
      args env) := by
    refine callOn_jumpless (eval_var_jumpless hr n' env) (fun x hx => eval_var_jumpless (ha x hx) n' env) ?_
    rintro rfl
    exact absurd hcalls.2 (by decide)
  have hstays : Stays m (fun w => ScopeOf m κ env w ∧ Idle m k κ w)
      (callOn (Calls.level n') (.node i r t (.methodCall receiver name args)) receiver name args env) :=
    (hu.calling hn (hcalls.outside hobeys)).mono fun _ _ h => h.1.scoped
  exact ((Drives.of_stays hstays).jumpless).mono (fun _ _ h => h) (fun _ _ _ h => h.2)
    fun _ _ _ h => ⟨h.1, h.2.2⟩

/-! ### The turns of a block -/

/-- What becomes of a block when a statement of it has ended; `rest` comes after the statement. -/
def afterStep (body rest : List Expr) (r : Except Stop (Option Value)) :
    Run ((List Expr × Option Value) ⊕ Option Value) := do
  match r with
  | .ok v => return .inl (rest, v)
  | .error (.jump l v) =>
    match ← afterLabel l body with
    | some rest => return .inl (rest, ← convertTo v l.type)
    | none => throw (.jump l v)
  | .error s => throw s

/-- What is left of a block, for a number of turns. -/
def goOn (c : Resumable.Calls) (body : List Expr) (env : Env) (turns : Nat) :
    (List Expr × Option Value) ⊕ Option Value → Run (Option Value)
  | .inl s => iterate (stepBlock c body env) turns s
  | .inr v => pure v

instance (body rest : List Expr) (r : Except Stop (Option Value)) : Runs Later (afterStep body rest r) := by
  unfold afterStep
  repeat' first | infer_instance | split | refine @Runs.bind _ _ _ _ _ _ ?_ fun _ => ?_

instance (body : List Expr) (turns : Nat) (o : (List Expr × Option Value) ⊕ Option Value) :
    Runs Later (goOn (Calls.level n) body env turns o) := by
  unfold goOn
  cases o <;> infer_instance

theorem iterate_stepBlock (c : Resumable.Calls) (body rest : List Expr) (x : Expr) (last : Option Value)
    (turns : Nat) : iterate (stepBlock c body env) (turns + 1) (x :: rest, last) =
      attempt (c.eval x env) >>= fun r => afterStep body rest r >>= goOn c body env turns := by
  have hstep : stepBlock c body env (x :: rest, last) = attempt (c.eval x env) >>= afterStep body rest := rfl
  rw [iterate_succ, hstep, bind_assoc]
  refine bind_congr fun r => bind_congr fun o => ?_
  cases o <;> rfl

/-! ### The end of an instance by a failure -/

/-- When the first thing after the mark is that the instance makes its cell fail, or that no turn is left, the
world is sane again. -/
theorem Sane.fault (hm : m.Fair) (hs : Sane m w) (hi : Idle m k κ w) {a : Nat}
    (ha : κ.env.slot? m.state.id = some a) {f : Footprint} (hcell : f.ofCell = true)
    (hfault : Faults m.state m.cell a [f]) :
    Sane m ((w.put a ⟨m.state.id, .int .int (-1)⟩).add f) ∧
      Proceeds m (some k) w ((w.put a ⟨m.state.id, .int .int (-1)⟩).add f) ∧
        Idle m k κ ((w.put a ⟨m.state.id, .int .int (-1)⟩).add f) := by
  obtain ⟨s, hslot, hvar⟩ := hs.leads k κ hi.inst.closure _ a ha
  have hput := hs.toCoherent.fill hi Watch.owns_state ha (hm.slotGood_state (.inr rfl))
  have hadd : Respects m (w.put a ⟨m.state.id, .int .int (-1)⟩) ((w.put a ⟨m.state.id, .int .int (-1)⟩).add f) :=
    .ofCell hput hcell
  refine ⟨⟨hadd.coherent hput, hs.ended.mark (l := [f]) (.inr hfault) fun g hg b heq => ?_⟩,
    (Proceeds.fill hi.inst Watch.owns_state ha hslot hvar.symm).trans hs hadd.follows,
    hadd.instance_iff.mpr (instance_fill.mpr hi.inst), ?_⟩
  · obtain rfl := List.mem_singleton.mp hg
    rw [heq] at hcell
    cases hcell
  · rintro ⟨ι, hι, hwaits⟩
    have hι := hadd.instance_iff.mp hι
    exact hi.rests ⟨ι, instance_fill.mp hι, waits_fill.mp ((hadd.waits_iff hput hι).mp hwaits)⟩

theorem attempt_bind_congr {α β : Type} {x y : Run α} {f : Except Stop α → Run β} {v u : World}
    (h : x v = y u) : (attempt x >>= f) v = (attempt y >>= f) u := by
  simp only [bind_eq, attempt, h]

/-- **An instance faults**: it is marked as over, and then a call begins which makes its cell fail. In between
the account of the instance is open, so that both statements are taken at once. -/
theorem fault_drives (hm : m.Fair) {x receiver : Expr} {i r : Nat} {ty : Ty} {name : String} {args body rest : List Expr}
    {Q : Option Value → World → Prop} {J JC : Stop → World → Prop} (hx : m.Ends x)
    (hcell : receiver.asVar? = some m.cell) (hname : fails name = true)
    (hcall : ∀ {n' : Nat}, n = n' + 1 → Drives m k (fun w => ScopeOf m κ env w ∧ Idle m k κ w)
      (callOn (Calls.level n') (.node i r ty (.methodCall receiver name args)) receiver name args env)
      (fun _ => Idle m k κ) JC)
    (hJ : ∀ s w, Harmless s → J s w) (turns : Nat)
    (hrest : ∀ left < turns, ∀ o, Drives m k
      (fun w => ScopeOf m κ env w ∧ Drives.After (fun _ => Idle m k κ) JC o w)
      (afterStep body rest o >>= goOn (Calls.level n) body env left) Q J) (last : Option Value) :
    Drives m k (fun w => ScopeOf m κ env w ∧ Idle m k κ w)
      (iterate (stepBlock (Calls.level n) body env) turns
        (x :: .node i r ty (.methodCall receiver name args) :: rest, last)) Q J := by
  -- the store and the call are two statements, and the turns may end before each of them
  cases turns with
  | zero => exact .giveUp fun w => hJ .exhausted w trivial
  | succ turns =>
    refine .of_steps inferInstance fun w hs hw => ?_
    obtain ⟨hscope, hidle⟩ := hw
    rw [iterate_stepBlock]
    cases n with
    | zero => exact ⟨fun _ => True, throw .exhausted, w, rfl, hs, .refl _, trivial, .throw fun w _ _ => hJ .exhausted w trivial⟩
    | succ n =>
      obtain ⟨a, s, j, ha, hslot, hvar, rfl, heval⟩ | ⟨s, hharm, heval⟩ :=
        evalNode_puts (n := n) hx hm.types.1 hscope.leads fun value hv => Watch.Number.evaluates hv
      · have hstep : (attempt ((Calls.level (n + 1)).eval x env) >>= fun o =>
            afterStep body (.node i r ty (.methodCall receiver name args) :: rest) o >>=
              goOn (Calls.level (n + 1)) body env turns) w =
            iterate (stepBlock (Calls.level (n + 1)) body env) turns
              (.node i r ty (.methodCall receiver name args) :: rest, some (.int .int (-1)))
              (w.put a ⟨m.state.id, .int .int (-1)⟩) := by
          have hx : (Calls.level (n + 1)).eval x env w = _ := heval
          simp only [bind_eq, attempt, hx]
          rfl
        rw [hstep]
        rw [hscope.own _ Watch.owns_state] at ha
        cases turns with
        | zero =>
          obtain ⟨hsane, hproceeds, -⟩ := hs.fault hm hidle ha (f := .cut) rfl ⟨[], .inl rfl⟩
          exact ⟨fun _ => True, throw .exhausted, _, rfl, hsane, hproceeds, trivial, .throw fun w _ _ => hJ .exhausted w trivial⟩
        | succ turns =>
          obtain ⟨hsane, hproceeds, hidle'⟩ := hs.fault hm hidle ha (f := .failing m.cell.id env) rfl
            ⟨[], .inr ⟨env, rfl, (hscope.own _ Watch.owns_state).trans ha⟩⟩
          -- the call notes first that it makes the cell fail, which is what the store waited for
          have hfail : noteFailing name receiver env = record (.failing m.cell.id env) := by
            simp only [noteFailing, if_pos hname, recordCell, hcell]
          rw [iterate_stepBlock]
          refine ⟨fun w => ScopeOf m κ env w ∧ Idle m k κ w, _, _,
            attempt_bind_congr (y := callOn (Calls.level n) (.node i r ty (.methodCall receiver name args)) receiver
              name args env) (u := (w.put a ⟨m.state.id, .int .int (-1)⟩).add (.failing m.cell.id env)) ?_,
            hsane, hproceeds, ⟨Steady.follows hproceeds hscope, hidle'⟩, (hcall rfl).keep.attempt.bind fun o => ?_⟩
          · show (noteFailing name receiver env >>= fun _ => callOn _ _ _ _ _ _) _ = _
            rw [hfail]
            rfl
          · refine (hrest turns (by omega) o).before fun w _ hw => ?_
            cases o with
            | ok v => exact hw
            | error s => exact hw
      · refine ⟨fun _ => True, throw s, w, ?_, hs, .refl _, trivial, .throw fun w _ _ => hJ s w hharm⟩
        have hx : (Calls.level (n + 1)).eval x env w = _ := heval
        cases s with
        | jump => cases hharm
        | _ =>
          simp only [bind_eq, attempt, hx]
          rfl

/-! ### A list of statements -/

theorem Watch.Shape.drop {prev y : Expr} {front rest : List Expr}
    (h : m.Shape armed bare prev (front ++ y :: rest)) : m.Shape armed bare y rest := by
  induction front generalizing prev with
  | nil => exact h.2
  | cons x front ih => exact ih h.2

/-- Where the instance is between two statements: going on, or in the middle of one of the sequences that
the statements of the machine stand in. -/
inductive Between (m : Watch) (k : Nat) (κ : Closure) (armed : Bool) (prev : Expr) : List Expr → World → Prop
  | going {rest : List Expr} {w : World} (h : Going m k κ armed w) (ha : m.Aims prev → Aimed m κ w)
    (hd : m.Settles prev → Done m κ w) : Between m k κ armed prev rest w
  | entering {y : Expr} {rest : List Expr} {w : World} (hy : m.Aims y) (hi : Idle m k κ w)
    (hp : Placed m κ w) : Between m k κ armed prev (y :: rest) w
  | leaving {z : Expr} {rest : List Expr} {w : World} (hz : m.Leaves z) :
    Between m k κ armed prev (z :: rest) w

/-- What holds between the statements of a list. -/
def Listed (m : Watch) (k : Nat) (κ : Closure) (armed bare : Bool) (body : List Expr) (env : Env)
    (s : List Expr × Option Value) (w : World) : Prop :=
  ScopeOf m κ env w ∧ ∃ prev, m.Shape armed bare prev s.1 ∧ (∀ x ∈ s.1, x ∈ body) ∧ Between m k κ armed prev s.1 w

/-- Where handlers are missing, an instance may be marked as over before its cell is made to fail; otherwise
statements follow one another as they do everywhere. -/
theorem Watch.Fits.cases_bare {prev x : Expr} {rest : List Expr} (h : m.Fits armed bare prev x rest) :
    m.Fits armed false prev x rest ∨
      bare = true ∧ m.Ends x ∧ ∃ y z rest', rest = y :: z :: rest' ∧ m.Quits y ∧ m.Leaves z := by
  cases h with
  | any hx => exact .inl (.any hx)
  | enter hx hy => exact .inl (.enter hx hy)
  | aimed hp hx => exact .inl (.aimed hp hx)
  | complete hp hx hz => exact .inl (.complete hp hx hz)
  | fail hb hx hy hz => exact .inr ⟨hb, hx, _, _, _, rfl, hy, hz⟩
  | hand hx hy => exact .inl (.hand hx hy)

/-- No block of the machine declares the state slot. -/
theorem Obeys.block_vars {a b : Bool} {i r : Nat} {t : Ty} {vars : List Var} {xs : List Expr}
    (h : Obeys m (.inside a b) (.node i r t (.block vars xs))) : ∀ v ∈ vars, v.id ≠ m.state.id := by
  have hv : ∀ v ∈ vars, m.Declarable v := by
    cases h with
    | user h =>
      cases h with
      | node _ hd _ => exact hd.1
    | raw h => obtain ⟨_, _, _, ⟨_, _, _, h⟩ | ⟨_, h⟩⟩ := h.shape <;> cases h
    | block _ hv => exact hv
  exact fun v hmem heq => (hv v hmem).foreign (heq ▸ Watch.owns_state)

/-- A statement that completes the cell leaves the instance done. -/
theorem Watch.Settles.done {x : Expr} (hx : m.Settles x) (hobeys : Obeys m (.inside false false) x)
    (hs : ScopeOf m κ env w) {v : Option Value} {w' : World} (hrun : (Calls.level n).eval x env w = .ok v w') :
    Done m κ w' := by
  intro a ha
  refine eval_settled hx (fun i r t vars xs heq => ?_) ((hs.own _ Watch.owns_state).trans ha) hrun
  subst heq
  exact hobeys.block_vars

/-- One statement of a list takes the instance from before it to after it, unless it is where an instance
faults. -/
theorem eval_between (hm : m.Fair) (hu : Upright m n) {prev x : Expr} {rest : List Expr}
    (hx : Obeys m (.inside false false) x) (hfits : m.Fits armed false prev x rest) :
    Drives m k (fun w => ScopeOf m κ env w ∧ Between m k κ armed prev (x :: rest) w)
      ((Calls.level n).eval x env) (fun _ => Between m k κ armed x rest) (Stops m k κ armed bare) := by
  have hfuel : ∀ {P : World → Prop} (w : World), Sane m w → P w → Stops m k κ armed bare .exhausted w :=
    fun _ _ _ => trivial
  -- saying where to go on makes the instance ready, whatever was there before
  have haims_drives : m.Aims x →
      Drives m k (fun w => ScopeOf m κ env w ∧ Idle m k κ w ∧ Placed m κ w)
        ((Calls.level n).eval x env) (fun _ => Between m k κ armed x rest)
        (Stops m k κ armed bare) := fun haims =>
    Drives.of_node (fun n => (haims.drives n hm).mono (fun _ _ h => h)
      (fun _ _ _ h => .going ⟨h.idle, h.ready, fun _ => h.aimed rfl⟩ (fun _ => h.aimed rfl)
        fun hs => absurd hs haims.not_settled) fun _ _ _ h => .of_harmless h.1) hfuel n
  refine .of_cases (inferInstance) fun w _ hw => ?_
  obtain ⟨hframe, hbetween⟩ := hw
  cases hbetween with
  | going hgoing haimed hdone =>
    cases hfits with
    | any hnot =>
      by_cases haims : m.Aims x
      · exact ⟨_, haims_drives haims, hframe, hgoing.idle, hgoing.ready.state⟩
      · refine ⟨_, ((hu.inside hx (by simp) hnot).returning (Y := fun _ w => m.Settles x → Done m κ w)
          fun w v w' hw hrun hs => hs.done hx hw.1 hrun).mono (fun _ _ h => h) (fun _ _ _ h => ?_)
          (fun _ _ _ h => h.loosen), hframe, hgoing⟩
        exact .going h.2 (fun ha => absurd ha haims) h.1
    | enter henters haims =>
      exact ⟨_, Drives.of_node (fun n => (henters.drives n hm).mono (fun _ _ h => h)
        (fun _ _ _ h => .entering haims h.1 h.2) fun _ _ _ h => .of_harmless h.1) hfuel n,
        hframe, hgoing⟩
    | aimed hprev henters =>
      exact ⟨_, Drives.of_node (fun n => (henters.drives_aimed n hm).mono (fun _ _ h => h)
        (fun _ _ _ h => .going ⟨h.idle, h.ready, fun _ => h.aimed rfl⟩ (fun _ => h.aimed rfl)
          fun hs => absurd hs henters.not_settled) fun _ _ _ h => .of_harmless h.1) hfuel n,
        hframe, hgoing.idle, hgoing.ready, fun _ => haimed hprev⟩
    | complete hprev hends hleaves =>
      exact ⟨_, Drives.of_node (fun n => (hends.drives n hm).mono (fun _ _ h => h)
        (fun _ _ _ _ => .leaving hleaves) fun _ _ _ h => .of_harmless h) hfuel n,
        hframe, hgoing.idle, hdone hprev⟩
    | fail hbare => cases hbare
    | hand hhands hleaves =>
      exact ⟨_, (hu.hand hhands hx).mono (fun _ _ h => h)
        (fun _ _ _ _ => .leaving hleaves) (fun _ _ _ h => h), hframe, hgoing⟩
  | entering haims hidle hplaced => exact ⟨_, haims_drives haims, hframe, hidle, hplaced⟩
  | leaving hleaves =>
    refine ⟨_, Drives.of_node (P := ScopeOf m κ env) (fun n => hleaves.drives.mono (fun _ _ h => h)
      (fun _ _ _ h => h) fun s _ _ h => ?_) hfuel n, hframe⟩
    obtain ⟨l, v, rfl, hl⟩ := h
    exact .inl hl

/-- No label among the statements of the machine is the one that leaves the loop. -/
theorem Obeys.label_plain {a b : Bool} {i r : Nat} {t : Ty} {l : Label} {d : Expr}
    (h : Obeys m (.inside a b) (.node i r t (.label l d))) : m.Plain l.id := by
  cases h with
  | user h =>
    cases h with
    | node _ hd _ => exact hd
  | raw h => obtain ⟨_, _, _, ⟨_, _, _, h⟩ | ⟨_, h⟩⟩ := h.shape <;> cases h

/-- A jump to a label among the statements goes on after the label, which is never the one that leaves the
loop. -/
theorem afterLabel_drives {body : List Expr} (hbody : ∀ x ∈ body, Obeys m (.inside false false) x)
    {prev : Expr} (hshape : m.Shape armed bare prev body) (l : Label) (v : Option Value) :
    Drives m k (fun w => ScopeOf m κ env w ∧ Stops m k κ armed bare (.jump l v) w)
      (do
        match ← afterLabel l body with
        | some rest => return .inl (rest, ← convertTo v l.type)
        | none => throw (.jump l v))
      (fun (r : (List Expr × Option Value) ⊕ Option Value) w =>
        r.elim (Listed m k κ armed bare body env · w) fun _ => Going m k κ armed w)
      (Stops m k κ armed bare) := by
  -- the search touches nothing: what it finds is a label of this list
  have hsearch : Drives m k (fun w => ScopeOf m κ env w ∧ Stops m k κ armed bare (.jump l v) w)
      (afterLabel l body)
      (fun r w => (∀ rest, r = some rest → ∃ front i r' t l' d,
        body = front ++ .node i r' t (.label l' d) :: rest ∧ l'.id = l.id) ∧
          ScopeOf m κ env w ∧ Stops m k κ armed bare (.jump l v) w) (Stops m k κ armed bare) := by
    refine .of_outcome inferInstance fun w hs hw => ?_
    obtain ⟨r, hrun, hr⟩ | ⟨p, hrun⟩ := afterLabel_run (w := w) l body
    · exact .inl ⟨r, w, hrun, hs, .refl _, hr, hw⟩
    · exact .inr ⟨_, w, hrun, hs, .refl _, trivial⟩
  refine hsearch.bind fun r => .of_fact (by cases r <;> infer_instance) fun hr => ?_
  cases r with
  | none => exact .throw fun w _ hw => hw.2
  | some rest =>
    obtain ⟨front, i, r', t, l', d, rfl, hid⟩ := hr rest rfl
    have hlabel := (hbody (.node i r' t (.label l' d)) (by simp)).label_plain
    -- a label of the list is none that the machine jumps to
    have hgoing : ∀ w, Stops m k κ armed bare (.jump l v) w → Going m k κ armed w := fun w h =>
      h.resolve_left fun h => hlabel.foreign (.inr (.inr (.inr (hid.trans h))))
    have hconvert := Drives.of_stays (k := k) (m := m) (x := convertTo v l.type)
      (E := fun w => ScopeOf m κ env w ∧ Going m k κ armed w) inferInstance
    refine (hconvert.mono (fun w _ hw => ⟨hw.1, hgoing w hw.2⟩) (fun _ _ _ h => h)
      fun _ _ _ h => .of_going h.2).bind fun x => .pure fun w _ hw => ?_
    exact ⟨hw.1, _, hshape.drop, fun y hy => by simp [hy],
      .going hw.2 (fun haims => absurd haims id) fun hs => absurd hs Watch.not_settles_label⟩

/-- What is done after a statement that does not lead to a fault. -/
theorem afterStep_drives {body : List Expr} (hbody : ∀ x ∈ body, Obeys m (.inside false false) x)
    (hshape : m.Shape armed bare .absent body) {x : Expr} {rest : List Expr} (hsh : m.Shape armed bare x rest)
    (hmem : ∀ y ∈ rest, y ∈ body) (o : Except Stop (Option Value)) :
    Drives m k (fun w => ScopeOf m κ env w ∧
        Drives.After (fun _ => Between m k κ armed x rest) (Stops m k κ armed bare) o w) (afterStep body rest o)
      (fun r w => r.elim (Listed m k κ armed bare body env · w) fun _ => Going m k κ armed w)
      (Stops m k κ armed bare) := by
  cases o with
  | ok v => exact .pure fun w _ hw => ⟨hw.1, x, hsh, hmem, hw.2⟩
  | error s =>
    cases s with
    | jump l v => exact afterLabel_drives hbody hshape l v
    | _ => exact .throw fun w _ hw => hw.2

/-- The statements that are left of a block keep the instance going. The induction is on the turns, as the two
statements of a fault take two of them at once. -/
theorem goOn_drives (hm : m.Fair) (hu : Upright m n) {body : List Expr}
    (hbody : ∀ x ∈ body, Obeys m (.inside false false) x) (hshape : m.Shape armed bare .absent body)
    (turns : Nat) (s : List Expr × Option Value) :
    Drives m k (Listed m k κ armed bare body env s) (iterate (stepBlock (Calls.level n) body env) turns s)
      (fun _ => Going m k κ armed) (Stops m k κ armed bare) := by
  -- a turn takes one statement or two, so the induction is on all smaller numbers of turns
  induction turns using Nat.strongRecOn generalizing s with
  | ind turns ih =>
  cases turns with
  | zero => exact .giveUp fun _ => trivial
  | succ turns =>
    have hgoOn : ∀ left < turns + 1, ∀ r, Drives m k
        (fun w => r.elim (Listed m k κ armed bare body env · w) fun _ => Going m k κ armed w)
        (goOn (Calls.level n) body env left r) (fun _ => Going m k κ armed) (Stops m k κ armed bare) := by
      intro left hleft r
      cases r with
      | inl s => exact ih left hleft s
      | inr v => exact .pure fun _ _ h => h
    refine .of_cases inferInstance fun w hs hw => ?_
    obtain ⟨hframe, prev, hsh, hmem, hbetween⟩ := hw
    obtain ⟨xs, last⟩ := s
    cases xs with
    | nil =>
      cases hbetween with
      | going h => exact ⟨_, .pure fun _ _ h => h, h⟩
    | cons x rest =>
      have hx := hbody x (hmem x List.mem_cons_self)
      obtain hfits | ⟨hbare, hends, y, z, rest', rfl, hquits, hleaves⟩ := hsh.1.cases_bare
      · rw [iterate_stepBlock]
        have hstep : Drives m k (fun w => ScopeOf m κ env w ∧ Between m k κ armed prev (x :: rest) w)
            ((Calls.level n).eval x env) (fun _ => Between m k κ armed x rest) (Stops m k κ armed bare) :=
          eval_between hm hu hx hfits
        refine ⟨_, hstep.keep.attempt.bind fun o => ?_, hframe, hbetween⟩
        refine ((afterStep_drives hbody hshape hsh.2
          (fun y hy => hmem y (List.mem_cons_of_mem _ hy)) o).before fun w _ hw => ?_).bind
            (hgoOn turns (Nat.lt_succ_self turns))
        cases o <;> exact hw
      · -- the store that ends the machine and the call that makes the cell fail are taken together
        have hidle : Idle m k κ w := by
          cases hbetween with
          | going h => exact h.idle
          | entering haims => exact absurd (congrArg Var.id (hends.both haims).1) hm.state_ne_resume
          | leaving hleaves => exact absurd hleaves hends.not_leaves
        have hy := hbody y (hmem y (by simp))
        obtain ⟨hcalls, i, r, t, receiver, name, args, rfl, -⟩ := id hquits
        refine ⟨_, fault_drives hm hends hcalls.1 hcalls.2 (hquits.drives hu hy) (fun _ _ h => .of_harmless h) _
          (fun left hleft o => ?_) last, hframe, hidle⟩
        cases o with
        | ok v =>
          refine (hgoOn left hleft (.inl (z :: rest', v))).before fun w _ hw =>
            ⟨hw.1, _, hsh.2.2, fun u hu => ?_, .leaving hleaves⟩
          exact hmem u (List.mem_cons_of_mem _ (List.mem_cons_of_mem _ hu))
        | error s =>
          cases s with
          | jump l v =>
            exact .before (P := fun w => False ∧ True) (.of_fact inferInstance False.elim)
              fun w _ hw => absurd rfl (hw.2.1 l v)
          | raised e => exact .throw fun w _ hw _ => .inr ⟨hbare, hw.2.2⟩
          | _ => exact .throw fun _ _ _ => trivial

/-- A list of statements of the machine keeps the instance going. -/
theorem runBlock_drives (hm : m.Fair) (hu : Upright m n) (t : Ty) {body : List Expr}
    (hbody : ∀ x ∈ body, Obeys m (.inside false false) x) (hshape : m.Shape armed bare .absent body) :
    Drives m k (fun w => ScopeOf m κ env w ∧ Going m k κ armed w) (runBlock (Calls.level n) t body env)
      (fun _ => Going m k κ armed) (Stops m k κ armed bare) := by
  have hturns : Drives m k (Listed m k κ armed bare body env (body, none))
      (iterate (stepBlock (Calls.level n) body env) (Calls.level n).turns (body, none))
      (fun _ => Going m k κ armed) (Stops m k κ armed bare) :=
    goOn_drives hm hu hbody hshape _ _
  refine (hturns.before fun w _ hw => ⟨hw.1, .absent, hshape, fun _ h => h, ?_⟩).bind fun v => ?_
  · exact .going hw.2 (fun h => absurd h id) fun h => absurd h Watch.not_settles_absent
  · exact (Drives.of_stays (E := Going m k κ armed) inferInstance).mono (fun _ _ h => h)
      (fun _ _ _ h => h) fun _ _ _ h => .of_going h

end

end

end Resumable
