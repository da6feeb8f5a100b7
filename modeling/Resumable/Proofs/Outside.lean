import Resumable.Proofs.Stays

/-!
# `Proofs.Outside`: code outside a machine

Evaluating a tree that stands outside a machine leaves every instance of the machine alone, as long as
calls do. It declares and stores variables of its own only, and no closure that it makes runs a dispatch
loop.

**Contents**
* `Respects.push`, `Respects.fill`, `Respects.add`: what is done to variables and the trail.
* `Watch.rights`, `Watch.terrain`, `evalNode_stays`, `callOn_stays`: one node, given its operands.
* `Newborn`, `Sane.push`: closures.
-/

namespace Resumable

open Resumable.Expr

/-- Code outside the machine reads variables of its own. -/
theorem Obeys.plain_of_asVar? {m : Watch} {hosts : Bool} {e : Expr} (h : Obeys m (.outside hosts) e)
    {v : Var} (hv : e.asVar? = some v) : m.Plain v.id := by
  cases h with
  | absent => cases hv
  | node _ hd _ =>
    unfold asVar? at hv
    split at hv
    · rename_i heq
      cases heq
      cases hv
      exact hd
    · cases hv
  | host _ _ _ => cases hv

/-! ### Variables and the trail -/

section
variable {m : Watch} {w : World} {E : World → Prop} {hosts : Bool} {env : Env}

theorem getElem?_push_of_some {α : Type} {xs : Array α} {a : Nat} {x y : α} (h : xs[a]? = some x) :
    (xs.push y)[a]? = some x := by
  have hlt := (Array.getElem?_eq_some_iff.mp h).1
  rw [Array.getElem?_push, if_neg (Nat.ne_of_lt hlt)]
  exact h

/-- A new closure of code outside the machine, or a new instance. -/
theorem Respects.push (hs : Sane m w) {s : Slot} (h : SlotGood m s) :
    Respects m w { w with slots := w.slots.push s } where
  closures := rfl
  slots a s' ha := ⟨s', getElem?_push_of_some ha, rfl, fun _ => rfl⟩
  good a s' ha := by
    dsimp only at ha
    rw [Array.getElem?_push] at ha
    split at ha
    · cases ha
      exact h
    · exact hs.slots a s' ha
  trail := ⟨[], rfl, fun f hf => by cases hf⟩

/-- A store leaves the same mark in a slot and on the trail. -/
theorem SlotGood.stored {s : Slot} (h : SlotGood m s) (w : World) (a : Nat) (l : List Footprint) :
    GoodStep m w l (.stored s.var a s.value) :=
  ⟨h.state, h.resume, h.parked⟩

theorem getElem?_set_self {α : Type} {xs : Array α} {a : Nat} {x y : α} (h : xs[a]? = some x) :
    (xs.setIfInBounds a y)[a]? = some y := by
  have hlt := (Array.getElem?_eq_some_iff.mp h).1
  simp [hlt]

theorem getElem?_set_ne {α : Type} {xs : Array α} {a b : Nat} {y : α} (h : b ≠ a) :
    (xs.setIfInBounds a y)[b]? = xs[b]? := by
  rw [Array.getElem?_setIfInBounds, if_neg (Ne.symm h)]

/-- A store into a variable that is not the machine's. -/
theorem Respects.fill (hs : Sane m w) {a : Nat} {s s' : Slot} (ha : w.slots[a]? = some s)
    (hvar : s'.var = s.var) (hown : ¬ m.Owns s.var) (h : SlotGood m s') :
    Respects m w { w with slots := w.slots.setIfInBounds a s'
                          trail := .stored s'.var a s'.value :: w.trail } where
  closures := rfl
  slots b t hb := by
    by_cases hba : b = a
    · subst hba
      rw [ha] at hb
      cases hb
      exact ⟨s', getElem?_set_self ha, hvar, fun h => absurd h hown⟩
    · exact ⟨t, by rw [getElem?_set_ne hba]; exact hb, rfl, fun _ => rfl⟩
  good b t hb := by
    by_cases hba : b = a
    · subst hba
      rw [getElem?_set_self ha] at hb
      cases hb
      exact h
    · rw [getElem?_set_ne hba] at hb
      exact hs.slots b t hb
  trail := ⟨[.stored s'.var a s'.value], rfl, fun f hf => by
    cases List.mem_singleton.mp hf
    refine ⟨fun _ _ _ => rfl, fun b hb => ?_, h.stored w a, fun b x heq => ?_⟩
    · cases hb
      exact ⟨s', getElem?_set_self ha, hvar ▸ hown⟩
    · exact hown (.inl (hvar.symm.trans (Footprint.stored.inj heq).1))⟩

theorem Watch.Plain.slotGood {i : Nat} (h : m.Plain i) (x : Value) : SlotGood m ⟨i, x⟩ where
  state hi := absurd (Or.inl hi) h.foreign
  resume hi := absurd (Or.inr (Or.inl hi)) h.foreign
  parked hi := absurd hi h.loose

theorem Watch.Declarable.slotGood (hm : m.Fair) {v : Var} (h : m.Declarable v) :
    SlotGood m ⟨v.id, v.type.zero⟩ where
  state hi := absurd (Or.inl hi) h.foreign
  resume hi := absurd (Or.inr (Or.inl hi)) h.foreign
  parked hi := ⟨0, by rw [h.type hi]; rfl, hm.start⟩

/-- A footprint of another variable than the state slot. -/
theorem Watch.Plain.goodStep {i : Nat} (h : m.Plain i) {f : Footprint} {a : Nat} {x : Option Value}
    (hf : f = .switched i a x ∨ f = .missed i a ∨ f = .handed i a ∨ f = .rejected i a) (l : List Footprint) :
    GoodStep m w l f := by
  have hne : i ≠ m.state.id := fun hi => h.foreign (Or.inl hi)
  obtain rfl | rfl | rfl | rfl := hf
  · exact fun hi => absurd hi hne
  · exact hne
  · trivial
  · trivial

theorem Scoped.bind {v : Var} {a : Nat} {s : Slot} (h : Scoped m hosts env w)
    (ha : w.slots[a]? = some s) (hs : s.var = v.id) (hv : ¬ m.Owns v.id) :
    Scoped m hosts (env.bind v a) w where
  leads := h.leads.bind ha hs
  clear hh x hx := by
    have hxv : x ≠ v.id := fun hxv => hv (hxv ▸ hx)
    rw [Env.slot?_bind, if_neg hxv]
    exact h.clear hh x hx

theorem Scoped.weaken (h : Scoped m true env w) : Scoped m hosts env w := ⟨h.leads, fun _ => h.clear rfl⟩

end

namespace Run

variable {m : Watch} {E : World → Prop} {hosts : Bool} {env : Env}

theorem makeSlot_stays {v : Var} {x : Value} (h : SlotGood m ⟨v.id, x⟩) : Stays m E (makeSlot v x) :=
  .of_spares inferInstance fun _ hs _ => Respects.push hs h

/-- A slot that was made for a variable is in scope under its name. -/
theorem makeSlot_scoped {v : Var} {x : Value} {w w' : World} {a : Nat}
    (hrun : makeSlot v x w = .ok a w') (hv : ¬ m.Owns v.id) (h : Scoped m hosts env w') :
    Scoped m hosts (env.bind v a) w' := by
  cases hrun
  exact h.bind Array.getElem?_push_size rfl hv

theorem slotAt_run (a : Nat) (w : World) :
    slotAt a w = .ok (w.slots.getD a ⟨0, .null .any⟩) w := rfl

theorem fillSlot_run (a : Nat) (x : Value) (w : World) :
    fillSlot a x w = .ok () { w with
      slots := w.slots.setIfInBounds a { w.slots.getD a ⟨0, .null .any⟩ with value := x }
      trail := .stored (w.slots.getD a ⟨0, .null .any⟩).var a x :: w.trail } := rfl

theorem fillSlot_left {a : Nat} {x : Value} {w : World} {s : Slot} (h : w.slots[a]? = some s) :
    (fillSlot a x).left w = { w with slots := w.slots.setIfInBounds a { s with value := x }
                                     trail := .stored s.var a x :: w.trail } := by
  rw [left_ok (fillSlot_run a x w), Array.getD_eq_getD_getElem?, h]
  rfl

theorem fillSlot_stays {a y : Nat} {x : Value} (hy : m.Plain y) (ha : env.slot? y = some a) :
    Stays m (Scoped m hosts env) (fillSlot a x) := by
  refine .of_spares inferInstance fun w hs hE => ?_
  obtain ⟨s, hslot, hvar⟩ := hE.leads y a ha
  rw [fillSlot_left hslot]
  exact Respects.fill hs hslot rfl (hvar ▸ hy.foreign)
    (hvar ▸ hy.slotGood x)

/-- Noting what happened to a plain variable keeps the scope. -/
theorem record_stays {f : Footprint} {a y : Nat} {x : Option Value} (hy : m.Plain y)
    (ha : env.slot? y = some a)
    (hf : f = .switched y a x ∨ f = .missed y a ∨ f = .handed y a ∨ f = .rejected y a) :
    Stays m (Scoped m hosts env) (record f) := by
  refine .of_spares inferInstance fun w hs hE => ?_
  obtain ⟨s, hslot, hvar⟩ := hE.leads y a ha
  refine Respects.add hs ?_ (fun b hb => ?_) (fun l => hy.goodStep hf l) fun b v heq => ?_
  · obtain rfl | rfl | rfl | rfl := hf <;> exact fun _ _ _ => rfl
  · have hba : b = a := by
      obtain rfl | rfl | rfl | rfl := hf <;> exact (Option.some.inj hb).symm
    exact ⟨s, hba ▸ hslot, hvar ▸ hy.foreign⟩
  · obtain rfl | rfl | rfl | rfl := hf <;> cases heq

/-- What happens to the variable that a tree outside the machine reads is noted. -/
theorem recordOn_stays {e : Expr} (he : Obeys m (.outside hosts) e) (event : Nat → Nat → Footprint)
    {x : Option Value} (hf : ∀ y a, event y a = .switched y a x ∨ event y a = .missed y a ∨
      event y a = .handed y a ∨ event y a = .rejected y a) :
    Stays m (Scoped m hosts env) (recordOn e env event) := by
  unfold recordOn
  split
  · rename_i v hv
    have hp := he.plain_of_asVar? hv
    split
    · rename_i a ha
      exact record_stays hp ha (hf v.id a)
    · infer_instance
  · infer_instance

end Run

/-! ### Trees -/

/-- The rights of code outside the machine. -/
def Watch.rights (m : Watch) (hosts : Bool) : Rights where
  scope := Scoped m hosts
  tree := Obeys m (.outside hosts)
  declares v := m.Fair ∧ m.Declarable v
  binds v := m.Plain v.id
  stores := m.Plain
  turns y _ := m.Plain y

instance (m : Watch) (hosts : Bool) (env : Env) : Lasts ((m.rights hosts).scope env) :=
  inferInstanceAs (Lasts (Scoped m hosts env))

/-- Evaluating trees outside the machine, calls and callbacks leave the machine alone. -/
class Spared (m : Watch) (c : Calls) : Prop where
  stay : CallsStay m c
  later : CallsRoam Later c
  eval : ∀ {hosts : Bool} {e : Expr}, Obeys m (.outside hosts) e → ∀ env,
    Stays m (Scoped m hosts env) (c.eval e env)

section
variable {m : Watch} {w : World} {hosts : Bool} {c : Resumable.Calls}

theorem Obeys.operand {i r : Nat} {t : Ty} {d : Data Expr} {x : Expr}
    (h : Obeys m (.outside hosts) (.node i r t d)) (hd : d.kind ≠ .lambda) (hx : x ∈ operands d) :
    Obeys m (.outside hosts) x := by
  cases h with
  | node _ _ hc => exact hc x hx
  | host _ _ _ => exact absurd rfl hd

/-- Code outside the machine keeps to what leaves the machine alone. -/
theorem Watch.terrain (m : Watch) (hosts : Bool) : Terrain (Resumable.Kept m) (m.rights hosts) where
  declares hv := Run.makeSlot_stays (hv.2.slotGood hv.1)
  binds hv := Run.makeSlot_stays (hv.slotGood _)
  enters hv hrun _ _ h := Run.makeSlot_scoped hrun (hv.elim (·.2.foreign) (·.foreign)) h
  caught := ⟨fun h => ⟨h.leads, h.clear⟩, fun h => ⟨h.leads, h.clear⟩⟩
  fills := Run.fillSlot_stays
  turns hy ha := ⟨Run.record_stays hy ha (.inl rfl), Run.record_stays (x := none) hy ha (.inr (.inl rfl))⟩
  hands _ he := ⟨Run.recordOn_stays (x := none) he _ fun _ _ => .inr (.inr (.inl rfl)),
    Run.recordOn_stays (x := none) he _ fun _ _ => .inr (.inr (.inr rfl))⟩
  field h := h.operand (by simp [Data.kind]) (List.mem_singleton_self _)
  fielded ho hv := .inl (ho.plain_of_asVar? hv)

instance [hc : Spared m c] : Treads (Kept m) (m.rights hosts) c where
  later := hc.later
  calls _ := have := hc.stay; inferInstance
  eval he env := hc.eval he env
  reads he hv _ _ _ := he.plain_of_asVar? hv

end

/-! ### Closures -/

section
variable {m : Watch} {w : World} {hosts : Bool}

/-- No tree outside the machine is the function that runs its dispatch loop. -/
theorem Obeys.not_running {e : Expr} (h : Obeys m (.outside hosts) e) : ¬ Obeys m .running e := by
  intro hrun
  cases hrun with
  | running hguarded =>
    cases hguarded with
    | guarded hturning =>
      cases hturning with
      | turning _ hchoosing =>
        cases hchoosing with
        | choosing =>
          cases h with
          | node _ _ hc =>
            -- the switch is over the state slot, which code outside does not read
            have hbody := hc _ (List.mem_singleton_self _)
            have hloop := hbody.operand (by simp [Data.kind]) List.mem_cons_self
            have hswitch := hloop.operand (by simp [Data.kind]) List.mem_cons_self
            have hvar := hswitch.operand (by simp [Data.kind]) List.mem_cons_self
            exact (hvar.plain_of_asVar? rfl).foreign (Or.inl rfl)
          | host _ _ hbody => cases hbody

/-- What makes a new closure of the function that runs the dispatch loop an instance of its own. -/
structure Newborn (m : Watch) (w : World) (env : Env) : Prop where
  alone : ∀ k κ x a, Instance m w k κ → m.Owns x → κ.env.slot? x = some a → env.slot? x ≠ some a
  ready : Ready m w env
  echo : ∀ b, env.slot? m.resume.id = some b →
    ∃ s, w.slots[b]? = some s ∧ s.value = content b w.trail
  quiet : ∀ x a f, m.Owns x → env.slot? x = some a → f ∈ w.trail → f.slot? = some a →
    ∃ v, f = .stored x a v

/-- Nobody was asked to call a function that is only now made. -/
theorem Newborn.handings_eq {env : Env} (h : Newborn m w env) :
    handings w.trail m.continuation.id (env.slot? m.continuation.id) = 0 := by
  cases ha : env.slot? m.continuation.id with
  | none => rfl
  | some a =>
    refine List.countP_eq_zero.mpr fun f hf hhanded => ?_
    cases f with
    | handed v b =>
      obtain ⟨-, rfl⟩ : v = m.continuation.id ∧ b = a := by simpa [Footprint.isHanded] using hhanded
      obtain ⟨v, hv⟩ := h.quiet _ _ _ Watch.owns_continuation ha hf rfl
      cases hv
    | _ => cases hhanded

theorem getElem?_push_cases {α : Type} {xs : Array α} {k : Nat} {x y : α}
    (h : (xs.push y)[k]? = some x) : xs[k]? = some x ∨ k = xs.size ∧ x = y := by
  rw [Array.getElem?_push] at h
  split at h
  · cases h
    exact .inr ⟨‹_›, rfl⟩
  · exact .inl h

/-- A new closure keeps a world sane: it belongs to other code, or it starts a new instance. -/
theorem Sane.push (hs : Sane m w) {κ : Closure} (hl : κ.env.Leads w) (hk : ClosureGood m κ)
    (hnew : Obeys m .running κ.lambda → Newborn m w κ.env) :
    Sane m { w with closures := w.closures.push κ } := by
  -- an instance is an old one, or the closure that was just made
  have hcases : ∀ {k ι}, Instance m { w with closures := w.closures.push κ } k ι →
      Instance m w k ι ∨ k = w.closures.size ∧ ι = κ ∧ Newborn m w κ.env := by
    intro k ι hi
    obtain hold | ⟨rfl, rfl⟩ := getElem?_push_cases hi.closure
    · exact .inl ⟨hold, hi.running⟩
    · exact .inr ⟨rfl, rfl, hnew hi.running⟩
  refine
    { leads := ?_, kinds := ?_, slots := hs.slots, apart := ?_, waiting := ?_, owed := ?_, echo := ?_,
      bounds := hs.bounds, trail := ?_, ended := hs.ended }
  · intro k ι hι
    obtain hold | ⟨-, rfl⟩ := getElem?_push_cases hι
    · exact hs.leads k ι hold
    · exact hl
  · intro k ι hι
    obtain hold | ⟨-, rfl⟩ := getElem?_push_cases hι
    · exact hs.kinds k ι hold
    · exact hk
  · intro j k ι ι' x a hj hk hx hja hka
    obtain hold | ⟨rfl, rfl, hborn⟩ := hcases hj <;>
      obtain hold' | ⟨rfl, rfl, hborn'⟩ := hcases hk
    · exact hs.apart j k ι ι' x a hold hold' hx hja hka
    · exact absurd hka (hborn'.alone j ι x a hold hx hja)
    · exact absurd hja (hborn.alone k ι' x a hold' hx hka)
    · rfl
  · intro k ι hi hw
    obtain hi | ⟨rfl, rfl, hborn⟩ := hcases hi
    · exact ⟨(hs.waiting k ι hi hw).state, (hs.waiting k ι hi hw).resume⟩
    · exact ⟨hborn.ready.state, hborn.ready.resume⟩
  · intro k ι hi
    obtain hi | ⟨rfl, rfl, hborn⟩ := hcases hi
    · exact hs.owed k ι hi
    · exact Nat.le_trans (Nat.le_of_eq hborn.handings_eq) (Nat.zero_le _)
  · intro k ι b hi hb
    obtain hi | ⟨rfl, rfl, hborn⟩ := hcases hi
    · exact hs.echo k ι b hi hb
    · exact hborn.echo b hb
  · intro l f l' htrail
    have hgood := hs.trail l f l' htrail
    cases f with
    | switched v a x =>
      intro hv
      subst hv
      obtain ⟨n, hx, hn, hover, hclean⟩ := hgood rfl
      refine ⟨n, hx, hn, hover, fun hc b hp => ?_⟩
      obtain ⟨k, ι, hi, ha, hb⟩ := hp
      obtain hi | ⟨-, rfl, hborn⟩ := hcases hi
      · exact hclean hc b ⟨k, ι, hi, ha, hb⟩
      · have hmem : Footprint.switched m.state.id a x ∈ w.trail := by
          rw [show w.trail = _ from htrail]
          exact List.mem_append_right l List.mem_cons_self
        obtain ⟨v, hv⟩ := hborn.quiet _ a _ Watch.owns_state ha hmem rfl
        cases hv
    | _ => exact hgood

/-- A new closure that runs no dispatch loop leaves every instance as it is. -/
theorem Proceeds.push {k? : Option Nat} {κ : Closure} (hk : ¬ Obeys m .running κ.lambda) :
    Proceeds m k? w { w with closures := w.closures.push κ } where
  later := Run.later_push w κ
  quiet f l hl hf := by
    rw [List.self_eq_append_left.mp hl] at hf
    cases hf
  slots a s h := ⟨s, h, rfl⟩
  shielded a _ := rfl
  fresh k ι x a hi hn _ _ := by
    obtain hold | ⟨-, rfl⟩ := getElem?_push_cases hi.closure
    · rw [hn] at hold
      cases hold
    · exact absurd hi.running hk

end

namespace Run

section
variable {m : Watch} {c : Calls} {hosts : Bool} {e : Expr} {env : Env}

attribute [local instance] Spared.stay Spared.later

/-- Making a closure of other code keeps the scope. -/
theorem makeClosure_stays (he : Obeys m (.outside hosts) e) (name : String) (kind : LambdaKind)
    (env : Env) :
    Stays m (Scoped m hosts env) (makeClosure e name kind env) := by
  have hpush : Stays m (Scoped m hosts env) (modifyGet fun w =>
      (Value.func e.type (.closure w.closures.size),
        { w with closures := w.closures.push ⟨e, env⟩ }) : Run Value) := by
    refine ⟨fun w => ⟨later_push w _, fun _ hs hE => ⟨?_, Proceeds.push he.not_running⟩⟩⟩
    exact hs.push hE.leads (.outside hosts he hE.clear) fun h => absurd h he.not_running
  unfold makeClosure
  repeat' first | infer_instance | split

/-- A node outside the machine leaves it alone when its operands do. -/
theorem evalNode_stays [hc : Spared m c] (hm : m.Fair) (he : Obeys m (.outside hosts) e) :
    Stays m (Scoped m hosts env) (evalNode c e env) := by
  have hself := he
  cases he with
  | absent =>
    unfold evalNode
    infer_instance
  | host _ hp hbody =>
    unfold evalNode
    have := fun name kind => makeClosure_stays hself name kind env
    infer_instance
  | @node _ i r t d _ hd hops =>
    refine evalNode_treads (m.terrain hosts) ?_ hops fun _ name kind => makeClosure_stays hself name kind env
    cases d with
    | block vs xs => exact fun v hv => ⟨hm, hd.1 v hv⟩
    | assign op target value => exact hd
    | protect body hs fin fault => exact hd
    | _ => trivial

/-- So does a method call that stands outside the machine, from where what it is called on is looked up. -/
theorem callOn_stays [hc : Spared m c] {i r : Nat} {t : Ty} {receiver : Expr} {name : String} {args : List Expr}
    (he : Obeys m (.outside hosts) (.node i r t (.methodCall receiver name args))) :
    Stays m (Scoped m hosts env) (callOn c e receiver name args env) :=
  have hop := fun x => he.operand (by simp [Data.kind]) (x := x)
  callOn_treads (m.terrain hosts) (hop receiver List.mem_cons_self) fun a ha => hop a (List.mem_cons_of_mem _ ha)

theorem evalBool_stays [Spared m c] (he : Obeys m (.outside hosts) e) (env : Env) :
    Stays m (Scoped m hosts env) (evalBool c e env) :=
  evalBool_treads (K := Kept m) (T := m.rights hosts) he env

theorem hits_stays [Spared m c] {test : Expr} (ht : Obeys m (.outside hosts) test) (v : Option Value)
    (comparer : Option Native) : Stays m (Scoped m hosts env) (hits c e v comparer env test) :=
  hits_treads (K := Kept m) (T := m.rights hosts) ht v comparer

/-- The body of a lambda is all that a call of it evaluates. -/
theorem enter_stays [Spared m c] {params : List Var} {body : Expr} (hp : ∀ v ∈ params, m.Plain v.id)
    (hb : ∀ env, Stays m (Scoped m hosts env) (c.eval body env)) (args : List Value) (res : Ty)
    (env : Env) : Stays m (Scoped m hosts env) (enter c params args body res env) :=
  enter_treads (m.terrain hosts) hp hb args res env

end

end Run

end Resumable
