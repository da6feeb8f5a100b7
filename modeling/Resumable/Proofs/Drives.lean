import Resumable.Proofs.Jumpless
import Resumable.Proofs.Outside

/-!
# `Proofs.Drives`: running one instance

While an instance of a machine runs, its slots are its own to change, and every other instance that does
not wait is left alone. `Drives` says so of a computation that is part of the instance, along with what
holds before and after it.

**Contents**
* `Drives`: a computation of the instance, with a rule for each way of putting computations together.
* `Idle`, `Placed`, `Aimed`, `Done`, `Going`: the states that an instance passes through.
* `ScopeOf`: the scopes inside the instance.
* `Coherent.fill`: a store into a slot of the instance.
-/

namespace Resumable

open Resumable.Expr Run

/-- From a sane world with `P`, the computation returns with `Q` or stops with `J`; it keeps the world
sane and leaves every other instance alone that does not wait. -/
structure Drives (m : Watch) (k : Nat) (P : World → Prop) (x : Run α) (Q : α → World → Prop)
    (J : Stop → World → Prop) : Prop where
  later : Runs Later x
  ok : ∀ {w a w'}, Sane m w → P w → x w = .ok a w' → m.Lawful w' →
    Sane m w' ∧ Proceeds m (some k) w w' ∧ Q a w'
  stop : ∀ {w s w'}, Sane m w → P w → x w = .error s w' → m.Lawful w' →
    Sane m w' ∧ Proceeds m (some k) w w' ∧ J s w'

/-- A property of worlds that the instance itself does not change. -/
class Steady (m : Watch) (k : Nat) (F : World → Prop) : Prop where
  follows : ∀ {w w'}, Proceeds m (some k) w w' → F w → F w'

namespace Drives

variable {m : Watch} {k : Nat} {P P' F : World → Prop} {x : Run α} {Q Q' : α → World → Prop}
  {J J' : Stop → World → Prop}

theorem mono (h : Drives m k P x Q J) (hP : ∀ w, Sane m w → P' w → P w)
    (hQ : ∀ a w, Sane m w → Q a w → Q' a w) (hJ : ∀ s w, Sane m w → J s w → J' s w) :
    Drives m k P' x Q' J' where
  later := h.later
  ok hs hw hrun hl := by
    obtain ⟨hs', hf, hq⟩ := h.ok hs (hP _ hs hw) hrun hl
    exact ⟨hs', hf, hQ _ _ hs' hq⟩
  stop hs hw hrun hl := by
    obtain ⟨hs', hf, hj⟩ := h.stop hs (hP _ hs hw) hrun hl
    exact ⟨hs', hf, hJ _ _ hs' hj⟩

theorem before (h : Drives m k P x Q J) (hP : ∀ w, Sane m w → P' w → P w) : Drives m k P' x Q J :=
  h.mono hP (fun _ _ _ h => h) fun _ _ _ h => h

theorem pure {a : α} (h : ∀ w, Sane m w → P w → Q a w) : Drives m k P (Pure.pure a) Q J where
  later := inferInstance
  ok hs hw hrun _ := by
    cases hrun
    exact ⟨hs, .refl _, h _ hs hw⟩
  stop _ _ hrun := by cases hrun

theorem throw {s : Stop} (h : ∀ w, Sane m w → P w → J s w) :
    Drives m k P (throw s : Run α) Q J where
  later := inferInstance
  ok _ _ hrun := by cases hrun
  stop hs hw hrun _ := by
    cases hrun
    exact ⟨hs, .refl _, h _ hs hw⟩

/-- One computation after the other. -/
theorem bind {f : α → Run β} {R : β → World → Prop} (hx : Drives m k P x Q J)
    (hf : ∀ a, Drives m k (Q a) (f a) R J) : Drives m k P (x >>= f) R J where
  later := by
    have := hx.later
    have := fun a => (hf a).later
    infer_instance
  ok {w b w''} hs hw hrun hl := by
    change EStateM.bind x f w = _ at hrun
    unfold EStateM.bind at hrun
    split at hrun
    · rename_i a w' h
      have hlater := (hf a).later.left w'
      rw [left_ok hrun] at hlater
      obtain ⟨hs', hf', hq⟩ := hx.ok hs hw h (hl.earlier hlater)
      obtain ⟨hs'', hf'', hr⟩ := (hf a).ok hs' hq hrun hl
      exact ⟨hs'', hf'.trans hs hf'', hr⟩
    · cases hrun
  stop {w s w''} hs hw hrun hl := by
    change EStateM.bind x f w = _ at hrun
    unfold EStateM.bind at hrun
    split at hrun
    · rename_i a w' h
      have hlater := (hf a).later.left w'
      rw [left_error hrun] at hlater
      obtain ⟨hs', hf', hq⟩ := hx.ok hs hw h (hl.earlier hlater)
      obtain ⟨hs'', hf'', hr⟩ := (hf a).stop hs' hq hrun hl
      exact ⟨hs'', hf'.trans hs hf'', hr⟩
    · rename_i s' w' h
      cases hrun
      exact hx.stop hs hw h hl

/-- What holds after an attempt, for either outcome. -/
def After (Q : α → World → Prop) (J : Stop → World → Prop) (r : Except Stop α) (w : World) : Prop :=
  match r with
  | .ok a => Q a w
  | .error s => J s w

/-- An attempt ends in either way. -/
theorem attempt (h : Drives m k P x Q J) : Drives m k P (attempt x) (After Q J) J' where
  later := by
    have := h.later
    infer_instance
  ok {w r w'} hs hw hrun hl := by
    unfold Run.attempt at hrun
    split at hrun
    · rename_i heq
      cases hrun
      exact h.ok hs hw heq hl
    · rename_i heq
      cases hrun
      exact h.stop hs hw heq hl
  stop {w s w'} hs hw hrun hl := by
    unfold Run.attempt at hrun
    split at hrun <;> cases hrun

/-- What the instance does not change holds before and after. -/
theorem frame [hF : Steady m k F] (h : Drives m k P x Q J) :
    Drives m k (fun w => F w ∧ P w) x (fun a w => F w ∧ Q a w) (fun s w => F w ∧ J s w) where
  later := h.later
  ok hs hw hrun hl := by
    obtain ⟨hs', hf, hq⟩ := h.ok hs hw.2 hrun hl
    exact ⟨hs', hf, hF.follows hf hw.1, hq⟩
  stop hs hw hrun hl := by
    obtain ⟨hs', hf, hj⟩ := h.stop hs hw.2 hrun hl
    exact ⟨hs', hf, hF.follows hf hw.1, hj⟩

/-- The same, where it holds beforehand anyway. -/
theorem keep [hF : Steady m k F] (h : Drives m k (fun w => F w ∧ P w) x Q J) :
    Drives m k (fun w => F w ∧ P w) x (fun a w => F w ∧ Q a w) (fun s w => F w ∧ J s w) :=
  h.frame.before fun _ _ hw => ⟨hw.1, hw⟩

/-- What is known of every run that returns may be used afterwards. -/
theorem returning {Y : α → World → Prop} (h : Drives m k P x Q J)
    (hy : ∀ w a w', P w → x w = .ok a w' → Y a w') : Drives m k P x (fun a w => Y a w ∧ Q a w) J where
  later := h.later
  ok {w a w'} hs hw hrun hl := by
    obtain ⟨hs', hf, hq⟩ := h.ok hs hw hrun hl
    exact ⟨hs', hf, hy w a w' hw hrun, hq⟩
  stop := h.stop

/-- What every result has in common may be used afterwards. -/
theorem yields {Y : α → Prop} (h : Drives m k P x Q J) (hy : Run.Yields x Y) :
    Drives m k P x (fun a w => Y a ∧ Q a w) J := h.returning fun w a w' _ => hy w a w'

/-- No jump leaves the computation. -/
theorem jumpless (h : Drives m k P x Q J) [hx : Jumpless x] :
    Drives m k P x Q fun s w => (∀ l v, s ≠ .jump l v) ∧ J s w where
  later := h.later
  ok := h.ok
  stop {w s w'} hs hw hrun hl := by
    obtain ⟨hs', hf, hj⟩ := h.stop hs hw hrun hl
    refine ⟨hs', hf, fun l v hjump => ?_, hj⟩
    exact hx.none w l v w' (hjump ▸ hrun)

/-- The case that a world is in may decide how to go on. -/
theorem of_cases (l : Runs Later x)
    (h : ∀ w, Sane m w → P w → ∃ P', Drives m k P' x Q J ∧ P' w) : Drives m k P x Q J where
  later := l
  ok hs hw := by
    obtain ⟨P', hx, hP'⟩ := h _ hs hw
    exact hx.ok hs hP'
  stop hs hw := by
    obtain ⟨P', hx, hP'⟩ := h _ hs hw
    exact hx.stop hs hP'

/-- Code that leaves the machine alone may run in between. -/
theorem of_stays {E : World → Prop} [hE : Lasting m E] (h : Stays m E x) :
    Drives m k E x (fun _ => E) (fun _ => E) where
  later := ⟨fun w => (h.left w).later⟩
  ok {w a w'} hs hw hrun hl := by
    have hk := h.left w
    rw [left_ok hrun] at hk
    obtain ⟨hs', hf⟩ := hk.keeps hl hs hw
    exact ⟨hs', hf.weaken, hE.follows hs hw hf⟩
  stop {w s w'} hs hw hrun hl := by
    have hk := h.left w
    rw [left_error hrun] at hk
    obtain ⟨hs', hf⟩ := hk.keeps hl hs hw
    exact ⟨hs', hf.weaken, hE.follows hs hw hf⟩

/-- Without turns, nothing has to hold any more. -/
theorem giveUp (hJ : ∀ w, J .exhausted w) : Drives m k P (Run.giveUp : Run α) Q J where
  later := inferInstance
  ok _ _ hrun := by cases hrun
  stop {w s w'} hs _ hrun hl := by
    obtain ⟨hs', hf, -⟩ := (of_stays (E := fun _ => True) (x := Run.giveUp (α := α)) inferInstance).stop hs trivial hrun hl
    cases hrun
    exact ⟨hs', hf, hJ _⟩

/-- A loop keeps what each of its turns keeps. -/
theorem iterate {σ : Type} {step : σ → Run (σ ⊕ α)} {I : σ → World → Prop}
    (hstep : ∀ s, Drives m k (I s) (step s) (fun r w => r.elim (I · w) (Q · w)) J)
    (hJ : ∀ w, J .exhausted w) (n : Nat) (s : σ) :
    Drives m k (I s) (Run.iterate step n s) Q J := by
  induction n generalizing s with
  | zero => exact .giveUp hJ
  | succ n ih =>
    rw [Run.iterate_succ]
    refine (hstep s).bind fun r => ?_
    cases r with
    | inl s' => exact ih s'
    | inr a => exact .pure fun _ _ h => h

/-- A computation may be followed step by step, up to where another one goes on. -/
theorem of_steps (l : Runs Later x)
    (h : ∀ w, Sane m w → P w → ∃ (P' : World → Prop) (y : Run α) (v : World), x w = y v ∧ Sane m v ∧
      Proceeds m (some k) w v ∧ P' v ∧ Drives m k P' y Q J) : Drives m k P x Q J where
  later := l
  ok {w a w'} hs hw hrun hl := by
    obtain ⟨P', y, v, heq, hv, hf, hP', hy⟩ := h w hs hw
    obtain ⟨hs', hf', hq⟩ := hy.ok hv hP' (heq ▸ hrun) hl
    exact ⟨hs', hf.trans hs hf', hq⟩
  stop {w s w'} hs hw hrun hl := by
    obtain ⟨P', y, v, heq, hv, hf, hP', hy⟩ := h w hs hw
    obtain ⟨hs', hf', hj⟩ := hy.stop hv hP' (heq ▸ hrun) hl
    exact ⟨hs', hf.trans hs hf', hj⟩

/-- A computation whose outcome is known. -/
theorem of_outcome (l : Runs Later x)
    (h : ∀ w, Sane m w → P w →
      (∃ a w', x w = .ok a w' ∧ Sane m w' ∧ Proceeds m (some k) w w' ∧ Q a w') ∨
        ∃ s w', x w = .error s w' ∧ Sane m w' ∧ Proceeds m (some k) w w' ∧ J s w') :
    Drives m k P x Q J where
  later := l
  ok {w a w'} hs hw hrun _ := by
    obtain ⟨b, w'', heq, hres⟩ | ⟨s, w'', heq, -⟩ := h w hs hw
    · cases heq.symm.trans hrun
      exact hres
    · cases heq.symm.trans hrun
  stop {w s w'} hs hw hrun _ := by
    obtain ⟨b, w'', heq, -⟩ | ⟨s', w'', heq, hres⟩ := h w hs hw
    · cases heq.symm.trans hrun
    · cases heq.symm.trans hrun
      exact hres

/-- A fact that does not depend on the world may be taken out of what holds before. -/
theorem of_fact {φ : Prop} (l : Runs Later x) (h : φ → Drives m k P x Q J) :
    Drives m k (fun w => φ ∧ P w) x Q J where
  later := l
  ok hs hw := (h hw.1).ok hs hw.2
  stop hs hw := (h hw.1).stop hs hw.2

end Drives

/-! ### The states of an instance -/

section
variable {m : Watch} {k : Nat} {κ : Closure} {env : Env} {w w' : World}

/-- The instance runs, and no other call of it is owed. -/
structure Idle (m : Watch) (k : Nat) (κ : Closure) (w : World) : Prop where
  inst : Instance m w k κ
  rests : ¬ Waiting m w k

/-- The state slot holds a state, and the machine is not over. -/
def Placed (m : Watch) (κ : Closure) (w : World) : Prop :=
  ∀ a, κ.env.slot? m.state.id = some a →
    w.Holds a m.Known ∧ Footprint.stored m.state.id a (.int .int (-1)) ∉ w.trail

/-- The resume slot holds a state. -/
def Aimed (m : Watch) (κ : Closure) (w : World) : Prop :=
  ∀ b, κ.env.slot? m.resume.id = some b → w.Holds b m.good

/-- The instance has completed its cell just now. -/
def Done (m : Watch) (κ : Closure) (w : World) : Prop :=
  ∀ a, κ.env.slot? m.state.id = some a → Completes m.state m.cell a w.trail

/-- The instance can be dispatched; in an `armed` list, its resume slot holds a state. -/
structure Going (m : Watch) (k : Nat) (κ : Closure) (armed : Bool) (w : World) : Prop where
  idle : Idle m k κ w
  ready : Ready m w κ.env
  aimed : armed = true → Aimed m κ w

/-- A scope inside the instance. -/
structure ScopeOf (m : Watch) (κ : Closure) (env : Env) (w : World) : Prop where
  leads : env.Leads w
  own : ∀ x, m.Owns x → env.slot? x = κ.env.slot? x

theorem ScopeOf.scoped (h : ScopeOf m κ env w) : Scoped m false env w := ⟨h.leads, fun h => by cases h⟩

instance : Steady m k (ScopeOf m κ env) := ⟨fun hf h => ⟨h.leads.follows hf, h.own⟩⟩

instance : Lasting m (ScopeOf m κ env) := ⟨fun _ h hf => ⟨h.leads.follows hf, h.own⟩⟩

instance : Lasting m (Idle m k κ) :=
  ⟨fun hs h hf => ⟨h.inst.later hf.later, hf.not_waiting hs h.inst h.rests (by simp)⟩⟩

/-- The slots of an instance that does not wait stay as they are. -/
theorem Idle.slot_eq (h : Idle m k κ w) (hs : Sane m w) (hf : Proceeds m none w w') {x a : Nat}
    (hx : m.Owns x) (ha : κ.env.slot? x = some a) : w'.slots[a]? = w.slots[a]? :=
  hf.shielded a (hs.shielded h.inst h.rests (by simp) hx ha)

theorem World.Holds.congr {a : Nat} {P : Int → Prop} (h : w.Holds a P)
    (heq : w'.slots[a]? = w.slots[a]?) : w'.Holds a P := by
  obtain ⟨s, n, hs, hv, hn⟩ := h
  exact ⟨s, n, heq.trans hs, hv, hn⟩

theorem World.Holds.mono {a : Nat} {P Q : Int → Prop} (h : w.Holds a P) (hPQ : ∀ n, P n → Q n) :
    w.Holds a Q := by
  obtain ⟨s, n, hs, hv, hn⟩ := h
  exact ⟨s, n, hs, hv, hPQ n hn⟩

/-- A slot of the machine stays in place while other code runs. -/
theorem Placed.follows (h : Placed m κ w) (hi : Idle m k κ w) (hs : Sane m w)
    (hf : Proceeds m none w w') : Placed m κ w' := by
  intro a ha
  obtain ⟨hold, hover⟩ := h a ha
  refine ⟨hold.congr (hi.slot_eq hs hf Watch.owns_state ha), fun hmem => ?_⟩
  obtain ⟨l, hl⟩ := hf.later.trail
  rw [← hl, List.mem_append] at hmem
  obtain hmem | hmem := hmem
  · -- a new footprint would be about a shielded slot
    have hshield : Shielded m none w a := hs.shielded hi.inst hi.rests (by simp) Watch.owns_state ha
    obtain ⟨s, hslot, -⟩ := hshield.owned
    have hlt := (Array.getElem?_eq_some_iff.mp hslot).1
    exact (hf.quiet _ l hl.symm hmem).1 a rfl hlt hshield
  · exact hover hmem

theorem Aimed.follows (h : Aimed m κ w) (hi : Idle m k κ w) (hs : Sane m w)
    (hf : Proceeds m none w w') : Aimed m κ w' :=
  fun b hb => (h b hb).congr (hi.slot_eq hs hf Watch.owns_resume hb)

instance : Lasting m fun w => Idle m k κ w ∧ Placed m κ w :=
  ⟨fun hs h hf => ⟨Lasting.follows hs h.1 hf, h.2.follows h.1 hs hf⟩⟩

instance {armed : Bool} : Lasting m (Going m k κ armed) where
  follows hs h hf :=
    { idle := Lasting.follows hs h.idle hf
      ready :=
        { state := Placed.follows h.ready.state h.idle hs hf
          resume := fun a b ha hb hclean =>
            (h.ready.resume a b ha hb
              (hclean.congr (h.idle.slot_eq hs hf Watch.owns_state ha).symm)).congr
                (h.idle.slot_eq hs hf Watch.owns_resume hb) }
      aimed := fun ha => (h.aimed ha).follows h.idle hs hf }

/-! ### Stores into the instance -/

/-- The world after a store. -/
def World.put (w : World) (a : Nat) (s : Slot) : World :=
  { w with slots := w.slots.setIfInBounds a s, trail := .stored s.var a s.value :: w.trail }

theorem World.put_self {a : Nat} {s s' : Slot} (h : w.slots[a]? = some s) :
    (w.put a s').slots[a]? = some s' := getElem?_set_self h

theorem World.put_ne {a b : Nat} {s' : Slot} (h : b ≠ a) : (w.put a s').slots[b]? = w.slots[b]? :=
  getElem?_set_ne h

theorem Later.put (w : World) (a : Nat) (s : Slot) : Later w (w.put a s) :=
  ⟨List.suffix_cons _ _, fun _ _ h => h⟩

/-- A store is no call and hands nothing on. -/
theorem entries_fill {a j : Nat} {s : Slot} : entries (w.put a s).trail j = entries w.trail j :=
  List.countP_cons_of_neg (by simp [Footprint.isEntered])

theorem handings_fill {a v : Nat} {b : Option Nat} {s : Slot} :
    handings (w.put a s).trail v b = handings w.trail v b := by
  cases b with
  | none => rfl
  | some b => exact List.countP_cons_of_neg (by simp [Footprint.isHanded])

theorem waits_fill {a j : Nat} {s : Slot} {env : Env} :
    Waits m (w.put a s).trail j env ↔ Waits m w.trail j env := by
  unfold Waits
  rw [entries_fill, handings_fill]

theorem content_fill_self {a : Nat} {s : Slot} : content a (w.put a s).trail = s.value := by
  unfold World.put
  simp [content]

theorem content_fill_ne {a b : Nat} {s : Slot} (h : b ≠ a) :
    content b (w.put a s).trail = content b w.trail := by
  unfold World.put
  simp [content, Ne.symm h]

theorem instance_fill {a j : Nat} {s : Slot} {ι : Closure} :
    Instance m (w.put a s) j ι ↔ Instance m w j ι :=
  ⟨fun h => ⟨h.closure, h.running⟩, fun h => ⟨h.closure, h.running⟩⟩

/-- The slots of one instance are no slots of another. -/
theorem Coherent.slot_ne (hs : Coherent m w) {j : Nat} {ι : Closure} (hk : Instance m w k κ)
    (hj : Instance m w j ι) (hne : j ≠ k) {x y a b : Nat} (hx : m.Owns x) (ha : κ.env.slot? x = some a)
    (hb : ι.env.slot? y = some b) : b ≠ a := by
  rintro rfl
  obtain ⟨s, hslot, hv⟩ := hs.leads k κ hk.closure x b ha
  obtain ⟨s', hslot', hv'⟩ := hs.leads j ι hj.closure y b hb
  rw [hslot] at hslot'
  cases hslot'
  obtain rfl : y = x := hv'.symm.trans hv
  exact hne (hs.apart j k ι κ y b hj hk hx hb ha)

/-- A slot may be changed that is no state slot or resume slot of an instance which waits. -/
theorem Coherent.fill_slot (hs : Coherent m w) {a : Nat} {s s' : Slot} (ha : w.slots[a]? = some s)
    (hvar : s'.var = s.var) (hv : SlotGood m s')
    (hfree : ∀ j ι x, Instance m w j ι → x = m.state.id ∨ x = m.resume.id → ι.env.slot? x = some a →
      ¬ Waiting m w j) : Coherent m (w.put a s') where
  leads j ι hj y b hb := by
    obtain ⟨t, hslot, hvar'⟩ := hs.leads j ι hj y b hb
    by_cases hba : b = a
    · subst hba
      rw [ha] at hslot
      cases hslot
      exact ⟨_, World.put_self ha, hvar.trans hvar'⟩
    · exact ⟨t, by rwa [World.put_ne hba], hvar'⟩
  kinds := hs.kinds
  slots b t hb := by
    by_cases hba : b = a
    · subst hba
      rw [World.put_self ha] at hb
      cases hb
      exact hv
    · rw [World.put_ne hba] at hb
      exact hs.slots b t hb
  apart j j' ι ι' y b hj hj' := hs.apart j j' ι ι' y b (instance_fill.mp hj) (instance_fill.mp hj')
  waiting j ι hj hwaits := by
    replace hj := instance_fill.mp hj
    replace hwaits := waits_fill.mp hwaits
    -- a waiting instance keeps its two slots: the one that is filled is none of them
    have hne : ∀ {x b}, x = m.state.id ∨ x = m.resume.id → ι.env.slot? x = some b → b ≠ a := by
      rintro x b hx hb rfl
      exact hfree j ι x hj hx hb ⟨ι, hj, hwaits⟩
    have hready := hs.waiting j ι hj hwaits
    refine ⟨fun b hb => ?_, fun b b' hb hb' hclean => ?_⟩
    · have hba := hne (.inl rfl) hb
      obtain ⟨hholds, hover⟩ := hready.state b hb
      refine ⟨hholds.congr (World.put_ne hba), fun hmem => ?_⟩
      obtain heq | hmem := List.mem_cons.mp hmem
      · exact hba (Footprint.stored.inj heq).2.1
      · exact hover hmem
    · have hba := hne (.inl rfl) hb
      have hba' := hne (.inr rfl) hb'
      exact (hready.resume b b' hb hb' (hclean.congr (World.put_ne hba).symm)).congr
        (World.put_ne hba')
  owed j ι hj := by
    rw [entries_fill, handings_fill]
    exact hs.owed j ι (instance_fill.mp hj)
  echo j ι b hj hb := by
    obtain ⟨t, hslot, hval⟩ := hs.echo j ι b (instance_fill.mp hj) hb
    by_cases hba : b = a
    · subst hba
      exact ⟨_, World.put_self hslot, content_fill_self.symm⟩
    · exact ⟨t, by rwa [World.put_ne hba], by rwa [content_fill_ne hba]⟩
  bounds f hf b hb := by
    show b < (w.slots.setIfInBounds a _).size
    rw [Array.size_setIfInBounds]
    obtain rfl | hf := List.mem_cons.mp hf
    · cases hb
      exact (Array.getElem?_eq_some_iff.mp ha).1
    · exact hs.bounds f hf b hb
  trail l f l' hl := by
    cases l with
    -- the store itself is the only new note
    | nil =>
      cases hl
      exact hv.stored (w.put a s') a w.trail
    | cons g l =>
      obtain ⟨-, htail⟩ := List.cons.inj hl
      exact GoodStep.same (show (w.put a s').closures = w.closures from rfl) (hs.trail l f l' htail)

/-- A store that does not mark an instance as over needs no account. -/
theorem Sane.accounted_put (hs : Sane m w) {a : Nat} {s : Slot}
    (h : s.var = m.state.id → s.value ≠ .int .int (-1)) : Accounted m.state m.cell (w.put a s).trail := by
  refine hs.ended.cons fun b heq => ?_
  obtain ⟨hvar, -, hvalue⟩ := Footprint.stored.inj heq
  exact h hvar hvalue

/-- An instance that does not wait may change a slot of its own. -/
theorem Coherent.fill (hs : Coherent m w) (hi : Idle m k κ w) {x a : Nat} {v : Value} (hx : m.Owns x)
    (ha : κ.env.slot? x = some a) (hv : SlotGood m ⟨x, v⟩) : Coherent m (w.put a ⟨x, v⟩) := by
  obtain ⟨s, hslot, hvar⟩ := hs.leads k κ hi.inst.closure x a ha
  refine hs.fill_slot hslot hvar.symm hv fun j ι y hj hy hjy hwaits => ?_
  have hy : m.Owns y := hy.elim .inl fun h => .inr (.inl h)
  -- only one instance has the slot
  by_cases hjk : j = k
  · exact hi.rests (hjk ▸ hwaits)
  · exact hs.slot_ne hi.inst hj hjk hx ha hjy rfl

/-- A store into a slot of the instance leaves the other instances alone. -/
theorem Proceeds.fill (hi : Instance m w k κ) {x a : Nat} {s s' : Slot} (hx : m.Owns x)
    (ha : κ.env.slot? x = some a) (hs : w.slots[a]? = some s) (hvar : s'.var = s.var) :
    Proceeds m (some k) w (w.put a s') := by
  have hopen : ¬ Shielded m (some k) w a := fun h => (h.idle k κ x hi hx ha).2 rfl
  refine
    { later := .put w a s', quiet := ?_, slots := ?_, shielded := ?_, fresh := ?_ }
  · intro f l hl hf
    obtain rfl : [.stored s'.var a s'.value] = l :=
      List.append_cancel_right (show _ ++ w.trail = l ++ w.trail from hl)
    obtain rfl := List.mem_singleton.mp hf
    refine ⟨fun b hb _ => ?_, fun _ _ _ _ _ => rfl⟩
    cases hb
    exact hopen
  · intro b t hb
    by_cases hba : b = a
    · subst hba
      rw [hs] at hb
      cases hb
      exact ⟨s', World.put_self hs, hvar⟩
    · exact ⟨t, by rwa [World.put_ne hba], rfl⟩
  · intro b hb
    have hba : b ≠ a := by
      rintro rfl
      exact hopen hb
    exact World.put_ne hba
  · intro j ι y b hj hn
    have := hj.closure
    rw [show (w.put a s').closures = w.closures from rfl, hn] at this
    cases this

theorem Idle.fill (hi : Idle m k κ w) {a : Nat} {s : Slot} : Idle m k κ (w.put a s) where
  inst := instance_fill.mpr hi.inst
  rests := by
    rintro ⟨ι, hι, hwaits⟩
    exact hi.rests ⟨ι, instance_fill.mp hι, waits_fill.mp hwaits⟩

end

end Resumable
