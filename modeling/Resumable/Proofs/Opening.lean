import Resumable.Proofs.Rounds

/-!
# `Proofs.Opening`: how an instance begins

The block that opens an instance declares its slots, sets them up and makes the function that runs the
dispatch loop. Until the function is made nobody else can reach the slots, so that it is ready to be
dispatched from the start.

**Contents**
* `Brings`: computations before there is an instance, with a rule for each way of putting them together.
* `Nascent`: the slots of an instance that is being opened.
* `evalNode_opening`: the block as a whole.
-/

namespace Resumable

open Resumable.Expr Run

/-- From a sane world with `P`, the computation returns with `Q` or stops with `J`, and keeps the world
sane. -/
structure Brings (m : Watch) (P : World → Prop) (x : Run α) (Q : α → World → Prop) (J : World → Prop) :
    Prop where
  later : Runs Later x
  ok : ∀ {w a w'}, Sane m w → P w → x w = .ok a w' → m.Lawful w' → Sane m w' ∧ Q a w'
  stop : ∀ {w s w'}, Sane m w → P w → x w = .error s w' → m.Lawful w' → Sane m w' ∧ J w'

namespace Brings

variable {m : Watch} {P P' : World → Prop} {x : Run α} {Q Q' : α → World → Prop} {J J' : World → Prop}

theorem mono (h : Brings m P x Q J) (hP : ∀ w, P' w → P w) (hQ : ∀ a w, Q a w → Q' a w)
    (hJ : ∀ w, J w → J' w) : Brings m P' x Q' J' where
  later := h.later
  ok hs hw hrun hl := by
    obtain ⟨hs', hq⟩ := h.ok hs (hP _ hw) hrun hl
    exact ⟨hs', hQ _ _ hq⟩
  stop hs hw hrun hl := by
    obtain ⟨hs', hj⟩ := h.stop hs (hP _ hw) hrun hl
    exact ⟨hs', hJ _ hj⟩

theorem pure {a : α} (h : ∀ w, P w → Q a w) : Brings m P (Pure.pure a) Q J where
  later := inferInstance
  ok hs hw hrun _ := by
    cases hrun
    exact ⟨hs, h _ hw⟩
  stop _ _ hrun := by cases hrun

theorem throw {s : Stop} (h : ∀ w, P w → J w) : Brings m P (throw s : Run α) Q J where
  later := inferInstance
  ok _ _ hrun := by cases hrun
  stop hs hw hrun _ := by
    cases hrun
    exact ⟨hs, h _ hw⟩

/-- One computation after the other. -/
theorem bind {f : α → Run β} {R : β → World → Prop} (hx : Brings m P x Q J)
    (hf : ∀ a, Brings m (Q a) (f a) R J) : Brings m P (x >>= f) R J where
  later := by
    have := hx.later
    have := fun a => (hf a).later
    infer_instance
  ok {w b w''} hs hw hrun hl := by
    change EStateM.bind x f w = _ at hrun
    unfold EStateM.bind at hrun
    split at hrun
    · rename_i a w' h
      have hlater := (hf a).later.left w'
      rw [left_ok hrun] at hlater
      obtain ⟨hs', hq⟩ := hx.ok hs hw h (hl.earlier hlater)
      exact (hf a).ok hs' hq hrun hl
    · cases hrun
  stop {w s w''} hs hw hrun hl := by
    change EStateM.bind x f w = _ at hrun
    unfold EStateM.bind at hrun
    split at hrun
    · rename_i a w' h
      have hlater := (hf a).later.left w'
      rw [left_error hrun] at hlater
      obtain ⟨hs', hq⟩ := hx.ok hs hw h (hl.earlier hlater)
      exact (hf a).stop hs' hq hrun hl
    · rename_i s' w' h
      cases hrun
      exact hx.stop hs hw h hl

/-- What holds after an attempt, for either outcome. -/
def After (Q : α → World → Prop) (J : World → Prop) (r : Except Stop α) (w : World) : Prop :=
  match r with
  | .ok a => Q a w
  | .error _ => J w

/-- An attempt ends in either way. -/
theorem attempt (h : Brings m P x Q J) : Brings m P (attempt x) (After Q J) J' where
  later := by
    have := h.later
    infer_instance
  ok {w r w'} hs hw hrun hl := by
    unfold Run.attempt at hrun
    split at hrun
    · rename_i heq
      cases hrun
      exact h.ok hs hw heq hl
    · rename_i heq
      cases hrun
      exact h.stop hs hw heq hl
  stop {w s w'} hs hw hrun hl := by
    unfold Run.attempt at hrun
    split at hrun <;> cases hrun

/-- A computation whose outcome is known. -/
theorem of_outcome (l : Runs Later x)
    (h : ∀ w, Sane m w → P w → (∃ a w', x w = .ok a w' ∧ Sane m w' ∧ Q a w') ∨
      ∃ s w', x w = .error s w' ∧ Sane m w' ∧ J w') : Brings m P x Q J where
  later := l
  ok {w a w'} hs hw hrun _ := by
    obtain ⟨b, w'', heq, hres⟩ | ⟨s, w'', heq, -⟩ := h w hs hw
    · cases heq.symm.trans hrun
      exact hres
    · cases heq.symm.trans hrun
  stop {w s w'} hs hw hrun _ := by
    obtain ⟨b, w'', heq, -⟩ | ⟨s', w'', heq, hres⟩ := h w hs hw
    · cases heq.symm.trans hrun
    · cases heq.symm.trans hrun
      exact hres

/-- What cannot be reached. -/
theorem of_nothing (l : Runs Later x) (h : ∀ w, ¬ P w) : Brings m P x Q J where
  later := l
  ok _ hw := absurd hw (h _)
  stop _ hw := absurd hw (h _)

/-- The case that a world is in may decide how to go on. -/
theorem of_cases (l : Runs Later x) (h : ∀ w, P w → ∃ P', Brings m P' x Q J ∧ P' w) :
    Brings m P x Q J where
  later := l
  ok hs hw := by
    obtain ⟨P', hx, hP'⟩ := h _ hw
    exact hx.ok hs hP'
  stop hs hw := by
    obtain ⟨P', hx, hP'⟩ := h _ hw
    exact hx.stop hs hP'

/-- Code that leaves the machine alone may run in between. -/
theorem of_stays {E : World → Prop} [hE : Lasting m E] (h : Stays m E x) :
    Brings m E x (fun _ => E) E where
  later := ⟨fun w => (h.left w).later⟩
  ok {w a w'} hs hw hrun hl := by
    have hk := h.left w
    rw [left_ok hrun] at hk
    obtain ⟨hs', hf⟩ := hk.keeps hl hs hw
    exact ⟨hs', hE.follows hs hw hf⟩
  stop {w s w'} hs hw hrun hl := by
    have hk := h.left w
    rw [left_error hrun] at hk
    obtain ⟨hs', hf⟩ := hk.keeps hl hs hw
    exact ⟨hs', hE.follows hs hw hf⟩

/-- Without turns, only what lasts is still known. -/
theorem giveUp [Lasting m J] (h : ∀ w, P w → J w) : Brings m P (Run.giveUp : Run α) Q J where
  later := inferInstance
  ok _ _ hrun := by cases hrun
  stop hs hw := (of_stays (E := J) inferInstance).stop hs (h _ hw)

theorem iterate {σ : Type} {step : σ → Run (σ ⊕ α)} {I : σ → World → Prop} [Lasting m J]
    (hstep : ∀ s, Brings m (I s) (step s) (fun r w => r.elim (I · w) (Q · w)) J)
    (hJ : ∀ s w, I s w → J w) (n : Nat) (s : σ) : Brings m (I s) (Run.iterate step n s) Q J := by
  induction n generalizing s with
  | zero => exact .giveUp (hJ s)
  | succ n ih =>
    rw [Run.iterate_succ]
    refine (hstep s).bind fun r => ?_
    cases r with
    | inl s' => exact ih s'
    | inr a => exact .pure fun _ h => h

end Brings

/-! ### The slots of a new instance -/

section
variable {m : Watch} {env : Env} {w₀ w w' : World}

/-- The slots that are declared for a new instance, which begins in the world `w₀`: nobody else has them,
and they hold what the machine starts with. -/
structure Nascent (m : Watch) (env : Env) (w₀ w : World) : Prop where
  first : Sane m w₀
  follows : Proceeds m none w₀ w
  leads : env.Leads w
  new : ∀ x a, m.Owns x → env.slot? x = some a → w₀.slots[a]? = none
  alone : ∀ k κ x y a, Instance m w k κ → m.Owns x → m.Owns y → env.slot? x = some a →
    κ.env.slot? y ≠ some a
  start : ∀ a, env.slot? m.state.id = some a →
    w.Holds a m.good ∧ Footprint.stored m.state.id a (.int .int (-1)) ∉ w.trail
  echo : ∀ b, env.slot? m.resume.id = some b →
    ∃ s, w.slots[b]? = some s ∧ s.value = content b w.trail
  quiet : ∀ x a f, m.Owns x → env.slot? x = some a → f ∈ w.trail → f.slot? = some a →
    ∃ v, f = .stored x a v

/-- Before anything is declared, no variable of the machine is in scope. -/
theorem Nascent.begin (hs : Sane m w) (h : Scoped m true env w) : Nascent m env w w := by
  have hnone : ∀ {x a}, m.Owns x → env.slot? x ≠ some a := fun hx ha => by
    rw [h.clear rfl _ hx] at ha
    cases ha
  exact
    { first := hs, follows := .refl w, leads := h.leads
      new := fun x a hx ha => absurd ha (hnone hx)
      alone := fun k κ x y a _ hx _ ha => absurd ha (hnone hx)
      start := fun a ha => absurd ha (hnone Watch.owns_state)
      echo := fun b hb => absurd hb (hnone Watch.owns_resume)
      quiet := fun x a f hx ha => absurd ha (hnone hx) }

theorem Nascent.shielded (h : Nascent m env w₀ w) {x a : Nat} (hx : m.Owns x)
    (ha : env.slot? x = some a) : Shielded m none w a where
  owned := by
    obtain ⟨s, hs, hv⟩ := h.leads x a ha
    exact ⟨s, hs, hv ▸ hx⟩
  idle k κ y hi hy hya := absurd hya (h.alone k κ x y a hi hx hy ha)

/-- What leaves the machine alone adds no footprint of a slot that is nobody's yet. -/
theorem Nascent.unmarked (h : Nascent m env w₀ w) (hf : Proceeds m none w w') {x a : Nat}
    (hx : m.Owns x) (ha : env.slot? x = some a) {f : Footprint} (hmem : f ∈ w'.trail)
    (hslot : f.slot? = some a) : f ∈ w.trail := by
  obtain ⟨l, hl⟩ := hf.later.trail
  rw [← hl, List.mem_append] at hmem
  obtain hmem | hmem := hmem
  · have hshield := h.shielded hx ha
    obtain ⟨s, hs, -⟩ := hshield.owned
    have hlt := (Array.getElem?_eq_some_iff.mp hs).1
    exact absurd hshield ((hf.quiet f l hl.symm hmem).1 a hslot hlt)
  · exact hmem

theorem Nascent.content_eq (h : Nascent m env w₀ w) (hf : Proceeds m none w w') {x a : Nat}
    (hx : m.Owns x) (ha : env.slot? x = some a) : content a w'.trail = content a w.trail := by
  have hshield := h.shielded hx ha
  obtain ⟨s, hs, -⟩ := hshield.owned
  obtain ⟨l, hl⟩ := hf.later.trail
  rw [← hl]
  exact content_append fun f hmem hslot =>
    (hf.quiet f l hl.symm hmem).1 a hslot (Array.getElem?_eq_some_iff.mp hs).1 hshield

instance : Lasting m (Nascent m env w₀) where
  follows {w w'} hs h hf :=
    { first := h.first
      follows := h.follows.trans h.first hf
      leads := h.leads.follows hf
      new := h.new
      alone := by
        intro k κ x y a hi hx hy ha hya
        cases hk : w.closures[k]? with
        | none =>
          obtain ⟨s, hslot, -⟩ := h.leads x a ha
          rw [hf.fresh k κ y a hi hk hy hya] at hslot
          cases hslot
        | some ι => exact h.alone k κ x y a (hi.earlier hf.later hk) hx hy ha hya
      start := fun a ha => by
        obtain ⟨hholds, hover⟩ := h.start a ha
        refine ⟨hholds.congr (hf.shielded a (h.shielded Watch.owns_state ha)), fun hmem => hover ?_⟩
        exact h.unmarked hf Watch.owns_state ha hmem rfl
      echo := fun b hb => by
        rw [hf.shielded b (h.shielded Watch.owns_resume hb), h.content_eq hf Watch.owns_resume hb]
        exact h.echo b hb
      quiet := fun x a f hx ha hmem hslot =>
        h.quiet x a f hx ha (h.unmarked hf hx ha hmem hslot) hslot }

/-- An instance has begun: its slots are new. -/
structure Opened (m : Watch) (env : Env) (w₀ w : World) : Prop where
  first : Sane m w₀
  follows : Proceeds m none w₀ w
  leads : env.Leads w
  new : ∀ x a, m.Owns x → env.slot? x = some a → w₀.slots[a]? = none

instance : Lasting m (Opened m env w₀) where
  follows _ h hf := ⟨h.first, h.follows.trans h.first hf, h.leads.follows hf, h.new⟩

theorem Nascent.opened (h : Nascent m env w₀ w) : Opened m env w₀ w :=
  ⟨h.first, h.follows, h.leads, h.new⟩

/-! ### Declaring them -/

theorem Watch.Fair.ne_continuation (hm : m.Fair) :
    m.continuation.id ≠ m.state.id ∧ m.continuation.id ≠ m.resume.id := by
  have h := hm.apart
  simp only [List.nodup_cons, List.mem_cons, List.not_mem_nil, or_false, not_or] at h
  exact ⟨fun heq => h.1.2.1 heq.symm, fun heq => h.2.1.1 heq.symm⟩

theorem Watch.Fair.slotGood_continuation (hm : m.Fair) (x : Value) :
    SlotGood m ⟨m.continuation.id, x⟩ where
  state h := absurd h hm.ne_continuation.1
  resume h := absurd h hm.ne_continuation.2
  parked h := absurd Watch.owns_continuation (hm.parked _ h)

/-- A variable that the opening block declares. -/
def Watch.Opening (m : Watch) (v : Var) : Prop := m.Declarable v ∨ m.Slotted v

theorem Watch.Opening.slotGood (hm : m.Fair) {v : Var} (h : m.Opening v) :
    SlotGood m ⟨v.id, v.type.zero⟩ := by
  obtain h | h := h
  · exact h.slotGood hm
  · obtain rfl | rfl | rfl := h.own
    · rw [hm.types.1]
      exact hm.slotGood_state (.inl (.inl hm.start))
    · rw [hm.types.2]
      exact hm.slotGood_resume (.inl hm.start)
    · exact hm.slotGood_continuation _

/-- The variables of the machine are known by their numbers. -/
theorem Watch.Opening.zero (hm : m.Fair) {v : Var} (h : m.Opening v)
    (hid : v.id = m.state.id ∨ v.id = m.resume.id) : v.type.zero = .int .int 0 := by
  obtain h | h := h
  · exact absurd (hid.elim .inl fun h => .inr (.inl h)) h.foreign
  · obtain rfl | rfl | rfl := h.own
    · rw [hm.types.1]
      rfl
    · rw [hm.types.2]
      rfl
    · exact absurd hid fun h => h.elim hm.ne_continuation.1 hm.ne_continuation.2

theorem content_fresh {a : Nat} {l : List Footprint} (h : ∀ f ∈ l, f.slot? ≠ some a) :
    content a l = .int .int 0 := by
  have : content a (l ++ []) = content a [] := content_append h
  rwa [List.append_nil] at this

/-- A declared slot is nobody's yet. -/
theorem Nascent.declare (hm : m.Fair) (hs : Sane m w) (h : Nascent m env w₀ w) {v : Var}
    (hv : m.Opening v) : Sane m { w with slots := w.slots.push ⟨v.id, v.type.zero⟩ } ∧
      Nascent m (env.bind v w.slots.size) w₀ { w with slots := w.slots.push ⟨v.id, v.type.zero⟩ } := by
  have hspares := Respects.push hs (hv.slotGood hm)
  have hw' : Nascent m env w₀ _ := Lasting.follows hs h hspares.follows
  have hself : (w.slots.push ⟨v.id, v.type.zero⟩)[w.slots.size]? = some ⟨v.id, v.type.zero⟩ :=
    Array.getElem?_push_size
  have hunmarked : ∀ f ∈ w.trail, f.slot? ≠ some w.slots.size := fun f hf hslot =>
    absurd (hs.bounds f hf _ hslot) (Nat.lt_irrefl _)
  refine ⟨hspares.sane hs, ?_⟩
  -- what is in scope is the new slot, or was before
  have hcases : ∀ {x a}, (env.bind v w.slots.size).slot? x = some a →
      x = v.id ∧ a = w.slots.size ∨ env.slot? x = some a := by
    intro x a ha
    rw [Env.slot?_bind] at ha
    split at ha
    · cases ha
      exact .inl ⟨‹_›, rfl⟩
    · exact .inr ha
  exact
    { first := h.first
      follows := hw'.follows
      leads := hw'.leads.bind hself rfl
      new := fun x a hx ha => by
        obtain ⟨-, rfl⟩ | ha := hcases ha
        · cases hold : w₀.slots[w.slots.size]? with
          | none => rfl
          | some s => exact absurd (h.follows.size_le hold) (Nat.lt_irrefl _)
        · exact h.new x a hx ha
      alone := fun k κ x y a hi hx hy ha hya => by
        obtain ⟨-, rfl⟩ | ha := hcases ha
        · obtain ⟨s, hslot, -⟩ := hs.leads k κ hi.closure y _ hya
          exact absurd (Array.getElem?_eq_some_iff.mp hslot).1 (Nat.lt_irrefl _)
        · exact hw'.alone k κ x y a hi hx hy ha hya
      start := fun a ha => by
        obtain ⟨hid, rfl⟩ | ha := hcases ha
        · refine ⟨⟨_, 0, hself, hv.zero hm (.inl hid.symm), hm.start⟩, fun hmem => ?_⟩
          exact hunmarked _ hmem rfl
        · exact hw'.start a ha
      echo := fun b hb => by
        obtain ⟨hid, rfl⟩ | hb := hcases hb
        · exact ⟨_, hself, (hv.zero hm (.inr hid.symm)).trans (content_fresh hunmarked).symm⟩
        · exact hw'.echo b hb
      quiet := fun x a f hx ha hmem hslot => by
        obtain ⟨-, rfl⟩ | ha := hcases ha
        · exact absurd hslot (hunmarked f hmem)
        · exact hw'.quiet x a f hx ha hmem hslot }

/-- The block declares its variables one after the other. -/
theorem declareAll_brings (hm : m.Fair) {vars : List Var} (hv : ∀ v ∈ vars, m.Opening v)
    (hgone : ∀ x, m.Owns x → m.gone x → env.slot? x = none) {f : Env → Run β} {Q : β → World → Prop}
    {J : World → Prop}
    (hf : ∀ env, (∀ x, m.Owns x → m.gone x → env.slot? x = none) →
      Brings m (Nascent m env w₀) (f env) Q J) :
    Brings m (Nascent m env w₀) (vars.foldlM declare env >>= f) Q J := by
  induction vars generalizing env with
  | nil => exact hf env hgone
  | cons v vars ih =>
    rw [List.foldlM_cons]
    unfold declare
    simp only [bind_assoc, pure_bind]
    have hv' := hv v List.mem_cons_self
    refine Brings.bind (Q := fun a => Nascent m (env.bind v a) w₀) ?_ fun a => ?_
    · exact .of_outcome inferInstance fun w hs hw => .inl ⟨_, _, rfl, hw.declare hm hs hv'⟩
    · refine ih (fun u hu => hv u (List.mem_cons_of_mem _ hu)) fun x hx hg => ?_
      rw [Env.slot?_bind]
      split
      · rename_i hid
        obtain h | h := hv'
        · exact absurd (hid ▸ hx) h.foreign
        · exact absurd (hid ▸ hg) h.kept
      · exact hgone x hx hg

/-! ### Setting them up -/

theorem Env.Leads.fill (h : env.Leads w) {a : Nat} {s s' : Slot} (ha : w.slots[a]? = some s)
    (hvar : s'.var = s.var) : env.Leads (w.put a s') := by
  intro x b hb
  obtain ⟨t, hslot, hv⟩ := h x b hb
  by_cases hba : b = a
  · subst hba
    rw [ha] at hslot
    cases hslot
    exact ⟨_, World.put_self ha, hvar.trans hv⟩
  · exact ⟨t, by rwa [World.put_ne hba], hv⟩

/-- A slot that was not there at first may be changed. -/
theorem Proceeds.fill_new {k? : Option Nat} (h : Proceeds m k? w₀ w) {a : Nat} {s' : Slot}
    (hnew : w₀.slots[a]? = none) :
    Proceeds m k? w₀ (w.put a s') where
  later := h.later.trans (.put w a s')
  quiet f l hl hf := by
    obtain ⟨l₁, hl₁⟩ := h.later.trail
    -- the store is the only thing told since
    have heq : .stored s'.var a s'.value :: l₁ = l := by
      have hboth : (.stored s'.var a s'.value :: l₁) ++ w₀.trail = l ++ w₀.trail := by
        rw [List.cons_append, hl₁]
        exact hl
      exact List.append_cancel_right hboth
    rw [← heq] at hf
    obtain rfl | hf := List.mem_cons.mp hf
    · refine ⟨fun b hb hlt => ?_, fun _ _ _ _ _ => rfl⟩
      -- a slot that did not exist before is no slot of an older instance
      cases hb
      rw [Array.getElem?_eq_none_iff] at hnew
      exact absurd hlt (Nat.not_lt_of_le hnew)
    · exact h.quiet f l₁ hl₁.symm hf
  slots b t hb := by
    obtain ⟨t', ht', hv⟩ := h.slots b t hb
    by_cases hba : b = a
    · subst hba
      rw [hnew] at hb
      cases hb
    · exact ⟨t', by rwa [World.put_ne hba], hv⟩
  shielded b hb := by
    have hba : b ≠ a := by
      rintro rfl
      obtain ⟨t, ht, -⟩ := hb.owned
      rw [hnew] at ht
      cases ht
    rw [World.put_ne hba]
    exact h.shielded b hb
  fresh k κ x b hi := h.fresh k κ x b (instance_fill.mp hi)

/-- A store into a slot that is nobody's yet. -/
theorem Nascent.fill (hm : m.Fair) (hs : Sane m w) (h : Nascent m env w₀ w) {x a : Nat} {v : Value}
    {s : Slot} (hx : m.Owns x) (ha : env.slot? x = some a) (hslot : w.slots[a]? = some s)
    (hvar : s.var = x) (hv : SlotGood m ⟨x, v⟩)
    (hstart : x = m.state.id → ∃ j, v = .int .int j ∧ m.good j) :
    Sane m (w.put a ⟨x, v⟩) ∧ Nascent m env w₀ (w.put a ⟨x, v⟩) := by
  -- a slot of another variable is another slot
  have hne : ∀ {y b}, y ≠ x → env.slot? y = some b → b ≠ a := by
    rintro y b hyx hb rfl
    obtain ⟨t, ht, hty⟩ := h.leads y b hb
    rw [hslot] at ht
    cases ht
    exact hyx (hty.symm.trans hvar)
  refine ⟨⟨hs.toCoherent.fill_slot hslot hvar.symm hv fun j ι y hj hy hya => ?_,
    hs.accounted_put fun hid heq => ?_⟩, ?_⟩
  · exact absurd hya (h.alone j ι x y a hj hx (hy.elim .inl fun h => .inr (.inl h)) ha)
  · obtain ⟨j, rfl, hj⟩ := hstart hid
    cases heq
    exact hm.minus (.inl hj)
  exact
    { first := h.first
      follows := h.follows.fill_new (h.new x a hx ha)
      leads := h.leads.fill hslot hvar.symm
      new := h.new
      alone := fun k κ y z b hi => h.alone k κ y z b (instance_fill.mp hi)
      start := fun b hb => by
        obtain ⟨hholds, hover⟩ := h.start b hb
        by_cases hid : m.state.id = x
        · obtain ⟨j, rfl, hj⟩ := hstart hid.symm
          obtain rfl : a = b := Option.some.inj (ha.symm.trans (hid ▸ hb))
          refine ⟨⟨_, j, World.put_self hslot, rfl, hj⟩, fun hmem => ?_⟩
          obtain heq | hmem := List.mem_cons.mp hmem
          · cases heq
            exact hm.minus (.inl hj)
          · exact hover hmem
        · have hba := hne hid hb
          refine ⟨hholds.congr (World.put_ne hba), fun hmem => ?_⟩
          obtain heq | hmem := List.mem_cons.mp hmem
          · exact hba (Footprint.stored.inj heq).2.1
          · exact hover hmem
      echo := fun b hb => by
        obtain ⟨t, ht, hval⟩ := h.echo b hb
        by_cases hba : b = a
        · subst hba
          exact ⟨_, World.put_self hslot, content_fill_self.symm⟩
        · exact ⟨t, by rwa [World.put_ne hba], by rwa [content_fill_ne hba]⟩
      quiet := fun y b f hy hb hmem hf => by
        obtain rfl | hmem := List.mem_cons.mp hmem
        · cases hf
          by_cases hyx : y = x
          · exact ⟨v, by rw [hyx]⟩
          · exact absurd rfl (hne hyx hb)
        · exact h.quiet y b f hy hb hmem hf }

/-- A statement that sets up a slot. -/
theorem Watch.Opens.brings (hm : m.Fair) {x : Expr} (hx : m.Opens x) (n : Nat) :
    Brings m (Nascent m env w₀) ((Calls.level n).eval x env) (fun _ => Nascent m env w₀)
      (Nascent m env w₀) := by
  -- both kinds store an integer that suits the slot
  have hputs : ∀ {v : Var} {i : Int}, Watch.Puts v (Watch.Number (· = i)) x → v.type = .int →
      m.Owns v.id → SlotGood m ⟨v.id, .int .int i⟩ → (v.id = m.state.id → m.good i) →
      ∀ n, Brings m (Nascent m env w₀) (evalNode (Calls.level n) x env) (fun _ => Nascent m env w₀)
        (Nascent m env w₀) := by
    intro v i hputs hint hown hgood hstart n
    refine .of_outcome inferInstance fun w hs hw => ?_
    obtain ⟨a, s, j, ha, hslot, hvar, hj, hrun⟩ | ⟨s, -, hrun⟩ :=
      evalNode_puts (n := n) (N := (· = i)) hputs hint hw.leads fun value hv => hv.evaluates
    · subst hj
      exact .inl ⟨_, _, hrun, hw.fill hm hs hown ha hslot hvar hgood fun h => ⟨_, rfl, hstart h⟩⟩
    · exact .inr ⟨s, w, hrun, hs, hw⟩
  cases n with
  | zero => exact .throw fun _ h => h
  | succ n =>
    obtain h | h := hx
    · exact hputs h hm.types.1 Watch.owns_state (hm.slotGood_state (.inl (.inl hm.start)))
        (fun _ => hm.start) n
    · exact hputs h hm.types.2 Watch.owns_resume (hm.slotGood_resume (.inr rfl))
        (fun h => absurd h.symm hm.state_ne_resume) n

/-! ### Making the function -/

/-- Once its variables are declared, a new instance is alone in its slots. -/
theorem Nascent.newborn (hm : m.Fair) (h : Nascent m env w₀ w) : Newborn m w env where
  alone k κ x a hi hx hκ ha := h.alone k κ x x a hi hx hx ha hκ
  ready :=
    { state := fun a ha => ⟨(h.start a ha).1.mono fun _ hj => .inl hj, (h.start a ha).2⟩
      resume := fun a b ha _ hclean => by
        obtain ⟨s, j, hs, hval, hj⟩ := (h.start a ha).1
        obtain ⟨s', i, hs', hval', hi⟩ := hclean
        rw [hs] at hs'
        cases hs'
        rw [hval] at hval'
        cases hval'
        exact absurd hi (hm.disjoint j hj) }
  echo := h.echo
  quiet := h.quiet

/-- A new instance has slots that were not there at first. -/
theorem Nascent.push (hm : m.Fair) (hs : Sane m w) (h : Nascent m env w₀ w) {loop : Expr}
    (hloop : Obeys m .running loop) (hgone : ∀ x, m.Owns x → m.gone x → env.slot? x = none) :
    Sane m { w with closures := w.closures.push ⟨loop, env⟩ } ∧
      Opened m env w₀ { w with closures := w.closures.push ⟨loop, env⟩ } := by
  refine ⟨hs.push h.leads (.running hloop hgone) fun _ => h.newborn hm, h.first, ?_, h.leads, h.new⟩
  exact
    { later := h.follows.later.trans (later_push w _)
      quiet := h.follows.quiet
      slots := h.follows.slots
      shielded := h.follows.shielded
      fresh := fun k κ x a hi hn hx ha => by
        obtain hold | ⟨-, rfl⟩ := getElem?_push_cases hi.closure
        · exact h.follows.fresh k κ x a ⟨hold, hi.running⟩ hn hx ha
        · exact h.new x a hx ha }

theorem Brings.first {E : World → Prop} [Lasting m E] {α : Type} {y : Run α} (h : Stays m E y)
    {J : World → Prop} (hJ : ∀ w, E w → J w) : Brings m E y (fun _ => E) J :=
  (Brings.of_stays h).mono (fun _ h => h) (fun _ _ h => h) hJ

/-- Making the function that runs the dispatch loop opens the instance. -/
theorem eval_running (hm : m.Fair) {loop : Expr} (hloop : Obeys m .running loop)
    (hgone : ∀ x, m.Owns x → m.gone x → env.slot? x = none) (n : Nat) :
    Brings m (Nascent m env w₀) ((Calls.level n).eval loop env) (fun _ => Opened m env w₀)
      (Opened m env w₀) := by
  cases n with
  | zero => exact .throw fun _ h => h.opened
  | succ n =>
    have hself := hloop
    cases hloop with
    | @running i r t name kind fallible body hbody =>
      -- making the closure of the loop is what opens the machine
      have hpush : Brings m (Nascent m env w₀)
          (modifyGet fun w => (Value.func t (.closure w.closures.size),
            { w with closures := w.closures.push ⟨.node i r t (.lambda name [] body kind fallible), env⟩ })
            : Run Value)
          (fun _ => Opened m env w₀) (Opened m env w₀) :=
        .of_outcome ⟨fun w => later_push w _⟩ fun w hs hw =>
          .inl ⟨_, _, rfl, hw.push hm hs hself hgone⟩
      -- a fault before that leaves the world without one
      have hfirst : ∀ {α : Type} {y : Run α}, Stays m (Nascent m env w₀) y →
          Brings m (Nascent m env w₀) y (fun _ => Nascent m env w₀) (Opened m env w₀) := fun h =>
        Brings.first h fun _ => Nascent.opened
      have hmake : Brings m (Nascent m env w₀)
          (makeClosure (.node i r t (.lambda name [] body kind fallible)) name kind env)
          (fun _ => Opened m env w₀) (Opened m env w₀) := by
        unfold makeClosure
        extract_lets tail
        have htail : Brings m (Nascent m env w₀) (tail ()) (fun _ => Opened m env w₀)
            (Opened m env w₀) := by
          unfold tail
          split
          · exact (hfirst inferInstance).mono (fun _ h => h) (fun _ _ h => h.opened) fun _ h => h
          · exact (hfirst inferInstance).mono (fun _ h => h) (fun _ _ h => h.opened) fun _ h => h
          · exact hpush
        split
        · exact (hfirst inferInstance).bind fun _ => htail
        · exact htail
      show Brings m _ (some <$> makeClosure _ name kind env) _ _
      rw [← bind_pure_comp]
      exact hmake.bind fun v => .pure fun _ h => h

/-- Keeping the function in its slot. -/
theorem Opened.writePlace_brings (hm : m.Fair) {a : Nat} (ha : env.slot? m.continuation.id = some a)
    (t : Ty) (y : Value) :
    Brings m (Opened m env w₀) (writePlace ⟨.slot a, [], t⟩ y) (fun _ => Opened m env w₀)
      (Opened m env w₀) := by
  refine .of_outcome inferInstance fun w hs hw => .inl ?_
  obtain ⟨s, hslot, hvar⟩ := hw.leads _ a ha
  have hended : Accounted m.state m.cell (w.put a { s with value := y }).trail :=
    hs.accounted_put fun hid => absurd (hvar.symm.trans hid) hm.ne_continuation.1
  refine ⟨_, _, writePlace_slot hslot,
    ⟨hs.toCoherent.fill_slot hslot rfl (hvar ▸ hm.slotGood_continuation y) ?_, hended⟩, hw.first, hw.follows.fill_new (hw.new _ a Watch.owns_continuation ha),
    hw.leads.fill hslot rfl, hw.new⟩
  -- it is no slot that the instance is dispatched by
  intro j ι x hj hx hxa
  obtain ⟨s', hslot', hvar'⟩ := hs.leads j ι hj.closure x a hxa
  rw [hslot] at hslot'
  cases hslot'
  rw [← hvar', hvar] at hx
  exact absurd hx fun h => h.elim hm.ne_continuation.1 hm.ne_continuation.2

/-- The statement that makes the function. -/
theorem Watch.Closes.brings (hm : m.Fair) {loop x : Expr} (hx : m.Closes loop x)
    (hloop : Obeys m .running loop) (hgone : ∀ x, m.Owns x → m.gone x → env.slot? x = none) (n : Nat) :
    Brings m (Nascent m env w₀) ((Calls.level n).eval x env) (fun _ => Opened m env w₀)
      (Opened m env w₀) := by
  obtain ⟨i, r, t, i', r', t', rfl⟩ := hx
  cases n with
  | zero => exact .throw fun _ h => h.opened
  | succ n =>
    -- the statement stores the closure of the loop under the name of the continuation
    have hnode : (Calls.level (n + 1)).eval
        (.node i r t (.assign .plain (.node i' r' t' (.var m.continuation)) loop)) env = (do
          let p ← place (Calls.level n) env (.node i' r' t' (.var m.continuation))
          let v ← evalAs (Calls.level n) loop p.type env
          some <$> storeInto p v) := rfl
    rw [hnode]
    cases ha : env.slot? m.continuation.id with
    -- a continuation out of scope is a fault before the loop is looked at
    | none =>
      refine .of_outcome inferInstance fun w hs hw => .inr ?_
      obtain ⟨s, -, hplace⟩ := place_var_unscoped (i := i') (r := r') (t := t') (w := w)
        (Calls.level n) ha
      exact ⟨s, w, bind_error hplace, hs, hw.opened⟩
    | some a =>
      have hplace : place (Calls.level n) env (.node i' r' t' (.var m.continuation)) =
          pure ⟨.slot a, [], m.continuation.type⟩ := funext fun w => place_var (Calls.level n) ha
      have hfirst : ∀ {α : Type} {y : Run α}, Stays m (Opened m env w₀) y →
          Brings m (Opened m env w₀) y (fun _ => Opened m env w₀) (Opened m env w₀) := fun h =>
        Brings.first h fun _ h => h
      rw [hplace, pure_bind]
      unfold evalAs
      rw [bind_assoc]
      refine (eval_running hm hloop hgone n).bind fun v => (hfirst inferInstance).bind fun v => ?_
      rw [← bind_pure_comp]
      refine Brings.bind (Q := fun _ => Opened m env w₀) ?_ fun _ => .pure fun _ h => h
      unfold storeInto
      split
      · exact (Opened.writePlace_brings hm ha _ _).bind fun _ => .pure fun _ h => h
      · exact hfirst inferInstance

/-- The first call of the function. -/
theorem Watch.Starts.stays {n : Nat} (hu : Upright m n) {E : World → Prop} [Lasting m E] {x : Expr}
    (hx : m.Starts x) : Stays m E (evalNode (Calls.level n) x env) := by
  unfold Watch.Starts at hx
  split at hx
  · rename_i i r t f
    have := hu.spared.stay
    have := eval_var_runs (R := Resumable.Kept m E) (x := f) (by rw [hx.asVar?]; rfl) n env
    have hargs : ∀ sig, Stays m E (evalArgs (Calls.level n) sig env []) := fun sig =>
      Runs.mapM_of fun _ h => by cases h
    show Stays m E (evalCall _ _ f [] env)
    unfold evalCall
    infer_instance
  · cases hx

/-! ### The block -/

/-- What the opening block is made of. -/
structure Watch.Parts (m : Watch) (before : List Expr) (x : Expr) (after : List Expr) (loop : Expr) :
    Prop where
  sets : ∀ y ∈ before, m.Opens y ∨ Watch.Simple y
  setsOutside : ∀ y ∈ before, ¬ m.Opens y → Obeys m (.outside false) y
  closes : m.Closes loop x
  running : Obeys m .running loop
  uses : ∀ y ∈ after, Watch.Simple y
  usesOutside : ∀ y ∈ after, ¬ m.Starts y → Obeys m (.outside false) y

/-- No statement of the block places a label. -/
theorem Watch.Parts.not_label {before after : List Expr} {x loop : Expr}
    (h : m.Parts before x after loop) {i r : Nat} {t : Ty} {l : Label} {d : Expr} :
    Expr.node i r t (.label l d) ∉ before ++ x :: after := by
  intro hmem
  obtain hmem | hmem := List.mem_append.mp hmem
  · obtain hopens | hsimple := h.sets _ hmem
    · obtain hopens | hopens := hopens <;> exact hopens
    · exact hsimple
  · obtain heq | hmem := List.mem_cons.mp hmem
    · obtain ⟨_, _, _, _, _, _, rfl⟩ := h.closes
      cases heq
    · exact h.uses _ hmem

/-- What holds before the statements that are left are run. -/
def Begun (m : Watch) (env : Env) (w₀ : World) (before : List Expr) (x : Expr) (after : List Expr)
    (s : List Expr × Option Value) (w : World) : Prop :=
  (∃ front, s.1 = front ++ x :: after ∧ (∀ y ∈ front, y ∈ before) ∧ Nascent m env w₀ w) ∨
    (∀ y ∈ s.1, y ∈ after) ∧ Opened m env w₀ w

/-- One statement of the opening block brings the instance further. -/
theorem stepBlock_brings {n : Nat} (hm : m.Fair) (hu : Upright m n) {before after : List Expr}
    {x loop : Expr} (h : m.Parts before x after loop)
    (hgone : ∀ x, m.Owns x → m.gone x → env.slot? x = none) (s : List Expr × Option Value) :
    Brings m (Begun m env w₀ before x after s) (Run.stepBlock (Calls.level n) (before ++ x :: after) env s)
      (fun r w => r.elim (Begun m env w₀ before x after · w) fun _ => Opened m env w₀ w)
      (Opened m env w₀) := by
  have hlater := hu.spared.later
  obtain ⟨rest, last⟩ := s
  -- one statement, and then the others; no jump leads back
  have hstep : ∀ {y : Expr} {rest : List Expr} {P : World → Prop},
      Brings m P ((Calls.level n).eval y env)
        (fun v => Begun m env w₀ before x after (rest, v)) (Opened m env w₀) →
      Brings m P (Run.stepBlock (Calls.level n) (before ++ x :: after) env (y :: rest, last))
        (fun r w => r.elim (Begun m env w₀ before x after · w) fun _ => Opened m env w₀ w)
        (Opened m env w₀) := by
    intro y rest P hy
    unfold Run.stepBlock
    refine hy.attempt.bind fun o => ?_
    cases o with
    | ok v => exact .pure fun _ h => h
    | error s =>
      cases s with
      | jump l v =>
        have hafter : Brings m (Opened m env w₀) (afterLabel l (before ++ x :: after))
            (fun r w => r = none ∧ Opened m env w₀ w) (Opened m env w₀) := by
          refine .of_outcome inferInstance fun w hs hw => ?_
          obtain ⟨r, hrun, hr⟩ | ⟨p, hrun⟩ := afterLabel_run (w := w) l (before ++ x :: after)
          · refine .inl ⟨r, w, hrun, hs, ?_, hw⟩
            cases r with
            | none => rfl
            | some rest =>
              obtain ⟨front, i, r, t, l', d, heq, -⟩ := hr rest rfl
              exact absurd (heq ▸ by simp) (h.not_label (i := i) (r := r) (t := t) (l := l') (d := d))
          · exact .inr ⟨_, w, hrun, hs, hw⟩
        refine hafter.bind fun r => ?_
        cases r with
        | none => exact .throw fun _ h => h.2
        | some rest => exact .of_nothing inferInstance fun _ h => by cases h.1
      | _ => exact .throw fun _ h => h
  refine .of_cases inferInstance fun w hw => ?_
  obtain ⟨front, rfl, hfront, hw⟩ | ⟨hafter, hw⟩ := hw
  · cases front with
    | nil =>
      refine ⟨_, hstep ((h.closes.brings hm h.running hgone n).mono (fun _ h => h)
        (fun _ _ hw => .inr ⟨fun y hy => hy, hw⟩) fun _ h => h), hw⟩
    | cons y front =>
      have hy := hfront y List.mem_cons_self
      have hrest : ∀ z ∈ front, z ∈ before := fun z hz => hfront z (List.mem_cons_of_mem _ hz)
      have hnascent : Brings m (Nascent m env w₀) ((Calls.level n).eval y env)
          (fun _ => Nascent m env w₀) (Opened m env w₀) := by
        by_cases hopens : m.Opens y
        · exact (hopens.brings hm n).mono (fun _ h => h) (fun _ _ h => h) fun _ h => h.opened
        · refine Brings.first ((hu.spared.eval (h.setsOutside y hy hopens) env).mono ?_)
            fun _ h => h.opened
          exact fun _ _ hw => ⟨hw.leads, fun h => by cases h⟩
      exact ⟨_, hstep (hnascent.mono (fun _ h => h)
        (fun _ _ hw => .inl ⟨front, rfl, hrest, hw⟩) fun _ h => h), hw⟩
  · cases rest with
    | nil => exact ⟨_, .pure fun _ h => h, hw⟩
    | cons y rest =>
      have hy := hafter y List.mem_cons_self
      have hopened : Stays m (Opened m env w₀) ((Calls.level n).eval y env) := by
        by_cases hstarts : m.Starts y
        · exact (hu.starting hstarts).mono fun _ _ _ => trivial
        · refine (hu.spared.eval (h.usesOutside y hy hstarts) env).mono ?_
          exact fun _ _ hw => ⟨hw.leads, fun h => by cases h⟩
      refine ⟨_, hstep ((Brings.first hopened fun _ h => h).mono (fun _ h => h)
        (fun _ _ hw => .inr ⟨fun z hz => hafter z (List.mem_cons_of_mem _ hz), hw⟩) fun _ h => h), hw⟩

/-- The block that opens an instance leaves the others alone. -/
theorem evalNode_opening {n : Nat} (hm : m.Fair) (hu : Upright m n) {x : Expr}
    (hx : Obeys m .opening x) : Stays m (Scoped m true env) (evalNode (Calls.level n) x env) := by
  have hlater := hu.spared.later
  cases hx with
  | @opening i r t vs before after loop x hr hn hv hb hbo hstate hresume hx hloop ha hao hstart =>
    have hparts : m.Parts before x after loop := ⟨hb, hbo, hx, hloop, ha, hao⟩
    -- seen from the world in which the block begins, its slots are new
    have hrun : ∀ w₀ env, (∀ x, m.Owns x → m.gone x → env.slot? x = none) →
        Brings m (Nascent m env w₀) (Run.runBlock (Calls.level n) t (before ++ x :: after) env)
          (fun _ w => Proceeds m none w₀ w) (fun w => Proceeds m none w₀ w) := by
      intro w₀ env hgone
      have hturns := Brings.iterate (Q := fun _ => Opened m env w₀)
        (stepBlock_brings hm hu hparts hgone)
        (fun s w hw => hw.elim (fun ⟨_, _, _, h⟩ => h.opened) And.right) (Calls.level n).turns
        (before ++ x :: after, none)
      refine (hturns.bind fun v => Brings.first (E := Opened m env w₀) inferInstance fun _ h => h).mono
        (fun w hw => .inl ⟨before, rfl, fun y hy => hy, hw⟩) (fun _ _ h => h.follows)
        fun _ h => h.follows
    have hnode : evalNode (Calls.level n) (.node i r t (.block vs (before ++ x :: after))) env =
      evalBlock (Calls.level n) t vs (before ++ x :: after) env := rfl
    have heval : ∀ c vs xs env, Runs Later (evalBlock (Calls.level n) c vs xs env) := inferInstance
    rw [hnode]
    refine ⟨fun w => ⟨(heval t vs (before ++ x :: after) env).left w, fun hl hs hE => ?_⟩⟩
    have hblock : Brings m (Nascent m env w) (evalBlock (Calls.level n) t vs (before ++ x :: after) env)
        (fun _ w' => Proceeds m none w w') (fun w' => Proceeds m none w w') :=
      declareAll_brings hm hv (fun x hx _ => hE.clear rfl x hx) fun env hgone => hrun w env hgone
    have hbegin := Nascent.begin hs hE
    cases hres : evalBlock (Calls.level n) t vs (before ++ x :: after) env w with
    | ok v w' =>
      rw [left_ok hres] at hl ⊢
      exact hblock.ok hs hbegin hres hl
    | error s w' =>
      rw [left_error hres] at hl ⊢
      exact hblock.stop hs hbegin hres hl

end

end Resumable
