import Resumable.Proofs.Running

/-!
# `Proofs.Stays`: computations that leave machines alone

A step that touches no variable of a machine and makes no closure leaves every instance of the machine as
it is. So do the steps of the library, and with them whatever the library does, as long as calls and
callbacks leave the instances alone.

**Contents**
* `Respects`: what a step does that touches no variable of the machine.
* `Kept`, `Stays`: computations that leave every instance of a machine alone.
-/

namespace Resumable

/-- What a step does that touches no variable of the machine and makes no closure. -/
structure Respects (m : Watch) (w w' : World) : Prop where
  closures : w'.closures = w.closures
  slots : ∀ (a : Nat) s, w.slots[a]? = some s →
    ∃ s', w'.slots[a]? = some s' ∧ s'.var = s.var ∧ (m.Owns s.var → s' = s)
  good : ∀ (a : Nat) s, w'.slots[a]? = some s → SlotGood m s
  trail : ∃ l, w'.trail = l ++ w.trail ∧ ∀ f ∈ l, (∀ k κ, Instance m w k κ → f.isEntered k = false) ∧
    (∀ a, f.slot? = some a → ∃ s, w'.slots[a]? = some s ∧ ¬ m.Owns s.var) ∧ (∀ l', GoodStep m w l' f) ∧
      ∀ b x, f ≠ .stored m.state.id b x

section
variable {m : Watch} {w w' : World}

theorem Respects.of_same (hs : Coherent m w) (slots : w'.slots = w.slots) (closures : w'.closures = w.closures)
    (trail : w'.trail = w.trail) : Respects m w w' where
  closures := closures
  slots a s ha := ⟨s, by rw [slots]; exact ha, rfl, fun _ => rfl⟩
  good a s ha := hs.slots a s (by rw [← slots]; exact ha)
  trail := ⟨[], trail, fun f hf => by cases hf⟩

theorem Respects.add (hs : Coherent m w) {f : Footprint} (hent : ∀ k κ, Instance m w k κ → f.isEntered k = false)
    (hslot : ∀ a, f.slot? = some a → ∃ s, w.slots[a]? = some s ∧ ¬ m.Owns s.var)
    (hgood : ∀ l, GoodStep m w l f) (hstore : ∀ b x, f ≠ .stored m.state.id b x) : Respects m w (w.add f) where
  closures := rfl
  slots a s ha := ⟨s, ha, rfl, fun _ => rfl⟩
  good := hs.slots
  trail := ⟨[f], rfl, fun g hg => by
    cases List.mem_singleton.mp hg
    exact ⟨hent, hslot, hgood, hstore⟩⟩

/-- The footprints of cells are about no variable. -/
theorem Respects.ofCell (hs : Coherent m w) {f : Footprint} (h : f.ofCell = true) : Respects m w (w.add f) := by
  cases f with
  | offered | registered | resumed | read | completed | failing | cut =>
    exact .add hs (fun _ _ _ => rfl) (fun _ h => by cases h) (fun _ => trivial) fun _ _ h => by cases h
  | _ => cases h

theorem Respects.later (h : Respects m w w') : Later w w' where
  trail := by
    obtain ⟨l, hl, -⟩ := h.trail
    rw [hl]
    exact List.suffix_append l w.trail
  closures k κ hk := by rw [h.closures]; exact hk

/-- A footprint that was added is about no variable of the machine. -/
theorem Respects.footprint (h : Respects m w w') {l : List Footprint} (hl : w'.trail = l ++ w.trail)
    {f : Footprint} (hf : f ∈ l) : (∀ k κ, Instance m w k κ → f.isEntered k = false) ∧
      (∀ a, f.slot? = some a → ∃ s, w'.slots[a]? = some s ∧ ¬ m.Owns s.var) ∧
        (∀ l', GoodStep m w l' f) ∧ ∀ b x, f ≠ .stored m.state.id b x := by
  obtain ⟨l₁, hl₁, hgood⟩ := h.trail
  rw [hl₁] at hl
  exact hgood f (List.append_cancel_right hl ▸ hf)

/-- What other code adds to the trail is not about a slot of the machine. -/
theorem Respects.not_about (h : Respects m w w') {l : List Footprint} (hl : w'.trail = l ++ w.trail)
    {f : Footprint} (hf : f ∈ l) {a : Nat} {s : Slot} (ha : w.slots[a]? = some s) (hs : m.Owns s.var) :
    f.slot? ≠ some a := by
  intro hslot
  obtain ⟨s₁, h₁, hfree⟩ := (h.footprint hl hf).2.1 a hslot
  obtain ⟨s', h', hvar, -⟩ := h.slots a s ha
  rw [h₁] at h'
  cases h'
  exact hfree (hvar ▸ hs)

/-- What respects the machine leaves every instance alone. -/
theorem Respects.follows (h : Respects m w w') {k? : Option Nat} : Proceeds m k? w w' where
  later := h.later
  quiet f l hl hf := by
    refine ⟨fun a ha _ hshield => ?_, fun k κ hi _ _ => (h.footprint hl hf).1 k κ hi⟩
    obtain ⟨s, hs, hown⟩ := hshield.owned
    exact h.not_about hl hf hs hown ha
  slots a s ha := by
    obtain ⟨s', hs', hvar, -⟩ := h.slots a s ha
    exact ⟨s', hs', hvar⟩
  shielded a ha := by
    obtain ⟨s, hs, hown⟩ := ha.owned
    obtain ⟨s', hs', -, heq⟩ := h.slots a s hs
    rw [hs', hs, heq hown]
  fresh k κ x a hi hn _ _ := by
    have := hi.closure
    rw [h.closures, hn] at this
    cases this

theorem Respects.instance_iff (h : Respects m w w') {k : Nat} {κ : Closure} :
    Instance m w' k κ ↔ Instance m w k κ :=
  ⟨fun hi => ⟨h.closures ▸ hi.closure, hi.running⟩, fun hi => ⟨h.closures.symm ▸ hi.closure, hi.running⟩⟩

/-- The slots of an instance are what they were. -/
theorem Respects.slot_eq (h : Respects m w w') (hs : Coherent m w) {k : Nat} {κ : Closure}
    (hi : Instance m w k κ) {x a : Nat} (hx : m.Owns x) (ha : κ.env.slot? x = some a) :
    w'.slots[a]? = w.slots[a]? := by
  obtain ⟨s, hslot, hv⟩ := hs.leads k κ hi.closure x a ha
  obtain ⟨s', hs', -, heq⟩ := h.slots a s hslot
  rw [hs', hslot, heq (hv ▸ hx)]

/-- What a slot holds does not depend on later notes about other slots. -/
theorem content_append {a : Nat} {l l' : List Footprint} (h : ∀ f ∈ l, f.slot? ≠ some a) :
    content a (l ++ l') = content a l' := by
  induction l with
  | nil => rfl
  | cons f l ih =>
    have hf := h f List.mem_cons_self
    have ih := ih fun g hg => h g (List.mem_cons_of_mem _ hg)
    cases f with
    | stored v b x =>
      have hb : b ≠ a := fun hb => hf (congrArg some hb)
      simpa [content, hb] using ih
    | _ => simpa [content] using ih

theorem Watch.owns_state : m.Owns m.state.id := Or.inl rfl

theorem Watch.owns_resume : m.Owns m.resume.id := Or.inr (Or.inl rfl)

theorem Watch.owns_continuation : m.Owns m.continuation.id := Or.inr (Or.inr (Or.inl rfl))

/-- What is owed to an instance is told by its own footprints. -/
theorem Respects.debts (h : Respects m w w') (hs : Coherent m w) {k : Nat} {κ : Closure}
    (hi : Instance m w k κ) : entries w'.trail k = entries w.trail k ∧
      handings w'.trail m.continuation.id (κ.env.slot? m.continuation.id) =
        handings w.trail m.continuation.id (κ.env.slot? m.continuation.id) := by
  obtain ⟨l, hl, -⟩ := h.trail
  rw [hl]
  refine ⟨countP_append_eq fun f hf => (h.footprint hl hf).1 k κ hi, ?_⟩
  cases ha : κ.env.slot? m.continuation.id with
  | none => rfl
  | some a =>
    obtain ⟨s, hslot, hv⟩ := hs.leads k κ hi.closure _ a ha
    refine countP_append_eq fun f hf => ?_
    have hne := h.not_about hl hf hslot (hv ▸ Watch.owns_continuation)
    cases f with
    | handed v b =>
      have hb : b ≠ a := fun hb => hne (congrArg some hb)
      simp [Footprint.isHanded, hb]
    | _ => rfl

/-- Whether an instance waits is settled by its own footprints. -/
theorem Respects.waits_iff (h : Respects m w w') (hs : Coherent m w) {k : Nat} {κ : Closure}
    (hi : Instance m w k κ) : Waits m w'.trail k κ.env ↔ Waits m w.trail k κ.env := by
  obtain ⟨hent, hhand⟩ := h.debts hs hi
  unfold Waits
  rw [hent, hhand]

/-- An instance that can be dispatched still can. -/
theorem Respects.ready (h : Respects m w w') (hs : Coherent m w) {k : Nat} {κ : Closure}
    (hi : Instance m w k κ) (hr : Ready m w κ.env) : Ready m w' κ.env where
  state a ha := by
    obtain ⟨⟨s, n, hslot, hval, hn⟩, hover⟩ := hr.state a ha
    refine ⟨⟨s, n, by rw [h.slot_eq hs hi Watch.owns_state ha]; exact hslot, hval, hn⟩, fun hmem => ?_⟩
    obtain ⟨l, hl, -⟩ := h.trail
    rw [hl, List.mem_append] at hmem
    obtain hmem | hmem := hmem
    · obtain ⟨s', hs', hv⟩ := hs.leads k κ hi.closure _ a ha
      exact h.not_about hl hmem hs' (hv ▸ Watch.owns_state) rfl
    · exact hover hmem
  resume a b ha hb hclean := by
    obtain ⟨s, n, hslot, hval, hn⟩ := hclean
    rw [h.slot_eq hs hi Watch.owns_state ha] at hslot
    obtain ⟨s', j, hslot', hval', hj⟩ := hr.resume a b ha hb ⟨s, n, hslot, hval, hn⟩
    exact ⟨s', j, by rw [h.slot_eq hs hi Watch.owns_resume hb]; exact hslot', hval', hj⟩

theorem GoodStep.same (hc : w'.closures = w.closures) {l : List Footprint} {f : Footprint}
    (h : GoodStep m w l f) : GoodStep m w' l f := by
  cases f with
  | switched v a x =>
    intro hv
    obtain ⟨n, hx, hn, hover, hclean⟩ := h hv
    refine ⟨n, hx, hn, hover, fun hc' b hp => hclean hc' b ?_⟩
    obtain ⟨k, κ, hk, ha, hb⟩ := hp
    exact ⟨k, κ, ⟨hc ▸ hk.closure, hk.running⟩, ha, hb⟩
  | _ => exact h

/-- What respects the machine keeps a world coherent. -/
theorem Respects.coherent (h : Respects m w w') (hs : Coherent m w) : Coherent m w' where
  leads k κ hk := (hs.leads k κ (h.closures ▸ hk)).follows (Respects.follows h : Proceeds m none w w')
  kinds k κ hk := hs.kinds k κ (h.closures ▸ hk)
  slots := h.good
  apart j k ι κ x a hj hk := hs.apart j k ι κ x a (h.instance_iff.mp hj) (h.instance_iff.mp hk)
  waiting k κ hi hw := by
    have hi' := h.instance_iff.mp hi
    exact h.ready hs hi' (hs.waiting k κ hi' ((h.waits_iff hs hi').mp hw))
  owed k κ hi := by
    have hi' := h.instance_iff.mp hi
    obtain ⟨hent, hhand⟩ := h.debts hs hi'
    rw [hent, hhand]
    exact hs.owed k κ hi'
  -- the resume slot is untouched, and so is the last value told of it
  echo k κ b hi hb := by
    have hi' := h.instance_iff.mp hi
    obtain ⟨s, hslot, hlast⟩ := hs.echo k κ b hi' hb
    obtain ⟨s', hs', hv⟩ := hs.leads k κ hi'.closure _ b hb
    obtain ⟨l, hl, -⟩ := h.trail
    refine ⟨s, by rw [h.slot_eq hs hi' Watch.owns_resume hb]; exact hslot, ?_⟩
    rw [hl, content_append fun f hf => h.not_about hl hf hs' (hv ▸ Watch.owns_resume)]
    exact hlast
  bounds f hf a ha := by
    obtain ⟨l, hl, -⟩ := h.trail
    rw [hl, List.mem_append] at hf
    obtain hf | hf := hf
    · obtain ⟨s, hslot, -⟩ := (h.footprint hl hf).2.1 a ha
      exact (Array.getElem?_eq_some_iff.mp hslot).1
    · obtain ⟨s, hslot⟩ : ∃ s, w.slots[a]? = some s :=
        ⟨_, Array.getElem?_eq_getElem (hs.bounds f hf a ha)⟩
      obtain ⟨s', hs', -⟩ := h.slots a s hslot
      exact (Array.getElem?_eq_some_iff.mp hs').1
  trail l f l' hl := by
    obtain ⟨l₁, hl₁, -⟩ := h.trail
    rw [hl₁, List.append_eq_append_iff] at hl
    obtain ⟨as, h1, h2⟩ | ⟨as, h1, h2⟩ := hl
    · exact (hs.trail as f l' h2).same h.closures
    · cases as with
      | nil => exact (hs.trail [] f l' h2.symm).same h.closures
      | cons g as =>
        cases h2
        exact ((h.footprint hl₁ (h1 ▸ List.mem_append_right l List.mem_cons_self)).2.2.1 _).same h.closures

theorem Respects.sane (h : Respects m w w') (hs : Sane m w) : Sane m w' where
  toCoherent := h.coherent hs
  ended := by
    obtain ⟨l, hl, -⟩ := h.trail
    rw [hl]
    exact hs.ended.append fun f hf b => (h.footprint hl hf).2.2.2 b _

end

/-- A property of worlds that computations keep which leave the machine alone. -/
class Lasting (m : Watch) (E : World → Prop) : Prop where
  follows : ∀ {w w'}, Sane m w → E w → Proceeds m none w w' → E w'

instance (priority := low) (m : Watch) {E : World → Prop} [Lasts E] : Lasting m E :=
  ⟨fun _ hE hf => Lasts.persists hf.slots hE⟩

instance (m : Watch) (hosts : Bool) (env : Env) : Lasts (Scoped m hosts env) :=
  ⟨fun hw h => ⟨h.leads.persists hw, h.clear⟩⟩

instance (m : Watch) {E F : World → Prop} [he : Lasting m E] [hf : Lasting m F] :
    Lasting m fun w => E w ∧ F w :=
  ⟨fun hs h hw => ⟨he.follows hs h.1 hw, hf.follows hs h.2 hw⟩⟩

/-- From a sane world with the property `E` on, a sane world is reached and every instance is left alone
that does not wait. -/
structure Kept (m : Watch) (E : World → Prop) (w w' : World) : Prop where
  later : Later w w'
  keeps : m.Lawful w' → Sane m w → E w → Sane m w' ∧ Proceeds m none w w'

theorem Respects.kept {m : Watch} {E : World → Prop} {w w' : World} (hl : Later w w')
    (h : Sane m w → E w → Respects m w w') : Kept m E w w' :=
  ⟨hl, fun _ hs hE => ⟨(h hs hE).sane hs, (h hs hE).follows⟩⟩

theorem Kept.trans_to {m : Watch} {E F : World → Prop} [Lasting m E] {w w' w'' : World} (h : Kept m E w w')
    (hF : Sane m w → E w → Sane m w' → E w' → F w') (h' : Kept m F w' w'') : Kept m E w w'' :=
  ⟨h.later.trans h'.later, fun hl hs hE => by
    obtain ⟨hs', hf⟩ := h.keeps (hl.earlier h'.later) hs hE
    obtain ⟨hs'', hf'⟩ := h'.keeps hl hs' (hF hs hE hs' (Lasting.follows hs hE hf))
    exact ⟨hs'', hf.trans hs hf'⟩⟩

instance {m : Watch} {E : World → Prop} [Lasting m E] : Walk (Kept m E) where
  same h := Respects.kept (Walk.same h) fun hs _ => .of_same hs h.slots h.closures h.trail
  post w k := Respects.kept (Walk.post w k) fun hs _ => .of_same hs rfl rfl rfl
  schedule w ms k := Respects.kept (Walk.schedule w ms k) fun hs _ => .of_same hs rfl rfl rfl
  mark w f hf := Respects.kept (Walk.mark w f hf) fun hs _ => .ofCell hs hf
  trans h h' := h.trans_to (fun _ _ _ hE => hE) h'

instance (m : Watch) : Conditional (Kept m) where
  sound := Sane m
  walk _ := inferInstance
  mono hE h := ⟨h.later, fun hl hs hF => h.keeps hl hs (hE _ hF)⟩
  trans_to := Kept.trans_to
  vacuous hl hE := ⟨hl, fun _ _ h => absurd h hE⟩

/-- The computation leaves the machine alone wherever `E` holds. -/
abbrev Stays (m : Watch) (E : World → Prop) (x : Run α) : Prop := Runs (Kept m E) x

namespace Stays

variable {m : Watch} {E F : World → Prop} {x : Run α}

theorem mono (h : Stays m E x) (hE : ∀ w, Sane m w → F w → E w) : Stays m F x :=
  ⟨fun w => ⟨(h.left w).later, fun hl hs hF => (h.left w).keeps hl hs (hE w hs hF)⟩⟩

theorem of_spares (hl : Runs Later x) (h : ∀ w, Sane m w → E w → Respects m w (x.left w)) : Stays m E x :=
  ⟨fun w => Respects.kept (hl.left w) (h w)⟩

end Stays

/-- Calls and callbacks leave the machine alone. -/
class CallsStay (m : Watch) (c : Calls) : Prop where
  call : ∀ (f : Value) (args : List Value), Stays m (fun _ => True) (c.call f args)
  exec : ∀ (k : Callback), Stays m (fun _ => True) (c.exec k)

instance {m : Watch} {E : World → Prop} {c : Calls} [h : CallsStay m c] : CallsRun (Kept m E) c where
  call f args := (h.call f args).mono fun _ _ _ => trivial
  exec k := (h.exec k).mono fun _ _ _ => trivial

end Resumable
