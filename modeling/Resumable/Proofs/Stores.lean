import Resumable.Proofs.Drives

/-!
# `Proofs.Stores`: the stores of a machine

What each store of the machine does to an instance that can be dispatched. A store either takes place, or it
stops without a trace because its variable is not in scope. Where it takes place, the slots of the instance
hold what they should.

**Contents**
* `Evaluates`, `evalNode_puts`: a plain store of an integer.
* `Watch.Moves.drives`, `Watch.Enters.drives`, and so on: one kind of store each.
* `Watch.Raw.drives`: the stores that may stand anywhere keep the instance going.
-/

namespace Resumable

open Resumable.Expr Run

/-- How code of the machine itself stops: without fuel, or because a variable is not in scope. -/
def Harmless : Stop → Prop
  | .exhausted | .raised (.refusal _) => True
  | _ => False

theorem Harmless.not_catchable {s : Stop} (h : Harmless s) : isCatchable s = false := by
  unfold Harmless at h
  split at h
  · rfl
  · rfl
  · cases h

/-- A tree evaluates to an integer with a property and changes nothing. -/
def Evaluates (n : Nat) (x : Expr) (env : Env) (w : World) (N : Int → Prop) : Prop :=
  (∃ j, N j ∧ (Calls.level n).eval x env w = .ok (some (.int .int j)) w) ∨
    ∃ s, Harmless s ∧ (Calls.level n).eval x env w = .error s w

section
variable {m : Watch} {k : Nat} {κ : Closure} {env : Env} {w : World} {n : Nat} {N : Int → Prop}

theorem Watch.Number.evaluates {x : Expr} (h : Watch.Number N x) : Evaluates n x env w N := by
  cases n with
  | zero => exact .inr ⟨.exhausted, trivial, rfl⟩
  | succ n =>
    unfold Watch.Number at h
    split at h
    · obtain ⟨rfl, rfl, hN⟩ := h
      exact .inl ⟨_, hN, rfl⟩
    · cases h

theorem bind_ok {x : Run α} {f : α → Run β} {a : α} {w w' : World} (h : x w = .ok a w') :
    (x >>= f) w = f a w' := by
  show EStateM.bind x f w = _
  unfold EStateM.bind
  rw [h]

theorem bind_error {x : Run α} {f : α → Run β} {s : Stop} {w w' : World} (h : x w = .error s w') :
    (x >>= f) w = .error s w' := by
  show EStateM.bind x f w = _
  unfold EStateM.bind
  rw [h]

theorem slotAt_of_some {a : Nat} {s : Slot} (h : w.slots[a]? = some s) : slotAt a w = .ok s w := by
  rw [slotAt_run, Array.getD_eq_getD_getElem?, h]
  rfl

/-- A variable that is in scope is read from its slot. -/
theorem eval_var {i r : Nat} {t : Ty} {v : Var} {a : Nat} {s : Slot} (c : Calls)
    (ha : env.slot? v.id = some a) (hs : w.slots[a]? = some s) :
    evalNode c (.node i r t (.var v)) env w = .ok (some s.value) w := by
  have hfind : env.find? v = some a := ha
  unfold evalNode
  simp only [hfind]
  rw [bind_ok (slotAt_of_some hs)]
  rfl

theorem eval_var_unscoped {i r : Nat} {t : Ty} {v : Var} (c : Calls) (ha : env.slot? v.id = none) :
    ∃ s, Harmless s ∧ evalNode c (.node i r t (.var v)) env w = .error s w := by
  have hfind : env.find? v = none := ha
  unfold evalNode
  simp only [hfind]
  exact ⟨.raised (.refusal _), trivial, rfl⟩

/-- A read of an integer slot gives a number that the slot may hold. -/
theorem Watch.Reads.evaluates {x : Expr} {v : Var} (h : Watch.Reads v x) (hl : env.Leads w)
    (hv : ∀ a s, env.slot? v.id = some a → w.slots[a]? = some s → s.var = v.id →
      ∃ j, s.value = .int .int j ∧ N j) : Evaluates n x env w N := by
  cases n with
  | zero => exact .inr ⟨.exhausted, trivial, rfl⟩
  | succ n =>
    unfold Watch.Reads at h
    split at h
    · obtain ⟨rfl, -⟩ := h
      cases ha : env.slot? _ with
      | none => exact .inr (eval_var_unscoped (Calls.level n) ha)
      | some a =>
        obtain ⟨s, hs, hvar⟩ := hl _ a ha
        obtain ⟨j, hj, hN⟩ := hv a s ha hs hvar
        exact .inl ⟨j, hN, by rw [← hj]; exact eval_var (Calls.level n) ha hs⟩
    · cases h

theorem place_var {i r : Nat} {t : Ty} {v : Var} {a : Nat} (c : Calls)
    (ha : env.slot? v.id = some a) :
    place c env (.node i r t (.var v)) w = .ok ⟨.slot a, [], v.type⟩ w := by
  have hfind : env.find? v = some a := ha
  rw [place]
  simp only [hfind]
  rfl

theorem place_var_unscoped {i r : Nat} {t : Ty} {v : Var} (c : Calls) (ha : env.slot? v.id = none) :
    ∃ s, Harmless s ∧ place c env (.node i r t (.var v)) w = .error s w := by
  have hfind : env.find? v = none := ha
  rw [place]
  simp only [hfind]
  exact ⟨.raised (.refusal _), trivial, rfl⟩

/-- A store into a slot that holds a value leaves its mark on the trail. -/
theorem writePlace_slot {a : Nat} {s : Slot} {t : Ty} {x : Value} (h : w.slots[a]? = some s) :
    writePlace ⟨.slot a, [], t⟩ x w = .ok () (w.put a ⟨s.var, x⟩) := by
  unfold writePlace
  rw [bind_ok (a := s.value)]
  · show fillSlot a x w = _
    rw [fillSlot_run, Array.getD_eq_getD_getElem?, h]
    rfl
  · show (slotAt a >>= fun s => pure s.value) w = _
    rw [bind_ok (slotAt_of_some h)]
    rfl

theorem convertTo_int (j : Int) : convertTo (some (.int .int j)) .int = pure (some (.int .int j)) := by
  rfl

/-- A plain store either stores or stops without a trace. -/
theorem evalNode_puts {x : Expr} {v : Var} {V : Expr → Prop} (hx : Watch.Puts v V x)
    (hint : v.type = .int) (hl : env.Leads w) (hval : ∀ value, V value → Evaluates n value env w N) :
    (∃ a s j, env.slot? v.id = some a ∧ w.slots[a]? = some s ∧ s.var = v.id ∧ N j ∧
      evalNode (Calls.level n) x env w = .ok (some (.int .int j)) (w.put a ⟨v.id, .int .int j⟩)) ∨
    ∃ s, Harmless s ∧ evalNode (Calls.level n) x env w = .error s w := by
  unfold Watch.Puts at hx
  split at hx
  · -- the place is found, the value evaluated and stored; either of the first two may refuse
    rename_i i r t i' r' t' u value
    obtain ⟨rfl, hV⟩ := hx
    have hnode : evalNode (Calls.level n)
        (.node i r t (.assign .plain (.node i' r' t' (.var u)) value)) env = (do
          let p ← place (Calls.level n) env (.node i' r' t' (.var u))
          let v ← evalAs (Calls.level n) value p.type env
          some <$> storeInto p v) := rfl
    rw [hnode]
    cases ha : env.slot? u.id with
    | none =>
      obtain ⟨s, hs, hplace⟩ := place_var_unscoped (i := i') (r := r') (t := t') (w := w)
        (Calls.level n) ha
      exact .inr ⟨s, hs, bind_error hplace⟩
    | some a =>
      obtain ⟨s, hslot, hvar⟩ := hl _ a ha
      rw [bind_ok (place_var _ ha), hint]
      obtain ⟨j, hj, hrun⟩ | ⟨s', hs', hrun⟩ := hval value hV
      · refine .inl ⟨a, s, j, rfl, hslot, hvar, hj, ?_⟩
        have has : evalAs (Calls.level n) value .int env w = .ok (some (.int .int j)) w := by
          unfold evalAs
          rw [bind_ok hrun, convertTo_int]
          rfl
        have hstore : storeInto ⟨.slot a, [], .int⟩ (some (.int .int j)) w =
            .ok (.int .int j) (w.put a ⟨s.var, .int .int j⟩) := by
          show (writePlace _ _ >>= fun _ => pure _) w = _
          rw [bind_ok (writePlace_slot hslot)]
          rfl
        rw [bind_ok has, ← hvar]
        show EStateM.map some (storeInto _ _) w = _
        unfold EStateM.map
        rw [hstore]
      · refine .inr ⟨s', hs', bind_error ?_⟩
        unfold evalAs
        exact bind_error hrun
  · cases hx

/-! ### Stores of the machine -/

/-- A store of an integer into a slot of the instance that nobody else waits for. -/
theorem evalNode_own {x : Expr} {v : Var} {V : Expr → Prop} (hx : Watch.Puts v V x)
    (hint : v.type = .int) (hown : m.Owns v.id) {P Q : World → Prop} {M : World → Int → Prop}
    (hidle : ∀ w, P w → Idle m k κ w)
    (hval : ∀ w value, Sane m w → ScopeOf m κ env w → P w → V value → Evaluates n value env w (M w))
    (hgood : ∀ w j, M w j → SlotGood m ⟨v.id, .int .int j⟩)
    (hended : ∀ w a j, Sane m w → P w → κ.env.slot? v.id = some a → M w j →
      Accounted m.state m.cell (w.put a ⟨v.id, .int .int j⟩).trail)
    (hQ : ∀ w a s j, Sane m w → P w → κ.env.slot? v.id = some a → w.slots[a]? = some s → M w j →
      Q (w.put a ⟨v.id, .int .int j⟩)) :
    Drives m k (fun w => ScopeOf m κ env w ∧ P w) (evalNode (Calls.level n) x env) (fun _ => Q)
      fun s w => Harmless s ∧ P w := by
  refine .of_outcome inferInstance fun w hs ⟨hframe, hP⟩ => ?_
  have hi := hidle w hP
  obtain ⟨a, s, j, ha, hslot, hvar, hj, heq⟩ | ⟨s, hharm, heq⟩ :=
    evalNode_puts (n := n) hx hint hframe.leads fun value => hval w value hs hframe hP
  · rw [hframe.own _ hown] at ha
    exact .inl ⟨_, _, heq, ⟨hs.fill hi hown ha (hgood w j hj), hended w a j hs hP ha hj⟩,
      .fill hi.inst hown ha hslot hvar.symm, hQ w a s j hs hP ha hslot hj⟩
  · exact .inr ⟨s, w, heq, hs, .refl _, hharm, hP⟩

theorem Watch.Fair.slotGood_state (hm : m.Fair) {j : Int} (h : m.Known j ∨ j = -1) :
    SlotGood m ⟨m.state.id, .int .int j⟩ where
  state _ := ⟨j, rfl, h⟩
  resume heq := absurd heq hm.state_ne_resume
  parked hp := absurd Watch.owns_state (hm.parked _ hp)

theorem Watch.Fair.slotGood_resume (hm : m.Fair) {j : Int} (h : m.good j ∨ j = -1) :
    SlotGood m ⟨m.resume.id, .int .int j⟩ where
  state heq := absurd heq.symm hm.state_ne_resume
  resume _ := ⟨j, rfl, h⟩
  parked hp := absurd Watch.owns_resume (hm.parked _ hp)

/-- Storing the number of a state marks no instance as over. -/
theorem Watch.Fair.accounted (hm : m.Fair) (hs : Sane m w) {j : Int} (hj : m.Known j) {x a : Nat} :
    Accounted m.state m.cell (w.put a ⟨x, .int .int j⟩).trail :=
  hs.accounted_put fun _ heq => hm.minus (by cases heq; exact hj)

theorem World.Holds.fill_self {a : Nat} {s : Slot} {x : Nat} {j : Int} {P : Int → Prop}
    (h : w.slots[a]? = some s) (hj : P j) : (w.put a ⟨x, .int .int j⟩).Holds a P :=
  ⟨_, j, World.put_self h, rfl, hj⟩

/-- The state slot and the resume slot are two. -/
theorem Sane.slots_apart (hs : Sane m w) (hm : m.Fair) (hi : Instance m w k κ) {a b : Nat}
    (ha : κ.env.slot? m.state.id = some a) (hb : κ.env.slot? m.resume.id = some b) : a ≠ b := by
  rintro rfl
  obtain ⟨s, hslot, hvar⟩ := hs.leads k κ hi.closure _ a ha
  obtain ⟨s', hslot', hvar'⟩ := hs.leads k κ hi.closure _ a hb
  rw [hslot] at hslot'
  cases hslot'
  exact hm.state_ne_resume (hvar.symm.trans hvar')

section
variable {a : Nat} {s : Resumable.Slot} {j : Int} {armed : Bool}

/-- Storing a known number to the state slot leaves the slots in place. -/
theorem Placed.fill_state (hm : m.Fair) (h : Placed m κ w) (ha : κ.env.slot? m.state.id = some a)
    (hslot : w.slots[a]? = some s) (hj : m.Known j) :
    Placed m κ (w.put a ⟨m.state.id, .int .int j⟩) := by
  intro b hb
  obtain rfl : a = b := Option.some.inj (ha.symm.trans hb)
  refine ⟨.fill_self hslot hj, fun hmem => ?_⟩
  obtain heq | hmem := List.mem_cons.mp hmem
  · cases heq
    exact hm.minus hj
  · exact (h a hb).2 hmem

theorem Placed.fill_resume (hm : m.Fair) (hs : Sane m w) (hi : Instance m w k κ) (h : Placed m κ w)
    (ha : κ.env.slot? m.resume.id = some a) : Placed m κ (w.put a ⟨m.resume.id, .int .int j⟩) := by
  intro b hb
  have hba := hs.slots_apart hm hi hb ha
  refine ⟨(h b hb).1.congr (World.put_ne hba), fun hmem => ?_⟩
  obtain heq | hmem := List.mem_cons.mp hmem
  · exact hm.state_ne_resume (Footprint.stored.inj heq).1
  · exact (h b hb).2 hmem

theorem Aimed.fill_state (hm : m.Fair) (hs : Sane m w) (hi : Instance m w k κ) (h : Aimed m κ w)
    (ha : κ.env.slot? m.state.id = some a) : Aimed m κ (w.put a ⟨m.state.id, .int .int j⟩) :=
  fun b hb => (h b hb).congr (World.put_ne (hs.slots_apart hm hi ha hb).symm)

theorem Aimed.fill_resume (ha : κ.env.slot? m.resume.id = some a) (hslot : w.slots[a]? = some s)
    (hj : m.good j) : Aimed m κ (w.put a ⟨m.resume.id, .int .int j⟩) := by
  intro b hb
  obtain rfl : a = b := Option.some.inj (ha.symm.trans hb)
  exact .fill_self hslot hj

/-- An instance whose resume slot holds a state is ready wherever it is. -/
theorem Going.of_aimed (hi : Idle m k κ w) (hp : Placed m κ w) (ha : Aimed m κ w) :
    Going m k κ armed w where
  idle := hi
  ready := ⟨hp, fun _ b _ hb _ => ha b hb⟩
  aimed _ := ha

/-- Going on in a state that runs no cleanup block. -/
theorem Going.fill_state (hm : m.Fair) (hs : Sane m w) (h : Going m k κ armed w)
    (ha : κ.env.slot? m.state.id = some a) (hslot : w.slots[a]? = some s) (hj : m.good j) :
    Going m k κ armed (w.put a ⟨m.state.id, .int .int j⟩) where
  idle := h.idle.fill
  ready :=
    { state := Placed.fill_state hm h.ready.state ha hslot (.inl hj)
      resume := by
        intro b _ hb _ hclean
        obtain rfl : a = b := Option.some.inj (ha.symm.trans hb)
        obtain ⟨s', i, hs', hi, hc⟩ := hclean
        rw [World.put_self hslot] at hs'
        cases hs'
        cases hi
        exact absurd hc (hm.disjoint j hj) }
  aimed harmed := (h.aimed harmed).fill_state hm hs h.idle.inst ha

variable (n)

theorem evalNode_state (hm : m.Fair) {x : Expr} {V : Expr → Prop} (hx : Watch.Puts m.state V x)
    (hval : ∀ w value, Sane m w → ScopeOf m κ env w → Going m k κ armed w → V value →
      Evaluates n value env w m.good) :
    Drives m k (fun w => ScopeOf m κ env w ∧ Going m k κ armed w) (evalNode (Calls.level n) x env)
      (fun _ => Going m k κ armed) fun s w => Harmless s ∧ Going m k κ armed w :=
  evalNode_own hx hm.types.1 Watch.owns_state (fun _ h => h.idle) hval
    (fun _ _ hj => hm.slotGood_state (.inl (.inl hj))) (fun _ _ _ hs _ _ hj => hm.accounted hs (.inl hj))
    fun _ _ _ _ hs h ha hslot hj => h.fill_state hm hs ha hslot hj

theorem Watch.Moves.drives (hm : m.Fair) {x : Expr} (hx : m.Moves x) :
    Drives m k (fun w => ScopeOf m κ env w ∧ Going m k κ armed w) (evalNode (Calls.level n) x env)
      (fun _ => Going m k κ armed) fun s w => Harmless s ∧ Going m k κ armed w :=
  evalNode_state n hm hx fun _ _ _ _ _ hv => Watch.Number.evaluates hv

/-- What a cleanup block has parked is a state. -/
theorem Watch.Returns.drives (hm : m.Fair) {x : Expr} (hx : m.Returns x) :
    Drives m k (fun w => ScopeOf m κ env w ∧ Going m k κ armed w) (evalNode (Calls.level n) x env)
      (fun _ => Going m k κ armed) fun s w => Harmless s ∧ Going m k κ armed w := by
  refine evalNode_state n hm hx fun w value hs hframe _ hv => ?_
  obtain ⟨v, hparked, hreads⟩ := hv
  refine hreads.evaluates hframe.leads fun a s _ hslot hvar => ?_
  exact (hs.slots a s hslot).parked (hvar ▸ hparked.parked)

/-- Going on where the resume slot says. -/
theorem Watch.Resumes.drives (hm : m.Fair) {x : Expr} (hx : m.Resumes x) (harmed : armed = true) :
    Drives m k (fun w => ScopeOf m κ env w ∧ Going m k κ armed w) (evalNode (Calls.level n) x env)
      (fun _ => Going m k κ armed) fun s w => Harmless s ∧ Going m k κ armed w := by
  refine evalNode_state n hm hx fun w value hs hframe hgoing hreads => ?_
  refine Watch.Reads.evaluates hreads hframe.leads fun a s ha hslot _ => ?_
  rw [hframe.own _ Watch.owns_resume] at ha
  obtain ⟨s', j, hslot', hval, hj⟩ := hgoing.aimed harmed a ha
  rw [hslot] at hslot'
  cases hslot'
  exact ⟨j, hval, hj⟩

/-- Saying where a cleanup block goes on, after the store that enters it or before. -/
theorem Watch.Aims.drives (hm : m.Fair) {x : Expr} (hx : m.Aims x) :
    Drives m k (fun w => ScopeOf m κ env w ∧ Idle m k κ w ∧ Placed m κ w)
      (evalNode (Calls.level n) x env) (fun _ w => Going m k κ true w)
      fun s w => Harmless s ∧ Idle m k κ w ∧ Placed m κ w :=
  evalNode_own hx hm.types.2 Watch.owns_resume (fun _ h => h.1)
    (fun _ _ _ _ _ hv => Watch.Number.evaluates hv) (fun _ _ hj => hm.slotGood_resume (.inl hj))
    (fun _ _ _ hs _ _ hj => hm.accounted hs (.inl hj))
    fun _ _ _ _ hs h ha hslot hj =>
      .of_aimed h.1.fill (h.2.fill_resume hm hs h.1.inst ha) (.fill_resume ha hslot hj)

/-- Going on in a cleanup block once the resume slot is aimed. -/
theorem Watch.Enters.drives_aimed (hm : m.Fair) {x : Expr} (hx : m.Enters x) :
    Drives m k (fun w => ScopeOf m κ env w ∧ Going m k κ true w)
      (evalNode (Calls.level n) x env) (fun _ w => Going m k κ true w)
      fun s w => Harmless s ∧ Going m k κ true w :=
  evalNode_own hx hm.types.1 Watch.owns_state (fun _ h => h.idle)
    (fun _ _ _ _ _ hv => Watch.Number.evaluates hv) (fun _ _ hj => hm.slotGood_state (.inl (.inr hj)))
    (fun _ _ _ hs _ _ hj => hm.accounted hs (.inr hj))
    fun _ _ _ _ hs h ha hslot hj =>
      .of_aimed h.idle.fill (Placed.fill_state hm h.ready.state ha hslot (.inr hj))
        ((h.aimed rfl).fill_state hm hs h.idle.inst ha)

theorem Watch.Enters.drives (hm : m.Fair) {x : Expr} (hx : m.Enters x) :
    Drives m k (fun w => ScopeOf m κ env w ∧ Going m k κ armed w)
      (evalNode (Calls.level n) x env) (fun _ w => Idle m k κ w ∧ Placed m κ w)
      fun s w => Harmless s ∧ Going m k κ armed w :=
  evalNode_own hx hm.types.1 Watch.owns_state (fun _ h => h.idle)
    (fun _ _ _ _ _ hv => Watch.Number.evaluates hv) (fun _ _ hj => hm.slotGood_state (.inl (.inr hj)))
    (fun _ _ _ hs _ _ hj => hm.accounted hs (.inr hj))
    fun _ _ _ _ _ h ha hslot hj => ⟨h.idle.fill, Placed.fill_state hm h.ready.state ha hslot (.inr hj)⟩

/-- The machine is over once it has completed its cell. -/
theorem Watch.Ends.drives (hm : m.Fair) {x : Expr} (hx : m.Ends x) :
    Drives m k (fun w => ScopeOf m κ env w ∧ Idle m k κ w ∧ Done m κ w)
      (evalNode (Calls.level n) x env) (fun _ w => Idle m k κ w) fun s _ => Harmless s := by
  refine (evalNode_own hx hm.types.1 Watch.owns_state (fun _ h => h.1)
    (fun _ _ _ _ _ hv => Watch.Number.evaluates hv) (fun _ _ hj => hm.slotGood_state (.inr hj))
    (fun w a j hs h ha hj => ?_) fun _ _ _ _ _ h _ _ _ => h.1.fill).mono (fun _ _ h => h) (fun _ _ _ h => h)
      fun _ _ _ h => h.1
  obtain rfl : j = -1 := hj
  exact hs.ended.mark (l := []) (.inl (h.2 a ha)) (by simp)

/-- A store into a variable that is not in scope stops at once. -/
theorem evalNode_unscoped {x : Expr} {v : Var} {V : Expr → Prop} {P : World → Prop}
    {Q : Option Value → World → Prop} (hx : Watch.Puts v V x)
    (hv : ∀ w, Sane m w → P w → env.slot? v.id = none) :
    Drives m k P (evalNode (Calls.level n) x env) Q fun s _ => Harmless s := by
  refine .of_outcome inferInstance fun w hs hw => .inr ?_
  unfold Watch.Puts at hx
  split at hx
  · rename_i i r t i' r' t' u value
    obtain ⟨rfl, -⟩ := hx
    obtain ⟨s, hharm, hplace⟩ := place_var_unscoped (i := i') (r := r') (t := t') (w := w)
      (Calls.level n) (hv w hs hw)
    exact ⟨s, w, bind_error hplace, hs, .refl _, hharm⟩
  · cases hx

/-- A variable of the machine whose declaration was dropped is in no scope. -/
theorem Sane.gone (hs : Sane m w) (hi : Instance m w k κ) {x : Nat} (hx : m.Owns x) (hg : m.gone x) :
    κ.env.slot? x = none := by
  cases hs.kinds k κ hi.closure with
  | outside hosts h _ => exact absurd hi.running h.not_running
  | running _ hgone => exact hgone x hx hg

/-- Parking the resume slot, in a cleanup block. -/
theorem Watch.Parks.drives (hm : m.Fair) {x : Expr} (hx : m.Parks x) (harmed : armed = true) :
    Drives m k (fun w => ScopeOf m κ env w ∧ Going m k κ armed w) (evalNode (Calls.level n) x env)
      (fun _ => Going m k κ armed) fun s w => Harmless s ∧ Going m k κ armed w := by
  obtain ⟨v, hparked, hputs⟩ := hx
  refine .of_outcome inferInstance fun w hs hw => ?_
  have hval : ∀ value, Watch.Reads m.resume value → Evaluates n value env w m.good := by
    intro value hreads
    refine hreads.evaluates hw.1.leads fun a s ha hslot _ => ?_
    rw [hw.1.own _ Watch.owns_resume] at ha
    obtain ⟨s', j, hslot', hval, hj⟩ := hw.2.aimed harmed a ha
    rw [hslot] at hslot'
    cases hslot'
    exact ⟨j, hval, hj⟩
  obtain ⟨a, s, j, ha, hslot, hvar, hj, heq⟩ | ⟨s, hharm, heq⟩ :=
    evalNode_puts (n := n) hputs hparked.type hw.1.leads hval
  · -- the slot is none of the instance's, and it holds a state again
    have hown := hm.parked _ hparked.parked
    have hspares : Respects m w (w.put a ⟨v.id, .int .int j⟩) := .fill hs hslot hvar.symm (hvar ▸ hown)
      { state := fun heq => absurd (.inl heq) hown
        resume := fun heq => absurd (.inr (.inl heq)) hown
        parked := fun _ => ⟨j, rfl, hj⟩ }
    exact .inl ⟨_, _, heq, hspares.sane hs, hspares.follows, Lasting.follows hs hw.2 hspares.follows⟩
  · exact .inr ⟨s, w, heq, hs, .refl _, hharm, hw.2⟩

/-- A read does nothing. -/
theorem Watch.Peeks.drives {P : World → Prop} {x : Expr} (hx : m.Peeks x) :
    Drives m k (fun w => ScopeOf m κ env w ∧ P w) (evalNode (Calls.level n) x env) (fun _ => P)
      fun s w => Harmless s ∧ P w := by
  have hvar : ∃ i r t v, x = .node i r t (.var v) := by
    have hreads : ∀ {v}, Watch.Reads v x → ∃ i r t v, x = .node i r t (.var v) := by
      intro v h
      unfold Watch.Reads at h
      split at h
      · exact ⟨_, _, _, _, rfl⟩
      · cases h
    obtain h | ⟨_, _, h⟩ := hx <;> exact hreads h
  obtain ⟨i, r, t, v, rfl⟩ := hvar
  refine .of_outcome inferInstance fun w hs ⟨hframe, hP⟩ => ?_
  cases ha : env.slot? v.id with
  | none =>
    obtain ⟨s, hharm, heq⟩ := eval_var_unscoped (w := w) (i := i) (r := r) (t := t) (Calls.level n) ha
    exact .inr ⟨s, w, heq, hs, .refl _, hharm, hP⟩
  | some a =>
    obtain ⟨s, hslot, -⟩ := hframe.leads _ a ha
    exact .inl ⟨_, w, eval_var _ ha hslot, hs, .refl _, hP⟩

/-- A store of the machine that is not special keeps the instance going. -/
theorem Watch.Raw.drives (hm : m.Fair) {x : Expr} (hx : m.Raw x) (hsp : ¬ m.Special armed x) :
    Drives m k (fun w => ScopeOf m κ env w ∧ Going m k κ armed w) (evalNode (Calls.level n) x env)
      (fun _ => Going m k κ armed) fun s _ => Harmless s := by
  -- a variable that was dropped stops the store
  have hgone : ∀ {v : Var} {V : Expr → Prop}, Watch.Puts v V x → m.Owns v.id → m.gone v.id →
      Drives m k (fun w => ScopeOf m κ env w ∧ Going m k κ armed w) (evalNode (Calls.level n) x env)
        (fun _ => Going m k κ armed) fun s _ => Harmless s := by
    intro v V hputs hown hg
    refine evalNode_unscoped n hputs fun w hs hw => ?_
    rw [hw.1.own _ hown]
    exact hs.gone hw.2.idle.inst hown hg
  cases hx with
  | moves h => exact (h.drives n hm).mono (fun _ _ h => h) (fun _ _ _ h => h) fun _ _ _ h => h.1
  | enters h =>
    by_cases hs : m.gone m.state.id
    · exact hgone h Watch.owns_state hs
    by_cases hr : m.gone m.resume.id
    · -- without a resume slot, the state slot is all there is
      refine (h.drives n hm).mono (fun _ _ h => h) (fun _ w hs' hw => ?_) fun _ _ _ h => h.1
      have hnone := hs'.gone hw.1.inst Watch.owns_resume hr
      exact .of_aimed hw.1 hw.2 fun b hb => by
        rw [hnone] at hb
        cases hb
    exact absurd (.enters h hs hr) hsp
  | aims h =>
    refine (h.drives n hm).mono (fun _ _ hw => ⟨hw.1, hw.2.idle, hw.2.ready.state⟩) (fun _ _ _ hw => ?_)
      fun _ _ _ hw => hw.1
    exact ⟨hw.idle, hw.ready, fun _ => hw.aimed rfl⟩
  | ends h =>
    by_cases hs : m.gone m.state.id
    · exact hgone h Watch.owns_state hs
    exact absurd (.ends h hs) hsp
  | returns h => exact (h.drives n hm).mono (fun _ _ h => h) (fun _ _ _ h => h) fun _ _ _ h => h.1
  | resumes h =>
    cases armed with
    | false => exact absurd (.resumes h rfl) hsp
    | true => exact (h.drives n hm rfl).mono (fun _ _ h => h) (fun _ _ _ h => h) fun _ _ _ h => h.1
  | parks h =>
    cases armed with
    | false => exact absurd (.parks h rfl) hsp
    | true => exact (h.drives n hm rfl).mono (fun _ _ h => h) (fun _ _ _ h => h) fun _ _ _ h => h.1
  | peeks h => exact h.drives n |>.mono (fun _ _ h => h) (fun _ _ _ h => h) fun _ _ _ h => h.1

end

end

end Resumable
