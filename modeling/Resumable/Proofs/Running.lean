import Resumable.Proofs.Evaluating
import Resumable.Proofs.Watch

/-!
# `Proofs.Running`: worlds in which a machine runs

An instance of a machine is a closure of the function that runs its dispatch loop; the scope of the
closure holds the slots of the instance. The trail tells how often the function was called and how often it
was handed to an awaiter, and so whether the instance **waits**: whether a call of the function is still
owed. `Sane` is what holds of a world whenever other code runs. An instance that waits is ready to be
dispatched, and what does not wait is left alone (`Proceeds`).

**Contents**
* `Lawful`: a trail in which awaiters call what they were handed at most once, and do not refuse it.
* `Completes`, `Faults`, `Accounted`: the instances that were marked as over had completed their cell, or make
  it fail.
* `Instance`, `Waits`, `Ready`: the instances of a machine.
* `GoodStep`: what a footprint must be like, given the ones before it.
* `Coherent`, `Sane`, `Proceeds`: the invariant of worlds, and what a computation does to them.
-/

namespace Resumable

open Resumable.Expr

/-! ### The trail -/

namespace Footprint

/-- The slot a footprint is about. -/
def slot? : Footprint → Option Nat
  | .stored _ a _ | .switched _ a _ | .missed _ a | .handed _ a | .rejected _ a => some a
  | _ => none

/-- A call of a closure. -/
def isEntered (k : Nat) : Footprint → Bool
  | .entered j => j == k
  | _ => false

/-- A request to call the function in a variable. -/
def isHanded (v a : Nat) : Footprint → Bool
  | .handed w b => w == v && b == a
  | _ => false

/-- A request to call the function in a variable that failed. -/
def isRejected (v : Nat) : Footprint → Bool
  | .rejected w _ => w == v
  | _ => false

end Footprint

/-- How often a closure was called. -/
def entries (trail : List Footprint) (k : Nat) : Nat := trail.countP (·.isEntered k)

/-- How often the function in a variable was handed to an awaiter. -/
def handings (trail : List Footprint) (v : Nat) : Option Nat → Nat
  | some a => trail.countP (·.isHanded v a)
  | none => 0

/-- What the slot of an integer variable holds, as the trail tells: the value that was stored last, and 0
before. -/
def content (a : Nat) : List Footprint → Value
  | [] => .int .int 0
  | .stored _ b v :: rest => if b = a then v else content a rest
  | _ :: rest => content a rest

/-- Whether a node is a switch over the variable with number `v`. -/
def Expr.turnsHere (v : Nat) : Expr → Bool
  | .node _ _ _ (.switch x _ _ _) => x.asVar?.any (·.id == v)
  | _ => false

/-- Whether a lambda itself turns on the variable with number `v`. -/
def Expr.turnsOn (v : Nat) (e : Expr) : Bool := e.lambdaBody?.any fun b => b.ownNodes.any (·.turnsHere v)

/-- The awaiters behave: at every moment the function that runs the dispatch loop, which turns on `state`,
was called at most once for each time it was handed to one, after its first call, and none refused it. -/
structure Lawful (state continuation : Var) (w : World) : Prop where
  once : ∀ (k : Nat) κ, w.closures[k]? = some κ → κ.lambda.turnsOn state.id = true →
    ∀ l, l <:+ w.trail → entries l k ≤ handings l continuation.id (κ.env.slot? continuation.id) + 1
  taken : ∀ a, Footprint.rejected continuation.id a ∉ w.trail

instance (state continuation : Var) (w : World) : Decidable (Lawful state continuation w) :=
  decidable_of_iff
    ((∀ k : Fin w.closures.size, w.closures[k].lambda.turnsOn state.id = true → ∀ l ∈ w.trail.tails,
        entries l k ≤ handings l continuation.id (w.closures[k].env.slot? continuation.id) + 1) ∧
      ∀ f ∈ w.trail, f.isRejected continuation.id = false)
    ⟨fun ⟨h, h'⟩ =>
        { once := fun k κ hk ht l hl => by
            obtain ⟨hlt, rfl⟩ := Array.getElem?_eq_some_iff.mp hk
            exact h ⟨k, hlt⟩ ht l ((List.mem_tails l w.trail).mpr hl)
          taken := fun a ha => by simpa [Footprint.isRejected] using h' _ ha },
      fun h =>
        ⟨fun k ht l hl =>
            h.once k _ (Array.getElem?_eq_getElem k.isLt) ht l ((List.mem_tails l w.trail).mp hl),
          fun f hf => by
            cases f with
            | rejected i a =>
              simpa [Footprint.isRejected] using fun heq : i = continuation.id => h.taken a (heq ▸ hf)
            | _ => rfl⟩⟩

/-- The awaiters behave towards the machine. -/
abbrev Watch.Lawful (m : Watch) : World → Prop := Resumable.Lawful m.state m.continuation

theorem Lawful.earlier {state continuation : Var} {w w' : World} (h : Lawful state continuation w') (hl : Later w w') :
    Lawful state continuation w where
  once k κ hk ht l hsub := h.once k κ (hl.closures k κ hk) ht l (hsub.trans hl.trail)
  taken a ha := h.taken a (hl.trail.subset ha)

/-! ### The end of an instance -/

/-- An outcome without an error has been offered to the cell at an address. -/
def Offered (c : Nat) (trail : List Footprint) : Prop := ∃ value taken, Footprint.offered c none value taken ∈ trail

/-- The instance with the state slot `a` has completed its cell: what happened last is that a call returned
which completes what `cell` stands for in a scope of the instance, and an outcome without an error had been
offered to that cell. -/
def Completes (state cell : Var) (a : Nat) (l : List Footprint) : Prop :=
  ∃ scope t c l', l = .completed cell.id scope (.pointer t c) :: l' ∧ scope.slot? state.id = some a ∧ Offered c l'

/-- The instance with the state slot `a` makes its cell fail: what happens first is that a call begins which
makes what `cell` stands for in a scope of the instance fail, unless no turn is left for it. -/
def Faults (state cell : Var) (a : Nat) (l : List Footprint) : Prop :=
  ∃ l', l = l' ++ [.cut] ∨ ∃ scope, l = l' ++ [.failing cell.id scope] ∧ scope.slot? state.id = some a

/-- Every instance that was marked as over had completed its cell just before, or makes it fail right then. -/
def Accounted (state cell : Var) (trail : List Footprint) : Prop :=
  ∀ l a l', trail = l ++ .stored state.id a (.int .int (-1)) :: l' →
    Completes state cell a l' ∨ Faults state cell a l

section
variable {state cell : Var} {a : Nat} {l l' : List Footprint}

theorem Faults.append (h : Faults state cell a l) (l₀ : List Footprint) : Faults state cell a (l₀ ++ l) := by
  obtain ⟨l₁, rfl | ⟨scope, rfl, hscope⟩⟩ := h
  · exact ⟨l₀ ++ l₁, .inl (List.append_assoc l₀ l₁ _).symm⟩
  · exact ⟨l₀ ++ l₁, .inr ⟨scope, (List.append_assoc l₀ l₁ _).symm, hscope⟩⟩

/-- What comes later takes nothing back. -/
theorem Accounted.append (h : Accounted state cell l')
    (hl : ∀ f ∈ l, ∀ b, f ≠ .stored state.id b (.int .int (-1))) : Accounted state cell (l ++ l') := by
  intro l₁ b l₂ heq
  obtain ⟨as, rfl, has⟩ | ⟨as, rfl, has⟩ := List.append_eq_append_iff.mp heq
  · exact (h as b l₂ has).imp_right (·.append l)
  · cases as with
    | nil => exact (h [] b l₂ has.symm).imp_right fun hf => by simpa using hf.append l₁
    | cons g as =>
      obtain ⟨rfl, -⟩ := List.cons.inj has
      exact absurd rfl (hl _ (by simp) b)

theorem Accounted.cons {f : Footprint} (h : Accounted state cell l)
    (hf : ∀ b, f ≠ .stored state.id b (.int .int (-1))) : Accounted state cell (f :: l) :=
  h.append (l := [f]) fun g hg => by rwa [List.mem_singleton.mp hg]

/-- An instance is marked as over. -/
theorem Accounted.mark (h : Accounted state cell l') (hout : Completes state cell a l' ∨ Faults state cell a l)
    (hl : ∀ f ∈ l, ∀ b, f ≠ .stored state.id b (.int .int (-1))) :
    Accounted state cell (l ++ .stored state.id a (.int .int (-1)) :: l') := by
  intro l₁ b l₂ heq
  obtain ⟨as, rfl, has⟩ | ⟨as, rfl, has⟩ := List.append_eq_append_iff.mp heq
  · cases as with
    | nil =>
      cases has
      rwa [List.append_nil]
    | cons g as =>
      obtain ⟨-, has⟩ := List.cons.inj has
      refine (h as b l₂ has).imp_right fun hf => ?_
      rw [← List.singleton_append, ← List.append_assoc]
      exact hf.append _
  · cases as with
    | nil =>
      cases has
      rwa [List.append_nil] at hout
    | cons g as =>
      obtain ⟨rfl, -⟩ := List.cons.inj has
      exact absurd rfl (hl _ (by simp) b)

end

/-! ### Instances -/

/-- A closure of the function that runs the dispatch loop. -/
structure Instance (m : Watch) (w : World) (k : Nat) (κ : Closure) : Prop where
  closure : w.closures[k]? = some κ
  running : Obeys m .running κ.lambda

/-- A call of the function is owed. -/
def Waits (m : Watch) (trail : List Footprint) (k : Nat) (env : Env) : Prop :=
  entries trail k ≤ handings trail m.continuation.id (env.slot? m.continuation.id)

/-- The closure is an instance that waits. -/
def Waiting (m : Watch) (w : World) (k : Nat) : Prop :=
  ∃ κ, Instance m w k κ ∧ Waits m w.trail k κ.env

/-- The machine can be dispatched: it is not over, its state slot holds a state, and when this is a
cleanup block, so does its resume slot. -/
structure Ready (m : Watch) (w : World) (env : Env) : Prop where
  state : ∀ a, env.slot? m.state.id = some a →
    w.Holds a m.Known ∧ Footprint.stored m.state.id a (.int .int (-1)) ∉ w.trail
  resume : ∀ a b, env.slot? m.state.id = some a → env.slot? m.resume.id = some b → w.Holds a m.clean →
    w.Holds b m.good

/-- The two slots belong to one instance. -/
def Paired (m : Watch) (w : World) (a b : Nat) : Prop :=
  ∃ k κ, Instance m w k κ ∧ κ.env.slot? m.state.id = some a ∧ κ.env.slot? m.resume.id = some b

/-- What a footprint must be like when those in `l` are there already. -/
def GoodStep (m : Watch) (w : World) (l : List Footprint) : Footprint → Prop
  | .switched v a x => v = m.state.id →
    ∃ n, x = some (.int .int n) ∧ m.Known n ∧ Footprint.stored m.state.id a (.int .int (-1)) ∉ l ∧
      (m.clean n → ∀ b, Paired m w a b → ∃ j, content b l = .int .int j ∧ m.good j)
  | .missed v _ => v ≠ m.state.id
  | .stored v _ x =>
    (v = m.state.id → ∃ n, x = .int .int n ∧ (m.Known n ∨ n = -1)) ∧
      (v = m.resume.id → ∃ n, x = .int .int n ∧ (m.good n ∨ n = -1)) ∧
      (m.parked v → ∃ n, x = .int .int n ∧ m.good n)
  | _ => True

/-- What the slots of a machine's variables may hold. -/
structure SlotGood (m : Watch) (s : Slot) : Prop where
  state : s.var = m.state.id → ∃ n, s.value = .int .int n ∧ (m.Known n ∨ n = -1)
  resume : s.var = m.resume.id → ∃ n, s.value = .int .int n ∧ (m.good n ∨ n = -1)
  parked : m.parked s.var → ∃ n, s.value = .int .int n ∧ m.good n

/-- A scope without variables of the machine. -/
def Env.Clear (env : Env) (m : Watch) : Prop := ∀ x, m.Owns x → env.slot? x = none

/-- The scope fits the world; where the machine may be opened, no instance of it is in scope. -/
structure Scoped (m : Watch) (hosts : Bool) (env : Env) (w : World) : Prop where
  leads : env.Leads w
  clear : hosts = true → env.Clear m

/-- The kinds of closures. -/
inductive ClosureGood (m : Watch) (κ : Closure) : Prop
  | outside (hosts : Bool) (h : Obeys m (.outside hosts) κ.lambda) (hc : hosts = true → κ.env.Clear m)
  | running (h : Obeys m .running κ.lambda) (hg : ∀ x, m.Owns x → m.gone x → κ.env.slot? x = none)

/-- What holds of a world at every moment. -/
structure Coherent (m : Watch) (w : World) : Prop where
  leads : ∀ (k : Nat) κ, w.closures[k]? = some κ → κ.env.Leads w
  kinds : ∀ (k : Nat) κ, w.closures[k]? = some κ → ClosureGood m κ
  slots : ∀ (a : Nat) s, w.slots[a]? = some s → SlotGood m s
  apart : ∀ j k ι κ x a, Instance m w j ι → Instance m w k κ → m.Owns x → ι.env.slot? x = some a →
    κ.env.slot? x = some a → j = k
  waiting : ∀ k κ, Instance m w k κ → Waits m w.trail k κ.env → Ready m w κ.env
  owed : ∀ k κ, Instance m w k κ →
    handings w.trail m.continuation.id (κ.env.slot? m.continuation.id) ≤ entries w.trail k
  echo : ∀ k κ b, Instance m w k κ → κ.env.slot? m.resume.id = some b →
    ∃ s, w.slots[b]? = some s ∧ s.value = content b w.trail
  bounds : ∀ f ∈ w.trail, ∀ a, f.slot? = some a → a < w.slots.size
  trail : ∀ l f l', w.trail = l ++ f :: l' → GoodStep m w l' f

/-- What holds of a world whenever other code runs: besides, the instances that were marked as over are accounted
for. -/
structure Sane (m : Watch) (w : World) : Prop extends Coherent m w where
  ended : Accounted m.state m.cell w.trail

instance (m : Watch) (w : World) : Coe (Sane m w) (Coherent m w) := ⟨Sane.toCoherent⟩

/-- A slot of the machine that belongs to no instance which is waited for; the one called `k?` is left to
the code that runs it. -/
structure Shielded (m : Watch) (k? : Option Nat) (w : World) (a : Nat) : Prop where
  owned : ∃ s, w.slots[a]? = some s ∧ m.Owns s.var
  idle : ∀ k κ x, Instance m w k κ → m.Owns x → κ.env.slot? x = some a →
    ¬ Waiting m w k ∧ k? ≠ some k

/-- What a computation does: it adds footprints, closures and slots, and touches no instance but those
that wait and, where one is named, the one that it is part of. -/
structure Proceeds (m : Watch) (k? : Option Nat) (w w' : World) : Prop where
  later : Later w w'
  quiet : ∀ f l, w'.trail = l ++ w.trail → f ∈ l →
    (∀ a, f.slot? = some a → a < w.slots.size → ¬ Shielded m k? w a) ∧
      ∀ k κ, Instance m w k κ → ¬ Waiting m w k → k? ≠ some k → f.isEntered k = false
  slots : ∀ (a : Nat) s, w.slots[a]? = some s → ∃ s', w'.slots[a]? = some s' ∧ s'.var = s.var
  shielded : ∀ a, Shielded m k? w a → w'.slots[a]? = w.slots[a]?
  fresh : ∀ k κ x a, Instance m w' k κ → w.closures[k]? = none → m.Owns x → κ.env.slot? x = some a →
    w.slots[a]? = none

section
variable {m : Watch} {k? : Option Nat} {w w' w'' : World}

/-- A world with the same slots, closures and trail is no further. -/
theorem Proceeds.of_same (hs : w'.slots = w.slots) (hc : w'.closures = w.closures)
    (ht : w'.trail = w.trail) : Proceeds m k? w w' where
  later := ⟨ht ▸ List.suffix_refl _, fun k κ hk => by rw [hc]; exact hk⟩
  quiet f l hl hf := by
    rw [ht] at hl
    rw [List.self_eq_append_left.mp hl] at hf
    cases hf
  slots a s h := ⟨s, by rw [hs]; exact h, rfl⟩
  shielded a _ := by rw [hs]
  fresh k κ x a hi hn _ _ := by
    have := hi.closure
    rw [hc, hn] at this
    cases this

theorem Proceeds.refl (w : World) : Proceeds m k? w w := .of_same rfl rfl rfl

theorem Instance.later {k : Nat} {κ : Closure} (h : Instance m w k κ) (hl : Later w w') :
    Instance m w' k κ :=
  ⟨hl.closures k κ h.closure, h.running⟩

/-- A closure that was there before is still the same. -/
theorem Instance.earlier {k : Nat} {κ ι : Closure} (h : Instance m w' k κ) (hl : Later w w')
    (hk : w.closures[k]? = some ι) : Instance m w k κ := by
  have := hl.closures k ι hk
  rw [h.closure] at this
  cases this
  exact ⟨hk, h.running⟩

/-- The slots of an instance that is not waited for are shielded. -/
theorem Sane.shielded (h : Sane m w) {k : Nat} {κ : Closure} (hi : Instance m w k κ)
    (hw : ¬ Waiting m w k) (hk : k? ≠ some k) {x a : Nat} (hx : m.Owns x)
    (ha : κ.env.slot? x = some a) : Shielded m k? w a where
  owned := by
    obtain ⟨s, hs, hv⟩ := h.leads k κ hi.closure x a ha
    exact ⟨s, hs, hv ▸ hx⟩
  idle j ι y hj hy hjy := by
    -- both scopes lead to the slot of one variable
    obtain ⟨s, hs, hv⟩ := h.leads k κ hi.closure x a ha
    obtain ⟨s', hs', hv'⟩ := h.leads j ι hj.closure y a hjy
    rw [hs] at hs'
    cases hs'
    have hxy : y = x := hv'.symm.trans hv
    subst hxy
    obtain rfl := h.apart j k ι κ y a hj hi hy hjy ha
    exact ⟨hw, hk⟩

theorem Proceeds.size_le (h : Proceeds m k? w w') {a : Nat} {s : Slot} (hs : w.slots[a]? = some s) :
    a < w'.slots.size := by
  obtain ⟨s', hs', -⟩ := h.slots a s hs
  exact (Array.getElem?_eq_some_iff.mp hs').1

theorem countP_append_eq {p : Footprint → Bool} {l l' : List Footprint}
    (h : ∀ f ∈ l, p f = false) : (l ++ l').countP p = l'.countP p := by
  rw [List.countP_append, List.countP_eq_zero.mpr (fun f hf => by simp [h f hf]), Nat.zero_add]

/-- An instance that is not waited for stays so. -/
theorem Proceeds.not_waiting (h : Proceeds m k? w w') (hs : Sane m w) {k : Nat} {κ : Closure}
    (hi : Instance m w k κ) (hw : ¬ Waiting m w k) (hk : k? ≠ some k) : ¬ Waiting m w' k := by
  rintro ⟨ι, hι, hwait⟩
  cases (hi.later h.later).closure.symm.trans hι.closure
  obtain ⟨l, hl⟩ := h.later.trail
  refine hw ⟨κ, hi, ?_⟩
  unfold Waits at hwait ⊢
  rw [← hl] at hwait
  have hent : entries (l ++ w.trail) k = entries w.trail k :=
    countP_append_eq fun f hf => (h.quiet f l hl.symm hf).2 k κ hi hw hk
  have hhand : handings (l ++ w.trail) m.continuation.id (κ.env.slot? m.continuation.id) =
      handings w.trail m.continuation.id (κ.env.slot? m.continuation.id) := by
    cases ha : κ.env.slot? m.continuation.id with
    | none => rfl
    | some a =>
      refine countP_append_eq fun f hf => ?_
      have hcont : m.Owns m.continuation.id := Or.inr (Or.inr (Or.inl rfl))
      have hshield := hs.shielded hi hw hk hcont ha
      obtain ⟨s, hslot, -⟩ := hs.leads k κ hi.closure _ a ha
      have hlt := (Array.getElem?_eq_some_iff.mp hslot).1
      cases f with
      | handed v b =>
        by_cases hb : b = a
        · subst hb
          exact absurd hshield ((h.quiet _ l hl.symm hf).1 b rfl hlt)
        · simp [Footprint.isHanded, hb]
      | _ => rfl
  rw [hent, hhand] at hwait
  exact hwait

/-- A slot that is shielded stays so. -/
theorem Proceeds.shields (h : Proceeds m k? w w') (hs : Sane m w) {a : Nat} (ha : Shielded m k? w a) :
    Shielded m k? w' a where
  owned := by
    rw [h.shielded a ha]
    exact ha.owned
  idle k κ x hi hx hxa := by
    cases hk : w.closures[k]? with
    | none =>
      obtain ⟨s, hslot, -⟩ := ha.owned
      rw [h.fresh k κ x a hi hk hx hxa] at hslot
      cases hslot
    | some ι =>
      have hi' := hi.earlier h.later hk
      obtain ⟨hw, hne⟩ := ha.idle k κ x hi' hx hxa
      exact ⟨h.not_waiting hs hi' hw hne, hne⟩

/-- One computation after the other. -/
theorem Proceeds.trans (h : Proceeds m k? w w') (hs : Sane m w) (h' : Proceeds m k? w' w'') :
    Proceeds m k? w w'' where
  later := h.later.trans h'.later
  quiet f l hl hf := by
    obtain ⟨l₁, hl₁⟩ := h.later.trail
    obtain ⟨l₂, hl₂⟩ := h'.later.trail
    have heq : l = l₂ ++ l₁ := by
      rw [← hl₂, ← hl₁, ← List.append_assoc] at hl
      exact (List.append_cancel_right hl).symm
    rw [heq, List.mem_append] at hf
    obtain hf | hf := hf
    · -- what the second computation left is about slots and instances of the first world too
      obtain ⟨hslot, hent⟩ := h'.quiet f l₂ hl₂.symm hf
      refine ⟨fun a ha hlt hshield => ?_, fun k κ hi hw hk => ?_⟩
      · obtain ⟨s, hs', -⟩ := hshield.owned
        exact hslot a ha (h.size_le hs') (h.shields hs hshield)
      · exact hent k κ (hi.later h.later) (h.not_waiting hs hi hw hk) hk
    · exact h.quiet f l₁ hl₁.symm hf
  slots a s hs := by
    obtain ⟨s', hs', hv⟩ := h.slots a s hs
    obtain ⟨s'', hs'', hv'⟩ := h'.slots a s' hs'
    exact ⟨s'', hs'', hv'.trans hv⟩
  shielded a ha := (h'.shielded a (h.shields hs ha)).trans (h.shielded a ha)
  fresh k κ x a hi hn hx hxa := by
    cases hk : w'.closures[k]? with
    | none =>
      have := h'.fresh k κ x a hi hk hx hxa
      cases hw : w.slots[a]? with
      | none => rfl
      | some s =>
        obtain ⟨s', hs', -⟩ := h.slots a s hw
        rw [this] at hs'
        cases hs'
    | some ι => exact h.fresh k κ x a (hi.earlier h'.later hk) hn hx hxa

theorem Env.Leads.follows {env : Env} (h : env.Leads w) (hf : Proceeds m k? w w') : env.Leads w' :=
  h.persists hf.slots

theorem Scoped.follows {hosts : Bool} {env : Env} (h : Scoped m hosts env w)
    (hf : Proceeds m k? w w') : Scoped m hosts env w' :=
  ⟨h.leads.follows hf, h.clear⟩

/-- What leaves every instance alone leaves all but one alone. -/
theorem Proceeds.weaken {k : Nat} (h : Proceeds m none w w') : Proceeds m (some k) w w' := by
  have hshield : ∀ a, Shielded m (some k) w a → Shielded m none w a := fun a ha =>
    ⟨ha.owned, fun j κ x hi hx hxa => ⟨(ha.idle j κ x hi hx hxa).1, by simp⟩⟩
  exact
    { h with
      quiet := fun f l hl hf =>
        ⟨fun a ha hlt hs => (h.quiet f l hl hf).1 a ha hlt (hshield a hs),
          fun j κ hi hw _ => (h.quiet f l hl hf).2 j κ hi hw (by simp)⟩
      shielded := fun a ha => h.shielded a (hshield a ha) }

/-- Code that runs a waiting instance leaves alone what does not wait. -/
theorem Proceeds.of_waiting {k : Nat} (h : Proceeds m (some k) w w') (hk : Waiting m w k) :
    Proceeds m none w w' := by
  have hne : ∀ j, ¬ Waiting m w j → some k ≠ some j := by
    rintro j hj heq
    cases heq
    exact hj hk
  have hshield : ∀ a, Shielded m none w a → Shielded m (some k) w a := fun a ha =>
    ⟨ha.owned, fun j κ x hi hx hxa =>
      ⟨(ha.idle j κ x hi hx hxa).1, hne j (ha.idle j κ x hi hx hxa).1⟩⟩
  exact
    { h with
      quiet := fun f l hl hf =>
        ⟨fun a ha hlt hs => (h.quiet f l hl hf).1 a ha hlt (hshield a hs),
          fun j κ hi hw _ => (h.quiet f l hl hf).2 j κ hi hw (hne j hw)⟩
      shielded := fun a ha => h.shielded a (hshield a ha) }

end

end Resumable
