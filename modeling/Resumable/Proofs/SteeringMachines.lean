import Resumable.Proofs.Exploring
import Resumable.Proofs.Minding
import Resumable.Proofs.SteeringAssembly

/-!
# `Proofs.SteeringMachines`: a machine keeps to the numbers that the checker reaches

The variables that steer a machine are its slots and those in which its cleanup blocks park the number of the
state to go on in. The numbers that are live are those that the checker reaches, the number of the state where
errors end, and -1. These are closed under what the cases of the machine store. So the lambda that the machine
becomes heeds this helm, and it heeds the helm of every other machine because it knows nothing of it.

**Contents**
* `Machine.helm`: the variables that steer a machine, and its live numbers.
* `Machine.live_of_follows`, `closed_own`: these are closed under what the cases store.
* `Moored`, `Moored.sees`: what a helm has to know of the names of a machine.
* `enclose_heeds`, `polish_heeds`, `made_heeds`: from a body to the lambda that it becomes.
-/

namespace Resumable

open Resumable.Expr Split Build

/-! ### The helm of a machine -/

/-- The variable holds numbers of states of the machine. -/
inductive Machine.Steers (M : Machine) (i : Nat) : Prop
  | state {v : Var} (hv : M.stateVar = some v) (hi : v.id = i)
  | resume {v : Var} (hv : M.resumeVar = some v) (hi : v.id = i)
  | parked {g : GuardRef} {v : Var} (hv : (M.graph.guard g).parked = some v) (hi : v.id = i)

/-- The number may come to be dispatched: the checker reaches it, or errors end there, or the machine is
over. -/
inductive Machine.Live (M : Machine) (n : Int) : Prop
  | done (hn : n = -1)
  | rethrow {st : State} (hst : st ∈ M.stateList) (hk : st.kind = .rethrow) (hn : st.id = n)
  | reached (hn : 0 ≤ n) (hr : n.toNat ∈ M.reachable)

/-- The variables that steer the machine, and its live numbers. -/
def Machine.helm (M : Machine) : Helm := ⟨M.Steers, M.Live⟩

/-- The machine was read off the splitter and the plan. -/
structure Machine.Of (M : Machine) (s : Splitter) (p : Plan) : Prop where
  graph : M.graph = s.graph
  states : M.states = s.states.toList
  stateVar : M.stateVar = some p.stateVar
  resumeVar : M.resumeVar = some p.resumeVar

/-- Every state has the number of its place. -/
def Machine.Numbered (M : Machine) : Prop := ∀ (i : Nat) r, M.states[i]? = some r → (M.graph.state r).id = i

section
variable {M M' : Machine} {s : Splitter} {p : Plan} {r : StateRef} {n : Int}

/-- What may follow a state is told by the graph and the slots. -/
theorem Machine.successors_eq (hg : M.graph = M'.graph) (hs : M.stateVar = M'.stateVar) (hr : M.resumeVar = M'.resumeVar)
    (st : State) : M.successors st = M'.successors st := by
  unfold successors storedStates
  rw [hg, hs, hr]

/-- Every state of the splitter stands in the machine under its number. -/
theorem Machine.Of.numbered (h : M.Of s p) (hs : s.Numbered) (hr : r ∈ s.states) :
    M.Places (s.graph.state r).id (s.graph.state r).id.toNat ∧ M.numbered (s.graph.state r).id.toNat = s.graph.state r := by
  obtain ⟨i, hi⟩ := Array.mem_iff_getElem?.mp hr
  have hid : (s.graph.state r).id.toNat = i := by rw [(hs i r hi).2]; rfl
  have hget : M.states[i]? = some r := by rw [h.states, Array.getElem?_toList, hi]
  refine ⟨⟨hs.nonneg hr, rfl, ?_⟩, ?_⟩
  · rw [hid]
    exact (List.getElem?_eq_some_iff.mp hget).1
  · unfold Machine.numbered
    rw [hid, List.getD_eq_getElem?_getD, hget, h.graph]
    rfl

theorem Machine.Of.inherits (h : M.Of s p) (hs : s.Numbered) : M.Numbered := fun i r hi => by
  rw [h.states, Array.getElem?_toList] at hi
  rw [h.graph]
  exact (hs i r hi).2

theorem Machine.Of.mem_stateList (h : M.Of s p) (hr : r ∈ s.states) : s.graph.state r ∈ M.stateList := by
  unfold Machine.stateList
  rw [h.states, h.graph]
  exact List.mem_map_of_mem (Array.mem_toList_iff.mpr hr)

/-- A live number of a state other than that where errors end is reached. -/
theorem Machine.Of.mem_reachable (h : M.Of s p) (hs : s.Numbered) (hr : r ∈ s.states)
    (hk : (s.graph.state r).kind ≠ .rethrow) (hl : M.Live (s.graph.state r).id) :
    (s.graph.state r).id.toNat ∈ M.reachable := by
  cases hl with
  | done hn => exact absurd (hs.nonneg hr) (by omega)
  | rethrow hst hkind hn =>
    obtain ⟨q, hq, rfl⟩ := List.mem_map.mp hst
    rw [h.graph] at hkind hn
    have hq : q ∈ s.states := Array.mem_toList_iff.mp (h.states ▸ hq)
    exact absurd (hs.eq hq hr hn ▸ hkind) hk
  | reached _ hr => exact hr

/-- **The live numbers are closed** under what the case of a state may store. -/
theorem Machine.live_of_follows {c : Voyage} (h : M.Of c.view.last c.plan) (hs : c.view.last.Numbered)
    (hr : r ∈ c.view.last.states) (hn : c.Follows r n) (hl : M.Live (c.view.last.graph.state r).id) : M.Live n := by
  have hpos : 0 < M.states.length := Nat.zero_lt_of_lt (h.numbered hs hr).1.lt
  obtain hn' | hn' | ⟨q, ⟨hq, hk⟩, hn'⟩ | ⟨hk, hsucc⟩ := hn.reached
  · exact .done hn'
  · subst hn'
    exact .reached (Int.le_refl 0) M.zero_mem_reachable
  · exact .rethrow (h.mem_stateList hq) hk hn'.symm
  · obtain hn' | hn' | ⟨q, hq, rfl⟩ := hn.known
    · exact .done hn'
    · subst hn'
      exact .reached (Int.le_refl 0) M.zero_mem_reachable
    · have hplaces := (h.numbered hs hq).1
      refine .reached hplaces.nonneg (M.mem_reachable_of_successor hpos (h.mem_reachable hs hr hk hl) ?_ hplaces)
      rw [(h.numbered hs hr).2]
      have hsame : ∀ st, M.successors st = c.machine.successors st := M.successors_eq h.graph h.stateVar h.resumeVar
      rwa [hsame]

theorem Machine.closed_own {c : Voyage} (hhelm : c.helm = M.helm) (h : M.Of c.view.last c.plan)
    (hs : c.view.last.Numbered) : c.Closed := by
  refine ⟨fun _ => ?_, fun _ => ?_, fun _ r hr n hn hl => ?_⟩ <;> rw [hhelm] at *
  · exact .done rfl
  · exact .reached (Int.le_refl 0) M.zero_mem_reachable
  · exact M.live_of_follows h hs hr hn hl

theorem closed_other {c : Voyage} (ho : c.view.own = false) : c.Closed where
  halt h := by simp [ho] at h
  start h := by simp [ho] at h
  follows h := by simp [ho] at h

end

/-! ### A body -/

section
variable {c : Voyage} {body x : Expr} {q : Supply} {reporter : Reporter} {moments : Array Moment} {s₁ s₂ : Splitter}
  {slots : List Var}

theorem tidy_start (hq : c.view.base.Below q) : Tidy c { supply := q, reporter, moments } where
  base := hq
  states r := by
    rw [show Graph.state _ r = Inhabited.default by simp [Graph.state]]
    exact shaped_new rfl rfl (.inr (.inl rfl)) (fun h => by cases h) fun v h => by cases h
  guards g := by
    rw [Before.guard_of_size_le (Nat.zero_le g)]
    exact ⟨(fun h hh => by cases hh), fun v h => by cases h⟩
  parked g v hv := by
    rw [Before.guard_of_size_le (Nat.zero_le g)] at hv
    cases hv
  rethrow r h := by cases h
  caught v h := by cases h
  vars v h := absurd h (Array.not_mem_empty v)

/-- The splitting is over, and the state where errors end may be made. -/
def Voyage.emitting (c : Voyage) : Voyage := { c with ending := True }

instance [hc : c.Sees] : c.emitting.Sees := { hc with state := ⟨hc.state.type, hc.state.steers⟩, resume := ⟨hc.resume.type, hc.resume.steers⟩ }

theorem Tidy.emitting (h : Tidy c s₁) : Tidy c.emitting s₁ where
  base := h.base
  states r := ⟨(h.states r).stmts, (h.states r).result, (h.states r).number, fun hk => ⟨trivial, ((h.states r).ended hk).2⟩⟩
  guards g := ⟨(h.guards g).handlers, (h.guards g).caught⟩
  parked := h.parked
  rethrow := h.rethrow
  caught := h.caught
  vars := h.vars

/-- **A body becomes a loop with what stands around it**, which keeps to the licence of a function. -/
theorem enclose_heeds [hc : c.Sees] [hs : c.Splits] (hclosed : c.emitting.Closed) (hbody : Heeds c.helm .none body)
    (hq : c.view.base.Below q) {u : Unit}
    (h1 : Lower.splitBody body c.plan { supply := q, reporter, moments } = .ok u s₁)
    (h2 : (do assemble (← emitDispatch) : Split _) c.plan s₁ = .ok (x, slots) s₂) (hlast : c.view.last = s₂) :
    Heeds c.helm c.helm.body x ∧ ∀ g v, (s₂.graph.guard g).parked = some v → v.id ≤ s₂.supply.names := by
  have : Outer c body := ⟨hbody⟩
  have hb1 := ((inferInstance : Keeps (Lower.splitBody body)).later c.plan _ u s₁ h1).2
  obtain ⟨loop, s, hdispatch, h2⟩ := exists_of_bind h2
  have hb := ((inferInstance : Keeps emitDispatch).later c.plan s₁ loop s hdispatch).2
  have hb' := ((inferInstance : Keeps (assemble loop)).later c.plan s _ s₂ h2).2
  have hr' := (inferInstance : Retaining (assemble loop)).retains c.plan s _ s₂ h2
  have hplaced := (hb1.numbered numbered_start).placed
  rw [← hlast] at hb' hr'
  obtain ⟨-, ht1⟩ := (splitBody_heedful (c := c)).heeding _ (tidy_start hq) u s₁ h1 (hb.trans hb')
  obtain ⟨hloop, ht⟩ := emitDispatch_emits hclosed trivial hs.still ht1.emitting hplaced loop s hdispatch hb' hr'
  obtain ⟨hx, ht2⟩ := assemble_heeding hclosed s ht (x, slots) s₂ h2 (hlast ▸ .refl s₂)
  exact ⟨hx.heeds.mono hclosed.within, ht2.parked⟩

end

/-! ### The passes over the body -/

section
variable {h : Helm} {z : Licence} {x y : Expr} {name : String} {ignore : List Var} {config : LowerConfig} {s s' : Lowering}

/-- Polishing keeps to a licence that treats all variables alike. -/
theorem polish_heeds (hz : z.Even) (hx : Heeds h z x) (hrun : Lower.polish name ignore x config s = .ok y s') :
    Heeds h z y := by
  obtain ⟨w, q, hrescope, -, hrest⟩ := Lower.polish_run hrun
  have hw := ((rescope_abides (K := Licence.Even) hx ignore) _ _ _ hrescope).1.heeds z hz hx
  obtain hoptimize | ⟨rfl, -⟩ := hrest
  · exact ((optimize_abides config.alike w) _ _ _ hoptimize).1.heeds z hz hw
  · exact hw

theorem Helm.body_even (h : Helm) : h.body.Even := fun _ _ _ hn => hn

end

/-! ### A lambda with a machine -/

/-- None of the numbers that were handed out in between belongs to a variable that steers. -/
def Helm.Clear (h : Helm) (q q' : Supply) : Prop := ∀ i, q.names < i → i ≤ q'.names → ¬ h.steers i

theorem Helm.Clear.mono {h : Helm} {q q' q₁ q₁' : Supply} (hclear : h.Clear q q') (hq : q.Below q₁) (hq' : q₁'.Below q') :
    h.Clear q₁ q₁' :=
  fun i hi hle => hclear i (Nat.lt_of_le_of_lt hq.names hi) (Nat.le_trans hle hq'.names)

/-- The variables of the target do not steer. -/
def Helm.Avoids (h : Helm) : Target → Prop
  | .async _ cell continuation => ¬ h.steers cell.id ∧ ¬ h.steers continuation.id
  | .iterator _ params dispose current =>
    (∀ v ∈ params, ¬ h.steers v.id) ∧ ¬ h.steers dispose.id ∧ ¬ h.steers current.id

/-- What a helm knows of the names of a machine whose plan was made from the number `k` on. -/
structure Moored (h : Helm) (own : Bool) (p : Plan) (k : Nat) (q : Supply) (b : Splitter) : Prop where
  slots : ∀ i, i = k + 1 ∨ i = k + 2 → (h.steers i ↔ own = true)
  plan : ∀ i, k + 2 < i → i ≤ q.names → ¬ h.steers i
  parks : own = true → ∀ g v, (b.graph.guard g).parked = some v → h.steers v.id
  parked : ∀ i, q.names < i → i ≤ b.supply.names → h.steers i →
    own = true ∧ ∃ g v, (b.graph.guard g).parked = some v ∧ v.id = i
  target : h.Avoids p.target

/-- The voyage of a helm while a body is split. -/
def Helm.voyage (h : Helm) (own : Bool) (p : Plan) (q : Supply) (b : Splitter) : Voyage where
  helm := h
  view := ⟨own, false, q, b⟩
  plan := p
  numbers := (⟨own, false, q, b⟩ : Outlook).Numbers
  turning := False
  ending := False

section
variable {h : Helm} {own : Bool} {p : Plan} {k : Nat} {q : Supply} {b : Splitter} {isIterator : Bool}

instance : (h.voyage own p q b).Splits := ⟨id, id, rfl⟩

theorem Moored.sees (hm : Moored h own p k q b) (hp : Lower.Planned p k isIterator) (hq : k + 3 ≤ q.names) :
    (h.voyage own p q b).Sees where
  state := ⟨congrArg Var.type hp.stateVar, (congrArg Var.id hp.stateVar) ▸ hm.slots _ (.inl rfl)⟩
  resume := ⟨congrArg Var.type hp.resumeVar, (congrArg Var.id hp.resumeVar) ▸ hm.slots _ (.inr rfl)⟩
  excVar := (congrArg Var.id hp.excVar) ▸ hm.plan (k + 3) (Nat.lt_succ_self _) hq
  target := by
    have htarget := hm.target
    unfold Helm.Avoids at htarget
    exact htarget
  parks := hm.parks
  parked := hm.parked
  numbers _ hn := hn
  halt := .inl rfl

end

section
variable {h : Helm} {own : Bool} {config : LowerConfig} {s s' s₁ : Lowering} {e y body : Expr} {name : String}
  {kind : LambdaKind} {params : List Var} {target : Build Target} {p : Plan} {b : Splitter} {t : Target} {q q' : Supply}

/-- The target is that of an async lambda, or that of an iterator with the parameters. -/
def Lower.Aims (target : Build Target) (params : List Var) : Prop :=
  (∃ backend, target = Lower.asyncTarget backend) ∨ ∃ shape, target = Lower.iteratorTarget shape params

/-- A target takes two names. -/
theorem Lower.Aims.names (ht : Lower.Aims target params) (hrun : target q = .ok t q') : q'.names = q.names + 2 := by
  obtain ⟨_, rfl⟩ | ⟨_, rfl⟩ := ht <;>
  · cases hrun
    rfl

/-- The variables of a target are those of the lambda, and new ones. -/
theorem Lower.Aims.free (ht : Lower.Aims target params) (hrun : target q = .ok t q')
    (hparams : ∀ v ∈ params, ¬ h.steers v.id) (hclear : h.Clear q q') : h.Avoids t := by
  obtain ⟨_, rfl⟩ | ⟨_, rfl⟩ := ht <;> cases hrun
  · exact ⟨hclear _ (by simp) (by simp), hclear _ (by simp) (by simp)⟩
  · exact ⟨hparams, hclear _ (by simp) (by simp), hclear _ (by simp) (by simp)⟩

/-- The numbers of a lambda with a machine, in the order in which they were handed out. -/
structure Lower.Made.Names (s s' : Lowering) (target : Build Target) (p : Plan) (q : Supply) (b : Splitter)
    (isIterator : Bool) : Prop where
  planned : Lower.Planned p s.supply.names isIterator
  target : ∃ q₀ : Supply, q₀.names = s.supply.names + 5 ∧ target q₀ = .ok p.target q
  body : q.Below b.supply
  rest : b.supply.Below s'.supply
  parked : ∀ g v, (b.graph.guard g).parked = some v → q.names < v.id
  numbered : b.Numbered

/-- The machine that is recorded. -/
def Lower.recorded (name : String) (kind : LambdaKind) (p : Plan) (b : Splitter) : Machine where
  name
  kind
  graph := b.graph
  states := b.states.toList
  stateVar := some p.stateVar
  resumeVar := some p.resumeVar
  cellVar := p.target.cellVar?
  continuationVar := p.target.continuationVar?

theorem Lower.recorded_of (name : String) (kind : LambdaKind) (p : Plan) (b : Splitter) :
    (Lower.recorded name kind p b).Of b p := ⟨rfl, rfl, rfl, rfl⟩

/-- **The lambda that a machine becomes** does to the variables of a helm what it may, when the helm is that of
the machine or knows nothing of it. -/
theorem made_heeds [ho : Onward target]
    (hrun : Lower.Made config s e name kind params body target y s' p b) :
    ∃ q, Lower.Made.Names s s' target p q b (kind == .iterator) ∧ ∀ (h : Helm) (own : Bool),
      Moored h own p s.supply.names q b → (own = true → h = (Lower.recorded name kind p b).helm) →
      (∀ v ∈ params, ¬ h.steers v.id) → Heeds h .none body →
      Heeds h .none y ∧ ∀ g v, (b.graph.guard g).parked = some v → v.id ≤ b.supply.names := by
  obtain @⟨s₁, s₂, s₃, u, b₁, x, z, slots, hplan, h1, h2, hs₂, h3, h4, -⟩ := hrun
  obtain ⟨q₀, -, hnames, htarget, hp, -⟩ := Lower.plan_run hplan
  have hq₁ := ho.below _ _ _ htarget
  have hb1 := ((inferInstance : Keeps (Lower.splitBody body)).later p _ u b₁ h1).2
  have hb := hb1.trans ((inferInstance : Keeps (do assemble (← emitDispatch) : Split _)).later p b₁ _ b h2).2
  have hs₃ := ((inferInstance : Keeps (Lower.polish name (slots ++ params) x)).later config s₂ z s₃ h3).2
  rw [hs₂] at hs₃
  have hnumbered : b.Numbered := hb.numbered numbered_start
  refine ⟨s₁.supply, ⟨hp, ⟨q₀, hnames, htarget⟩, hb.supply, hs₃.trans (Onward.below _ _ _ h4),
    fun g v hv => hb.parked g (Nat.zero_le g) v hv, hnumbered⟩, fun h own hm howns hparams hbody => ?_⟩
  have hsees := hm.sees hp (Nat.le_trans (hnames ▸ Nat.add_le_add_left (by decide) _) hq₁.names)
  have hclosed : (h.voyage own p s₁.supply b).emitting.Closed := by
    cases own with
    | false => exact closed_other rfl
    | true => exact Machine.closed_own (howns rfl) (Lower.recorded_of name kind p b) hnumbered
  obtain ⟨hx, hparked⟩ := enclose_heeds hclosed hbody (.refl _) h1 h2 rfl
  have hz : Heeds h h.body z := polish_heeds h.body_even hx h3
  obtain ⟨i, rfl, -⟩ := lambdaOf_run h4
  exact ⟨.lambda hparams hz, hparked⟩

/-- A helm that knows nothing of the machine. -/
theorem Lower.Made.Names.stranger {isIterator : Bool} {q : Supply} (hn : Lower.Made.Names s s' target p q b isIterator)
    (ht : Lower.Aims target params) (hclear : h.Clear s.supply s'.supply) (hparams : ∀ v ∈ params, ¬ h.steers v.id) :
    Moored h false p s.supply.names q b := by
  obtain ⟨q₀, hq₀, hrun⟩ := hn.target
  have hq := ht.names hrun
  have hb := hn.body.names
  have hs' := hn.rest.names
  exact
    { slots := fun i hi => by
        refine iff_of_false (hclear i ?_ ?_) (by simp) <;> obtain rfl | rfl := hi <;> omega
      plan := fun i hi hle => hclear i (by omega) (by omega)
      parks := fun ho => by cases ho
      parked := fun i hi hle hsteers => absurd hsteers (hclear i (by omega) (by omega))
      target := ht.free hrun hparams fun i hi hle => hclear i (by omega) (by omega) }

/-- The helm of the machine itself. -/
theorem Lower.Made.Names.self {isIterator : Bool} {q : Supply} (hn : Lower.Made.Names s s' target p q b isIterator)
    (ht : Lower.Aims target params) (hparams : ∀ v ∈ params, ¬ (Lower.recorded name kind p b).Steers v.id) :
    Moored (Lower.recorded name kind p b).helm true p s.supply.names q b := by
  obtain ⟨q₀, hq₀, hrun⟩ := hn.target
  have hq := ht.names hrun
  have hstate : p.stateVar.id = s.supply.names + 1 := congrArg Var.id hn.planned.stateVar
  have hresume : p.resumeVar.id = s.supply.names + 2 := congrArg Var.id hn.planned.resumeVar
  have hplan : ∀ i, s.supply.names + 2 < i → i ≤ q.names → ¬ (Lower.recorded name kind p b).Steers i := by
    rintro i hi hle (⟨hv, rfl⟩ | ⟨hv, rfl⟩ | ⟨hv, rfl⟩)
    · cases hv
      omega
    · cases hv
      omega
    · exact absurd (hn.parked _ _ hv) (Nat.not_lt.mpr hle)
  exact
    { slots := fun i hi => by
        refine iff_of_true ?_ rfl
        obtain rfl | rfl := hi
        · exact .state rfl hstate
        · exact .resume rfl hresume
      plan := hplan
      parks := fun _ g v hv => .parked hv rfl
      parked := fun i hi _ hsteers => by
        refine ⟨rfl, ?_⟩
        obtain ⟨hv, rfl⟩ | ⟨hv, rfl⟩ | ⟨hv, hi'⟩ := hsteers
        · cases hv
          omega
        · cases hv
          omega
        · exact ⟨_, _, hv, hi'⟩
      target := ht.free hrun hparams fun i hi hle => hplan i (by omega) (by omega) }

end

end Resumable
