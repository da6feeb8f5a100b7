import Resumable.Proofs.Iterating

/-!
# `Proofs.Enclosing`: the lambda that a machine becomes

A body is split from an empty splitter on, and the states are put together to the body of a plain lambda.
Seen by a watch that belongs to another machine, this makes code outside that machine from such code. Seen
by the watch that belongs to the machine itself, it makes the block that opens an instance: that watch is
read off the splitter at the end.

**Contents**
* `splitBody_orders`, `assembleAsync_orders`: the rest of the steps.
* `Watch.born`: the watch of a machine that was put together.
* `enclose_other`, `enclose_own`: a body and what it becomes.
-/

namespace Resumable

open Resumable.Expr Split Build

/-- A run of two steps is a run of each. -/
theorem exists_of_bind {ρ σ : Type} {x : ReaderT ρ (EStateM Fault σ) α} {f : α → ReaderT ρ (EStateM Fault σ) β}
    {p : ρ} {s s' : σ} {b : β} (h : (x >>= f) p s = .ok b s') :
    ∃ a s₁, x p s = .ok a s₁ ∧ f a p s₁ = .ok b s' := by
  change EStateM.bind (x p) (fun a => f a p) s = _ at h
  unfold EStateM.bind at h
  split at h
  · rename_i a s₁ hrun
    exact ⟨a, s₁, hrun, h⟩
  · cases h

/-- A construction takes numbers and does nothing else. -/
theorem build_run {x : Build α} {p : Plan} {s s' : Splitter} {a : α}
    (h : (liftM x : Split α) p s = .ok a s') : ∃ q, x s.supply = .ok a q ∧ s' = { s with supply := q } := by
  change Split.build x p s = _ at h
  unfold Split.build at h
  split at h
  · rename_i q hq
    cases h
    exact ⟨q, hq, rfl⟩
  · cases h

/-- What building a block comes to: one node, of one new identity. -/
theorem block_run {vars : List Var} {xs : List Expr} {q q' : Supply} {y : Expr} (h : block vars xs q = .ok y q') :
    ∃ i t, y = .node i q'.refs t (.block vars xs) ∧ q'.names = q.names ∧ q'.refs = q.refs + 1 := by
  have hnode : ∀ t, typedBlock t vars xs q = .ok y q' →
      ∃ i t, y = .node i q'.refs t (.block vars xs) ∧ q'.names = q.names ∧ q'.refs = q.refs + 1 := by
    intro t h
    cases h
    exact ⟨_, _, rfl, rfl, rfl⟩
  unfold block at h
  cases hlast : xs.getLast? with
  | none =>
    simp only [hlast] at h
    exact hnode .void h
  | some x =>
    simp only [hlast] at h
    obtain ⟨t, q₁, ht, h⟩ := Build.exists_of_bind h
    unfold typeOf at ht
    split at ht
    · cases ht
    · cases ht
      exact hnode _ h

section
variable {m : Watch} {V : Outlook} {p : Plan} {hosts : Bool} {body x : Expr} {slots : List Var} {q : Supply}
  {reporter : Reporter} {moments : Array Moment} {s₁ s₂ : Splitter}

theorem orderly_start (hq : V.base.Below q) : Orderly m V { supply := q, reporter, moments } where
  base := hq
  states r := by
    rw [show Graph.state _ r = Inhabited.default by simp [Graph.state]]
    exact neat_default
  guards g := by
    rw [Before.guard_of_size_le (Nat.zero_le g)]
    exact kempt_default q
  labels l r h := by cases h
  rethrow r h := by cases h
  caught v h := by cases h
  vars v h := absurd h (Array.not_mem_empty v)

theorem numbered_start : Splitter.Numbered { supply := q, reporter, moments } := fun i r h => by simp at h

theorem Splitter.Numbered.placed {s : Splitter} (h : s.Numbered) : s.Placed := fun r hr => by
  obtain ⟨i, hi⟩ := Array.mem_iff_getElem?.mp hr
  exact (h i r hi).1

/-- The number of a state tells which one it is. -/
theorem Splitter.Numbered.eq {s : Splitter} (h : s.Numbered) {r r' : StateRef} (hr : r ∈ s.states)
    (hr' : r' ∈ s.states) (hid : (s.graph.state r).id = (s.graph.state r').id) : r = r' := by
  obtain ⟨i, hi⟩ := Array.mem_iff_getElem?.mp hr
  obtain ⟨j, hj⟩ := Array.mem_iff_getElem?.mp hr'
  obtain rfl : i = j := Int.ofNat.inj ((h i r hi).2.symm.trans (hid.trans (h j r' hj).2))
  exact Option.some.inj (hi.symm.trans hj)

theorem Splitter.Numbered.nonneg {s : Splitter} (h : s.Numbered) {r : StateRef} (hr : r ∈ s.states) :
    0 ≤ (s.graph.state r).id := by
  obtain ⟨i, hi⟩ := Array.mem_iff_getElem?.mp hr
  exact (h i r hi).2 ▸ Int.natCast_nonneg i

/-! ### The steps that were left -/

theorem splitBody_orders (hV : V.Sees m p) (hbody : V.Value m body) :
    Orders m V p (Lower.splitBody body) fun _ => True := by
  unfold Lower.splitBody
  refine (newState_orders hV .entry body .void (by decide) (by decide)).bind fun r _ => ?_
  refine (goOnIn_orders r).bind fun _ _ => (visit_orders hV hbody).bind fun v hv => .current fun st _ => ?_
  split
  · exact finish_orders hV hv
  · exact .pure trivial

theorem assembleAsync_orders (hV : V.Sees m p) (ho : V.own = false) {backend : Backend} {cell continuation : Var}
    (htarget : p.target = .async backend cell continuation) {loop : Expr} (hloop : V.Value m loop) :
    Orders m V p (assembleAsync backend cell continuation loop) (V.Value m) := by
  rw [assembleAsync_eq]
  refine (opening_orders hV htarget ⟨fun h => by simp [ho] at h, fun _ => hloop⟩).bind fun c hc => ?_
  obtain ⟨hvars, hxs⟩ := hc.other ho
  exact .value hV (block_gives hvars hxs)

/-- The body is split and the dispatch loop is emitted, on the way to the end. -/
theorem dispatch_of_body (hV : V.Sees m p) (hL : V.Loops m p) (hbody : V.Value m body) (hq : V.base.Below q)
    {u : Unit} (h1 : Lower.splitBody body p { supply := q, reporter, moments } = .ok u s₁)
    (h2 : emitDispatch p s₁ = .ok x s₂) (hlast : Before s₂ V.last) :
    Orderly m V s₂ ∧ (V.own = true → V.last.states = s₂.states → Obeys m .turning x) ∧
      (V.own = false → V.Value m x) := by
  have hb := ((inferInstance : Keeps emitDispatch).later p s₁ x s₂ h2).2
  have hb1 := ((inferInstance : Keeps (Lower.splitBody body)).later p _ u s₁ h1).2
  have h := splitBody_orders hV hbody _ (orderly_start hq) u s₁ h1 (hb.trans hlast)
  exact emitDispatch_orders hV hL h.2 (hb1.numbered numbered_start).placed x s₂ h2 hlast

/-- **The body of a machine that is not watched** becomes code outside the watched machine. -/
theorem enclose_other (hm : m.Ready q) (hp : p.Strange m) (hbody : m.Foreign hosts body) {u : Unit}
    (h1 : Lower.splitBody body p { supply := q, reporter, moments } = .ok u s₁)
    (h2 : (do assemble (← emitDispatch) : Split _) p s₁ = .ok (x, slots) s₂) (ha : m.Aside q s₂.supply) :
    ∃ m', m.Onward m' ∧ m'.Ready s₂.supply ∧ m'.Foreign hosts x := by
  have hb1 := ((inferInstance : Keeps (Lower.splitBody body)).later p _ u s₁ h1).2
  obtain ⟨loop, s, hdispatch, h2⟩ := exists_of_bind h2
  have hb := ((inferInstance : Keeps emitDispatch).later p s₁ loop s hdispatch).2
  unfold assemble at h2
  obtain ⟨_, _, hread, h2⟩ := exists_of_bind h2
  cases hread
  cases htarget : p.target with
  | async backend cell continuation =>
    simp only [htarget] at h2
    obtain ⟨y, s', hrun, h2⟩ := exists_of_bind h2
    cases h2
    have hb' := ((inferInstance : Keeps (assembleAsync backend cell continuation loop)).later p s x s₂ hrun).2
    have hbelow := (hb1.trans (hb.trans hb')).supply
    obtain ⟨hmm, hm'⟩ := hm.extend hbelow
    have hV := sees_other hosts (hp.ages hmm.ages) (hm.clear ha) (Nat.le_refl _)
    obtain ⟨hs, -, hloop⟩ := dispatch_of_body hV loops_other (hbody.later_onward hmm) (.refl q) h1 hdispatch hb'
    have h := assembleAsync_orders hV rfl htarget (hloop rfl) s hs x s₂ hrun (.refl s₂)
    exact ⟨_, hmm, hm', h.1⟩
  | iterator shape params dispose current =>
    simp only [htarget] at h2
    obtain ⟨⟨y, made⟩, s', hrun, h2⟩ := exists_of_bind h2
    cases h2
    rw [assembleIterator_eq] at hrun
    obtain ⟨_, _, hread, hrun⟩ := exists_of_bind hrun
    cases hread
    obtain ⟨⟨cs, prologue⟩, s₃, hcopies, hrun⟩ := exists_of_bind hrun
    obtain ⟨loop', s₄, hsubst, hrun⟩ := exists_of_bind hrun
    obtain ⟨q', hsupply, rfl⟩ := build_run hsubst
    have hb₃ := ((inferInstance : Keeps (Split.copies params)).later p s _ s₃ hcopies).2
    have hb₄ : s₃.supply.Below q' := Onward.below _ _ _ hsupply
    have hb₂ := ((inferInstance : Keeps (Split.factory p shape params dispose current cs prologue loop')).later
      p _ _ s₂ hrun).2.supply
    have honly := Takes.only p _ _ s₂ hrun
    have hbelow := (hb1.trans (hb.trans hb₃)).supply
    -- until the parameters are redirected, the view is that of the splitter with the copies
    obtain ⟨hmm, hm'⟩ := hm.extend hbelow
    have hstrange := hp.ages hmm.ages
    have htarget' := hstrange.target
    rw [htarget] at htarget'
    obtain ⟨hparams, hdispose, hcurrent⟩ := htarget'
    have hV := sees_other hosts hstrange (hm.clear (ha.mono (.refl q) (hb₄.trans hb₂))) (Nat.le_refl _)
    obtain ⟨hs, -, hloop⟩ := dispatch_of_body hV loops_other (hbody.later_onward hmm) (.refl q) h1 hdispatch hb₃
    obtain ⟨⟨hcs, hprologue⟩, hs₃⟩ :=
      copies_orders hV params (fun v hv => (hparams v hv).plain) s hs _ s₃ hcopies (.refl s₃)
    have hlookup : ∀ v w, cs.reverse.lookup v = some w → Watch.Bound { m with limit := s₃.supply } v ∧
        Watch.Plain { m with limit := s₃.supply } w.id := fun v w h => by
      obtain ⟨hv, hw⟩ := hcs _ (List.mem_reverse.mp (mem_of_lookup h))
      exact ⟨hparams v hv, hw⟩
    obtain ⟨m₂, h12, h2, hreplaces⟩ :=
      substitute_recasts hlookup loop _ (.refl _) hm'.fair _ _ _ hm' hsupply
    rw [Watch.drop_none] at hreplaces
    -- from then on it is that of the splitter at the end
    obtain ⟨h23, h3⟩ := h2.extend hb₂
    have h13 := h12.trans h23
    have hV' := sees_other hosts (hstrange.ages h13.ages)
      (h2.clear ((ha.ages (hmm.trans h12).ages).mono (hbelow.trans hb₄) (.refl _))) (Nat.le_refl _)
    have hgraph : s₂.graph = s₃.graph := by rw [honly]
    have hstates : s₂.states = s₃.states := by rw [honly]
    have hs₄ := hs₃.onward (q := q') h13 hb₄ hgraph hstates
    have hx := factory_orders hV' rfl (hdispose.ages h13.ages) (hcurrent.ages h13.ages)
      (fun e he => (hcs e he).2.ages h13.ages) (fun y hy => (hprologue y hy).later_onward h13)
      ((hreplaces.obeys _ (hloop rfl)).later_onward h23) _ hs₄ _ s₂ hrun (.refl s₂)
    exact ⟨_, hmm.trans h13, h3, hx.1⟩

/-! ### The machine itself -/

/-- The plan of an async machine that is made with numbers up to `q`: its names are all different. -/
structure Plan.Own (p : Plan) (cell continuation : Var) (q : Supply) : Prop where
  target : ∃ backend, p.target = .async backend cell continuation
  apart : [p.stateVar.id, p.resumeVar.id, continuation.id, p.brk.id, p.excVar.id, cell.id].Nodup
  within : ∀ i ∈ [p.stateVar.id, p.resumeVar.id, continuation.id, p.brk.id, p.excVar.id, cell.id], i ≤ q.names
  types : p.stateVar.type = .int ∧ p.resumeVar.type = .int
  label : p.brk.type = .void

/-- The watch of a machine, as it is read off the splitter at the end. -/
def Watch.born (p : Plan) (cell continuation : Var) (s : Splitter) : Watch where
  state := p.stateVar
  resume := p.resumeVar
  continuation := continuation
  cell := cell
  leave := p.brk.id
  parked i := ∃ g v, (s.graph.guard g).parked = some v ∧ v.id = i
  good n := ∃ r ∈ s.states, (s.graph.state r).kind ≠ .cleanup ∧ (s.graph.state r).id = n
  clean n := ∃ r ∈ s.states, (s.graph.state r).kind = .cleanup ∧ (s.graph.state r).id = n
  gone _ := False
  copies r := r = s.supply.refs
  limit := s.supply

variable {cell continuation : Var}

/-- The names of a machine are those of its plan, and others come after. -/
theorem Plan.Own.names (hp : p.Own cell continuation q) {s : Splitter} {i : Nat}
    (hi : (Watch.born p cell continuation s).Owns i) : i ≤ q.names :=
  hp.within i (by obtain rfl | rfl | rfl | rfl := hi <;> simp [Watch.born])

/-- The entry of a body is the first state of the loop. -/
theorem splitBody_entry {u : Unit}
    (h : Lower.splitBody body p { supply := q, reporter, moments } = .ok u s₁) :
    0 ∈ s₁.states ∧ (s₁.graph.state 0).id = 0 ∧ (s₁.graph.state 0).kind = .entry := by
  unfold Lower.splitBody at h
  obtain ⟨r, s, hnew, h⟩ := exists_of_bind h
  cases hnew
  obtain ⟨_, s', hgo, h⟩ := exists_of_bind h
  cases hgo
  have hk : Keeps (do
      let v ← visit body
      let s ← current
      if !s.isDead && s.isOpen then finish v) := by infer_instance
  have hb := (hk.later p _ u s₁ h).2
  obtain ⟨hid, hkind⟩ := hb.state 0 Nat.zero_lt_one
  exact ⟨hb.registered 0 (by simp), hid, hkind⟩

/-- The watch of a machine is fair. -/
theorem born_fair (hp : p.Own cell continuation q) (hb : Before { supply := q, reporter, moments } s₂)
    (hentry : 0 ∈ s₂.states ∧ (s₂.graph.state 0).id = 0 ∧ (s₂.graph.state 0).kind = .entry) :
    (Watch.born p cell continuation s₂).Fair where
  start := ⟨0, hentry.1, by rw [hentry.2.2]; decide, hentry.2.1⟩
  minus h := by
    have hnonneg := fun r => (hb.numbered numbered_start).nonneg (r := r)
    obtain ⟨r, hr, -, hid⟩ | ⟨r, hr, -, hid⟩ := h <;>
    · have := hnonneg r hr
      omega
  disjoint n hgood hclean := by
    obtain ⟨r, hr, hkind, rfl⟩ := hgood
    obtain ⟨r', hr', hkind', hid⟩ := hclean
    exact hkind ((hb.numbered numbered_start).eq hr' hr hid ▸ hkind')
  parked i hi ho := by
    obtain ⟨g, v, hv, rfl⟩ := hi
    exact absurd (hb.parked g (Nat.zero_le g) v hv) (Nat.not_lt.mpr (hp.names ho))
  apart := hp.apart.sublist (by simp [Watch.born])
  types := hp.types

/-- What the watch of a machine knows about it, on the way to the block that opens an instance. -/
theorem born_sees (hp : p.Own cell continuation q) (hb : Before { supply := q, reporter, moments } s₂)
    (hfair : (Watch.born p cell continuation s₂).Fair) (last : Splitter) (hgraph : last.graph = s₂.graph)
    (hstates : last.states = s₂.states) (hnames : last.supply.names = s₂.supply.names)
    (hrefs : last.supply.refs < s₂.supply.refs) :
    (⟨true, false, q, last⟩ : Outlook).Sees (Watch.born p cell continuation s₂) p := by
  have happart := hp.apart
  simp only [List.nodup_cons, List.mem_cons, List.not_mem_nil, or_false, not_or] at happart
  -- a name older than the machine is one of its own only if it was given to it
  have hplain : ∀ i, i ≤ q.names → ¬ (Watch.born p cell continuation s₂).Owns i →
      (Watch.born p cell continuation s₂).Plain i := by
    refine fun i hi ho => ⟨ho, fun hparked => ?_, Nat.le_trans hi hb.supply.names⟩
    obtain ⟨g, v, hv, rfl⟩ := hparked
    exact absurd (hb.parked g (Nat.zero_le g) v hv) (Nat.not_lt.mpr hi)
  have hcell : (Watch.born p cell continuation s₂).Plain cell.id := by
    refine hplain _ (hp.within _ (by simp)) ?_
    rintro (h | h | h | h) <;> simp_all [Watch.born]
  obtain ⟨backend, htarget⟩ := hp.target
  exact
    { alone := fun _ => rfl
      stateVar := ⟨fun _ => rfl, fun h => (by cases h)⟩
      resumeVar := ⟨fun _ => rfl, fun h => (by cases h)⟩
      fair := fun _ => hfair
      leave := fun _ => rfl
      excVar := by
        refine hplain _ (hp.within _ (by simp)) ?_
        rintro (h | h | h | h) <;> simp_all [Watch.born]
      target := by
        rw [htarget]
        exact ⟨hcell, fun _ => rfl, fun _ => rfl, fun h => by cases h⟩
      good := fun _ r hr => ⟨r, hstates ▸ hr.listed, fun hc => hr.plain (by
        show (last.graph.state r).kind = _
        rwa [hgraph]), by rw [hgraph]⟩
      clean := fun _ r hr hc => ⟨r, hstates ▸ hr, by
        rw [← hgraph]
        exact hc, by rw [hgraph]⟩
      parks := fun _ g v hv => ⟨g, v, hgraph ▸ hv, rfl⟩
      names := fun i hi _ ho => absurd hi (Nat.not_lt.mpr (hp.names ho))
      refs := fun r _ hle => ⟨Nat.le_trans hle hrefs.le, fun hc => absurd hrefs (Nat.not_lt.mpr (Eq.trans_le hc.symm hle))⟩
      parked := fun i hi _ _ => ⟨rfl, by
        obtain ⟨g, v, hv, hid⟩ := hi
        exact ⟨g, v, hgraph ▸ hv, hid⟩⟩
      within := hnames.le }

/-- **The body of a machine** becomes the block that opens an instance. -/
theorem enclose_own (hp : p.Own cell continuation q) {u : Unit}
    (h1 : Lower.splitBody body p { supply := q, reporter, moments } = .ok u s₁)
    (h2 : (do assemble (← emitDispatch) : Split _) p s₁ = .ok (x, slots) s₂) :
    q.refs < s₂.supply.refs ∧ (Watch.born p cell continuation s₂).Ready s₂.supply ∧
      ((Watch.born p cell continuation s₂).Foreign false body →
        Obeys (Watch.born p cell continuation s₂) .opening x ∧
          ∀ i, (Watch.born p cell continuation s₂).parked i → i ≤ s₂.supply.names) := by
  have hb1 := ((inferInstance : Keeps (Lower.splitBody body)).later p _ u s₁ h1).2
  obtain ⟨loop, s, hdispatch, h2⟩ := exists_of_bind h2
  have hb := ((inferInstance : Keeps emitDispatch).later p s₁ loop s hdispatch).2
  unfold assemble at h2
  obtain ⟨_, _, hread, h2⟩ := exists_of_bind h2
  cases hread
  obtain ⟨backend, htarget⟩ := hp.target
  simp only [htarget] at h2
  obtain ⟨y, s', hrun, h2⟩ := exists_of_bind h2
  cases h2
  rw [assembleAsync_eq] at hrun
  obtain ⟨⟨vars, xs⟩, s₃, hopening, hrun⟩ := exists_of_bind hrun
  have hb' := ((inferInstance : Keeps (Split.opening backend cell continuation loop)).later p s _ s₃ hopening).2
  have halike := Idle.alike p s _ s₃ hopening
  obtain ⟨q', hblock, rfl⟩ := build_run hrun
  obtain ⟨i, t, rfl, hnames, hrefs⟩ := block_run hblock
  have hb₂ : Before s₃ { s₃ with supply := q' } := .beside rfl rfl ⟨hnames.ge, Nat.le_of_succ_le hrefs.ge⟩
  -- the first state is the entry, and nothing built later moves it
  obtain ⟨hentry, hid, hkind⟩ := splitBody_entry h1
  have hb12 := hb.trans (hb'.trans hb₂)
  obtain ⟨hid', hkind'⟩ := hb12.state 0 ((hb1.numbered numbered_start).placed 0 hentry)
  have hfair := born_fair hp (hb1.trans hb12) ⟨hb12.registered 0 hentry, hid'.trans hid, hkind'.trans hkind⟩
  have hV := born_sees hp (hb1.trans hb12) hfair s₃ rfl rfl hnames.symm
    (Nat.lt_of_succ_le hrefs.ge)
  -- jumps of the loop lead to registered states
  have hL : (⟨true, false, q, s₃⟩ : Outlook).Loops
      (Watch.born p cell continuation { s₃ with supply := q' }) p := by
    refine ⟨fun _ => hp.label, fun _ n hn => ?_⟩
    obtain ⟨r, hr, -, hid⟩ | ⟨r, hr, -, hid⟩ := hn
    · exact ⟨r, hr, hid⟩
    · exact ⟨r, hr, hid⟩
  refine ⟨(hb1.trans (hb.trans hb')).supply.refs.trans_lt (Nat.lt_of_succ_le hrefs.ge),
    ⟨hfair, rfl, fun r hr => hr.le⟩, fun hbody => ?_⟩
  obtain ⟨hs, hloop, -⟩ := dispatch_of_body hV hL hbody (.refl q) h1 hdispatch hb'
  obtain ⟨hopens, hs₃⟩ := opening_orders hV htarget ⟨fun ho => hloop ho halike.states, fun h => by cases h⟩ s hs _ s₃
    hopening (.refl s₃)
  refine ⟨hopens.own rfl (fun _ h => h) i _ t (Nat.le_refl _) rfl, fun j hj => ?_⟩
  obtain ⟨g, v, hv, rfl⟩ := hj
  exact Nat.le_trans ((hs₃.guards g).parked v hv) hnames.ge

end

end Resumable
