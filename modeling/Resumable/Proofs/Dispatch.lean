import Resumable.Proofs.Routing

/-!
# `Proofs.Dispatch`: dispatching an error is searching its handler

The regions around a state are routed one after the other, up to the first cleanup block. What is built at the
end of the routing raises the error again, or tells the outside about it; the states for this are made on first
use, which changes nothing of what was there. `dispatch_finds` puts it together: **running what dispatch has
built ends with the stores for the place where the plain search ends**, whatever the filters answer, and
although handlers that earlier ones cover are left out.

**Contents**
* `Graph.Grown`: graphs with states more, and the states that are made on the way.
* `routeGuards_finds`: the regions of a context.
* `Arrival.Reaches`: a run that ends where a search ends.
* `dispatch_finds`: the whole of it.
* `Split.dispatch_finds_filterRaises`: an error that a filter replaces.
-/

namespace Resumable

open Run

/-! ### States that are made on the way -/

/-- There may be more states; those that were there have their numbers, and the regions their variables. -/
structure Graph.Grown (graph graph' : Graph) : Prop where
  size : graph.states.size ≤ graph'.states.size
  idOf : ∀ r < graph.states.size, graph'.idOf r = graph.idOf r
  caught : ∀ g, (graph'.guard g).caught = (graph.guard g).caught

namespace Graph.Grown

variable {graph graph' graph'' : Graph} {r : StateRef} {g : GuardRef}

theorem refl (graph : Graph) : graph.Grown graph := ⟨le_rfl, fun _ _ => rfl, fun _ => rfl⟩

theorem trans (h : graph.Grown graph') (h' : graph'.Grown graph'') : graph.Grown graph'' where
  size := h.size.trans h'.size
  idOf r hr := (h'.idOf r (hr.trans_le h.size)).trans (h.idOf r hr)
  caught g := (h'.caught g).trans (h.caught g)

theorem modifyState {f : State → State} (hf : ∀ st, (f st).id = st.id) : graph.Grown (graph.modifyState r f) where
  size := Nat.le_of_eq Array.size_modify.symm
  idOf q _ := by
    unfold Graph.idOf
    rw [Split.state_modifyState]
    split
    · rename_i h
      rw [hf, h.1]
    · rfl
  caught _ := rfl

theorem modifyGuard {f : Guard → Guard} (hf : ∀ info, (f info).caught = info.caught) :
    graph.Grown (graph.modifyGuard g f) where
  size := le_rfl
  idOf _ _ := rfl
  caught q := by
    rw [Split.guard_modifyGuard]
    split
    · rename_i h
      rw [hf, h.1]
    · rfl

theorem addState (st : State) : graph.Grown { graph with states := graph.states.push st } where
  size := by
    rw [Array.size_push]
    exact Nat.le_succ _
  idOf q hq := by
    unfold Graph.idOf
    rw [Split.state_push, if_neg (Nat.ne_of_lt hq)]
  caught _ := rfl

end Graph.Grown

namespace Split

variable {p : Plan} {s s' s'' : Splitter} {r : StateRef} {g : GuardRef}

theorem newStateIn_grown (context : List GuardRef) (kind : StateKind) (origin : Expr) :
    Yields p s (newStateIn context kind origin .void) fun _ s' =>
      s.graph.Grown s'.graph ∧ s'.graph.guards = s.graph.guards :=
  Yields.of_run rfl ⟨.addState _, rfl⟩

theorem lt_of_caught {v : Var} (h : (s.graph.guard g).caught = some v) : g < s.graph.guards.size := by
  by_contra hg
  have hnone : s.graph.guard g = Inhabited.default := by
    simp [Graph.guard, Array.getD_eq_getD_getElem?, Array.getElem?_eq_none (Nat.le_of_not_lt hg)]
  rw [hnone] at h
  cases h

theorem caughtVar_draws {info : Guard} {v : Var} (hv : info.caught = some v) :
    Draws p s (caughtVar info) fun u _ => u = v := by
  unfold caughtVar
  rw [hv]
  exact .pure rfl

theorem raise_forms {n i r : Nat} {t : Ty} {d : Data Expr} (ht : t.implements .error = true) :
    Forms n (Build.raise (.node i r t d)) fun _ => True := by
  intro q _
  unfold Build.raise Build.throwAs
  rw [if_neg (by simp [Expr.type, ht])]
  exact ⟨_, _, rfl, le_rfl, trivial⟩

/-- Every cell can be told about an error. -/
theorem setException_forms {n i r : Nat} {d : Data Expr} (b : Backend) (err : Expr) :
    Forms n (b.setException (.node i r b.cell d) err) fun _ => True := by
  cases b <;> exact fun _ _ => ⟨_, _, rfl, le_rfl, trivial⟩

theorem leaveDispatch_draws (value : Expr) : Draws p s (leaveDispatch value) fun _ _ => True :=
  .read ((Draws.build (.node .void _)).mono fun _ _ _ _ => trivial)

/-- So can the outside. -/
theorem failTarget_draws {i r : Nat} {d : Data Expr} (hcell : ∀ b v k, p.target = .async b v k → v.type = b.cell) :
    Draws p s (failTarget (.node i r .error d)) fun _ _ => True := by
  unfold failTarget
  refine .read ?_
  split
  · rename_i b v k htarget
    refine (Draws.build (.ref v)).bind ?_
    rintro _ q₁ - ⟨j, l, rfl⟩
    rw [hcell b v k htarget]
    refine (Draws.build (setException_forms b _)).bind fun x q₂ _ _ => ?_
    exact (leaveDispatch_draws .absent).bind fun y q₃ _ _ => .pure trivial
  · exact (Draws.build (raise_forms rfl)).bind fun y q₁ _ _ => .pure trivial

/-- The state that fails the machine is there afterwards. -/
theorem rethrowState_grown (hstate : p.stateVar.type = .int) (hexc : p.excVar.type = .error)
    (hcell : ∀ b v k, p.target = .async b v k → v.type = b.cell) :
    Yields p s rethrowState fun r s' => s.graph.Grown s'.graph ∧ s'.rethrow = some r := by
  unfold rethrowState
  refine .get ?_
  split
  · rename_i r hr
    exact Yields.pure ⟨.refl _, hr⟩
  · refine (newStateIn_grown [] .rethrow .absent).bind fun r s₁ h1 => ?_
    refine Yields.bind (setStateId_draws _ hstate) ?_
    rintro first _ ⟨q₂, rfl, -, -⟩
    refine .read (Yields.bind (Draws.build (.ref p.excVar)) ?_)
    rintro _ _ ⟨q₃, rfl, -, i, l, rfl⟩
    rw [hexc]
    refine Yields.bind (failTarget_draws hcell) ?_
    rintro rest _ ⟨q₄, rfl, -, -⟩
    refine Yields.bind (R := fun _ s' => s.graph.Grown s'.graph) (Yields.of_run rfl ?_) fun _ s₅ h5 => ?_
    · exact h1.1.trans (.modifyState fun _ => rfl)
    · exact Yields.of_run rfl ⟨h5, rfl⟩

/-- The state that raises the error of a region again is there afterwards. -/
theorem propagateState_grown {v : Var} (hcaught : (s.graph.guard g).caught = some v) (hv : v.type = .error) :
    Yields p s (propagateState g) fun r s' =>
      s.graph.Grown s'.graph ∧ (s'.graph.guard g).propagate = some r := by
  unfold propagateState
  refine yields_guard ?_
  split
  · rename_i r hr
    exact Yields.pure ⟨.refl _, hr⟩
  · refine (newStateIn_grown _ .propagate .absent).bind fun r s₁ h1 => ?_
    refine Yields.bind (caughtVar_draws hcaught) ?_
    rintro u _ ⟨q₂, rfl, -, hu⟩
    rw [hu]
    refine Yields.bind (Draws.build (.ref v)) ?_
    rintro _ _ ⟨q₃, rfl, -, i, l, rfl⟩
    rw [hv]
    refine Yields.bind (Draws.build (raise_forms rfl)) ?_
    rintro x _ ⟨q₄, rfl, -, -⟩
    refine Yields.bind (R := fun _ s' => s.graph.Grown s'.graph ∧ s'.graph.guards = s₁.graph.guards)
      (Yields.of_run rfl ⟨?_, rfl⟩) fun _ s₅ h5 => ?_
    · exact h1.1.trans (.modifyState fun _ => rfl)
    refine Yields.bind (R := fun _ s' => s.graph.Grown s'.graph ∧ (s'.graph.guard g).propagate = some r)
      (Yields.of_run rfl ⟨?_, ?_⟩) fun _ s₆ h6 => Yields.pure h6
    · exact h5.1.trans (.modifyGuard fun _ => rfl)
    show ((s₅.graph.modifyGuard g _).guard g).propagate = some r
    rw [guard_modifyGuard, if_pos ⟨rfl, by rw [h5.2, h1.2]; exact lt_of_caught hcaught⟩]

end Split

/-! ### The regions of a context -/

namespace Arrival

variable {σ : Type} {A : Arrival σ} {env : Env} {vs : List Var} {arms more : List (Expr × Expr)} {w w' : World}
  {r r' : Split.Routing} {n n' : Nat} {s : Splitter} {rest : Option Expr} {g : GuardRef} {h : Catch}
  {caught : Var} {y : Way σ} {out : Exit × Value × σ}

/-- What the tests of the regions come to, beside what the search comes to: the stores for a handler, or a way
on to what takes what is left. -/
inductive Routes (A : Arrival σ) (env : Env) (vs : List Var) (arms : List (Expr × Expr)) (w : World)
    (r : Split.Routing) (n : Nat) (s : Splitter) : Option Expr → Exit × Value × σ → Prop
  | took {rest : Option Expr} {g : GuardRef} {h : Catch} {e : Value} {st : σ} {xs : List (Var × Value)}
      (hxs : (Exit.handler g h).stores A.plan s e = some xs) (ht : A.Took env arms w st xs) :
      Routes A env vs arms w r n s rest (.handler g h, e, st)
  | met {x : Expr} {g : GuardRef} {c : StateRef} {w' : World} {y : Way σ} {xs : List (Var × Value)}
      (hf : Falls env arms w w') (hy : A.At env vs y w')
      (hxs : (Exit.cleanup g c).stores A.plan s y.err = some xs)
      (hx : Ends (fun c => c.eval x env) w' (.ok none (w'.storeAll A.env xs))) :
      Routes A env vs arms w r n s (some x) (.cleanup g c, y.err, y.st)
  | left {w' : World} {y : Way σ} (hf : Falls env arms w w') (hy : A.At env vs y w') (hfine : Fine r n y) :
      Routes A env vs arms w r n s none (.outside, y.err, y.st)

theorem Routes.after (hf : Falls env arms w w') (h : A.Routes env vs more w' r n s rest out) :
    A.Routes env vs (arms ++ more) w r n s rest out := by
  cases h with
  | took hxs ht =>
    obtain ⟨w'', hsees, htakes⟩ := ht
    exact .took hxs ⟨w'', hsees, hf.takes htakes⟩
  | met hf' hy hxs hx => exact .met (hf.append hf') hy hxs hx
  | left hf' hy hfine => exact .left (hf.append hf') hy hfine

/-- The stores for a handler are those of the place where the search ends. -/
theorem handlerStores_eq (hA : A.Sound) (hgrown : A.splitter.graph.Grown s.graph) (hh : A.Handler h)
    (hcaught : (A.splitter.graph.guard g).caught = some caught) (e : Value) :
    (Exit.handler g h).stores A.plan s e = some (A.handlerStores caught h e) := by
  rw [Exit.stores, handlerStores, hgrown.caught, hcaught, hgrown.idOf _ (hA.handler h hh).state]
  rfl

/-- A region: when its handlers do not take the error, what comes after them decides. -/
theorem Routes.guard (hA : A.Sound) (hgrown : A.splitter.graph.Grown s.graph) (hg : g ∈ A.context)
    (hcaught : (A.splitter.graph.guard g).caught = some caught) (outer : List GuardRef)
    (hserves : A.Serves env vs caught arms w r' n' none []
      (y.searched A.filters none (A.splitter.graph.guard g).handlers))
    (hrest : ∀ y w', A.At env vs y w' → Fine r' n' y → A.Routes env vs more w' r n s rest
      ((A.splitter.graph.guard g).cleanup.elim (A.filters.search A.splitter.graph outer y.err y.st)
        fun c => (.cleanup g c, y.err, y.st))) :
    A.Routes env vs (arms ++ more) w r n s rest (A.filters.search A.splitter.graph (g :: outer) y.err y.st) := by
  have hsearch : ∀ h e st, y.searched A.filters none (A.splitter.graph.guard g).handlers = (h, e, st) →
      A.filters.search A.splitter.graph (g :: outer) y.err y.st =
        h.elim ((A.splitter.graph.guard g).cleanup.elim (A.filters.search A.splitter.graph outer e st)
          fun c => (.cleanup g c, e, st)) fun h => (.handler g h, e, st) := by
    intro h e st hout
    have hfound : A.filters.searchHandlers (A.splitter.graph.guard g).handlers y.err y.st = (h, e, st) := hout
    rw [Filters.search, hfound]
    cases h with
    | some h => rfl
    | none => cases (A.splitter.graph.guard g).cleanup <;> rfl
  generalize hout : y.searched A.filters none (A.splitter.graph.guard g).handlers = out at hserves
  cases hserves with
  | @took h e st ht =>
    have hh : A.Handler h := ⟨g, hg, Filters.mem_of_searchHandlers hout⟩
    obtain ⟨w', hsees, htakes⟩ := ht
    rw [hsearch (some h) e st hout]
    exact .took (handlerStores_eq hA hgrown hh hcaught e) ⟨w', hsees, htakes.append more⟩
  | passed y' hp hfine =>
    obtain ⟨w', hfalls, hat⟩ := hp
    rw [hsearch none y'.err y'.st hout]
    exact (hrest y' w' hat hfine).after hfalls

end Arrival

namespace Split

variable {σ : Type} {A : Arrival σ} {s : Splitter} {g : GuardRef} {r : Routing}

/-- **The regions of a context**: the tests come to what the search comes to, as far as a handler takes the
error, and what is left goes to the first cleanup block. -/
theorem routeGuards_finds (hA : A.Sound) {context : List GuardRef} (hcontext : ∀ g ∈ context, g ∈ A.context)
    (hgraph : s.graph = A.splitter.graph) (hr : A.Tidy s.supply.names none r) :
    Yields A.plan s (routeGuards A.ex context r) fun q s' => A.splitter.graph.Grown s'.graph ∧
      ∃ n, A.Tidy n none q.1 ∧ r.skips ⊆ q.1.skips ∧ ∃ arms, q.1.arms = r.arms ++ arms ∧
        ∀ t : Splitter, A.splitter.graph.Grown t.graph → (q.2.isSome = true → t.graph = s'.graph) →
          ∀ env vs y w, A.Stage env vs → q.1.skips ⊆ vs → A.At env vs y w → Arrival.Fine r s.supply.names y →
            A.Routes env vs arms w q.1 n t q.2 (A.filters.search A.splitter.graph context y.err y.st) := by
  -- region by region, from the inside out
  induction context generalizing s r with
  | nil =>
    refine Yields.pure ⟨hgraph ▸ .refl _, s.supply.names, hr, List.Subset.refl _, [],
      (List.append_nil _).symm, fun t _ _ env vs y w _ _ hy hfine => ?_⟩
    exact .left (.nil w) hy hfine
  | cons g outer ih =>
    have hg : g ∈ A.context := hcontext g List.mem_cons_self
    obtain ⟨caught, hcaught, hslot⟩ := hA.guard g hg
    unfold routeGuards
    refine yields_guard ?_
    rw [hgraph]
    refine Yields.bind (caughtVar_draws hcaught) ?_
    rintro u _ ⟨q₁, rfl, hle₁, hu⟩
    rw [hu]
    refine Yields.bind (routeHandlers_draws hA hslot (fun h hh => ⟨g, hg, hh⟩) hgraph (hr.mono hle₁)) ?_
    rintro r₁ _ ⟨q₂, rfl, hle₂, htidy, hsub, arms, harms, hserves⟩
    split
    · -- no cleanup block: an error that no handler takes goes on to the regions around
      rename_i hcleanup
      refine Yields.mono (ih (fun g hmem => hcontext g (List.mem_cons_of_mem _ hmem)) hgraph htidy) ?_
      rintro ⟨r₂, rest⟩ s' ⟨hgrown, n, htidy₂, hsub₂, more, hmore, hroutes⟩
      refine ⟨hgrown, n, htidy₂, List.Subset.trans hsub hsub₂, arms ++ more, ?_, ?_⟩
      · rw [hmore, harms, List.append_assoc]
      · intro t ht hts env vs y w hstage hvs hy hfine
        refine Arrival.Routes.guard hA ht hg hcaught outer
          (hserves env vs y w hstage (List.Subset.trans hsub₂ hvs) hy (hfine.mono hle₁)) fun y' w' hy' hfine' => ?_
        rw [hcleanup]
        exact hroutes t ht hts env vs y' w' hstage hvs hy' hfine'
    · -- with a cleanup block the search ends here, at the state that raises the error again afterwards
      rename_i c hcleanup
      refine Yields.bind (Draws.build (.ref caught)) ?_
      rintro _ _ ⟨q₃, rfl, -, i, l, rfl⟩
      refine Yields.bind (Draws.build (.ref A.ex)) ?_
      rintro _ _ ⟨q₄, rfl, -, j, m, rfl⟩
      refine Yields.bind (Draws.build (.storeError hslot.1)) ?_
      rintro keep _ ⟨q₅, rfl, -, hkeep⟩
      have hcaught' : (s.graph.guard g).caught = some caught := hgraph.symm ▸ hcaught
      refine Yields.bind (propagateState_grown hcaught' hslot.1) ?_
      rintro r₀ s₆ ⟨hgrown, hpropagate⟩
      rw [hgraph] at hgrown
      refine Yields.bind (setResume_draws r₀ hA.resumeVar.1) ?_
      rintro resume _ ⟨q₇, rfl, -, hresume⟩
      refine Yields.bind (setState_draws c hA.stateVar.1) ?_
      rintro move _ ⟨q₈, rfl, -, hmove⟩
      refine Yields.bind (Draws.build (.node .void _)) ?_
      rintro _ _ ⟨q₉, rfl, -, i', l', rfl⟩
      refine Yields.pure ⟨hgrown, q₂.names, htidy, hsub, arms, harms,
        fun t ht hts env vs y w hstage hvs hy hfine => ?_⟩
      have hgraph : t.graph = s₆.graph := hts rfl
      -- what the end of the search says is stored is what the last action stores
      have hstores : ∀ e, (Exit.cleanup g c).stores A.plan t e = some [(caught, e.asError),
          (A.plan.resumeVar, .ofInt (s₆.graph.idOf r₀)), (A.plan.stateVar, .ofInt (s₆.graph.idOf c))] := by
        intro e
        rw [Exit.stores, ht.caught, hcaught, hgraph, hpropagate]
        rfl
      have hperforms : A.Performs (fun _ => True) (fun e => [(caught, e.asError),
          (A.plan.resumeVar, .ofInt (s₆.graph.idOf r₀)), (A.plan.stateVar, .ofInt (s₆.graph.idOf c))])
          (.node i' l' .void (.block [] [keep, resume, move])) := by
        refine performs_block hA (fun e x hx => ?_) fun e _ _ _ => ?_
        · simp only [List.mem_cons, List.not_mem_nil, or_false] at hx
          obtain rfl | rfl | rfl := hx
          · exact hslot.2
          · exact hA.resumeVar.2
          · exact hA.stateVar.2
        · exact .cons (hkeep e) (.cons (hresume _ e) (.cons (hmove _ e) .nil))
      rw [← List.append_nil arms]
      refine Arrival.Routes.guard hA ht hg hcaught outer
        (hserves env vs y w hstage hvs hy (hfine.mono hle₁)) fun y' w' hy' _ => ?_
      rw [hcleanup]
      exact .met (.nil w') hy' (hstores y'.err) (hperforms env vs y' w' hstage hy' trivial)

/-- The tests are asked in order. -/
theorem routeArms_draws {p : Plan} (arms : List (Expr × Expr)) (x : Expr) :
    Draws p s (arms.foldrM (fun (test, action) rest => (Build.ifThenElse test action rest : Split Expr)) x)
      fun z _ => Chain x arms z := by
  induction arms generalizing s with
  | nil => exact .pure .nil
  | cons a arms ih =>
    rw [List.foldrM_cons]
    refine ih.bind fun rest q _ hrest => ?_
    refine (Draws.build (.node .void _)).mono ?_
    rintro _ n - ⟨i, l, rfl⟩
    exact .cons hrest

end Split

/-! ### The whole routing -/

/-- Declaring variables gives them new slots and does nothing else. -/
theorem foldlM_declare_keeps {P : World → Prop} (hpush : ∀ w v x, P w → P (w.push v x)) {vs : List Var}
    {env env' : Env} {w w' : World} (hrun : vs.foldlM declare env w = .ok env' w') (hw : P w) : P w' := by
  induction vs generalizing env w with
  | nil =>
    cases hrun
    exact hw
  | cons v vs ih =>
    have hrun : vs.foldlM declare (env.bind v w.slots.size) (w.push v v.type.zero) = .ok env' w' := hrun
    exact ih hrun (hpush w v _ hw)

namespace Arrival

variable {σ : Type} {A : Arrival σ}

/-- Where the plain search ends, with the error as it is then and what the filters see. -/
def found (A : Arrival σ) : Exit × Value × σ := A.filters.search A.splitter.graph A.context A.err A.st

/-- The routing before anything was asked. -/
def start (A : Arrival σ) : Way σ := ⟨A.err, A.st, fun _ => false⟩

/-- The flags are declared with false, in the scope of the handler that routes the error. -/
theorem Sound.begins (hA : A.Sound) {vs : List Var}
    (hvs : ∀ k ∈ vs, k.type = .bool ∧ A.splitter.supply.names < k.id) (hnodup : (vs.map Var.id).Nodup) :
    ∃ env w, vs.foldlM declare (A.env.handling A.ex A.err A.world) (A.world.push A.ex A.err.asError) = .ok env w ∧
      A.Stage env vs ∧ A.At env vs A.start w := by
  obtain ⟨env, w, hrun, hopens⟩ := Opens.declare hnodup (A.env.handling A.ex A.err A.world)
    (A.world.push A.ex A.err.asError)
  have hsize : (A.world.push A.ex A.err.asError).slots.size = A.world.slots.size + 1 := Array.size_push ..
  -- the slot of the error comes first, the flags behind it
  have hex : env.find? A.ex = some A.world.slots.size := by
    rw [hopens.old A.ex fun u hu heq => absurd hA.named (heq ▸ Nat.not_le_of_lt (hvs u hu).2)]
    exact Env.find?_bind_self _ _ _
  have hflag : ∀ v ∈ vs, ∃ a, env.find? v = some a ∧ A.world.slots.size < a := by
    intro v hv
    obtain ⟨a, ha, hle, -⟩ := hopens.new v hv
    exact ⟨a, ha, by omega⟩
  refine ⟨env, w, hrun, ?_, ?_⟩
  · refine ⟨hopens.caught, fun v hv => ?_, fun v hv => ?_, fun u hu v hv heq => ?_, fun v hv => (hvs v hv).2⟩
    · rw [hopens.old v fun u hu heq => absurd hv.1 (heq ▸ Nat.not_le_of_lt (hvs u hu).2)]
      exact Env.find?_bind_of_ne _ _ (Ne.symm hv.2)
    · obtain rfl | hv := List.mem_cons.mp hv
      · exact ⟨_, hex, le_rfl⟩
      · obtain ⟨a, ha, hlt⟩ := hflag v hv
        exact ⟨a, ha, hlt.le⟩
    · -- the slots of the error and of the flags are different ones
      obtain rfl | hu := List.mem_cons.mp hu <;> obtain rfl | hv := List.mem_cons.mp hv
      · rfl
      · obtain ⟨a, ha, hlt⟩ := hflag v hv
        rw [hex, ha, Option.some_inj] at heq
        omega
      · obtain ⟨a, ha, hlt⟩ := hflag u hu
        rw [hex, ha, Option.some_inj] at heq
        omega
      · exact hopens.apart u hu v hv heq
  · refine ⟨hA.raisable, hA.typed, ?_, fun v hv a ha => ?_, fun a ha => ?_, fun v hv a ha => ?_⟩
    · exact foldlM_declare_keeps (hA.filters.push A.st) hrun (hA.filters.push _ _ _ _ hA.sees)
    · have hbounds : A.world.slots.size ≤ a ∧ a < w.slots.size := by
        have hgrows := hopens.grows
        obtain rfl | hv := List.mem_cons.mp hv
        · rw [hex, Option.some_inj] at ha
          omega
        · have hslot := hopens.slot hv ha
          omega
      refine ⟨hbounds.2, fun κ hκ n _ u _ hfind => ?_⟩
      rw [hopens.world] at hκ
      exact absurd (hA.closures κ hκ u a hfind) (Nat.not_lt_of_le hbounds.1)
    · rw [hex] at ha
      cases ha
      rw [hopens.keeps _ (by omega)]
      simp [World.inSlot, World.push, start]
    · rw [(hopens.slot hv ha).2.2, (hvs v hv).1]
      rfl

/-- The computation ends with the stores for the place where a search ends, and in the state that the filters
are in then. -/
def Reaches (A : Arrival σ) (s : Splitter) (x : Calls → Run (Option Value)) (w : World)
    (out : Exit × Value × σ) : Prop :=
  ∃ xs w', out.1.stores A.plan s out.2.1 = some xs ∧ A.Seen out.2.2 w' ∧
    Ends x w (.ok none (w'.storeAll A.env xs))

/-- The chain of the tests, with what takes the error that is left, ends with the stores for the place where
the search ends. -/
theorem Routes.run {env : Env} {vs : List Var} {arms : List (Expr × Expr)} {w : World} {r : Split.Routing} {n : Nat}
    {s : Splitter} {rest : Option Expr} {out : Exit × Value × σ} {x z : Expr}
    (h : A.Routes env vs arms w r n s rest out) (hstage : A.Stage env vs) (hchain : Chain x arms z)
    (hrest : ∀ y, rest = some y → x = y)
    (houtside : rest = none → ∀ y w, A.At env vs y w → Fine r n y →
      ∃ xs, Exit.outside.stores A.plan s y.err = some xs ∧
        Ends (fun c => c.eval x env) w (.ok none (w.storeAll A.env xs))) :
    A.Reaches s (fun c => c.eval z env) w out := by
  cases h with
  | @took _ g h e st xs hxs ht =>
    obtain ⟨w', hseen, htakes⟩ := ht
    exact ⟨xs, w', hxs, hseen, hchain.takes htakes⟩
  | @met y g c w' y' xs hf hy hxs hx =>
    refine ⟨xs, w', hxs, hy.seen hstage, hchain.falls hf ?_⟩
    rwa [hrest y rfl]
  | @left w' y hf hy hfine =>
    obtain ⟨xs, hxs, hx⟩ := houtside rfl y w' hy hfine
    exact ⟨xs, w', hxs, hy.seen hstage, hchain.falls hf hx⟩

end Arrival

namespace Split

variable {σ : Type} {A : Arrival σ}

/-- What dispatch builds, in the scope of the handler that routes the error. -/
theorem dispatch_runs (hA : A.Sound) : Yields A.plan A.splitter (dispatch A.context A.ex) fun x s' =>
    A.Reaches s' (fun c => c.eval x (A.env.handling A.ex A.err A.world)) (A.world.push A.ex A.err.asError)
      A.found := by
  have htidy : A.Tidy A.splitter.supply.names none {} :=
    ⟨le_rfl, fun k hk => (by cases hk), List.nodup_nil, fun k hk => (by cases hk), fun t ht => (by cases ht)⟩
  unfold dispatch
  refine Yields.bind (routeGuards_finds hA (fun g hg => hg) rfl htidy) ?_
  rintro ⟨r, rest⟩ s₁ ⟨hgrown, n, htidy₁, -, arms, harms, hroutes⟩
  dsimp -zeta only at htidy₁ harms hroutes ⊢
  obtain ⟨env, w, hdeclare, hstage, hat⟩ := hA.begins
    (fun k hk => ⟨(htidy₁.flags k hk).1, (htidy₁.flags k hk).2.1⟩) htidy₁.nodup
  have hfine : Arrival.Fine {} A.splitter.supply.names A.start :=
    ⟨fun _ _ => rfl, fun _ t ht => (by cases ht)⟩
  rw [List.nil_append] at harms
  extract_lets tail
  -- around the tests stands a block for the flags, if there are any
  have htail : ∀ x s₂, Yields A.plan s₂ (tail x) fun z s' => s'.graph = s₂.graph ∧ s'.rethrow = s₂.rethrow ∧
      ∃ routed, Chain x arms routed ∧ ∀ w', Ends (fun c => c.eval routed env) w (.ok none w') →
        Ends (fun c => c.eval z (A.env.handling A.ex A.err A.world)) (A.world.push A.ex A.err.asError)
          (.ok none w') := by
    intro x s₂
    refine Yields.bind (routeArms_draws r.arms x) ?_
    rintro routed _ ⟨q, rfl, -, hchain⟩
    rw [harms] at hchain
    split
    · rename_i hempty
      rw [List.isEmpty_iff.mp hempty] at hdeclare
      cases hdeclare
      exact Yields.pure ⟨rfl, rfl, routed, hchain, fun w' hw' => hw'⟩
    · refine Yields.mono (Draws.build (.node .void _)) ?_
      rintro _ _ ⟨q', rfl, -, i, l, rfl⟩
      exact ⟨rfl, rfl, routed, hchain, fun w' hw' => block_ends hdeclare (.cons hw' (.nil none w'))⟩
  cases rest with
  -- a cleanup block ended the search
  | some x =>
    refine (htail x s₁).mono ?_
    rintro z s' ⟨hgraph, -, routed, hchain, hends⟩
    have hroute := hroutes s' (hgraph ▸ hgrown) (fun _ => hgraph) env r.skips A.start w hstage
      (List.Subset.refl _) hat hfine
    obtain ⟨xs, w', hxs, hseen, hrun⟩ := hroute.run hstage hchain (fun y hy => Option.some_inj.mp hy)
      fun hrest => by cases hrest
    exact ⟨xs, w', hxs, hseen, hends _ hrun⟩
  -- the error may leave all regions
  | none =>
    dsimp only
    split
    · refine .read (Yields.bind (Draws.build (.ref A.plan.excVar)) ?_)
      rintro _ _ ⟨q₂, rfl, -, i, l, rfl⟩
      refine Yields.bind (Draws.build (.ref A.ex)) ?_
      rintro _ _ ⟨q₃, rfl, -, j, m, rfl⟩
      refine Yields.bind (Draws.build (.storeError hA.excVar.1)) ?_
      rintro keep _ ⟨q₄, rfl, -, hkeep⟩
      refine Yields.bind (rethrowState_grown hA.stateVar.1 hA.excVar.1 hA.cell) ?_
      rintro r₀ s₅ ⟨hgrown₅, hrethrow⟩
      refine Yields.bind (setState_draws r₀ hA.stateVar.1) ?_
      rintro move _ ⟨q₆, rfl, -, hmove⟩
      refine Yields.bind (Draws.build (.node .void _)) ?_
      rintro _ _ ⟨q₇, rfl, -, i', l', rfl⟩
      refine Yields.mono (htail _ _) ?_
      rintro z s' ⟨hgraph, hsame', routed, hchain, hends⟩
      have hgrown' : A.splitter.graph.Grown s'.graph := by
        rw [hgraph]
        exact hgrown.trans hgrown₅
      have hroute := hroutes s' hgrown' (fun h => (by cases h)) env r.skips A.start w hstage (List.Subset.refl _)
        hat hfine
      have hstores : ∀ e, Exit.outside.stores A.plan s' e =
          some [(A.plan.excVar, e.asError), (A.plan.stateVar, .ofInt (s₅.graph.idOf r₀))] := by
        intro e
        rw [Exit.stores, hsame', hgraph]
        dsimp only
        rw [hrethrow]
        rfl
      have hperforms : A.Performs (fun _ => True)
          (fun e => [(A.plan.excVar, e.asError), (A.plan.stateVar, .ofInt (s₅.graph.idOf r₀))])
          (.node i' l' .void (.block [] [keep, move])) := by
        refine performs_block hA (fun e x hx => ?_) fun e _ _ _ => ?_
        · simp only [List.mem_cons, List.not_mem_nil, or_false] at hx
          obtain rfl | rfl := hx
          · exact hA.excVar.2
          · exact hA.stateVar.2
        · exact .cons (hkeep e) (.cons (hmove _ e) .nil)
      obtain ⟨xs, w', hxs, hseen, hrun⟩ := hroute.run hstage hchain (fun y hy => by cases hy) fun _ y w' hy _ =>
        ⟨_, hstores y.err, hperforms env r.skips y w' hstage hy trivial⟩
      exact ⟨xs, w', hxs, hseen, hends _ hrun⟩
    · rename_i hcovered
      refine Yields.bind (Draws.build (.node .void _)) ?_
      rintro _ _ ⟨q₂, rfl, -, i, l, rfl⟩
      refine Yields.mono (htail _ _) ?_
      rintro z s' ⟨hgraph, -, routed, hchain, hends⟩
      have hroute := hroutes s' (hgraph ▸ hgrown) (fun h => (by cases h)) env r.skips A.start w hstage
        (List.Subset.refl _) hat hfine
      obtain ⟨hfiltered, hcovers⟩ : r.filtered = false ∧ r.seen.contains .error = true := by
        simpa using hcovered
      -- a handler for every error is among those that were asked
      have hnone : ∀ y w, A.At env r.skips y w → ¬Arrival.Fine r n y := by
        intro y w hy hfine'
        have hno := hfine'.of_covered hA htidy₁ hy.typed hfiltered hA.error hcovers
        rw [hy.raisable.error] at hno
        cases hno
      obtain ⟨xs, w', hxs, hseen, hrun⟩ := hroute.run hstage hchain (fun y hy => by cases hy)
        fun _ y w' hy hfine' => absurd hfine' (hnone y w' hy)
      exact ⟨xs, w', hxs, hseen, hends _ hrun⟩

/-- **Dispatching an error is searching its handler.** Dispatch succeeds. Whatever body raises the error, with the
handler that dispatch has built around it the run ends with the stores for the place where the plain search
ends: the handler that the search finds, the first cleanup block on the way out with the resume slot on the
state that raises the error again, or the state that fails the machine. The error that is stored is the one
that the search ends with, and the filters have been asked as in the search. -/
theorem dispatch_finds (hA : A.Sound) : ∃ x s', dispatch A.context A.ex A.plan A.splitter = .ok x s' ∧
    ∀ i r body w₀, Ends (fun c => c.eval body A.env) w₀ (.error (.raised A.err) A.world) →
      A.Reaches s' (fun c => c.eval (.node i r .void
        (.protect body [⟨.error, some A.ex, .absent, x⟩] .absent .absent)) A.env) w₀ A.found := by
  obtain ⟨x, s', hrun, xs, w, hxs, hseen, hends⟩ := dispatch_runs hA
  refine ⟨x, s', hrun, fun i r body w₀ hbody => ⟨xs, w, hxs, hseen, .eval ?_⟩⟩
  exact protect_handles hA.raisable hA.ex hbody hends fun c => leave_void c A.env none _

end Split

/-! ### A filter that raises an error -/

namespace FilterRaises

def first : Value := .struct (.named .valErr) []

def second : Value := .struct (.named .sliceErr) []

/-- A filter that raises the second error. -/
def filter : Expr := .node 2 2 .bool (.throw (.node 1 1 (.named .sliceErr) (.constant (some second))))

def types : List Ty := [.error, .named .valErr, .named .sliceErr]

def asking : Catch := ⟨1, none, .named .valErr, filter⟩

def skipped : Catch := ⟨2, none, .error, .absent⟩

def taking : Catch := ⟨3, some ⟨6, "second", .named .sliceErr⟩, .named .sliceErr, .absent⟩

/-- The first error arrives in two regions. In the inner one the filter raises the second error, so that the
handler for every error is skipped. The outer one has a handler for the second error, and a cleanup block. -/
def arrival : Arrival Unit where
  plan := { name := "filtered", options := {}, index := .ofBody .absent
            target := .async .future ⟨7, "cell", .future⟩ ⟨8, "continuation", .thunk⟩
            stateVar := ⟨1, "state", .int⟩, resumeVar := ⟨2, "resume", .int⟩, excVar := ⟨3, "exc", .error⟩
            brk := ⟨9, "break", .void⟩, cont := ⟨10, "continue", .void⟩ }
  splitter := { supply := ⟨2, 11, 2⟩, reporter := .ofBag (.empty 0)
                graph := ⟨#[{ id := 0 }, { id := 1 }, { id := 2 }, { id := 3 }, { id := 4 }],
                  #[{ handlers := [asking, skipped], caught := some ⟨4, "inner", .error⟩, outer := [1] },
                    { handlers := [taking], cleanup := some 4, caught := some ⟨5, "outer", .error⟩ }]⟩ }
  context := [0, 1]
  ex := ⟨11, "ex", .error⟩
  env := { slots := [(1, 0), (2, 1), (3, 2), (4, 3), (5, 4), (6, 5)] }
  world := { store := #[], slots := #[default, default, default, default, default, default] }
  err := first
  types t := t ∈ types
  filters := ⟨fun _ _ _ => (.fails second, ()), fun _ _ => True⟩
  st := ()

theorem handler_cases {h : Catch} (hh : arrival.Handler h) : h = asking ∨ h = skipped ∨ h = taking := by
  obtain ⟨g, hg, hmem⟩ := hh
  obtain rfl | rfl : g = 0 ∨ g = 1 := by simpa [arrival] using hg
  · obtain rfl | rfl : h = asking ∨ h = skipped := by simpa [arrival, Graph.guard] using hmem
    · exact Or.inl rfl
    · exact Or.inr (Or.inl rfl)
  · exact Or.inr (Or.inr (by simpa [arrival, Graph.guard] using hmem))

theorem raisable_first : first.Raisable where
  bare _ _ h := by cases h
  concrete := by decide
  error := by decide
  catchable := rfl

theorem raisable_second : second.Raisable where
  bare _ _ h := by cases h
  concrete := by decide
  error := by decide
  catchable := rfl

theorem error_mem : Ty.error ∈ types := by decide

theorem first_mem : first.typeOf ∈ types := by decide

theorem second_mem : second.typeOf ∈ types := by decide

theorem types_trans : ∀ t ∈ types, ∀ u ∈ types, ∀ v ∈ types,
    t.assignableTo u = true → u.assignableTo v = true → t.assignableTo v = true := by decide

theorem filter_ends (env : Env) (w : World) :
    Ends (fun c => evalAs c filter .bool env) w (.error (.raised second) w) := by
  unfold evalAs
  refine Ends.stop (Ends.eval ?_)
  unfold filter evalNode
  exact Ends.bind (const_ends rfl) (.of_eq fun _ => rfl)

/-- A handler of the arrival is known to it. -/
theorem soundHandler {h : Catch} (hh : arrival.Handler h) : arrival.SoundHandler h := by
  obtain rfl | rfl | rfl := handler_cases hh
  · refine ⟨show 1 < 5 by decide, fun v hv => (by cases hv), fun v hv => (by cases hv), first_mem,
      fun v hv => (by cases hv), ?_⟩
    -- the filter raises a constant
    refine Expr.every_node.mpr ⟨fun v hv => (by cases hv <;> contradiction), fun c hc => ?_⟩
    cases List.mem_singleton.mp hc
    exact Expr.every_node.mpr ⟨fun v hv => (by cases hv <;> contradiction), fun c hc => (by cases hc)⟩
  · exact ⟨show 2 < 5 by decide, fun v hv => (by cases hv), fun v hv => (by cases hv), error_mem,
      fun v hv => (by cases hv), Expr.every_absent⟩
  · refine ⟨show 3 < 5 by decide, fun v hv => ?_, fun v hv => ?_, second_mem, fun v hv => ?_, Expr.every_absent⟩
    all_goals cases hv
    · exact ⟨⟨by decide, by decide⟩, _, rfl⟩
    · decide
    · exact second_mem

/-- What an arrival knows of its handlers is so. -/
theorem sound : arrival.Sound where
  ex := rfl
  named := by decide
  stateVar := ⟨rfl, ⟨by decide, by decide⟩, _, rfl⟩
  resumeVar := ⟨rfl, ⟨by decide, by decide⟩, _, rfl⟩
  excVar := ⟨rfl, ⟨by decide, by decide⟩, _, rfl⟩
  cell b v k htarget := by
    cases htarget
    rfl
  guard g hg := by
    obtain rfl | rfl : g = 0 ∨ g = 1 := by simpa [arrival] using hg
    · exact ⟨_, rfl, rfl, ⟨by decide, by decide⟩, _, rfl⟩
    · exact ⟨_, rfl, rfl, ⟨by decide, by decide⟩, _, rfl⟩
  handler _ hh := soundHandler hh
  scope v a ha := by
    obtain ⟨xs, ys, heq, -⟩ := List.lookup_eq_some_iff.mp ha
    have hmem : (v.id, a) ∈ arrival.env.slots := by simp [heq]
    have hall : ∀ x ∈ arrival.env.slots, x.2 < 6 := by decide
    exact hall _ hmem
  closures κ hκ := absurd hκ (Array.not_mem_empty κ)
  -- transitivity is asked of the types of the arrival only
  trans t u v ht hu hv := types_trans t ht u hu v hv
  error := error_mem
  raisable := raisable_first
  typed := first_mem
  filters :=
    { push := fun _ _ _ _ _ => trivial
      bind := fun _ _ _ _ _ _ _ _ _ _ => trivial
      fill := fun _ _ _ _ _ _ _ => trivial
      run := fun h _ _ env w hh hf _ _ _ _ _ _ _ => by
        obtain rfl | rfl | rfl := handler_cases hh
        · exact ⟨w, trivial, filter_ends env w⟩
        · cases hf
        · cases hf
      fails := fun _ _ _ e' he => by
        cases he
        exact ⟨raisable_second, second_mem⟩ }
  sees := trivial

end FilterRaises

theorem Split.dispatch_finds_filterRaises : FilterRaises.arrival.Sound ∧
    FilterRaises.arrival.found = (.handler 1 FilterRaises.taking, FilterRaises.second, ()) ∧
      ∃ x s', Split.dispatch FilterRaises.arrival.context FilterRaises.arrival.ex FilterRaises.arrival.plan
          FilterRaises.arrival.splitter = .ok x s' ∧
        ∀ i r body w₀, Ends (fun c => c.eval body FilterRaises.arrival.env) w₀
            (.error (.raised FilterRaises.first) FilterRaises.arrival.world) →
          FilterRaises.arrival.Reaches s' (fun c => c.eval (.node i r .void
            (.protect body [⟨.error, some FilterRaises.arrival.ex, .absent, x⟩] .absent .absent))
              FilterRaises.arrival.env) w₀ FilterRaises.arrival.found :=
  ⟨FilterRaises.sound, rfl, Split.dispatch_finds FilterRaises.sound⟩

end Resumable
