import Resumable.Proofs.Assembling
import Resumable.Proofs.Renaming

/-!
# `Proofs.Iterating`: the lambda around the loop of an iterator

An iterator is a factory of step functions. Each of them gets copies of the parameters, to which the uses
of the parameters in the loop are redirected; so a machine that stands in the loop gets new identities on
the way, and what comes before is kept apart from what comes after.

**Contents**
* `Takes`: steps that take numbers and do nothing else.
* `Outlook.other`, `sees_other`, `loops_other`: the view of another machine.
* `copies_orders`, `factory_orders`: what comes before redirecting the parameters, and what comes after.
-/

namespace Resumable

open Resumable.Expr Split Build

namespace Split

/-! ### Steps that take numbers -/

/-- The step takes numbers and does nothing else. -/
class Takes (x : Split α) : Prop where
  only : ∀ p s, Ensures p s x fun _ s' => s' = { s with supply := s'.supply }

namespace Takes

variable {x y : Split α}

instance pure (a : α) : Takes (pure a : Split α) := ⟨fun _ _ => .pure rfl⟩

instance throw (f : Fault) : Takes (throw f : Split α) := ⟨fun _ _ => .throw f⟩

instance read : Takes (read : Split Plan) := ⟨fun _ _ => .of_run rfl rfl⟩

instance get : Takes (get : Split Splitter) := ⟨fun _ _ => .of_run rfl rfl⟩

instance bind {f : α → Split β} [hx : Takes x] [hf : ∀ a, Takes (f a)] : Takes (x >>= f) where
  only p s := (hx.only p s).bind fun a s₁ h1 => ((hf a).only p s₁).mono fun _ s₂ h2 => by
    rw [h2, h1]

instance ite {c : Prop} [Decidable c] [hx : Takes x] [hy : Takes y] : Takes (if c then x else y) := by
  split
  · exact hx
  · exact hy

instance mapM {f : γ → Split α} {xs : List γ} [hf : ∀ c, Takes (f c)] : Takes (xs.mapM f) := by
  induction xs with
  | nil =>
    rw [List.mapM_nil]
    infer_instance
  | cons c cs ih =>
    rw [List.mapM_cons]
    infer_instance

instance build (x : Build α) : Takes (liftM x : Split α) where
  only p s := by
    intro a s' hrun
    change Split.build x p s = _ at hrun
    unfold Split.build at hrun
    split at hrun
    · cases hrun
      rfl
    · cases hrun

instance setStateId (id : Int) : Takes (setStateId id) := by unfold Split.setStateId; infer_instance

end Takes

/-- Copies of the parameters, and stores of the parameters into them. -/
def copies (params : List Var) : Split (List (Var × Var) × List Expr) := do
  let copies ← params.mapM fun p => return (p, ← Build.newVar p.name p.type)
  let prologue ← copies.mapM fun (p, c) => do Build.assign (← Build.ref c) (← Build.ref p)
  return (copies, prologue)

/-- The sequence that gives out an enumeration. -/
def factory (plan : Plan) (shape : Ty) (params : List Var) (dispose currentVar : Var)
    (copies : List (Var × Var)) (prologue : List Expr) (loop : Expr) : Split (Expr × List Var) := do
  let ex ← Build.newVar "ex" .error
  let reset ← setStateId (-1)
  let again ← Build.throwAs (← Build.ref ex) .bool
  let guarded ← Build.catchAll loop ex (← Build.typedBlock .bool [] [reset, again])
  let step ← Build.lambda "step" true [dispose, currentVar] guarded
  let vars := (← get).vars.toList ++ [plan.stateVar, plan.resumeVar, plan.excVar] ++
    params.filterMap fun p => copies.reverse.lookup p
  let start ← setStateId 0
  let resume ← Build.assign (← Build.ref plan.resumeVar) (← Build.constInt (-1))
  let body ← Build.block vars ([start, resume] ++ prologue ++ [step])
  let seq ← Build.callLibrary .newSequence [← Build.lambda "factory" false [] body]
  let made := copies.map (·.2)
  if shape == .sequence then return (seq, made)
  let shapeValue ← Build.constOf (some (.type shape)) (.named .typeIface)
  return (← Build.convert (← Build.callLibrary .adapt [seq, shapeValue]) shape, made)

theorem assembleIterator_eq (shape : Ty) (params : List Var) (dispose currentVar : Var) (loop : Expr) :
    assembleIterator shape params dispose currentVar loop = (do
      let plan ← read
      let (copies, prologue) ← copies params
      let loop ← substitute copies.reverse loop
      factory plan shape params dispose currentVar copies prologue loop) := by
  unfold assembleIterator copies factory
  simp only [bind_assoc, pure_bind]

instance (params : List Var) : Takes (copies params) := by unfold copies; infer_instance

instance (params : List Var) : Keeps (copies params) := by unfold copies; infer_instance

instance (plan : Plan) (shape : Ty) (params : List Var) (dispose currentVar : Var) (cs : List (Var × Var))
    (prologue : List Expr) (loop : Expr) :
    Takes (factory plan shape params dispose currentVar cs prologue loop) := by
  unfold factory
  dsimp only
  repeat' first | infer_instance | split | refine @Takes.bind _ _ _ _ ?_ fun _ => ?_

instance (plan : Plan) (shape : Ty) (params : List Var) (dispose currentVar : Var) (cs : List (Var × Var))
    (prologue : List Expr) (loop : Expr) :
    Keeps (factory plan shape params dispose currentVar cs prologue loop) := by
  unfold factory
  dsimp only
  repeat' first | infer_instance | split | refine .seq ?_ fun _ => ?_

end Split

/-! ### Later views -/

section
variable {m m' : Watch} {V : Outlook} {p : Plan} {s : Splitter} {hosts : Bool} {base q : Supply} {last : Splitter}

/-- The variables of the target mean nothing to the watch. -/
def Target.Strange (m : Watch) : Target → Prop
  | .async _ cell continuation => m.Plain cell.id ∧ m.Plain continuation.id
  | .iterator _ params dispose current => (∀ v ∈ params, m.Bound v) ∧ m.Bound dispose ∧ m.Bound current

theorem Target.Strange.ages {t : Target} (h : t.Strange m) (ha : m.Ages m') : t.Strange m' := by
  cases t with
  | async => exact ⟨h.1.ages ha, h.2.ages ha⟩
  | iterator => exact ⟨fun v hv => (h.1 v hv).ages ha, h.2.1.ages ha, h.2.2.ages ha⟩

/-- The variables of the machine that is split mean nothing to the watch. -/
structure Plan.Strange (m : Watch) (p : Plan) : Prop where
  stateVar : m.Plain p.stateVar.id
  resumeVar : m.Plain p.resumeVar.id
  excVar : m.Plain p.excVar.id
  target : p.target.Strange m

theorem Plan.Strange.ages (h : p.Strange m) (ha : m.Ages m') : p.Strange m' :=
  ⟨h.stateVar.ages ha, h.resumeVar.ages ha, h.excVar.ages ha, h.target.ages ha⟩

/-- The view of a machine that is not watched. -/
def Outlook.other (hosts : Bool) (base : Supply) (last : Splitter) : Outlook := ⟨false, hosts, base, last⟩

/-- What the watch knows about a machine that is not its own: its numbers are none of the watched one's. -/
theorem sees_other (hosts : Bool) (hp : p.Strange m) (hclear : m.Clear base last.supply)
    (hlimit : last.supply.names ≤ m.limit.names) : (Outlook.other hosts base last).Sees m p where
  alone h := by cases h
  stateVar := ⟨fun h => (by cases h), fun _ => hp.stateVar⟩
  resumeVar := ⟨fun h => (by cases h), fun _ => hp.resumeVar⟩
  fair h := by cases h
  leave h := by cases h
  excVar := hp.excVar
  target := by
    have htarget := hp.target
    cases hkind : p.target with
    | async backend cell continuation =>
      rw [hkind] at htarget
      exact ⟨htarget.1, fun h => (by cases h), ⟨fun h => (by cases h), fun _ => htarget.2⟩⟩
    | iterator shape params dispose current =>
      rw [hkind] at htarget
      exact ⟨rfl, htarget⟩
  good h := by cases h
  clean h := by cases h
  parks h := by cases h
  names i hi hle := (hclear.names i hi hle).foreign
  refs := hclear.refs
  parked i hi hlt hle := absurd hi (hclear.names i hlt hle).loose
  within := hlimit

theorem loops_other : (Outlook.other hosts base last).Loops m p :=
  ⟨fun h => (by cases h), fun h => (by cases h)⟩

/-- The names that the code of the machine relies on are none of those that are handed out in between. -/
def Watch.Aside (m : Watch) (q q' : Supply) : Prop := ∀ i, m.Marks i → i ≤ q.names ∨ q'.names < i

theorem Watch.Aside.mono {q₀ q q' q₁ : Supply} (h : m.Aside q₀ q₁) (h0 : q₀.Below q) (h1 : q'.Below q₁) :
    m.Aside q q' := fun i hi =>
  (h i hi).imp (fun hle => Nat.le_trans hle h0.names) fun hlt => Nat.lt_of_le_of_lt h1.names hlt

theorem Watch.Aside.ages {q q' : Supply} (h : m.Aside q q') (ha : m.Ages m') : m'.Aside q q' := by
  obtain ⟨_, _, _, rfl, -, -⟩ := ha
  exact h

/-- Names that were handed out since are none that the machine relies on. -/
theorem Watch.Aside.bound {q' : Supply} (ha : m.Aside q q') {v : Var} (hi : q.names < v.id)
    (hle : v.id ≤ q'.names) : Watch.Bound { m with limit := q' } v :=
  have hmark : ¬ m.Marks v.id := fun hm => by
    obtain hm | hm := ha _ hm
    · exact absurd hi (Nat.not_lt.mpr hm)
    · exact absurd hle (Nat.not_le.mpr hm)
  ⟨⟨fun ho => hmark (.inl ho), fun hp => hmark (.inr (.inl hp)), hle⟩, fun hc => hmark (.inr (.inr hc))⟩

/-- Numbers that were handed out since mean nothing to the watch. -/
theorem Watch.Ready.clear {q' : Supply} (h : m.Ready q) (ha : m.Aside q q') :
    Watch.Clear { m with limit := q' } q q' where
  names i hi hle := (ha.bound (v := ⟨i, "", .void⟩) hi hle).plain
  refs r hr hle := ⟨hle, fun hc => absurd hr (Nat.not_lt.mpr (h.copies r hc))⟩

theorem Obeys.later_onward {role : Role} {e : Expr} (h : Obeys m role e) (hmm : m.Onward m') : Obeys m' role e :=
  h.later hmm.toLater (hmm.kept e)

/-- A splitter that was in order is so later on, when the watch has moved on with the supply. -/
theorem Orderly.onward {last' : Splitter} (h : Orderly m (.other hosts base last) s) (hmm : m.Onward m')
    (hq : s.supply.Below q) (hgraph : last'.graph = last.graph) (hstates : last'.states = last.states) :
    Orderly m' (.other hosts q last') { s with supply := q } := by
  -- states and graph are those of before, so targets and kinds carry over
  have hlisted : ∀ r, (Outlook.other hosts base last).Listed r → (Outlook.other hosts q last').Listed r := by
    intro r hr
    show r ∈ last'.states
    rw [hstates]
    exact hr
  have hkind : ∀ r, (Outlook.other hosts q last').Clean r ↔ (Outlook.other hosts base last).Clean r := by
    intro r
    show (last'.graph.state r).kind = _ ↔ (last.graph.state r).kind = _
    rw [hgraph]
  have htarget : ∀ r, (Outlook.other hosts base last).Target r → (Outlook.other hosts q last').Target r :=
    fun r hr => ⟨hlisted r hr.listed, fun hc => hr.plain ((hkind r).mp hc)⟩
  have hplain : ∀ i, m.Plain i → m'.Plain i := fun i h => h.ages hmm.ages
  exact
    { base := .refl q
      states := fun r =>
        let hr := h.states r
        { stmts := fun x hx => (hr.stmts x hx).later_onward hmm
          shape := hr.shape.later hmm.ages
          bare := hr.bare
          next := fun n hn => ⟨hlisted n (hr.next n hn).1, fun hc => (hr.next n hn).2 ((hkind n).mp hc)⟩
          resume := fun t ht => htarget t (hr.resume t ht)
          result := fun v hv => hplain _ (hr.result v hv) }
      guards := fun g =>
        let hg := h.guards g
        { handlers := fun c hc =>
            let hh := hg.handlers c hc
            ⟨htarget _ hh.1, hh.2.1.later_onward hmm, fun v hv => hplain _ (hh.2.2 v hv)⟩
          cleanup := fun r hr => hlisted r (hg.cleanup r hr)
          propagate := fun r hr => htarget r (hg.propagate r hr)
          disposeExit := fun r hr => htarget r (hg.disposeExit r hr)
          caught := fun v hv => hplain _ (hg.caught v hv)
          parked := fun v hv => Nat.le_trans (hg.parked v hv) hq.names }
      labels := fun l r hr => htarget r (h.labels l r hr)
      rethrow := fun r hr => htarget r (h.rethrow r hr)
      caught := fun v hv => hplain _ (h.caught v hv)
      vars := fun v hv => (h.vars v hv).ages hmm.ages }

/-! ### Before and after the parameters are redirected -/

/-- Every parameter has a copy of its own, and the stores that fill the copies. -/
theorem copies_orders (hV : V.Sees m p) (params : List Var) (hp : ∀ v ∈ params, m.Plain v.id) :
    Orders m V p (Split.copies params) fun c =>
      (∀ e ∈ c.1, e.1 ∈ params ∧ m.Plain e.2.id) ∧ ∀ y ∈ c.2, V.Value m y := by
  unfold Split.copies
  refine (Orders.mapM (P := fun e : Var × Var => e.1 ∈ params ∧ m.Plain e.2.id) fun v hv => ?_).bind
    fun copies hcopies => ?_
  · exact (Orders.build hV (newVar_gives _ _)).bind fun w hw => .pure ⟨hv, hw.1⟩
  · refine (Orders.mapM (P := V.Value m) fun e he => ?_).bind fun ys hys => .pure ⟨hcopies, hys⟩
    obtain ⟨hv, hw⟩ := hcopies e he
    refine (ref_value hV hw).bind fun a ha => (ref_value hV (hp _ hv)).bind fun b hb => ?_
    exact store_value hV ha hb

theorem mem_of_lookup {copies : List (Var × Var)} {v w : Var} (h : copies.lookup v = some w) : (v, w) ∈ copies := by
  induction copies with
  | nil => cases h
  | cons c copies ih =>
    rw [List.lookup_cons] at h
    split at h
    · rename_i heq
      cases h
      exact List.mem_cons.mpr (.inl (Prod.ext (eq_of_beq heq) rfl))
    · exact List.mem_cons_of_mem _ (ih h)

/-- The function that makes the step functions of an iterator is code outside every machine. -/
theorem factory_orders (hV : V.Sees m p) (ho : V.own = false) {shape : Ty} {params : List Var}
    {dispose current : Var} (hd : m.Bound dispose) (hc : m.Bound current) {copies : List (Var × Var)}
    (hcopies : ∀ e ∈ copies, m.Plain e.2.id) {prologue : List Expr} (hprologue : ∀ y ∈ prologue, V.Value m y)
    {loop : Expr} (hloop : V.Value m loop) :
    Orders m V p (Split.factory p shape params dispose current copies prologue loop) fun r => V.Value m r.1 := by
  have hstate : ∀ n, Orders m V p (setStateId n) (V.Value m) := fun n =>
    (setStateId_orders hV n).mono fun x hx => hx.other ho
  have hstep : ∀ v ∈ [dispose, current], m.Bound v := by simpa using ⟨hd, hc⟩
  unfold Split.factory
  refine (Orders.build hV (newVar_gives _ _)).andThen fun ex hex => (hstate _).andThen fun reset hreset => ?_
  refine (ref_value hV hex.1).andThen fun err herr => (Orders.value hV (throwAs_gives herr)).andThen fun again hagain => ?_
  refine (Orders.value hV (typedBlock_gives (by simp) (by simpa using ⟨hreset, hagain⟩))).andThen fun handler hh => ?_
  refine (Orders.value hV (catchAll_gives hex.1 hloop hh)).andThen fun guarded hguarded => ?_
  refine (Orders.value hV (lambda_gives hstep hguarded)).andThen fun step hstep => .get fun s hs => ?_
  extract_lets vars
  -- what the factory declares: slots, its steering variables, the caught error, the copies
  have hvars : ∀ v ∈ vars, m.Declarable v := by
    intro v hv
    simp only [vars, List.mem_append, Array.mem_toList_iff, List.mem_cons, List.not_mem_nil, or_false,
      List.mem_filterMap] at hv
    obtain (hv | rfl | rfl | rfl) | ⟨w, -, hv⟩ := hv
    · exact hs.vars v hv
    · exact (hV.stateVar.other ho).declarable
    · exact (hV.resumeVar.other ho).declarable
    · exact hV.excVar.declarable
    · exact (hcopies _ (List.mem_reverse.mp (mem_of_lookup hv))).declarable
  refine (hstate 0).andThen fun start hstart => (ref_value hV (hV.resumeVar.other ho)).andThen fun a ha => ?_
  refine (Orders.value hV (constInt_gives _)).andThen fun b hb => (store_value hV ha hb).andThen fun resume hresume => ?_
  have hbody : ∀ y ∈ [start, resume] ++ prologue ++ [step], V.Value m y := by
    intro y hy
    simp only [List.mem_append, List.mem_cons, List.not_mem_nil, or_false] at hy
    obtain ((rfl | rfl) | hy) | rfl := hy
    · exact hstart
    · exact hresume
    · exact hprologue y hy
    · exact hstep
  refine (Orders.value hV (block_gives hvars hbody)).bind fun body hbody => ?_
  refine (Orders.value hV (lambda_gives (by simp) hbody)).bind fun make hmake => ?_
  refine (Orders.value hV (callLibrary_gives (by simpa using hmake))).bind fun seq hseq => ?_
  split
  · exact .pure hseq
  · refine (Orders.value hV (constOf_gives _ _)).bind fun shapeValue hshape => ?_
    refine (Orders.value hV (callLibrary_gives (by simpa using ⟨hseq, hshape⟩))).bind fun adapted hadapted => ?_
    exact (Orders.value hV (convert_gives hadapted)).bind fun x hx => .pure hx

end

end Resumable
