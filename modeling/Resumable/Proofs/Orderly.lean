import Resumable.Proofs.Foreign
import Resumable.Proofs.Reports

/-!
# `Proofs.Orderly`: states whose statements treat a machine as they should

While one machine is split, a watch looks on: at that machine itself, or at another one, which may stand
in the body. The watch knows how splitting will end, so that the numbers of the states and the variables
that park the resume slot are known to it beforehand. `Orderly` is what holds of every splitter on the
way; `Orders` says that a step keeps it.

**Contents**
* `Outlook`: the splitter at the end, and which machine is watched.
* `Neat`, `Kempt`, `Orderly`: states, regions and splitters.
* `Toward`, `Orders`: what holds of steps on the way to the end, with a rule for each way of putting
  steps together.
-/

namespace Resumable

open Resumable.Expr Split Build

/-- How splitting one machine looks to a watch. -/
structure Outlook where
  /-- The machine that is split is the one that is watched. -/
  own : Bool
  /-- The watched machine may stand in the body. -/
  hosts : Bool
  /-- The numbers that were handed out before. -/
  base : Supply
  /-- The splitter at the end. -/
  last : Splitter

namespace Outlook

variable (V : Outlook) (m : Watch)

/-- The role of the statements of a state. -/
def role (armed bare : Bool) : Role := if V.own then .inside armed bare else .outside V.hosts

/-- What the state at a place was made for. -/
def kindOf (r : StateRef) : StateKind := (V.last.graph.state r).kind

/-- The state joins the dispatch loop. -/
def Listed (r : StateRef) : Prop := r ∈ V.last.states

/-- The state runs a cleanup block. -/
def Clean (r : StateRef) : Prop := V.kindOf r = .cleanup

/-- A state of the dispatch loop that runs no cleanup block. -/
structure Target (r : StateRef) : Prop where
  listed : V.Listed r
  plain : ¬ V.Clean r

/-- The variable `v` of the machine that is split is the variable `w` of the watch, or one that it does
not know. -/
structure Matches (v w : Var) : Prop where
  own : V.own = true → v = w
  other : V.own = false → m.Plain v.id

/-- The variable of the machine that is split parks the resume slot. -/
structure Parking (v : Var) : Prop where
  own : V.own = true → m.Parked v
  other : V.own = false → m.Plain v.id

/-- A value, or code that knows nothing of the machine that is split. -/
abbrev Value (x : Expr) : Prop := m.Foreign V.hosts x

/-- A statement that may stand anywhere. -/
structure Steady (x : Expr) : Prop where
  obeys : Obeys m (V.role false false) x
  plain : ∀ armed, ¬ m.Special armed x

/-- A statement that makes the next state, when it is that of a cleanup block. -/
structure Moving (x : Expr) : Prop where
  obeys : Obeys m (V.role false false) x
  enters : ∀ armed, m.Special armed x → m.Enters x

/-- What the watch knows about the machine that is split. -/
structure Sees (p : Plan) : Prop where
  alone : V.own = true → V.hosts = false
  stateVar : V.Matches m p.stateVar m.state
  resumeVar : V.Matches m p.resumeVar m.resume
  fair : V.own = true → m.Fair
  leave : V.own = true → p.brk.id = m.leave
  excVar : m.Plain p.excVar.id
  target : match p.target with
    | .async _ cell continuation =>
      m.Plain cell.id ∧ (V.own = true → cell = m.cell) ∧ V.Matches m continuation m.continuation
    | .iterator _ params dispose current =>
      V.own = false ∧ (∀ v ∈ params, m.Bound v) ∧ m.Bound dispose ∧ m.Bound current
  good : V.own = true → ∀ r, V.Target r → m.good (V.last.graph.state r).id
  clean : V.own = true → ∀ r, V.Listed r → V.Clean r → m.clean (V.last.graph.state r).id
  parks : V.own = true → ∀ g v, (V.last.graph.guard g).parked = some v → m.parked v.id
  names : ∀ i, V.base.names < i → i ≤ V.last.supply.names → ¬ m.Owns i
  refs : ∀ r, V.base.refs < r → r ≤ V.last.supply.refs → m.Ground r
  parked : ∀ i, m.parked i → V.base.names < i → i ≤ V.last.supply.names →
    V.own = true ∧ ∃ g v, (V.last.graph.guard g).parked = some v ∧ v.id = i
  within : V.last.supply.names ≤ m.limit.names

end Outlook

variable {m : Watch} {V : Outlook}

/-! ### Statements -/

/-- Code outside the machine is none of its statements. -/
theorem Obeys.not_puts {hosts : Bool} {x : Expr} {v : Var} {P : Expr → Prop} (h : m.Foreign hosts x)
    (hp : Watch.Puts v P x) : m.Plain v.id := by
  unfold Watch.Puts at hp
  split at hp
  · exact hp.1 ▸ (h.ordinary (by simp [Data.kind])).1 _ rfl
  · cases hp

/-- Code outside the machine is none of its special statements. -/
theorem Obeys.not_special {hosts armed : Bool} {x : Expr} (h : m.Foreign hosts x) :
    ¬ m.Special armed x := by
  have hstate : ¬ m.Plain m.state.id := fun hp => hp.foreign (.inl rfl)
  intro hs
  cases hs with
  | enters hx => exact hstate (h.not_puts hx)
  | ends hx => exact hstate (h.not_puts hx)
  | resumes hx => exact hstate (h.not_puts hx)
  | parks hx =>
    obtain ⟨v, hv, hx⟩ := hx
    exact (h.not_puts hx).loose hv.parked
  | hands hx =>
    unfold Watch.Hands at hx
    split at hx
    · rename_i k
      have hk : m.Foreign hosts k := (h.ordinary (by simp [Data.kind])).2 k (by simp [operands])
      exact (Build.Foreign.plain_of_asVar? hk hx.2.asVar?).foreign (.inr (.inr (.inl rfl)))
    · cases hx

theorem Outlook.Value.obeys {x : Expr} (h : V.Value m x) (armed bare : Bool)
    (ha : V.own = true → V.hosts = false) : Obeys m (V.role armed bare) x := by
  unfold Outlook.role
  split
  · rename_i hown
    exact .user (ha hown ▸ h)
  · exact h

theorem Outlook.Value.steady {x : Expr} (h : V.Value m x) (ha : V.own = true → V.hosts = false) :
    V.Steady m x :=
  ⟨h.obeys false false ha, fun _ => h.not_special⟩

theorem Outlook.Steady.moving {x : Expr} (h : V.Steady m x) : V.Moving m x :=
  ⟨h.obeys, fun armed hs => absurd hs (h.plain armed)⟩

/-! ### Lists of statements -/

namespace Watch

variable {armed bare : Bool} {prev x y z : Expr} {xs ys rest : List Expr}

theorem Fits.append (h : m.Fits armed bare prev x rest) (ys : List Expr) :
    m.Fits armed bare prev x (rest ++ ys) := by
  cases h with
  | any hx => exact .any hx
  | enter hx hy => exact .enter hx hy
  | aimed hp hx => exact .aimed hp hx
  | complete hp hx hz => exact .complete hp hx hz
  | fail hb hx hy hz => exact .fail hb hx hy hz
  | hand hx hy => exact .hand hx hy

theorem Shape.append (h : m.Shape armed bare prev xs)
    (h' : m.Shape armed bare (xs.getLast?.getD prev) ys) : m.Shape armed bare prev (xs ++ ys) := by
  induction xs generalizing prev with
  | nil => exact h'
  | cons x xs ih =>
    refine ⟨h.1.append ys, ih h.2 ?_⟩
    rwa [List.getLast?_cons, Option.getD_some] at h'

/-- What comes first does not lean on what stands before it. -/
theorem Shape.of_absent (h : m.Shape armed bare .absent xs) : m.Shape armed bare prev xs := by
  cases xs with
  | nil => trivial
  | cons x xs =>
    refine ⟨?_, h.2⟩
    cases h.1 with
    | any hx => exact .any hx
    | enter hx hy => exact .enter hx hy
    | aimed hp hx => exact hp.elim
    | complete hp hx hz =>
      obtain hc | hc | ⟨_, _, _, _, _, _, heq, _⟩ := hp
      · exact hc.elim
      · cases hc
      · cases heq
    | fail hb hx hy hz => exact .fail hb hx hy hz
    | hand hx hy => exact .hand hx hy

/-- Where no handler is around, more is allowed. -/
theorem Shape.loosen {bare' : Bool} (h : m.Shape armed bare prev xs) (hb : bare = true → bare' = true) :
    m.Shape armed bare' prev xs := by
  induction xs generalizing prev with
  | nil => trivial
  | cons x xs ih =>
    refine ⟨?_, ih h.2⟩
    cases h.1 with
    | any hx => exact .any hx
    | enter hx hy => exact .enter hx hy
    | aimed hp hx => exact .aimed hp hx
    | complete hp hx hz => exact .complete hp hx hz
    | fail hbare hx hy hz => exact .fail (hb hbare) hx hy hz
    | hand hx hy => exact .hand hx hy

theorem Shape.of_plain (h : ∀ x ∈ xs, ¬ m.Special armed x) : m.Shape armed bare prev xs := by
  induction xs generalizing prev with
  | nil => trivial
  | cons x xs ih =>
    exact ⟨.any (h x List.mem_cons_self), ih fun y hy => h y (List.mem_cons_of_mem _ hy)⟩

end Watch

/-! ### States, regions and splitters -/

/-- The statements of a state treat the machine as they should, and its transitions lead to states of the
loop; it enters a cleanup block only when it says where that one goes on. -/
structure Neat (m : Watch) (V : Outlook) (st : State) : Prop where
  stmts : ∀ x ∈ st.stmts, Obeys m (V.role false false) x
  shape : m.Shape (st.kind == .cleanup) (st.kind == .rethrow) .absent st.stmts.toList
  bare : st.kind = .rethrow → st.context = []
  next : ∀ n, st.next = some n → V.Listed n ∧ (V.Clean n → st.resume.isSome = true)
  resume : ∀ t, st.resume = some t → V.Target t
  result : ∀ v, st.result = some v → m.Plain v.id

/-- The parts of a region are states of the loop, and its variables are not those of the machine; the
variable that parks the resume slot was handed out with the numbers in `q`. -/
structure Kempt (m : Watch) (V : Outlook) (q : Supply) (g : Guard) : Prop where
  handlers : ∀ h ∈ g.handlers, V.Target h.state ∧ V.Value m h.filter ∧
    ∀ v, h.var = some v → m.Plain v.id
  cleanup : ∀ r, g.cleanup = some r → V.Listed r
  propagate : ∀ r, g.propagate = some r → V.Target r
  disposeExit : ∀ r, g.disposeExit = some r → V.Target r
  caught : ∀ v, g.caught = some v → m.Plain v.id
  parked : ∀ v, g.parked = some v → v.id ≤ q.names

/-- What holds of every splitter on the way. -/
structure Orderly (m : Watch) (V : Outlook) (s : Splitter) : Prop where
  base : V.base.Below s.supply
  states : ∀ r, Neat m V (s.graph.state r)
  guards : ∀ g, Kempt m V s.supply (s.graph.guard g)
  labels : ∀ l r, s.labels.lookup l = some r → V.Target r
  rethrow : ∀ r, s.rethrow = some r → V.Target r
  caught : ∀ v, s.caught = some v → m.Plain v.id
  vars : ∀ v ∈ s.vars, m.Declarable v

theorem Kempt.mono {q q' : Supply} {g : Guard} (h : Kempt m V q g) (hq : q.Below q') : Kempt m V q' g :=
  { h with parked := fun v hv => Nat.le_trans (h.parked v hv) hq.names }

theorem neat_default : Neat m V (Inhabited.default : State) where
  stmts x hx := absurd hx (Array.not_mem_empty x)
  shape := trivial
  bare h := by cases h
  next n h := by cases h
  resume t h := by cases h
  result v h := by cases h

theorem kempt_default (q : Supply) : Kempt m V q (Inhabited.default : Guard) where
  handlers h hh := by cases hh
  cleanup r h := by cases h
  propagate r h := by cases h
  disposeExit r h := by cases h
  caught v h := by cases h
  parked v h := by cases h

theorem Watch.Plain.declarable {v : Var} (h : m.Plain v.id) : m.Declarable v :=
  ⟨h.foreign, h.within, fun hp => absurd hp h.loose⟩

namespace Orderly

variable {s s' : Splitter} {r : StateRef} {g : GuardRef}

/-- Only the numbers and what stands beside the graph were changed. -/
theorem beside (h : Orderly m V s) (hgraph : s'.graph = s.graph) (hsupply : s.supply.Below s'.supply)
    (hlabels : ∀ l r, s'.labels.lookup l = some r → V.Target r)
    (hrethrow : ∀ r, s'.rethrow = some r → V.Target r)
    (hcaught : ∀ v, s'.caught = some v → m.Plain v.id) (hvars : ∀ v ∈ s'.vars, m.Declarable v) :
    Orderly m V s' where
  base := h.base.trans hsupply
  states r := hgraph ▸ h.states r
  guards g := hgraph ▸ (h.guards g).mono hsupply
  labels := hlabels
  rethrow := hrethrow
  caught := hcaught
  vars := hvars

theorem modifyState (h : Orderly m V s) {f : State → State}
    (hf : r < s.graph.states.size → Neat m V (f (s.graph.state r))) :
    Orderly m V { s with graph := s.graph.modifyState r f } :=
  { h with
    states := fun q => by
      show Neat m V ((s.graph.modifyState r f).state q)
      rw [state_modifyState]
      split
      · exact hf (by rename_i hq; exact hq.2)
      · exact h.states q }

theorem modifyGuard (h : Orderly m V s) {f : Guard → Guard}
    (hf : Kempt m V s.supply (f (s.graph.guard g))) :
    Orderly m V { s with graph := s.graph.modifyGuard g f } :=
  { h with
    guards := fun q => by
      show Kempt m V s.supply ((s.graph.modifyGuard g f).guard q)
      rw [guard_modifyGuard]
      split
      · exact hf
      · exact h.guards q }

theorem addState (h : Orderly m V s) {st : State} (hst : Neat m V st) :
    Orderly m V { s with graph := { s.graph with states := s.graph.states.push st } } :=
  { h with
    states := fun q => by
      show Neat m V (Graph.state { s.graph with states := s.graph.states.push st } q)
      rw [state_push]
      split
      · exact hst
      · exact h.states q }

theorem addGuard (h : Orderly m V s) {i : Guard} (hi : Kempt m V s.supply i) :
    Orderly m V { s with graph := { s.graph with guards := s.graph.guards.push i } } :=
  { h with
    guards := fun q => by
      show Kempt m V s.supply (Graph.guard { s.graph with guards := s.graph.guards.push i } q)
      rw [guard_push]
      split
      · exact hi
      · exact h.guards q }

/-- The numbers that a construction takes do not belong to the machine. -/
theorem clear {p : Plan} (hV : V.Sees m p) (h : Orderly m V s) {q : Supply}
    (hq : Before { s with supply := q } V.last) : m.Clear s.supply q where
  names i hi hle := by
    have hbase := Nat.lt_of_le_of_lt h.base.names hi
    have hlast := Nat.le_trans hle hq.supply.names
    refine ⟨hV.names i hbase hlast, fun hp => ?_, Nat.le_trans hlast hV.within⟩
    obtain ⟨-, g, v, hv, rfl⟩ := hV.parked i hp hbase hlast
    by_cases hg : g < s.graph.guards.size
    · have hparked := (h.guards g).parked v ((hq.guard g hg).symm.trans hv)
      exact absurd (Nat.lt_of_lt_of_le hi hparked) (Nat.lt_irrefl _)
    · have hnew := hq.parked g (Nat.le_of_not_lt hg) v hv
      exact absurd (Nat.lt_of_lt_of_le hnew hle) (Nat.lt_irrefl _)
  refs r hr hle := hV.refs r (Nat.lt_of_le_of_lt h.base.refs hr) (Nat.le_trans hle hq.supply.refs)

end Orderly

/-- What a splitter on the way shows of a state: its number and its kind at the end, or nothing as yet. -/
def Outlook.Shows (V : Outlook) (r : StateRef) (st : State) : Prop :=
  st.id = (V.last.graph.state r).id ∧ st.kind = V.kindOf r ∨ st = Inhabited.default

theorem Split.Before.shows {s : Splitter} (h : Before s V.last) (r : StateRef) :
    V.Shows r (s.graph.state r) := by
  by_cases hr : r < s.graph.states.size
  · exact .inl ⟨(h.state r hr).1.symm, (h.state r hr).2.symm⟩
  · exact .inr (by simp [Graph.state, Array.getD_eq_getD_getElem?, Nat.le_of_not_lt hr])

/-! ### Steps on the way -/

/-- Every successful run of `x` from `s` that is on the way to the end ends as `Q` says. -/
def Toward (V : Outlook) (p : Plan) (s : Splitter) (x : Split α) (Q : α → Splitter → Prop) : Prop :=
  Ensures p s x fun a s' => Before s' V.last → Q a s'

/-- The step keeps the splitter in order, and its results have a property. -/
def Orders (m : Watch) (V : Outlook) (p : Plan) (x : Split α) (P : α → Prop) : Prop :=
  ∀ s, Orderly m V s → Toward V p s x fun a s' => P a ∧ Orderly m V s'

namespace Toward

variable {p : Plan} {s : Splitter} {x : Split α} {Q R : α → Splitter → Prop}
  {T : β → Splitter → Prop}

theorem of_ensures (h : Ensures p s x Q) : Toward V p s x Q := h.mono fun _ _ h _ => h

theorem pure {a : α} (h : Q a s) : Toward V p s (pure a) Q := Ensures.pure fun _ => h

theorem throw (f : Fault) : Toward V p s (throw f) Q := Ensures.throw f

theorem mono (hx : Toward V p s x R) (h : ∀ a s', R a s' → Q a s') : Toward V p s x Q :=
  Ensures.mono hx fun a s' hr hb => h a s' (hr hb)

/-- What a later step is on the way to, an earlier one is on the way to as well. -/
theorem bind {f : α → Split β} (hx : Toward V p s x R) (hf : ∀ a s', R a s' → Toward V p s' (f a) T)
    [k : ∀ a, Keeps (f a)] : Toward V p s (x >>= f) T := by
  refine Ensures.bind hx fun a s₁ h1 b s₂ hrun hb => ?_
  exact hf a s₁ (h1 (((k a).later p s₁ b s₂ hrun).2.trans hb)) b s₂ hrun hb

/-- The same for a step before a choice, where instances alone do not show that what follows goes on. -/
theorem andThen {f : α → Split β} (hx : Toward V p s x R)
    (hf : ∀ a s', R a s' → Toward V p s' (f a) T)
    (hk : ∀ a, Keeps (f a) := by
      intros
      repeat' first
        | infer_instance | split | dsimp +zetaDelta only | refine .seq ?_ fun _ => ?_
        | refine .loop fun _ _ => ?_) : Toward V p s (x >>= f) T := hx.bind hf

theorem ensuring (hx : Toward V p s x Q) (hx' : Ensures p s x R) :
    Toward V p s x fun a s' => Q a s' ∧ R a s' :=
  fun a s' hrun hb => ⟨hx a s' hrun hb, hx' a s' hrun⟩

/-- A step whose beginning is on the way when its end is. -/
theorem before [hk : Keeps x] (h : Before s V.last → Toward V p s x Q) : Toward V p s x Q :=
  fun a s' hrun hb => h ((hk.later p s a s' hrun).2.trans hb) a s' hrun hb

/-- A step that says in any case what it does. -/
theorem after {f : α → Split β} (hx : Ensures p s x R) (hf : ∀ a s', R a s' → Toward V p s' (f a) T) :
    Toward V p s (x >>= f) T :=
  Ensures.bind hx hf

end Toward

namespace Orders

variable {p : Plan} {x : Split α} {P P' : α → Prop} {R : β → Prop}

theorem pure {a : α} (h : P a) : Orders m V p (pure a) P := fun _ hs => .pure ⟨h, hs⟩

theorem throw (f : Fault) : Orders m V p (throw f : Split α) P := fun _ _ => .throw f

theorem mono (h : Orders m V p x P) (hP : ∀ a, P a → P' a) : Orders m V p x P' :=
  fun s hs => (h s hs).mono fun a _ ha => ⟨hP a ha.1, ha.2⟩

theorem bind {f : α → Split β} (hx : Orders m V p x P) (hf : ∀ a, P a → Orders m V p (f a) R)
    [k : ∀ a, Keeps (f a)] : Orders m V p (x >>= f) R :=
  fun s hs => (hx s hs).bind fun a s' h => hf a h.1 s' h.2

/-- The same before a choice. -/
theorem andThen {f : α → Split β} (hx : Orders m V p x P) (hf : ∀ a, P a → Orders m V p (f a) R)
    (hk : ∀ a, Keeps (f a) := by
      intros
      repeat' first
        | infer_instance | split | dsimp +zetaDelta only | refine .seq ?_ fun _ => ?_
        | refine .loop fun _ _ => ?_) : Orders m V p (x >>= f) R := hx.bind hf

theorem read {f : Plan → Split β} (h : Orders m V p (f p) R) : Orders m V p (read >>= f) R := h

theorem get {f : Splitter → Split β} (h : ∀ s, Orderly m V s → Orders m V p (f s) R) :
    Orders m V p (get >>= f) R := fun s hs => h s hs s hs

theorem state {r : StateRef} {f : State → Split β}
    (h : ∀ st, Neat m V st → V.Shows r st → Orders m V p (f st) R)
    [k : ∀ st, Keeps (f st)] : Orders m V p (Split.state r >>= f) R :=
  fun s hs a s' hrun hb =>
    h _ (hs.states r) ((((k _).later p s a s' hrun).2.trans hb).shows r) s hs a s' hrun hb

theorem guard {g : GuardRef} {f : Guard → Split β}
    (h : ∀ i q, Kempt m V q i → Orders m V p (f i) R) : Orders m V p (Split.guard g >>= f) R :=
  fun s hs => h _ _ (hs.guards g) s hs

theorem current {f : State → Split β} (h : ∀ st, Neat m V st → Orders m V p (f st) R) :
    Orders m V p (Split.current >>= f) R := fun s hs => h _ (hs.states s.current) s hs

theorem needs {e : Expr} {f : Bool → Split β} (h : ∀ b, Orders m V p (f b) R) :
    Orders m V p (Split.needs e >>= f) R := fun s hs => Ensures.needs (h _ s hs)

theorem anyNeeds {xs : List Expr} {f : Bool → Split β} (h : ∀ b, Orders m V p (f b) R) :
    Orders m V p (xs.anyM Split.needs >>= f) R := fun s hs => Ensures.anyNeeds (h _ s hs)

theorem modify {f : Splitter → Splitter} {k : PUnit → Split β}
    (hf : ∀ s, Orderly m V s → Orderly m V (f s)) (h : Orders m V p (k ⟨⟩) R) :
    Orders m V p (MonadStateOf.modifyGet (fun s => (⟨⟩, f s)) >>= k) R :=
  fun s hs => h (f s) (hf s hs)

theorem map {f : α → β} (h : Orders m V p x fun a => R (f a)) : Orders m V p (f <$> x) R :=
  fun s hs => Ensures.map (h s hs)

/-- A walk over a list, with an invariant over what is still ahead. -/
theorem forIn {xs : List γ} {f : γ → β → Split (ForInStep β)} {b : β} {I : List γ → β → Prop}
    (h0 : I xs b) (hf : ∀ c rest b, I (c :: rest) b →
      Orders m V p (f c b) fun r => ∃ b', r = .yield b' ∧ I rest b')
    [k : ∀ c b, Keeps (f c b)] : Orders m V p (forIn xs b f) (I []) := by
  induction xs generalizing b with
  | nil =>
    rw [List.forIn_nil]
    exact pure h0
  | cons c cs ih =>
    rw [List.forIn_cons]
    refine bind (k := fun r => ?_) (hf c cs b h0) fun r => ?_
    · rintro ⟨b', rfl, h⟩
      exact ih h
    · split <;> infer_instance

theorem compositional : Compositional (m := Split) (fun _ x => Keeps x) fun _ x P => Orders m V p x P where
  pure h := ⟨inferInstance, pure h⟩
  bind _ _ hx hf := ⟨inferInstance, bind hx hf⟩

theorem mapM {f : γ → Split α} {xs : List γ} (hf : ∀ c ∈ xs, Orders m V p (f c) P)
    [k : ∀ c, Keeps (f c)] :
    Orders m V p (xs.mapM f) fun ys => ∀ y ∈ ys, P y :=
  (compositional.mapM k hf).2

/-- A construction that takes only numbers of its own. -/
theorem build (hV : V.Sees m p) {x : Build α} [hb : Onward x] (hx : Provides m x P) :
    Orders m V p (liftM x : Split α) P := by
  intro s hs a s' hrun hbefore
  change Split.build x p s = _ at hrun
  unfold Split.build at hrun
  split at hrun
  · rename_i b q hx'
    cases hrun
    exact ⟨hx _ _ _ hx' (hs.clear hV hbefore),
      hs.beside rfl (hb.below _ _ _ hx') hs.labels hs.rethrow hs.caught hs.vars⟩
  · cases hrun

/-- A construction leaves the graph and the current state alone. -/
theorem still {s : Splitter} {x : Build α} (h : Orders m V p (liftM x : Split α) P) (hs : Orderly m V s) :
    Toward V p s (liftM x : Split α) fun a s' =>
      P a ∧ Orderly m V s' ∧ s'.graph = s.graph ∧ s'.current = s.current := by
  refine ((h s hs).ensuring (R := fun _ s' => s'.graph = s.graph ∧ s'.current = s.current) ?_).mono
    fun a s' h => ⟨h.1.1, h.1.2, h.2⟩
  intro a s' hrun
  change Split.build x p s = _ at hrun
  unfold Split.build at hrun
  split at hrun
  · cases hrun
    exact ⟨rfl, rfl⟩
  · cases hrun

/-- A construction of code outside the machine. -/
theorem value (hV : V.Sees m p) {x : Build Expr} [Onward x] (hx : Provides m x (m.Foreign V.hosts)) :
    Orders m V p (liftM x : Split Expr) (V.Value m) := .build hV hx

end Orders

end Resumable
