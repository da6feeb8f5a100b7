import Resumable.Proofs.Build
import Resumable.Proofs.Ensures
import Resumable.Proofs.Reach

/-!
# `Proofs.Splitter`: what every step of splitting keeps

Splitting goes through half-finished machines: states wait for their transition, labels wait for their
place, regions for their handlers. `Inv` says what holds of all of them. It is stated against a
`Ledger`, which records what the steps so far have promised (states that somebody still finishes,
labels that have been reached) and what they rely on (facts about states and regions that no later
step changes).

**Contents**
* `Ensures`: what holds after every successful run of a computation.
* `Grows`: later steps add states and regions, and keep what the earlier ones settled.
* `Inv`: the invariant, with the ledger it is stated against.
* One lemma for every primitive step: statements, states, transitions, regions and labels.
-/

namespace Resumable

open Resumable.Expr

/-- A usage error, as opposed to a finding of the machine checker. -/
def Fingerprint.isUsageError (f : Fingerprint) : Bool :=
  f.severity == .error && f.code.number < 2000

/-- No usage error was reported. -/
def Quiet (seen : List Fingerprint) : Prop := ∀ f ∈ seen, f.isUsageError = false

theorem Quiet.mono {seen seen' : List Fingerprint} (h : Quiet seen') (hsub : seen ⊆ seen') :
    Quiet seen :=
  fun f hf => h f (hsub hf)

theorem Reporter.seen_subset_report (r : Reporter) (d : Diagnostic) :
    r.seen ⊆ (r.report d).seen := by
  unfold Reporter.report
  split
  · exact fun _ h => h
  · exact List.subset_cons_self _ _

theorem Reporter.mem_seen_report (r : Reporter) (d : Diagnostic) :
    d.fingerprint ∈ (r.report d).seen := by
  unfold Reporter.report
  split
  · rename_i h
    simpa using h
  · exact List.mem_cons_self

/-! ### Questions about the splitter -/

theorem Split.anyM_needs_run (xs : List Expr) (p : Plan) (s : Splitter) :
    xs.anyM Split.needs p s = .ok (xs.any p.index.needed) s := by
  induction xs with
  | nil => rfl
  | cons x xs ih =>
    show EStateM.bind (Split.needs x p) _ s = _
    unfold EStateM.bind
    rw [Split.needs_run, List.any_cons]
    cases p.index.needed x with
    | true => rfl
    | false => exact ih

namespace Ensures

variable {p : Plan} {s : Splitter} {Q' : β → Splitter → Prop}

theorem state {r : StateRef} {f : State → Split β} (h : Ensures p s (f (s.graph.state r)) Q') :
    Ensures p s (Split.state r >>= f) Q' := h

theorem guard {g : GuardRef} {f : Guard → Split β} (h : Ensures p s (f (s.graph.guard g)) Q') :
    Ensures p s (Split.guard g >>= f) Q' := h

theorem current {f : State → Split β} (h : Ensures p s (f (s.graph.state s.current)) Q') :
    Ensures p s (Split.current >>= f) Q' := h

/-- Asking whether a tree has to be split changes nothing. -/
theorem needs {e : Expr} {f : Bool → Split β} (h : Ensures p s (f (p.index.needed e)) Q') :
    Ensures p s (Split.needs e >>= f) Q' := by
  refine Ensures.bind (R := fun b s' => b = p.index.needed e ∧ s = s')
    (Ensures.of_run (Split.needs_run e p s) ⟨rfl, rfl⟩) ?_
  rintro _ _ ⟨rfl, rfl⟩
  exact h

theorem anyNeeds {xs : List Expr} {f : Bool → Split β}
    (h : Ensures p s (f (xs.any p.index.needed)) Q') : Ensures p s (xs.anyM Split.needs >>= f) Q' := by
  refine Ensures.bind (R := fun b s' => b = xs.any p.index.needed ∧ s = s')
    (Ensures.of_run (Split.anyM_needs_run xs p s) ⟨rfl, rfl⟩) ?_
  rintro _ _ ⟨rfl, rfl⟩
  exact h

end Ensures

namespace Split

/-! ### Growth -/

/-- A later form of the same state: its place is the same, and it goes on if it did before. -/
structure Kept (a b : State) : Prop where
  id : b.id = a.id
  context : b.context = a.context
  inCleanup : b.inCleanup = a.inCleanup
  closed : a.isOpen = false → b.isOpen = false

theorem Kept.refl (a : State) : Kept a a := ⟨rfl, rfl, rfl, fun h => h⟩

/-- The splitter later on: reports, identities, states, regions and labels were added, and those that
were there are still the same. -/
structure Grows (s s' : Splitter) : Prop where
  seen : s.reporter.seen ⊆ s'.reporter.seen
  refs : s.supply.refs ≤ s'.supply.refs
  registered : ∀ r ∈ s.states, r ∈ s'.states
  states : s.graph.states.size ≤ s'.graph.states.size
  state : ∀ r < s.graph.states.size, Kept (s.graph.state r) (s'.graph.state r)
  guards : s.graph.guards.size ≤ s'.graph.guards.size
  guard : ∀ g < s.graph.guards.size, (s'.graph.guard g).outer = (s.graph.guard g).outer ∧
    (s'.graph.guard g).cleanup = (s.graph.guard g).cleanup
  labels : ∀ l r, s.labels.lookup l = some r → s'.labels.lookup l = some r

/-- A splitter grows while its graph stays the same. -/
theorem Grows.beside {s s' : Splitter} (hgraph : s'.graph = s.graph)
    (hseen : s.reporter.seen ⊆ s'.reporter.seen) (hrefs : s.supply.refs ≤ s'.supply.refs)
    (hstates : ∀ r ∈ s.states, r ∈ s'.states)
    (hlabels : ∀ l r, s.labels.lookup l = some r → s'.labels.lookup l = some r) : Grows s s' where
  seen := hseen
  refs := hrefs
  registered := hstates
  states := Nat.le_of_eq (by rw [hgraph])
  state r _ := by rw [hgraph]; exact Kept.refl _
  guards := Nat.le_of_eq (by rw [hgraph])
  guard g _ := by rw [hgraph]; exact ⟨rfl, rfl⟩
  labels := hlabels

/-- What later steps rely on and no step changes. -/
inductive Fact where
  /-- A state of the graph. -/
  | made (r : StateRef)
  /-- A state that goes on, or ends. -/
  | closed (r : StateRef)
  /-- A state of the dispatch loop. -/
  | state (r : StateRef)
  /-- A state of the dispatch loop that belongs to a cleanup block. -/
  | entry (r : StateRef)
  | context (r : StateRef) (context : List GuardRef)
  /-- A region with its cleanup block and the regions around it. -/
  | region (g : GuardRef) (cleanup : Option StateRef) (context : List GuardRef)
  /-- A region with a cleanup block. -/
  | cleanup (g : GuardRef)
  /-- The state of a label. -/
  | label (l : Label) (r : StateRef)

/-- The fact is true of a splitter. -/
def Fact.Holds (s : Splitter) : Fact → Prop
  | .made r => r < s.graph.states.size
  | .closed r => r < s.graph.states.size ∧ (s.graph.state r).isOpen = false
  | .state r => r < s.graph.states.size ∧ r ∈ s.states
  | .entry r => r < s.graph.states.size ∧ r ∈ s.states ∧ (s.graph.state r).inCleanup = true
  | .context r c => r < s.graph.states.size ∧ (s.graph.state r).context = c
  | .region g r c =>
    g < s.graph.guards.size ∧ (s.graph.guard g).outer = c ∧ (s.graph.guard g).cleanup = r
  | .cleanup g => g < s.graph.guards.size ∧ (s.graph.guard g).cleanup.isSome = true
  | .label l r => s.labels.lookup l = some r

/-- A fact about the splitter stays true. -/
theorem Fact.Holds.grows {s s' : Splitter} {f : Fact} (h : f.Holds s) (g : Grows s s') :
    f.Holds s' := by
  cases f with
  | made r => exact Nat.lt_of_lt_of_le h g.states
  | closed r => exact ⟨Nat.lt_of_lt_of_le h.1 g.states, (g.state r h.1).closed h.2⟩
  | state r => exact ⟨Nat.lt_of_lt_of_le h.1 g.states, g.registered r h.2⟩
  | entry r =>
    refine ⟨Nat.lt_of_lt_of_le h.1 g.states, g.registered r h.2.1, ?_⟩
    rw [(g.state r h.1).inCleanup]
    exact h.2.2
  | context r c =>
    refine ⟨Nat.lt_of_lt_of_le h.1 g.states, ?_⟩
    rw [(g.state r h.1).context]
    exact h.2
  | region r x c =>
    refine ⟨Nat.lt_of_lt_of_le h.1 g.guards, ?_⟩
    rw [(g.guard r h.1).1, (g.guard r h.1).2]
    exact h.2
  | cleanup r =>
    refine ⟨Nat.lt_of_lt_of_le h.1 g.guards, ?_⟩
    rw [(g.guard r h.1).2]
    exact h.2
  | label l r => exact g.labels l r h

/-! ### The invariant -/

/-- The statements of a state are lowered and its transitions lead to states of the loop; it waits for
a cleanup block only when it goes on in one. -/
structure Wired (s : Splitter) (st : State) : Prop where
  stmts : ∀ x ∈ st.stmts, IsLowered x
  next : ∀ n, st.next = some n → (Fact.state n).Holds s
  resume : ∀ t, st.resume = some t →
    (Fact.state t).Holds s ∧ ∃ n, st.next = some n ∧ (Fact.entry n).Holds s

/-- The handlers and the cleanup block of a region are states of the loop in the context around the
region; no region has both. -/
structure Guarded (s : Splitter) (g : Guard) : Prop where
  handlers : ∀ h ∈ g.handlers, (Fact.state h.state).Holds s ∧ (Fact.context h.state g.outer).Holds s ∧
    (Quiet s.reporter.seen → IsLowered h.filter)
  cleanup : ∀ c, g.cleanup = some c →
    (Fact.entry c).Holds s ∧ (Fact.context c g.outer).Holds s ∧ g.parked.isSome = true
  apart : g.cleanup.isSome = true → g.handlers = []
  propagate : ∀ r, g.propagate = some r → (Fact.state r).Holds s
  disposeExit : ∀ r, g.disposeExit = some r → (Fact.state r).Holds s
  exit : ∀ r, g.exit = some r → (Fact.made r).Holds s

/-- Two regions with one exit belong to one protected expression: the later one holds its handlers and
stands inside the earlier one, which holds its cleanup block. -/
def Paired (graph : Graph) : Prop :=
  ∀ a b, a < b → b < graph.guards.size → (graph.guard a).exit = (graph.guard b).exit →
    (graph.guard b).outer = a :: (graph.guard a).outer ∧ (graph.guard a).cleanup.isSome = true ∧
      (graph.guard b).cleanup = none

theorem Wired.grows {s s' : Splitter} {st : State} (h : Wired s st) (g : Grows s s') :
    Wired s' st where
  stmts := h.stmts
  next n hn := (h.next n hn).grows g
  resume t ht := by
    obtain ⟨hs, n, hn, he⟩ := h.resume t ht
    exact ⟨hs.grows g, n, hn, he.grows g⟩

/-- A protected body that is in order stays so. -/
theorem Guarded.grows {s s' : Splitter} {i : Guard} (h : Guarded s i) (g : Grows s s') :
    Guarded s' i where
  handlers c hc := by
    obtain ⟨hs, hx, hf⟩ := h.handlers c hc
    exact ⟨hs.grows g, hx.grows g, fun hq => hf (hq.mono g.seen)⟩
  cleanup c hc := by
    obtain ⟨hs, hx, hp⟩ := h.cleanup c hc
    exact ⟨hs.grows g, hx.grows g, hp⟩
  apart := h.apart
  propagate r hr := (h.propagate r hr).grows g
  disposeExit r hr := (h.disposeExit r hr).grows g
  exit r hr := (h.exit r hr).grows g

/-- What the steps so far have promised, and what they rely on. -/
structure Ledger where
  /-- What was reported before the body was split. -/
  base : List Fingerprint
  /-- The last identity that was handed out before. -/
  refs : Nat
  /-- The labels that a visit of the body reaches. -/
  goals : List Label
  /-- The labels whose places have been reached. -/
  entered : List Label := []
  /-- The states that somebody still finishes. -/
  held : List StateRef := []
  known : List Fact := []

namespace Ledger

def enter (L : Ledger) (ls : List Label) : Ledger := { L with entered := ls ++ L.entered }

def hold (L : Ledger) (r : StateRef) : Ledger := { L with held := r :: L.held }

def learn (L : Ledger) (f : Fact) : Ledger := { L with known := f :: L.known }

def since (L : Ledger) (seen : List Fingerprint) : Ledger := { L with base := seen }

end Ledger

/-- What holds at every step of splitting. -/
structure Inv (L : Ledger) (s : Splitter) : Prop where
  base : L.base ⊆ s.reporter.seen
  refs : L.refs ≤ s.supply.refs
  known : ∀ f ∈ L.known, f.Holds s
  held : ∀ r ∈ L.held, (Fact.made r).Holds s
  current : (Fact.made s.current).Holds s
  /-- The states of the loop are numbered in order. -/
  numbered : ∀ (i : Nat) r, s.states[i]? = some r → r < s.graph.states.size ∧ (s.graph.state r).id = i
  wired : ∀ r < s.graph.states.size, Wired s (s.graph.state r)
  guarded : ∀ g < s.graph.guards.size, Guarded s (s.graph.guard g)
  paired : Paired s.graph
  frames : ∀ f ∈ s.frames, ∀ g, f.cleanup = some g → (Fact.cleanup g).Holds s
  labels : ∀ l r, s.labels.lookup l = some r → (Fact.state r).Holds s
  rethrow : ∀ r, s.rethrow = some r → (Fact.state r).Holds s
  placed : Quiet s.reporter.seen → ∀ l ∈ L.entered, (s.labels.lookup l).isSome = true
  /-- Every open state of the loop is the current one, is finished by somebody, or is the state of a
  label whose place is still to come. -/
  covered : Quiet s.reporter.seen → ∀ r ∈ s.states, (s.graph.state r).isOpen = true →
    r = s.current ∨ r ∈ L.held ∨ ∃ l ∈ L.goals, l ∉ L.entered ∧ s.labels.lookup l = some r

/-! ### Changing the ledger -/

section
variable {L : Ledger} {s : Splitter}

theorem Inv.learn {f : Fact} (h : Inv L s) (hf : f.Holds s) : Inv (L.learn f) s :=
  { h with
    known := fun f' hf' => by
      obtain rfl | hf' := List.mem_cons.mp hf'
      · exact hf
      · exact h.known f' hf' }

theorem Inv.forget {f : Fact} (h : Inv (L.learn f) s) : Inv L s :=
  { h with known := fun f' hf' => h.known f' (List.mem_cons_of_mem _ hf') }

theorem Inv.recall {f : Fact} (h : Inv (L.learn f) s) : f.Holds s := h.known f List.mem_cons_self

/-- What has been reported so far stays reported. -/
theorem Inv.since (h : Inv L s) : Inv (L.since s.reporter.seen) s := { h with base := fun _ hf => hf }

theorem Inv.unsince {seen : List Fingerprint} (h : Inv (L.since seen) s) (hsub : L.base ⊆ seen) :
    Inv L s :=
  { h with base := fun _ hf => h.base (hsub hf) }

/-- Fewer facts may be relied on, and more states may be promised. -/
theorem Inv.weaken {L' : Ledger} (h : Inv L s) (hbase : L'.base = L.base) (hrefs : L'.refs = L.refs)
    (hgoals : L'.goals = L.goals) (hentered : ∀ l, l ∈ L'.entered ↔ l ∈ L.entered)
    (hheld : L.held ⊆ L'.held) (hmade : ∀ r ∈ L'.held, (Fact.made r).Holds s)
    (hknown : L'.known ⊆ L.known) : Inv L' s where
  base := hbase ▸ h.base
  refs := hrefs ▸ h.refs
  known f hf := h.known f (hknown hf)
  held := hmade
  current := h.current
  numbered := h.numbered
  wired := h.wired
  guarded := h.guarded
  paired := h.paired
  frames := h.frames
  labels := h.labels
  rethrow := h.rethrow
  placed hq l hl := h.placed hq l ((hentered l).mp hl)
  covered hq r hr hopen := by
    obtain hc | hh | ⟨l, hgoal, hl, hr⟩ := h.covered hq r hr hopen
    · exact Or.inl hc
    · exact Or.inr (Or.inl (hheld hh))
    · exact Or.inr (Or.inr ⟨l, hgoals ▸ hgoal, fun hl' => hl ((hentered l).mp hl'), hr⟩)

/-- A state that goes on need not be held by anybody. -/
theorem Inv.unhold {r : StateRef} (h : Inv (L.hold r) s) (hc : (Fact.closed r).Holds s) : Inv L s :=
  { h with
    held := fun q hq => h.held q (List.mem_cons_of_mem _ hq)
    covered := fun hquiet q hq hopen => by
      obtain hcur | hh | hm := h.covered hquiet q hq hopen
      · exact Or.inl hcur
      · obtain rfl | hh := List.mem_cons.mp hh
        · rw [hc.2] at hopen
          cases hopen
        · exact Or.inr (Or.inl hh)
      · exact Or.inr (Or.inr hm) }

/-- After a usage error no label has to be reached any more. -/
theorem Inv.noisy (h : Inv L s) (hn : ¬ Quiet s.reporter.seen) (ls : List Label) :
    Inv (L.enter ls) s :=
  { h with
    placed := fun hq => absurd hq hn
    covered := fun hq => absurd hq hn }

end

/-! ### Steps that change the graph -/

section
variable {L : Ledger} {s : Splitter} {r : StateRef} {g : GuardRef}

theorem state_modifyState (graph : Graph) (r q : StateRef) (f : State → State) :
    (graph.modifyState r f).state q =
      if q = r ∧ r < graph.states.size then f (graph.state r) else graph.state q := by
  unfold Graph.modifyState Graph.state
  simp only [Array.getD_eq_getD_getElem?, Array.getElem?_modify]
  by_cases hq : r = q
  · subst hq
    by_cases hr : r < graph.states.size <;> simp [hr]
  · simp [hq, Ne.symm hq]

theorem state_push (graph : Graph) (st : State) (q : StateRef) :
    ({ graph with states := graph.states.push st } : Graph).state q =
      if q = graph.states.size then st else graph.state q := by
  unfold Graph.state
  simp only [Array.getD_eq_getD_getElem?, Array.getElem?_push]
  split <;> rfl

theorem guard_modifyGuard (graph : Graph) (g q : GuardRef) (f : Guard → Guard) :
    (graph.modifyGuard g f).guard q =
      if q = g ∧ g < graph.guards.size then f (graph.guard g) else graph.guard q := by
  unfold Graph.modifyGuard Graph.guard
  simp only [Array.getD_eq_getD_getElem?, Array.getElem?_modify]
  by_cases hq : g = q
  · subst hq
    by_cases hr : g < graph.guards.size <;> simp [hr]
  · simp [hq, Ne.symm hq]

theorem guard_push (graph : Graph) (i : Guard) (q : GuardRef) :
    ({ graph with guards := graph.guards.push i } : Graph).guard q =
      if q = graph.guards.size then i else graph.guard q := by
  unfold Graph.guard
  simp only [Array.getD_eq_getD_getElem?, Array.getElem?_push]
  split <;> rfl

theorem Inv.lt_of_mem (h : Inv L s) (hr : r ∈ s.states) : r < s.graph.states.size := by
  obtain ⟨i, hi, rfl⟩ := Array.getElem_of_mem hr
  exact (h.numbered i _ (Array.getElem?_eq_getElem hi)).1

/-- A step that only adds to the graph keeps the invariant, when what it leaves there is wired and
guarded. -/
theorem Inv.extend {s' : Splitter} (h : Inv L s) (hg : Grows s s') (hstates : s'.states = s.states)
    (hcurrent : s'.current = s.current) (hlabels : s'.labels = s.labels)
    (hframes : ∀ f ∈ s'.frames, f ∈ s.frames ∨ ∀ g, f.cleanup = some g → (Fact.cleanup g).Holds s')
    (hrethrow : ∀ r, s'.rethrow = some r → s.rethrow = some r ∨ (Fact.state r).Holds s')
    (hwired : ∀ r < s'.graph.states.size, Wired s' (s'.graph.state r))
    (hguarded : ∀ g < s'.graph.guards.size, Guarded s' (s'.graph.guard g))
    (hpaired : Paired s'.graph) : Inv L s' where
  base := fun _ hf => hg.seen (h.base hf)
  refs := Nat.le_trans h.refs hg.refs
  known f hf := (h.known f hf).grows hg
  held q hq := (h.held q hq).grows hg
  current := by
    rw [hcurrent]
    exact h.current.grows hg
  numbered i q hq := by
    rw [hstates] at hq
    obtain ⟨hlt, hid⟩ := h.numbered i q hq
    exact ⟨Nat.lt_of_lt_of_le hlt hg.states, by rw [(hg.state q hlt).id]; exact hid⟩
  wired := hwired
  guarded := hguarded
  paired := hpaired
  frames f hf q hq := by
    obtain hf | hf := hframes f hf
    · exact (h.frames f hf q hq).grows hg
    · exact hf q hq
  labels l q hq := by
    rw [hlabels] at hq
    exact (h.labels l q hq).grows hg
  rethrow q hq := by
    obtain hq | hq := hrethrow q hq
    · exact (h.rethrow q hq).grows hg
    · exact hq
  placed hquiet l hl := by
    rw [hlabels]
    exact h.placed (hquiet.mono hg.seen) l hl
  covered hquiet q hq hopen := by
    rw [hstates] at hq
    rw [hcurrent, hlabels]
    refine h.covered (hquiet.mono hg.seen) q hq ?_
    cases hc : (s.graph.state q).isOpen with
    -- a state that is open now was open before
    | true => rfl
    | false =>
      rw [(hg.state q (h.lt_of_mem hq)).closed hc] at hopen
      cases hopen

/-- The supply, the moments, the regions around new states and the variables are free to change. -/
theorem Inv.silent (h : Inv L s) {supply : Supply} (hsupply : s.supply.refs ≤ supply.refs)
    (moments : Array Moment) (context : List GuardRef) (cleanups : Nat) (caught : Option Var)
    (vars : Array Var) : Inv L { s with supply, moments, context, cleanups, caught, vars } := by
  have hg : Grows s { s with supply, moments, context, cleanups, caught, vars } :=
    .beside rfl (fun _ h => h) hsupply (fun _ h => h) fun _ _ h => h
  exact h.extend hg rfl rfl rfl (fun _ => Or.inl) (fun _ => Or.inl)
    (fun q hq => (h.wired q hq).grows hg) (fun q hq => (h.guarded q hq).grows hg) h.paired

/-- A state may be changed as long as it keeps its place and stays wired. -/
theorem Inv.modifyState {f : State → State} (h : Inv L s)
    (hk : Kept (s.graph.state r) (f (s.graph.state r)))
    (hw : r < s.graph.states.size → Wired s (f (s.graph.state r))) :
    Inv L { s with graph := s.graph.modifyState r f } := by
  have hsize : (s.graph.modifyState r f).states.size = s.graph.states.size := by
    simp [Graph.modifyState]
  have hg : Grows s { s with graph := s.graph.modifyState r f } :=
    { seen := fun _ h => h, refs := Nat.le_refl _, registered := fun _ h => h,
      states := Nat.le_of_eq hsize.symm, guards := Nat.le_refl _, guard := fun _ _ => ⟨rfl, rfl⟩,
      labels := fun _ _ h => h,
      state := fun q _ => by
        show Kept _ ((s.graph.modifyState r f).state q)
        rw [state_modifyState]
        split
        · rename_i hq
          rw [hq.1]
          exact hk
        · exact Kept.refl _ }
  refine h.extend hg rfl rfl rfl (fun _ => Or.inl) (fun _ => Or.inl) (fun q hq => ?_)
    (fun q hq => (h.guarded q hq).grows hg) h.paired
  show Wired _ ((s.graph.modifyState r f).state q)
  rw [state_modifyState]
  split
  · rename_i hr
    exact (hw hr.2).grows hg
  · exact (h.wired q (Nat.lt_of_lt_of_eq hq hsize)).grows hg

/-- A state that is in the graph only. -/
theorem Inv.addState {st : State} (h : Inv L s) (hw : Wired s st) :
    Inv (L.learn (.made s.graph.states.size))
      { s with graph := { s.graph with states := s.graph.states.push st } } := by
  have hsize : (s.graph.states.push st).size = s.graph.states.size + 1 := Array.size_push _
  have hg : Grows s { s with graph := { s.graph with states := s.graph.states.push st } } :=
    { seen := fun _ h => h, refs := Nat.le_refl _, registered := fun _ h => h,
      states := by simp, guards := Nat.le_refl _, guard := fun _ _ => ⟨rfl, rfl⟩,
      labels := fun _ _ h => h,
      state := fun q hq => by
        show Kept _ (Graph.state { s.graph with states := s.graph.states.push st } q)
        rw [state_push, if_neg (Nat.ne_of_lt hq)]
        exact Kept.refl _ }
  have hinv : Inv L { s with graph := { s.graph with states := s.graph.states.push st } } := by
    refine h.extend hg rfl rfl rfl (fun _ => Or.inl) (fun _ => Or.inl) (fun q hq => ?_)
      (fun q hq => (h.guarded q hq).grows hg) h.paired
    show Wired _ (Graph.state { s.graph with states := s.graph.states.push st } q)
    rw [state_push]
    split
    · exact hw.grows hg
    · rename_i hne
      have hle := Nat.le_of_lt_succ (Nat.lt_of_lt_of_eq hq hsize)
      exact (h.wired q (Nat.lt_of_le_of_ne hle hne)).grows hg
  exact hinv.learn (Nat.lt_of_lt_of_eq (Nat.lt_succ_self _) hsize.symm)

/-- A region whose parts are states of the loop already. One that shares its exit with an earlier region
stands inside that one. -/
theorem Inv.addGuard {i : Guard} (h : Inv L s) (hi : Guarded s i)
    (hp : ∀ a < s.graph.guards.size, (s.graph.guard a).exit = i.exit →
      i.outer = a :: (s.graph.guard a).outer ∧ (s.graph.guard a).cleanup.isSome = true ∧
        i.cleanup = none) :
    Inv (L.learn (.region s.graph.guards.size i.cleanup i.outer))
      { s with graph := { s.graph with guards := s.graph.guards.push i } } := by
  have hsize : (s.graph.guards.push i).size = s.graph.guards.size + 1 := Array.size_push _
  have hg : Grows s { s with graph := { s.graph with guards := s.graph.guards.push i } } :=
    { seen := fun _ h => h, refs := Nat.le_refl _, registered := fun _ h => h,
      states := Nat.le_refl _, guards := by simp, state := fun _ _ => Kept.refl _,
      labels := fun _ _ h => h,
      guard := fun q hq => by
        show (Graph.guard { s.graph with guards := s.graph.guards.push i } q).outer = _ ∧
          (Graph.guard { s.graph with guards := s.graph.guards.push i } q).cleanup = _
        rw [guard_push, if_neg (Nat.ne_of_lt hq)]
        exact ⟨rfl, rfl⟩ }
  -- the regions before stay as they are; the new one is paired with those of its exit
  have hinv : Inv L { s with graph := { s.graph with guards := s.graph.guards.push i } } := by
    refine h.extend hg rfl rfl rfl (fun _ => Or.inl) (fun _ => Or.inl)
      (fun q hq => (h.wired q hq).grows hg) (fun q hq => ?_) fun a b hab hb => ?_
    · show Guarded _ (Graph.guard { s.graph with guards := s.graph.guards.push i } q)
      rw [guard_push]
      split
      · exact hi.grows hg
      · rename_i hne
        have hle := Nat.le_of_lt_succ (Nat.lt_of_lt_of_eq hq hsize)
        exact (h.guarded q (Nat.lt_of_le_of_ne hle hne)).grows hg
    · have hle := Nat.le_of_lt_succ (Nat.lt_of_lt_of_eq hb hsize)
      have ha : a < s.graph.guards.size := Nat.lt_of_lt_of_le hab hle
      show (Graph.guard { s.graph with guards := s.graph.guards.push i } a).exit =
          (Graph.guard { s.graph with guards := s.graph.guards.push i } b).exit → _
      rw [guard_push, guard_push, if_neg (Nat.ne_of_lt ha)]
      split
      · exact hp a ha
      · rename_i hne
        exact h.paired a b hab (Nat.lt_of_le_of_ne hle hne)
  refine hinv.learn ⟨Nat.lt_of_lt_of_eq (Nat.lt_succ_self _) hsize.symm, ?_⟩
  show (Graph.guard { s.graph with guards := s.graph.guards.push i } s.graph.guards.size).outer = _ ∧
    (Graph.guard { s.graph with guards := s.graph.guards.push i } s.graph.guards.size).cleanup = _
  rw [guard_push, if_pos rfl]
  exact ⟨rfl, rfl⟩

/-- A region may be changed as long as it stays guarded and keeps its cleanup block. -/
theorem Inv.modifyGuard {f : Guard → Guard} (h : Inv L s)
    (ho : (f (s.graph.guard g)).outer = (s.graph.guard g).outer)
    (hc : (f (s.graph.guard g)).cleanup = (s.graph.guard g).cleanup)
    (he : (f (s.graph.guard g)).exit = (s.graph.guard g).exit)
    (hf : g < s.graph.guards.size → Guarded s (f (s.graph.guard g))) :
    Inv L { s with graph := s.graph.modifyGuard g f } := by
  have hsize : (s.graph.modifyGuard g f).guards.size = s.graph.guards.size := by
    simp [Graph.modifyGuard]
  -- outer regions, cleanup state and exit are untouched, which is all that other regions see
  have hsame : ∀ q, ((s.graph.modifyGuard g f).guard q).outer = (s.graph.guard q).outer ∧
      ((s.graph.modifyGuard g f).guard q).cleanup = (s.graph.guard q).cleanup ∧
      ((s.graph.modifyGuard g f).guard q).exit = (s.graph.guard q).exit := by
    intro q
    rw [guard_modifyGuard]
    split
    · rename_i hq
      rw [hq.1]
      exact ⟨ho, hc, he⟩
    · exact ⟨rfl, rfl, rfl⟩
  have hg : Grows s { s with graph := s.graph.modifyGuard g f } :=
    { seen := fun _ h => h, refs := Nat.le_refl _, registered := fun _ h => h,
      states := Nat.le_refl _, guards := Nat.le_of_eq hsize.symm, state := fun _ _ => Kept.refl _,
      labels := fun _ _ h => h, guard := fun q _ => ⟨(hsame q).1, (hsame q).2.1⟩ }
  refine h.extend hg rfl rfl rfl (fun _ => Or.inl) (fun _ => Or.inl)
    (fun q hq => (h.wired q hq).grows hg) (fun q hq => ?_) fun a b hab hb => ?_
  · show Guarded _ ((s.graph.modifyGuard g f).guard q)
    rw [guard_modifyGuard]
    split
    · rename_i hq
      exact (hf hq.2).grows hg
    · exact (h.guarded q (Nat.lt_of_lt_of_eq hq hsize)).grows hg
  · show ((s.graph.modifyGuard g f).guard a).exit = ((s.graph.modifyGuard g f).guard b).exit →
      ((s.graph.modifyGuard g f).guard b).outer = a :: ((s.graph.modifyGuard g f).guard a).outer ∧
        ((s.graph.modifyGuard g f).guard a).cleanup.isSome = true ∧
          ((s.graph.modifyGuard g f).guard b).cleanup = none
    rw [(hsame a).1, (hsame a).2.1, (hsame a).2.2, (hsame b).1, (hsame b).2.1, (hsame b).2.2]
    exact h.paired a b hab (Nat.lt_of_lt_of_eq hb hsize)

/-! ### Steps beside the graph -/

theorem Inv.report (h : Inv L s) (d : Diagnostic) :
    Inv L { s with reporter := s.reporter.report d } := by
  have hg : Grows s { s with reporter := s.reporter.report d } :=
    .beside rfl (Reporter.seen_subset_report _ _) (Nat.le_refl _) (fun _ h => h) fun _ _ h => h
  exact h.extend hg rfl rfl rfl (fun _ => Or.inl) (fun _ => Or.inl)
    (fun q hq => (h.wired q hq).grows hg) (fun q hq => (h.guarded q hq).grows hg) h.paired

/-- A state that gets the next number joins the loop; somebody has to finish it. -/
theorem Inv.register (h : Inv L s) (hr : (Fact.made r).Holds s)
    (hid : (s.graph.state r).id = s.states.size) :
    Inv ((L.hold r).learn (.state r)) { s with states := s.states.push r } := by
  have hg : Grows s { s with states := s.states.push r } :=
    .beside rfl (fun _ h => h) (Nat.le_refl _) (fun _ hq => Array.mem_push.mpr (Or.inl hq))
      fun _ _ h => h
  refine Inv.learn ?_ ⟨hr, Array.mem_push.mpr (Or.inr rfl)⟩
  exact
    { base := h.base, refs := h.refs, known := fun f hf => (h.known f hf).grows hg,
      held := fun q hq => by
        obtain rfl | hq := List.mem_cons.mp hq
        · exact hr
        · exact h.held q hq
      current := h.current,
      numbered := fun i q hq => by
        -- the new state has the number that comes next
        rw [Array.getElem?_push] at hq
        split at hq
        · rename_i hi
          cases hq
          exact ⟨hr, by rw [hi]; exact hid⟩
        · exact h.numbered i q hq
      wired := fun q hq => (h.wired q hq).grows hg,
      guarded := fun q hq => (h.guarded q hq).grows hg, paired := h.paired, frames := h.frames,
      labels := fun l q hq => (h.labels l q hq).grows hg,
      rethrow := fun q hq => (h.rethrow q hq).grows hg, placed := h.placed,
      covered := fun hquiet q hq hopen => by
        obtain hq | rfl := Array.mem_push.mp hq
        · obtain hc | hh | hl := h.covered hquiet q hq hopen
          · exact Or.inl hc
          · exact Or.inr (Or.inl (List.mem_cons_of_mem _ hh))
          · exact Or.inr (Or.inr hl)
        · exact Or.inr (Or.inl List.mem_cons_self) }

theorem state_push_self (graph : Graph) (st : State) :
    ({ graph with states := graph.states.push st } : Graph).state graph.states.size = st := by
  rw [state_push, if_pos rfl]

/-- A new state of the loop. -/
theorem Inv.newState {st : State} (h : Inv L s) (hw : Wired s st) (hid : st.id = s.states.size) :
    Inv (((L.hold s.graph.states.size).learn (.state s.graph.states.size)).learn
        (.context s.graph.states.size st.context))
      { s with graph := { s.graph with states := s.graph.states.push st },
               states := s.states.push s.graph.states.size } := by
  have h1 := h.addState hw
  have hmade := h1.known _ List.mem_cons_self
  have h2 := h1.register hmade ((congrArg State.id (state_push_self s.graph st)).trans hid)
  have h3 := h2.learn (f := .context s.graph.states.size st.context)
    ⟨hmade, congrArg State.context (state_push_self s.graph st)⟩
  refine h3.weaken rfl rfl rfl (fun _ => Iff.rfl) (fun _ h => h) h3.held fun f hf => ?_
  obtain rfl | hf := List.mem_cons.mp hf
  · exact List.mem_cons_self
  · obtain rfl | hf := List.mem_cons.mp hf
    · exact List.mem_cons_of_mem _ List.mem_cons_self
    · exact List.mem_cons_of_mem _ (List.mem_cons_of_mem _ (List.mem_cons_of_mem _ hf))

/-- Going on in another state: the one that is left goes on too, or is finished by somebody. Labels
whose state it is are reached with it. -/
theorem Inv.goOn {H : List StateRef} (h : Inv L s) (ls : List Label) (hr : (Fact.made r).Holds s)
    (hmade : ∀ q ∈ H, (Fact.made q).Holds s)
    (hleave : s.current ∈ s.states →
      (s.graph.state s.current).isOpen = false ∨ s.current = r ∨ s.current ∈ H)
    (hheld : ∀ q ∈ L.held, q = r ∨ q ∈ H) (hls : ∀ l ∈ ls, s.labels.lookup l = some r) :
    Inv { L with held := H, entered := ls ++ L.entered } { s with current := r } := by
  have hg : Grows s { s with current := r } :=
    .beside rfl (fun _ h => h) (Nat.le_refl _) (fun _ h => h) fun _ _ h => h
  exact
    { base := h.base, refs := h.refs, known := fun f hf => (h.known f hf).grows hg, held := hmade,
      current := hr, numbered := h.numbered, wired := fun q hq => (h.wired q hq).grows hg,
      guarded := fun q hq => (h.guarded q hq).grows hg, paired := h.paired, frames := h.frames,
      labels := h.labels, rethrow := h.rethrow,
      placed := fun hquiet l hl => by
        obtain hl | hl := List.mem_append.mp hl
        · exact Option.isSome_iff_exists.mpr ⟨r, hls l hl⟩
        · exact h.placed hquiet l hl
      -- an open state is the one left, one that is held, or one of a label still to be placed
      covered := fun hquiet q hq hopen => by
        obtain rfl | hh | ⟨l, hgoal, hl, hlook⟩ := h.covered hquiet q hq hopen
        · obtain hc | hc | hc := hleave hq
          · rw [show (s.graph.state s.current).isOpen = true from hopen] at hc
            cases hc
          · exact Or.inl hc
          · exact Or.inr (Or.inl hc)
        · obtain hq | hq := hheld q hh
          · exact Or.inl hq
          · exact Or.inr (Or.inl hq)
        · by_cases hmem : l ∈ ls
          · rw [hls l hmem] at hlook
            exact Or.inl (Option.some.inj hlook).symm
          · refine Or.inr (Or.inr ⟨l, hgoal, fun hl' => ?_, hlook⟩)
            exact (List.mem_append.mp hl').elim hmem hl }

theorem Inv.pushFrame {f : Frame} (h : Inv L s) (context : List GuardRef)
    (hf : ∀ g, f.cleanup = some g → (Fact.cleanup g).Holds s) :
    Inv L { s with context, frames := s.frames ++ [f] } := by
  have hg : Grows s { s with context, frames := s.frames ++ [f] } :=
    .beside rfl (fun _ h => h) (Nat.le_refl _) (fun _ h => h) fun _ _ h => h
  refine h.extend hg rfl rfl rfl (fun f' hf' => ?_) (fun _ => Or.inl)
    (fun q hq => (h.wired q hq).grows hg) (fun q hq => (h.guarded q hq).grows hg) h.paired
  obtain hf' | hf' := List.mem_append.mp hf'
  · exact Or.inl hf'
  · cases List.mem_singleton.mp hf'
    exact Or.inr fun g hg' => (hf g hg').grows hg

theorem Inv.popFrame (h : Inv L s) : Inv L { s with frames := s.frames.dropLast } := by
  have hg : Grows s { s with frames := s.frames.dropLast } :=
    .beside rfl (fun _ h => h) (Nat.le_refl _) (fun _ h => h) fun _ _ h => h
  exact h.extend hg rfl rfl rfl (fun f hf => Or.inl (List.dropLast_subset _ hf)) (fun _ => Or.inl)
    (fun q hq => (h.wired q hq).grows hg) (fun q hq => (h.guarded q hq).grows hg) h.paired

theorem Inv.setRethrow (h : Inv L s) (hr : (Fact.state r).Holds s) :
    Inv L { s with rethrow := some r } := by
  have hg : Grows s { s with rethrow := some r } :=
    .beside rfl (fun _ h => h) (Nat.le_refl _) (fun _ h => h) fun _ _ h => h
  refine h.extend hg rfl rfl rfl (fun _ => Or.inl) (fun q hq => ?_)
    (fun q hq => (h.wired q hq).grows hg) (fun q hq => (h.guarded q hq).grows hg) h.paired
  cases hq
  exact Or.inr (hr.grows hg)

/-- A label gets a state. -/
theorem Inv.addLabel {l : Label} (h : Inv L s) (hr : (Fact.state r).Holds s)
    (hnew : s.labels.lookup l = none) :
    Inv (L.learn (.label l r)) { s with labels := (l, r) :: s.labels } := by
  have hlook : ∀ m q, s.labels.lookup m = some q → ((l, r) :: s.labels).lookup m = some q := by
    intro m q hm
    rw [List.lookup_cons]
    split
    · rename_i heq
      rw [beq_iff_eq.mp heq, hnew] at hm
      cases hm
    · exact hm
  have hg : Grows s { s with labels := (l, r) :: s.labels } :=
    .beside rfl (fun _ h => h) (Nat.le_refl _) (fun _ h => h) hlook
  refine Inv.learn ?_ List.lookup_cons_self
  exact
    { base := h.base, refs := h.refs, known := fun f hf => (h.known f hf).grows hg,
      held := h.held, current := h.current, numbered := h.numbered,
      wired := fun q hq => (h.wired q hq).grows hg,
      guarded := fun q hq => (h.guarded q hq).grows hg, paired := h.paired, frames := h.frames,
      labels := fun m q hm => by
        rw [List.lookup_cons] at hm
        split at hm
        · cases hm
          exact hr
        · exact h.labels m q hm
      rethrow := h.rethrow,
      placed := fun hquiet m hm => by
        obtain ⟨q, hq⟩ := Option.isSome_iff_exists.mp (h.placed hquiet m hm)
        exact Option.isSome_iff_exists.mpr ⟨q, hlook m q hq⟩
      covered := fun hquiet q hq hopen => by
        obtain hc | hh | ⟨m, hgoal, hm, hlk⟩ := h.covered hquiet q hq hopen
        · exact Or.inl hc
        · exact Or.inr (Or.inl hh)
        · exact Or.inr (Or.inr ⟨m, hgoal, hm, hlook m q hlk⟩) }

/-- The state of a label that is still to be reached need not be held by anybody. -/
theorem Inv.release {l : Label} (h : Inv (L.hold r) s) (hgoal : l ∈ L.goals)
    (hl : Quiet s.reporter.seen → l ∉ L.entered) (hlook : s.labels.lookup l = some r) : Inv L s :=
  { h with
    held := fun q hq => h.held q (List.mem_cons_of_mem _ hq)
    covered := fun hquiet q hq hopen => by
      obtain hc | hh | hm := h.covered hquiet q hq hopen
      · exact Or.inl hc
      · obtain rfl | hh := List.mem_cons.mp hh
        · exact Or.inr (Or.inr ⟨l, hgoal, hl hquiet, hlook⟩)
        · exact Or.inr (Or.inl hh)
      · exact Or.inr (Or.inr hm) }

end

end Split

end Resumable
