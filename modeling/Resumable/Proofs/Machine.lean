import Resumable.Proofs.Emit

/-!
# `Proofs.Machine`: sound machines pass the checker

`Machine.Sound` says what a machine has to look like: its states are numbered in order, every state goes
on or ends, all transitions, handlers and cleanup blocks are states of the machine, and these stand in
the context they have to. The checker looks at the same rules one state and one region at a time, so all
it can say about a sound machine is that some state is never entered.

**Contents**
* `Machine.Sound`: the rules.
* `Sound.warning_of_mem_findings`, `Sound.fault?_eq_none`: nothing is wrong with a sound machine.
* `Split.Settled.sound`: a machine in which nothing waits to be finished is sound.
-/

namespace Resumable

namespace Machine

/-- What holds of the states of a machine, and of the regions around them. -/
structure Sound (m : Machine) : Prop where
  /-- A body that is run at once has no states, any other one has. -/
  fast : m.fast = true ↔ m.states = []
  numbered : ∀ (i : Nat) r, m.states[i]? = some r → (m.graph.state r).id = i
  /-- Every state goes on or ends. -/
  closed : ∀ r ∈ m.states, (m.graph.state r).next.isSome = true ∨ (m.graph.state r).terminal = true
  next : ∀ r ∈ m.states, ∀ n, (m.graph.state r).next = some n → n ∈ m.states
  /-- A state waits for a cleanup block only when it goes on in one. -/
  resume : ∀ r ∈ m.states, ∀ t, (m.graph.state r).resume = some t →
    t ∈ m.states ∧ ∃ n, (m.graph.state r).next = some n ∧ (m.graph.state n).inCleanup = true
  /-- A handler begins in the context around its region. -/
  handlers : ∀ g, ∀ h ∈ (m.graph.guard g).handlers,
    h.state ∈ m.states ∧ (m.graph.state h.state).context = (m.graph.guard g).outer
  /-- So does a cleanup block, which also has a place to keep the resume slot in. -/
  cleanup : ∀ g c, (m.graph.guard g).cleanup = some c → c ∈ m.states ∧
    (m.graph.state c).inCleanup = true ∧ (m.graph.state c).context = (m.graph.guard g).outer ∧
      (m.graph.guard g).parked.isSome = true
  /-- A region has handlers or a cleanup block, never both. -/
  apart : ∀ g, (m.graph.guard g).cleanup.isSome = true → (m.graph.guard g).handlers = []
  /-- Two regions with one exit belong to one protected expression: that of the handlers stands directly
  inside that of the cleanup block, so that the block also runs for errors of the handlers. -/
  paired : ∀ a b, a < b → b < m.graph.guards.size →
    (m.graph.guard a).exit = (m.graph.guard b).exit →
      (m.graph.guard a).cleanup.isSome = true ∧ (m.graph.guard b).cleanup = none ∧
        (m.graph.guard b).outer = a :: (m.graph.guard a).outer

variable {m : Machine} {s : State} {r : StateRef}

/-! ### The checker -/

/-- The order of the states of a sound machine is. -/
theorem Sound.orderFindings_eq_nil (h : m.Sound) : m.orderFindings = [] := by
  unfold orderFindings
  rw [List.filterMap_eq_nil_iff]
  rintro ⟨r, i⟩ hmem
  have hget : m.states[i]? = some r := List.mem_zipIdx_iff_getElem?.mp hmem
  have hfirst : r ∉ m.states.take i := by
    intro hr
    obtain ⟨j, hj⟩ := List.mem_iff_getElem?.mp hr
    rw [List.getElem?_take] at hj
    split at hj
    · rename_i hlt
      have hsame := (h.numbered j r hj).symm.trans (h.numbered i r hget)
      exact Nat.ne_of_lt hlt (Int.ofNat_inj.mp hsame)
    · cases hj
  simp [h.numbered i r hget, hfirst]

/-- The edges of a sound machine are in order. -/
theorem Sound.edgeFindings_eq_nil (h : m.Sound) (hr : r ∈ m.states) :
    m.edgeFindings (m.graph.state r) = [] := by
  unfold edgeFindings
  have hopen : (m.graph.state r).isOpen = false := by
    obtain hn | ht := h.closed r hr
    · obtain ⟨n, hn⟩ := Option.isSome_iff_exists.mp hn
      simp [State.isOpen, hn]
    · simp [State.isOpen, ht]
  have hstrays : ∀ t ∈ (m.graph.state r).next.toList ++ (m.graph.state r).resume.toList,
      t ∈ m.states := by
    intro t ht
    obtain ht | ht := List.mem_append.mp ht
    · exact h.next r hr t (Option.mem_toList.mp ht)
    · exact (h.resume r hr t (Option.mem_toList.mp ht)).1
  have hescapes : ((m.graph.state r).resume.isSome &&
      !(m.graph.state r).next.any fun t => (m.graph.state t).inCleanup) = false := by
    cases ht : (m.graph.state r).resume with
    | none => rfl
    | some t =>
      obtain ⟨_, n, hn, hin⟩ := h.resume r hr t ht
      simp [hn, hin]
  simp only [hopen, hescapes, List.append_eq_nil_iff, List.filterMap_eq_nil_iff]
  refine ⟨⟨rfl, fun t ht => ?_⟩, rfl⟩
  rw [if_pos (List.contains_iff_mem.mpr (hstrays t ht))]

/-- The check finds nothing at the protected bodies of a sound machine. -/
theorem Sound.guardFindings_eq_nil (h : m.Sound) (s : State) (g : GuardRef) :
    m.guardFindings s (m.graph.guard g) = [] := by
  unfold guardFindings
  simp only [List.append_eq_nil_iff, List.filterMap_eq_nil_iff]
  constructor
  · intro c hc
    obtain ⟨hmem, hcontext⟩ := h.handlers g c hc
    simp [hmem, hcontext]
  · split
    · rfl
    · rename_i c hc
      obtain ⟨hmem, -, hcontext, hparked⟩ := h.cleanup g c hc
      obtain ⟨v, hv⟩ := Option.isSome_iff_exists.mp hparked
      simp [hmem, hcontext, hv]

theorem warning_of_mem_reachFindings {d : Diagnostic} (hd : d ∈ m.reachFindings) :
    d.severity = .warning := by
  obtain ⟨s, -, hs⟩ := List.mem_filterMap.mp hd
  split at hs
  · cases hs
  · cases hs
    rfl

/-- **The checker finds no error in a sound machine**, at most states that are never entered. -/
theorem Sound.warning_of_mem_findings (h : m.Sound) {d : Diagnostic} (hd : d ∈ m.findings) :
    d.severity = .warning := by
  unfold findings at hd
  split at hd
  · cases hd
  · rw [h.orderFindings_eq_nil, List.nil_append, List.mem_append, List.mem_flatMap] at hd
    obtain ⟨s, hs, hd⟩ | hd := hd
    · obtain ⟨r, hr, rfl⟩ := List.mem_map.mp hs
      rw [h.edgeFindings_eq_nil hr, List.nil_append, List.mem_flatMap] at hd
      obtain ⟨_, hg, hd⟩ := hd
      obtain ⟨g, -, rfl⟩ := List.mem_map.mp hg
      rw [h.guardFindings_eq_nil] at hd
      cases hd
    · exact warning_of_mem_reachFindings hd

/-! ### The rules for the outcome -/

/-- Looking up a state of the loop by its number. -/
theorem Sound.idOf_lt (h : m.Sound) (hr : r ∈ m.states) :
    0 ≤ m.graph.idOf r ∧ m.graph.idOf r < m.states.length := by
  obtain ⟨i, hi⟩ := List.mem_iff_getElem?.mp hr
  have hid : m.graph.idOf r = i := h.numbered i r hi
  have hlt : i < m.states.length := (List.getElem?_eq_some_iff.mp hi).1
  omega

/-- The check finds no fault at the states of a sound machine. -/
theorem Sound.stateFault?_eq_none (h : m.Sound) {i : Nat} (hi : m.states[i]? = some r) :
    m.stateFault? i (m.graph.state r) = none := by
  have hr : r ∈ m.states := List.mem_of_getElem? hi
  unfold stateFault?
  simp only [h.numbered i r hi, bne_self_eq_false, Bool.false_eq_true, if_false]
  cases hn : (m.graph.state r).next with
  | none =>
    have hterm := (h.closed r hr).resolve_left (by simp [hn])
    simp [hterm]
  | some n =>
    have hlt := h.idOf_lt (h.next r hr n hn)
    have hin : ¬ (m.graph.idOf n < 0 ∨ (m.states.length : Int) ≤ m.graph.idOf n) := by omega
    simpa using hin

/-- **A sound machine that is not too large breaks none of the rules for outcomes.** -/
theorem Sound.fault?_eq_none (h : m.Sound) (hsize : m.states.length ≤ maxStates) :
    m.fault? = none := by
  unfold fault?
  by_cases hfast : m.fast = true
  · simp [hfast, h.fast.mp hfast]
  · have hne : m.states ≠ [] := fun hnil => hfast (h.fast.mpr hnil)
    have hlen : m.states.length ≠ 0 := fun h0 => hne (List.length_eq_zero_iff.mp h0)
    simp only [hfast, Bool.false_eq_true, if_false, beq_eq_false_iff_ne.mpr hlen,
      Nat.not_lt.mpr hsize, List.findSome?_eq_none_iff]
    rintro ⟨s, i⟩ hmem
    have hget := List.mem_zipIdx_iff_getElem?.mp hmem
    rw [stateList, List.getElem?_map] at hget
    obtain ⟨r, hr, rfl⟩ := Option.map_eq_some_iff.mp hget
    exact h.stateFault?_eq_none hr

end Machine

/-! ### Machines that splitting leaves -/

/-- When nothing waits to be finished any more, the states and regions are those of a sound machine. -/
theorem Split.Settled.sound {L : Ledger} {s : Splitter} (h : Settled L s) (hheld : L.held = [])
    (hgoals : ∀ l ∈ L.goals, l ∈ L.entered) (hne : s.states.size ≠ 0) (name : String)
    (kind : LambdaKind) (stateVar resumeVar cellVar continuationVar : Option Var) :
    Machine.Sound ⟨name, kind, false, s.graph, s.states.toList, stateVar, resumeVar, cellVar,
      continuationVar⟩ := by
  have inv := h.left.inv
  have hlt : ∀ r ∈ s.states.toList, r < s.graph.states.size := fun r hr =>
    inv.lt_of_mem (Array.mem_toList_iff.mp hr)
  have hmem : ∀ r, (Fact.state r).Holds s → r ∈ s.states.toList := fun r hr =>
    Array.mem_toList_iff.mpr hr.2
  -- a state may only be open while its label is awaited, and every awaited label was reached
  have hclosed : ∀ r ∈ s.states.toList, (s.graph.state r).isOpen = false := by
    intro r hr
    cases hopen : (s.graph.state r).isOpen with
    | false => rfl
    | true =>
      have hr' := Array.mem_toList_iff.mp hr
      obtain rfl | hh | ⟨l, hgoal, hl, -⟩ := inv.covered h.quiet r hr' hopen
      · rw [h.left.done hr'] at hopen
        cases hopen
      · rw [hheld] at hh
        cases hh
      · exact absurd (hgoals l hgoal) hl
  exact
    { fast := by
        refine ⟨fun hf => (by cases hf), fun hnil => absurd ?_ hne⟩
        rw [← Array.length_toList]
        exact List.length_eq_zero_iff.mpr hnil
      numbered := fun i r hi => (inv.numbered i r (by simpa using hi)).2
      closed := fun r hr => by
        have := hclosed r hr
        unfold State.isOpen at this
        cases hn : (s.graph.state r).next <;> simp_all
      next := fun r hr n hn => hmem n ((inv.wired r (hlt r hr)).next n hn)
      resume := fun r hr t ht => by
        obtain ⟨hs, n, hn, he⟩ := (inv.wired r (hlt r hr)).resume t ht
        exact ⟨hmem t hs, n, hn, he.2.2⟩
      handlers := fun g c hc => by
        obtain ⟨hs, hx, -⟩ := (inv.guarded_at g).handlers c hc
        exact ⟨hmem _ hs, hx.2⟩
      cleanup := fun g c hc => by
        obtain ⟨he, hx, hp⟩ := (inv.guarded_at g).cleanup c hc
        exact ⟨hmem c ⟨he.1, he.2.1⟩, he.2.2, hx.2, hp⟩
      apart := fun g => (inv.guarded_at g).apart
      paired := fun a b hab hb hexit => by
        obtain ⟨ho, hc, hn⟩ := inv.paired a b hab hb hexit
        exact ⟨hc, hn, ho⟩ }

/-- A body that is run at once leaves a machine without states. -/
theorem Machine.sound_of_fast (name : String) (kind : LambdaKind) :
    Machine.Sound { name, kind, fast := true } := by
  have hnone : ∀ g, (Graph.guard {} g) = (default : Guard) := fun g => by simp [Graph.guard]
  exact
    { fast := by simp
      numbered := fun i r hi => by cases hi
      closed := fun r hr => by cases hr
      next := fun r hr => by cases hr
      resume := fun r hr => by cases hr
      handlers := fun g c hc => by
        rw [show Machine.graph _ = ({} : Graph) from rfl, hnone] at hc
        cases hc
      cleanup := fun g c hc => by
        rw [show Machine.graph _ = ({} : Graph) from rfl, hnone] at hc
        cases hc
      apart := fun g hc => by
        rw [show Machine.graph _ = ({} : Graph) from rfl, hnone] at hc
        cases hc
      paired := fun a b _ hb => absurd hb (Nat.not_lt_zero b) }

end Resumable
