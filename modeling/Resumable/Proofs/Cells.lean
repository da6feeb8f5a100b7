import Resumable.Proofs.Accounts

/-!
# `Proofs.Cells`: a cell is settled once and wakes each continuation once

A cell is offered outcomes and continuations register with it, in any order and also from continuations that
are running. The trail tells what happened. `Ledger` balances it: what was registered has been resumed, is
about to be, or waits; what was resumed has been called, or is in the queue of the loop. It is an invariant
of every step, so it holds after every run. That the trail leaves nothing out is said by `Deed.tally`: each
attempt and each registration has its event there. And what the first attempt offers is what the cell holds in
the end.

**Contents**
* `Deed`, `Deed.Leaves`, `Deed.outcome?`: what a program and its continuations do with a cell, the event that
  it leaves on the trail, and the outcome that it offers.
* `Ledger`, `Ledger.stable`, `Ledger.turn`: the invariant, and that each step keeps it.
* `Deed.does`: what is done with a cell is on the trail.
* `Deed.waits`, `Deed.settles`, `Deed.first_wins`: the first attempt of a run fixes the outcome.
* `cell_settles_once`: all of it, for every run.
-/

namespace Resumable

/-! ### Events -/

namespace Footprint

/-- The continuation that was registered with the cell. -/
@[simp] def registration? (a : Nat) : Footprint → Option Waker
  | .registered b k => if b = a then some k else none
  | _ => none

/-- The continuation of the cell that was resumed. -/
@[simp] def resumption? (a : Nat) : Footprint → Option Waker
  | .resumed b k => if b = a then some k else none
  | _ => none

/-- The outcome that was offered to the cell, and whether it was taken. -/
@[simp] def offer? (a : Nat) : Footprint → Option (Option Value × Option Value × Bool)
  | .offered b err value taken => if b = a then some (err, value, taken) else none
  | _ => none

end Footprint

open Footprint

/-- One thing more on each side. -/
theorem perm_insert {xs ys zs : List α} (h : xs.Perm (ys ++ zs)) (x : α) :
    (xs ++ [x]).Perm (ys ++ x :: zs) :=
  (List.perm_append_singleton x xs).trans ((h.cons x).trans List.perm_middle.symm)

/-! ### Deeds -/

/-- What can be done with a cell. -/
inductive Deed where
  | complete (v : Option Value)
  | fail (e : Option Value)
  /-- Registers a continuation; an inline one runs where the cell is completed. -/
  | register (k : Nat) (inline : Bool)
  /-- Lets the loop run one callback. -/
  | turn

namespace Deed

/-- Does it with the cell at an address. -/
def perform (a : Nat) (c : Calls) : Deed → Run Unit
  | .complete v => discard (Run.complete c a v)
  | .fail e => discard (Run.fail c a e)
  | .register k inline => Run.onCompleted c a (continuation k) inline
  | .turn => discard (Run.runOnce c)

/-- How continuations are called when a plan says what each does with the cell at an address. -/
def host (a : Nat) (plan : Nat → List Deed) (n : Nat) : Calls :=
  .hosting (fun c k => (plan k).forM (perform a c)) n

/-- What it costs, when continuations have the given costs. -/
def price (cost : Nat → Nat) : Deed → Nat
  | .register k _ => cost k + 1
  | _ => 1

/-- The outcome that it offers, an error or a value. Failing with nil offers an error that is made for it. -/
def outcome? (w : World) : Deed → Option (Option Value × Option Value)
  | .complete v => some (none, v)
  | .fail e => some (some (e.getD (Run.madeError w)), none)
  | _ => none

/-- The event that it leaves behind. -/
inductive Leaves (a : Nat) : Deed → Footprint → Prop
  | complete (v : Option Value) (taken : Bool) : Leaves a (.complete v) (.offered a none v taken)
  | fail (e : Option Value) (p : Nat) (taken : Bool) :
      Leaves a (.fail e)
        (.offered a (some (e.getD (.pointer (.pointer (.named .errorText)) p))) none taken)
  | register (k : Nat) (inline : Bool) :
      Leaves a (.register k inline) (.registered a ⟨continuation k, inline⟩)

/-- Attempts and registrations leave an event behind, turns do not. -/
def tally (a : Nat) : Tally Deed where
  marks e := (registration? a e).isSome || (offer? a e).isSome
  counts
    | .turn => false
    | _ => true
  leaves := Leaves a
  resumed _ _ := rfl
  entered _ := rfl

end Deed

/-! ### The ledger of a cell -/

/-- The cell has not been offered an outcome, and no continuation has started. -/
structure Pending (a : Nat) (start : Completion) (fly : List Waker) (v : View) : Prop where
  cell : v.cell = { start with wakers := gather (registration? a) v.trail }
  fly : fly = []
  offers : gather (offer? a) v.trail = []
  resumed : gather (resumption? a) v.trail = []
  entered : gather entry? v.trail = []

/-- The cell has taken the first outcome that it was offered. -/
structure Settled (a : Nat) (start : Completion) (fly : List Waker) (v : View) (err value : Option Value)
    (before after : List Footprint) : Prop where
  trail : v.trail = after ++ .offered a err value true :: before
  cell : v.cell = start.settledBy err value
  /-- It was the first one, -/
  first : gather (offer? a) before = []
  /-- and all later ones were refused. -/
  refused : ∀ o ∈ gather (offer? a) after, o.2.2 = false
  /-- No continuation started before. -/
  resumed : gather (resumption? a) before = []
  entered : gather entry? before = []
  /-- Those registered before are resumed in the order of registration. -/
  order : (gather (registration? a) before).Sublist (gather (resumption? a) after ++ fly)

/-- A settled cell stays settled when something happens that takes no other outcome. -/
theorem Settled.add {a : Nat} {start : Completion} {fly fly' : List Waker} {v : View}
    {err value : Option Value} {before after : List Footprint}
    (h : Settled a start fly v err value before after) (e : Footprint) (loop : Option Loop)
    (he : ∀ o ∈ offer? a e, o.2.2 = false)
    (hfly : (gather (resumption? a) after ++ fly).Sublist (gather (resumption? a) (e :: after) ++ fly')) :
    Settled a start fly' { v.add e with loop := loop } err value before (e :: after) where
  trail := congrArg (e :: ·) h.trail
  cell := h.cell
  first := h.first
  refused := by
    intro o ho
    rw [gather_cons, List.mem_append, Option.mem_toList] at ho
    exact ho.elim (h.refused o) (he o)
  resumed := h.resumed
  entered := h.entered
  order := h.order.trans hfly

/-- The ledger of a cell, in a world with a loop. -/
structure Ledger (a : Nat) (start : Completion) (l₀ : Loop) (fly : List Waker) (v : View) : Prop where
  known : ∀ k ∈ fly ++ v.cell.wakers, ∃ j, k.callback = continuation j
  phase : Pending a start fly v ∨ ∃ err value before after, Settled a start fly v err value before after
  /-- What was registered has been resumed once, is about to be, or waits. -/
  once : (gather (registration? a) v.trail).Perm (gather (resumption? a) v.trail ++ fly ++ v.cell.wakers)
  /-- What was resumed has been called where the cell was completed or by the loop, or is with the loop. -/
  calls : ∃ l turned, v.loop = some l ∧ l.timers = [] ∧
    (∀ k ∈ l.ready, ∃ j, k = continuation j) ∧
    (((gather (resumption? a) v.trail).filter (·.runsOn start.binding = .loop)).map (·.callback)).Perm
      (turned ++ l.ready) ∧
    ((gather entry? v.trail).map continuation).Perm
      (((gather (resumption? a) v.trail).filter (·.runsOn start.binding = .free)).map (·.callback) ++
        turned) ∧
    l.steps = l₀.steps + turned.length

namespace Ledger

variable {a : Nat} {start : Completion} {l₀ : Loop} {fly : List Waker} {v : View}

/-- Where nothing has happened yet. -/
theorem init (hw : start.wakers = []) (hr : l₀.ready = []) (ht : l₀.timers = []) :
    Ledger a start l₀ [] ⟨start, [], some l₀⟩ where
  known := by simp [hw]
  phase := .inl ⟨by simp [← hw], rfl, rfl, rfl, rfl⟩
  once := by simp [hw]
  calls := ⟨l₀, [], rfl, ht, by simp [hr], by simp [hr], by simp, rfl⟩

theorem binding (h : Ledger a start l₀ fly v) : v.cell.binding = start.binding := by
  obtain h | ⟨_, _, _, _, h⟩ := h.phase <;> simp [h.cell]

theorem pending (h : Ledger a start l₀ fly v) (hd : v.cell.done = false) : Pending a start fly v := by
  refine h.phase.resolve_right ?_
  rintro ⟨_, _, _, _, h⟩
  rw [h.cell] at hd
  exact Bool.noConfusion hd

theorem settled (hs : start.done = false) (h : Ledger a start l₀ fly v) (hd : v.cell.done = true) :
    ∃ err value before after, Settled a start fly v err value before after := by
  refine h.phase.resolve_left fun h => ?_
  rw [h.cell] at hd
  exact Bool.noConfusion (hs.symm.trans hd)

/-- Continuations are about to be resumed only when the cell is settled. -/
theorem settled_of_fly {k : Waker} (h : Ledger a start l₀ (k :: fly) v) :
    ∃ err value before after, Settled a start (k :: fly) v err value before after :=
  h.phase.resolve_left fun h => List.cons_ne_nil _ _ h.fly

/-- An outcome that comes too late is refused. -/
theorem refused (hs : start.done = false) (h : Ledger a start l₀ fly v) (hd : v.cell.done = true)
    (err value : Option Value) : Ledger a start l₀ fly (v.add (.offered a err value false)) := by
  obtain ⟨err', value', before, after, hp⟩ := h.settled hs hd
  refine ⟨h.known, .inr ⟨err', value', before, _, hp.add _ v.loop ?_ ?_⟩, ?_, ?_⟩
  · simp
  · simp
  · simpa [View.add] using h.once
  · simpa [View.add] using h.calls

/-- The first outcome is taken, and what waited is about to be resumed, in the order of registration. -/
theorem taken (h : Ledger a start l₀ fly v) (hd : v.cell.done = false) (err value : Option Value) :
    Ledger a start l₀ (v.cell.wakers ++ fly) { v.add (.offered a err value true) with
      cell := { v.cell with done := true, err := err, value := value <|> v.cell.value, wakers := [] } } := by
  have hp := h.pending hd
  obtain rfl := hp.fly
  -- all that was registered so far waits, since nothing has been resumed
  have hwakers : v.cell.wakers = gather (registration? a) v.trail := by rw [hp.cell]
  refine ⟨?_, .inr ⟨err, value, v.trail, [], ?_⟩, ?_, ?_⟩
  · simpa using h.known
  · exact {
      trail := rfl
      cell := by
        rw [hp.cell]
        rfl
      first := hp.offers
      refused := by simp
      resumed := hp.resumed
      entered := hp.entered
      order := by simp [hwakers] }
  · simpa [View.add] using h.once
  · simpa [View.add] using h.calls

/-- A continuation waits for a cell that is pending. -/
theorem waiting (h : Ledger a start l₀ fly v) (hd : v.cell.done = false) (j : Nat) (inline : Bool) :
    Ledger a start l₀ fly { v.add (.registered a ⟨continuation j, inline⟩) with
      cell := { v.cell with wakers := v.cell.wakers ++ [⟨continuation j, inline⟩] } } := by
  have hp := h.pending hd
  refine ⟨?_, .inl ?_, ?_, ?_⟩
  · intro k hk
    rw [← List.append_assoc] at hk
    rcases List.mem_append.mp hk with hk | hk
    · exact h.known k hk
    · exact ⟨j, by rw [List.mem_singleton.mp hk]⟩
  · exact {
      cell := by
        rw [hp.cell]
        simp [View.add]
      fly := hp.fly
      offers := by simpa [View.add] using hp.offers
      resumed := by simpa [View.add] using hp.resumed
      entered := by simpa [View.add] using hp.entered }
  · simpa [View.add] using h.once.append_right [_]
  · simpa [View.add] using h.calls

/-- A continuation that registers with a settled cell is about to be resumed. -/
theorem late (hs : start.done = false) (h : Ledger a start l₀ fly v) (hd : v.cell.done = true) (j : Nat)
    (inline : Bool) :
    Ledger a start l₀ (⟨continuation j, inline⟩ :: fly)
      (v.add (.registered a ⟨continuation j, inline⟩)) := by
  obtain ⟨err, value, before, after, hp⟩ := h.settled hs hd
  have hwakers : v.cell.wakers = [] := by simp [hp.cell]
  refine ⟨?_, .inr ⟨err, value, before, _, hp.add _ v.loop ?_ ?_⟩, ?_, ?_⟩
  · intro k hk
    rcases List.mem_cons.mp hk with rfl | hk
    · exact ⟨j, rfl⟩
    · exact h.known k hk
  · simp
  · simp
  · have honce := h.once
    rw [hwakers, List.append_nil] at honce
    simpa [View.add, hwakers] using perm_insert honce ⟨continuation j, inline⟩
  · simpa [View.add] using h.calls

/-- A continuation is called where the cell is completed. -/
theorem ran {k : Waker} {j : Nat} (h : Ledger a start l₀ (k :: fly) v)
    (hon : k.runsOn v.cell.binding = .free) (hk : k.callback = continuation j) :
    Ledger a start l₀ fly ((v.add (.resumed a k)).add (.entered j)) := by
  obtain ⟨err, value, before, after, hp⟩ := h.settled_of_fly
  rw [h.binding] at hon
  -- two events: the continuation is resumed, and it starts at once
  have hresumed : Settled a start fly (v.add (.resumed a k)) err value before (.resumed a k :: after) :=
    hp.add _ v.loop (by simp) (by simp)
  refine ⟨fun k hk => h.known k (List.mem_cons_of_mem _ hk),
    .inr ⟨err, value, before, _, hresumed.add _ v.loop (by simp) (by simp)⟩, ?_, ?_⟩
  · simpa [View.add] using h.once
  · obtain ⟨l, turned, hl, ht, hr, hqueue, hcalls, hsteps⟩ := h.calls
    refine ⟨l, turned, hl, ht, hr, ?_, ?_, hsteps⟩
    · simpa [View.add, hon] using hqueue
    · simpa [View.add, hon, hk] using perm_insert hcalls k.callback

/-- A continuation is handed to the loop. -/
theorem queued {k : Waker} (h : Ledger a start l₀ (k :: fly) v) (hon : k.runsOn v.cell.binding = .loop) :
    Ledger a start l₀ fly { v.add (.resumed a k) with loop := v.loop.map (·.post k.callback) } := by
  obtain ⟨err, value, before, after, hp⟩ := h.settled_of_fly
  rw [h.binding] at hon
  refine ⟨fun k hk => h.known k (List.mem_cons_of_mem _ hk),
    .inr ⟨err, value, before, _, hp.add _ _ (by simp) (by simp)⟩, ?_, ?_⟩
  · simpa [View.add] using h.once
  · obtain ⟨l, turned, hl, ht, hr, hqueue, hcalls, hsteps⟩ := h.calls
    refine ⟨l.post k.callback, turned, by simp [hl], ht, ?_, ?_, ?_, hsteps⟩
    · intro k' hk'
      rcases List.mem_append.mp hk' with hk' | hk'
      · exact hr k' hk'
      · rw [List.mem_singleton.mp hk']
        exact h.known k (List.mem_append_left _ List.mem_cons_self)
    · simpa [View.add, hon, Loop.post] using hqueue.append_right [_]
    · simpa [View.add, hon] using hcalls

/-- A turn of the loop calls one of the continuations that were handed to it. -/
theorem turn {l l' : Loop} {k : Callback} (h : Ledger a start l₀ fly v) (hl : v.loop = some l)
    (hn : l.next? = some (k, l')) :
    ∃ j, k = continuation j ∧ Ledger a start l₀ fly ({ v with loop := some l' }.add (.entered j)) := by
  obtain ⟨l, turned, hl', ht, hr, hqueue, hcalls, hsteps⟩ := h.calls
  obtain rfl := Option.some.inj (hl.symm.trans hl')
  obtain ⟨i, -, hk, rfl⟩ := Loop.next?_some hn
  -- no timer is armed, so what the turn takes has been handed to the loop
  have hdue := Loop.due_append_undue l
  rw [ht, List.append_eq_nil_iff] at hdue
  rw [hdue.1, List.map_nil, List.append_nil] at hk
  obtain ⟨hlt, hget⟩ := List.getElem?_eq_some_iff.mp hk
  obtain ⟨j, rfl⟩ := hr k (hget ▸ List.getElem_mem hlt)
  have hperm := List.getElem_cons_eraseIdx_perm hlt
  rw [hget] at hperm
  refine ⟨j, rfl, h.known, ?_, ?_, ?_⟩
  · refine h.phase.elim (fun hp => ?_) fun ⟨err, value, before, after, hp⟩ => ?_
    · -- nothing has been resumed, so nothing is in the queue
      rw [hp.resumed] at hqueue
      have hnil := hqueue.length_eq
      simp only [List.filter_nil, List.map_nil, List.length_nil, List.length_append] at hnil
      omega
    · exact .inr ⟨err, value, before, _, hp.add (.entered j) _ (by simp) (by simp)⟩
  · simpa [View.add] using h.once
  · refine ⟨_, continuation j :: turned, rfl, hdue.2, ?_, ?_, ?_, ?_⟩
    · intro k hk
      simp only [hdue.1, List.map_nil, List.append_nil] at hk
      exact hr k (List.mem_of_mem_eraseIdx hk)
    · have hrest : (turned ++ l.ready).Perm (continuation j :: turned ++ l.ready.eraseIdx i) :=
        (hperm.symm.append_left turned).trans List.perm_middle
      simpa [View.add, hdue.1] using hqueue.trans hrest
    · simpa [View.add] using perm_insert hcalls (continuation j)
    · simp only [hsteps, List.length_cons]
      omega

/-- The steps of the library keep the ledger of a cell. -/
theorem stable (hs : start.done = false) (hb : start.binding ≠ .nowhere) :
    Stable a (Ledger a start l₀) where
  known h := h.known _ (List.mem_append_left _ List.mem_cons_self)
  somewhere h := by
    rw [h.binding, Waker.runsOn]
    split
    · exact Binding.noConfusion
    · exact hb
  refused h hd := h.refused hs hd _ _
  taken h hd := h.taken hd _ _
  waiting h hd := h.waiting hd _ _
  late h hd := h.late hs hd _ _
  ran := ran
  queued := queued

end Ledger

/-! ### Deeds and the ledger -/

section

variable {a : Nat} {start : Completion} {l₀ : Loop} {c : Calls} {I : List Waker → View → Prop} {d : Deed}
  {err value : Option Value} {cell : Completion} {w w' : World}

/-- What is done with a cell keeps an invariant of its steps. -/
theorem Deed.upholds (hI : Stable a I)
    (hturn : ∀ {fly v l l' k}, I fly v → v.loop = some l → l.next? = some (k, l') →
      ∃ j, k = continuation j ∧ I fly ({ v with loop := some l' }.add (.entered j)))
    (hc : Carries a I c) (d : Deed) : Upholds a I (d.perform a c) := by
  cases d with
  | complete v => exact (hI.finish hc none v).discard
  | fail e => exact (hI.fail hc e).discard
  | register k inline => exact hI.onCompleted hc k inline
  | turn => exact (Upholds.runOnce hc hturn).discard

/-- What is done with a cell is on the trail. -/
theorem Deed.does {plan : Nat → List Deed} (hI : Stable a I)
    (hturn : ∀ {fly v l l' k}, I fly v → v.loop = some l → l.next? = some (k, l') →
      ∃ j, k = continuation j ∧ I fly ({ v with loop := some l' }.add (.entered j)))
    (hu : Carries a I c) (hc : (tally a).Carries plan a I c) (d : Deed) :
    (tally a).Does plan a I (d.perform a c) [d] := by
  have hleft : ∀ {d : Deed} {e}, (tally a).counts d = true → (tally a).marks e = true → e.entry? = none →
      Leaves a d e → (tally a).Balances plan [d] [e] := .left
  cases d with
  | complete v =>
    exact (Tally.finish hI hu hc fun taken =>
      hleft rfl (by simp [tally]) rfl (.complete v taken)).discard
  | fail e =>
    exact (Tally.fail hI hu hc fun p taken => hleft rfl (by simp [tally]) rfl (.fail e p taken)).discard
  | register k inline => exact Tally.onCompleted hI hc (hleft rfl (by simp [tally]) rfl (.register k inline))
  | turn => exact (Tally.runOnce hc hturn).discard.idle rfl

/-- What is done with a cell returns, within a budget. -/
theorem Deed.returns (hs : start.done = false) (hb : start.binding ≠ .nowhere)
    {cost : Nat → Nat} {b m : Nat} (hc : Affords a (Ledger a start l₀) cost b c) (d : Deed)
    (hm : m + d.price cost ≤ b + 1) :
    Returns a (Ledger a start l₀) cost m (m + d.price cost - 1) (d.perform a c) := by
  have hI : Stable a (Ledger a start l₀) := Ledger.stable hs hb
  cases d with
  | complete v => exact (hI.finish_returns hc (Nat.le_of_succ_le_succ hm) none v).discard
  | fail e => exact (hI.fail_returns hc (Nat.le_of_succ_le_succ hm) e).discard
  | register k inline => exact hI.onCompleted_returns hc (Nat.le_of_succ_le_succ hm) inline
  | turn => exact (Returns.runOnce hc Ledger.turn (Nat.le_of_succ_le_succ hm)).discard

/-- Continuations do not lead to one another without end: the cost of each covers what it does and the
continuations that it registers. -/
def Deed.Bounded (plan : Nat → List Deed) : Prop :=
  ∃ cost : Nat → Nat, ∀ k, ((plan k).map (Deed.price cost)).sum < cost k

/-! ### The first attempt -/

/-- The ledger of a cell that holds a given outcome. -/
def Fixed (a : Nat) (start : Completion) (l₀ : Loop) (err value : Option Value) (fly : List Waker)
    (v : View) : Prop :=
  Ledger a start l₀ fly v ∧ v.cell = start.settledBy err value

theorem Fixed.done {fly : List Waker} {v : View} (h : Fixed a start l₀ err value fly v) : v.cell.done = true := by
  rw [h.2, Completion.settledBy_done]

/-- A settled cell keeps its outcome. -/
theorem Fixed.stable (hs : start.done = false) (hb : start.binding ≠ .nowhere) :
    Stable a (Fixed a start l₀ err value) where
  known h := (Ledger.stable hs hb).known h.1
  somewhere h := (Ledger.stable hs hb).somewhere h.1
  refused h hd := ⟨h.1.refused hs hd _ _, h.2⟩
  taken h hd := Bool.noConfusion (hd.symm.trans h.done)
  waiting h hd := Bool.noConfusion (hd.symm.trans h.done)
  late h hd := ⟨h.1.late hs hd _ _, h.2⟩
  ran h hon hk := ⟨h.1.ran hon hk, h.2⟩
  queued h hon := ⟨h.1.queued hon, h.2⟩

theorem Fixed.turn {fly : List Waker} {v : View} {l l' : Loop} {k : Callback} (h : Fixed a start l₀ err value fly v)
    (hl : v.loop = some l) (hn : l.next? = some (k, l')) :
    ∃ j, k = continuation j ∧ Fixed a start l₀ err value fly ({ v with loop := some l' }.add (.entered j)) := by
  obtain ⟨j, hk, hledger⟩ := h.1.turn hl hn
  exact ⟨j, hk, hledger, h.2⟩

/-- While a cell is pending its continuations are not with the loop. -/
theorem Ledger.next?_eq_none {fly : List Waker} {v : View} (h : Ledger a start l₀ fly v)
    (hd : v.cell.done = false) : v.loop.bind Loop.next? = none := by
  cases hn : v.loop.bind Loop.next? with
  | none => rfl
  | some next =>
    obtain ⟨k, l'⟩ := next
    obtain ⟨l, hl, hn⟩ := Option.bind_eq_some_iff.mp hn
    obtain ⟨j, -, hturn⟩ := h.turn hl hn
    -- after the turn a continuation would have started before the cell is settled
    have hentered := (hturn.pending hd).entered
    simp [View.add] at hentered

theorem Deed.outcome?_congr {v : World} (h : v.store.size = w.store.size) : outcome? v = outcome? w := by
  funext d
  cases d <;> simp [outcome?, Run.madeError, h]

/-- Without an attempt a pending cell stays pending, and nothing is made. -/
theorem Deed.waits (hd : d.outcome? w = none) (hw : Holds a (Ledger a start l₀) [] w)
    (hcell : w.store[a]? = some (.completion cell)) (hdone : cell.done = false)
    (hrun : d.perform a c w = .ok () w') :
    w'.store.size = w.store.size ∧ ∃ cell', w'.store[a]? = some (.completion cell') ∧ cell'.done = false := by
  cases d with
  | complete | fail => cases hd
  | register k inline =>
    rw [perform, Run.onCompleted_of_pending hcell hdone] at hrun
    cases hrun
    obtain ⟨hlt, -⟩ := Array.getElem?_eq_some_iff.mp hcell
    exact ⟨Array.size_setIfInBounds, _, Array.getElem?_setIfInBounds_self_of_lt hlt, hdone⟩
  | turn =>
    obtain ⟨cell', hcell', h⟩ := hw
    obtain rfl : cell' = cell := Object.completion.inj (Option.some.inj (hcell'.symm.trans hcell))
    have hnone : w.loop.bind Loop.next? = none := h.next?_eq_none hdone
    obtain ⟨r, hrun⟩ := Run.discard_eq_ok.mp hrun
    rw [runOnce_eq, hnone] at hrun
    cases hrun
    exact ⟨rfl, cell', hcell, hdone⟩

/-- The first attempt settles the cell, whatever the continuations do that it resumes. -/
theorem Deed.settles (hs : start.done = false) (hb : start.binding ≠ .nowhere)
    (hc : Carries a (Fixed a start l₀ err value) c) (hd : d.outcome? w = some (err, value))
    (hw : Holds a (Ledger a start l₀) [] w) (hcell : w.store[a]? = some (.completion cell))
    (hdone : cell.done = false) (hrun : d.perform a c w = .ok () w') :
    Holds a (Fixed a start l₀ err value) [] w' := by
  have hfinish : ∀ {v b}, Holds a (Ledger a start l₀) [] v → v.store[a]? = some (.completion cell) →
      Run.finish c a err value v = .ok b w' → Holds a (Fixed a start l₀ err value) [] w' := by
    intro v b ⟨cell', hcell', h⟩ hcell hfinish
    obtain rfl : cell' = cell := Object.completion.inj (Option.some.inj (hcell'.symm.trans hcell))
    rw [Run.finish_of_pending hcell hdone] at hfinish
    obtain ⟨_, v', hwake, hfinish⟩ := Run.bind_eq_ok.mp hfinish
    cases hfinish
    refine (Fixed.stable hs hb).resumeAll hc
      (Holds.setCell (w := v.add (.offered a err value true)) hcell ⟨h.taken hdone err value, ?_⟩) hwake
    have hstart := (h.pending hdone).cell
    rw [show cell' = _ from hstart]
    rfl
  cases d with
  | complete v =>
    obtain ⟨b, hrun⟩ := Run.discard_eq_ok.mp hrun
    cases hd
    exact hfinish hw hcell hrun
  | fail e =>
    obtain ⟨b, hrun⟩ := Run.discard_eq_ok.mp hrun
    cases e with
    | some e =>
      cases hd
      exact hfinish hw hcell hrun
    | none =>
      cases hd
      exact hfinish (hw.alloc _) (Run.getElem?_push_of_some hcell _) hrun
  | register | turn => cases hd

/-- **The first attempt fixes the outcome**: what a pending cell holds after deeds were done one after the
other. -/
theorem Deed.first_wins (hs : start.done = false) (hb : start.binding ≠ .nowhere)
    (hu : Carries a (Ledger a start l₀) c) (hc : ∀ err value, Carries a (Fixed a start l₀ err value) c)
    (ds : List Deed) (hw : Holds a (Ledger a start l₀) [] w) (hcell : w.store[a]? = some (.completion cell))
    (hdone : cell.done = false) (hrun : ds.forM (perform a c) w = .ok () w') :
    ∃ cell', w'.store[a]? = some (.completion cell') ∧
      match ds.findSome? (outcome? w) with
      | none => cell'.done = false
      | some (err, value) => cell' = start.settledBy err value := by
  induction ds generalizing w cell with
  | nil =>
    cases hrun
    exact ⟨cell, hcell, hdone⟩
  | cons d ds ih =>
    obtain ⟨_, v, hd, hds⟩ := Run.bind_eq_ok.mp hrun
    cases ho : d.outcome? w with
    | none =>
      obtain ⟨hsize, cell', hcell', hdone'⟩ := waits ho hw hcell hdone hd
      rw [List.findSome?_cons, ho]
      dsimp only
      rw [← outcome?_congr hsize]
      exact ih (upholds (Ledger.stable hs hb) Ledger.turn hu d hw hd) hcell' hdone' hds
    | some outcome =>
      obtain ⟨err, value⟩ := outcome
      have hfixed := settles hs hb (hc err value) ho hw hcell hdone hd
      have hupholds := Upholds.forM (upholds (Fixed.stable hs hb) Fixed.turn (hc err value)) ds
      obtain ⟨cell', hcell', -, heq⟩ := hupholds hfixed hds
      rw [List.findSome?_cons, ho]
      exact ⟨cell', hcell', heq⟩

/-! ### Runs -/

/-- A new cell at an address, in a world with a loop that has nothing to do. -/
structure Fresh (a : Nat) (start : Completion) (l₀ : Loop) (w : World) : Prop where
  cell : w.store[a]? = some (.completion start)
  done : start.done = false
  wakers : start.wakers = []
  binding : start.binding ≠ .nowhere
  loop : w.loop = some l₀
  ready : l₀.ready = []
  timers : l₀.timers = []
  trail : w.trail = []

theorem Fresh.ledger {w : World} (h : Fresh a start l₀ w) : Holds a (Ledger a start l₀) [] w := by
  refine ⟨start, h.cell, ?_⟩
  rw [h.loop, h.trail]
  exact .init h.wakers h.ready h.timers

end

/-- A cell is settled once and wakes each continuation once. Whatever is done with a new cell, and whatever
its continuations do with it: after every run that returns, the ledger is balanced and nothing is about to
be resumed; every attempt and every registration is on the trail; and the cell holds the outcome of the first
attempt, or is pending when there was none. Runs return when continuations do not lead to one another without
end. An outcome that is offered to a pending cell is stored before the continuations are resumed, and the answer
is yes; a settled cell refuses it and stays as it is. -/
theorem cell_settles_once (plan : Nat → List Deed) (ds : List Deed) {a : Nat} {start : Completion}
    {l₀ : Loop} {w : World} (h : Fresh a start l₀ w) :
    (∀ n w', ds.forM (Deed.perform a (Deed.host a plan n)) w = .ok () w' →
      Holds a (Ledger a start l₀) [] w' ∧ (Deed.tally a).Balances plan ds w'.trail ∧
      ∃ cell, w'.store[a]? = some (.completion cell) ∧
        match ds.findSome? (Deed.outcome? w) with
        | none => cell.done = false
        | some (err, value) => cell = start.settledBy err value) ∧
    (Deed.Bounded plan → ∃ n₀, ∀ n, n₀ ≤ n →
      ∃ w', ds.forM (Deed.perform a (Deed.host a plan n)) w = .ok () w') ∧
    ∀ (c : Calls) (v : World) (cell : Completion), v.store[a]? = some (.completion cell) →
      let wake : Run Bool := do cell.wakers.forM (Run.resume c a); return true
      (cell.done = true →
        (∀ value, Run.complete c a value v = .ok false (v.add (.offered a none value false))) ∧
        (∀ e, Run.fail c a (some e) v = .ok false (v.add (.offered a (some e) none false))) ∧
        Run.fail c a none v = .ok false
          ({ v with store := v.store.push Run.nilFailure }.add (.offered a (some (Run.madeError v)) none false))) ∧
      (cell.done = false →
        (∀ value, Run.complete c a value v = wake (v.settle a cell none value)) ∧
        (∀ e, Run.fail c a (some e) v = wake (v.settle a cell (some e) none)) ∧
        Run.fail c a none v =
          wake ({ v with store := v.store.push Run.nilFailure }.settle a cell (some (Run.madeError v)) none)) := by
  refine ⟨fun n w' hrun => ?_, ?_, fun c v cell hcell => ?_⟩
  · -- the ledger holds whatever runs, and the first settling deed decides the outcome for good
    have hI : Stable a (Ledger a start l₀) := Ledger.stable h.done h.binding
    have hledger : ∀ c, Carries a (Ledger a start l₀) c → ∀ d, Upholds a _ (Deed.perform a c d) := fun _ =>
      Deed.upholds hI Ledger.turn
    have hfixed : ∀ err value c, Carries a (Fixed a start l₀ err value) c → ∀ d, Upholds a _ (Deed.perform a c d) :=
      fun _ _ _ => Deed.upholds (Fixed.stable h.done h.binding) Fixed.turn
    refine ⟨Upholds.hosted hledger n ds h.ledger hrun, ?_, ?_⟩
    · obtain ⟨t, ht, hbalances⟩ :=
        Tally.hosted hledger (fun _ hu hc => Deed.does hI Ledger.turn hu hc) n ds h.ledger hrun
      rw [h.trail, List.append_nil] at ht
      rwa [ht]
    · exact Deed.first_wins h.done h.binding (carries_hosting (fun c hc k => .forM (hledger c hc) (plan k)) n)
        (fun err value => carries_hosting (fun c hc k => .forM (hfixed err value c hc) (plan k)) n)
        ds h.ledger h.cell h.done hrun
  · rintro ⟨cost, hcost⟩
    exact h.ledger.exists_hosted hcost (fun _ _ hc d _ => Deed.returns h.done h.binding hc d) ds
  · exact ⟨fun hd => ⟨fun value => Run.finish_of_done hcell hd none value,
        fun e => Run.finish_of_done hcell hd (some e) none, Run.fail_none_of_done hcell hd⟩,
      fun hd => ⟨fun value => Run.finish_of_pending hcell hd none value,
        fun e => Run.finish_of_pending hcell hd (some e) none, Run.fail_none_of_pending hcell hd⟩⟩

/-- A task on a loop, of which a continuation registers another one and completes the task again. -/
theorem cell_settles_once_nested :
    let plan : Nat → List Deed
      | 0 => [.register 1 true, .complete none]
      | _ => []
    let ds : List Deed := [.register 0 false, .register 2 true, .complete (some (.bool .bool true)),
      .fail none, .turn, .register 3 false, .turn]
    let start : Completion := { value := some (.bool .bool false), binding := .loop }
    let w : World := { store := #[.completion start] }
    Fresh 0 start {} w ∧ Deed.Bounded plan ∧
      ∃ w', ds.forM (Deed.perform 0 (Deed.host 0 plan 9)) w = .ok () w' ∧
        Holds 0 (Ledger 0 start {}) [] w' ∧ (Deed.tally 0).Balances plan ds w'.trail ∧
        w'.store[0]? = some (.completion (start.settledBy none (some (.bool .bool true)))) := by
  intro plan ds start w
  have hfresh : Fresh 0 start {} w := ⟨rfl, rfl, rfl, Binding.noConfusion, rfl, rfl, rfl, rfl⟩
  have hends : (ds.forM (Deed.perform 0 (Deed.host 0 plan 9))).endsIn (fun _ => true) w = true := by cbv
  obtain ⟨w', hw', -⟩ := Run.exists_of_endsIn hends
  obtain ⟨hledger, hbalances, cell, hcell, heq⟩ := (cell_settles_once plan ds hfresh).1 9 w' hw'
  refine ⟨hfresh, ⟨fun k => if k = 0 then 4 else 1, fun k => ?_⟩, w', hw', hledger, hbalances, ?_⟩
  · cases k with
    | zero => decide
    | succ k => simp [plan]
  · obtain rfl : cell = start.settledBy none (some (.bool .bool true)) := heq
    exact hcell

end Resumable
