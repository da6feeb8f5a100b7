import Resumable.Proofs.Turns

/-!
# `Proofs.Host`: continuations that come from outside

Continuations are functions of the program around the library. Here each has a number, and a plan says what
the continuation of that number does, which may be anything that can be done with a cell. `Calls.hosting`
makes such continuations callable. What is true of one cell is then an invariant of what can be seen of it:
its state, the trail and the loop. `Stable` says of an invariant that the steps of the library keep it; from
there it is carried through whole operations, which call continuations in between, and through whole runs.

**Contents**
* `continuation`, `Calls.hosting`: continuations by number, and how they are called.
* Equations for `finish`, `onCompleted` and `resume`.
* `View`, `Holds`, `Stable`: invariants of a cell, with the continuations that are still to be resumed.
* `Stable.finish`, `Stable.onCompleted`, `Upholds.runOnce`: operations keep a stable invariant.
* `View.burden`, `Affords`, `Returns`: operations return while what waits is within a budget.
* `Upholds.hosted`, `Holds.exists_hosted`: whole runs keep the invariant, and return with enough fuel.
-/

namespace Resumable

/-- The callback that calls the continuation with a given number. -/
def continuation (k : Nat) : Callback := .call (.func .thunk (.closure k))

/-- How continuations are called when the one with number `k` does `body c k`. Nothing else is called. -/
def Calls.hosting (body : Calls → Nat → Run Unit) : Nat → Calls
  | 0 => .empty
  | n + 1 =>
    { turns := n
      eval := fun _ _ => throw .exhausted
      call := fun f _ =>
        match f with
        | .func _ (.closure k) => do
          Run.record (.entered k)
          body (hosting body n) k
          return []
        | _ => throw .exhausted
      exec := Run.execCallback (hosting body n) }

/-- The world with another cell at an address. -/
def World.setCell (w : World) (a : Nat) (c : Completion) : World :=
  { w with store := w.store.setIfInBounds a (.completion c) }

/-- The cell when it has taken an outcome. -/
def Completion.settledBy (cell : Completion) (err value : Option Value) : Completion :=
  { cell with done := true, err := err, value := value <|> cell.value, wakers := [] }

section
variable (cell : Completion) (err value : Option Value)

@[simp] theorem Completion.settledBy_done : (cell.settledBy err value).done = true := rfl

@[simp] theorem Completion.settledBy_wakers : (cell.settledBy err value).wakers = [] := rfl

@[simp] theorem Completion.settledBy_binding : (cell.settledBy err value).binding = cell.binding := rfl

end

/-- The world when the cell at an address has taken an outcome, before what waited for it is resumed. -/
def World.settle (w : World) (a : Nat) (cell : Completion) (err value : Option Value) : World :=
  (w.add (.offered a err value true)).setCell a (cell.settledBy err value)

namespace Run

variable {c : Calls} {w : World} {a : Nat} {cell : Completion}

theorem discard_eq (x : Run α) (w : World) :
    (discard x : Run Unit) w =
      match x w with
      | .ok _ v => .ok () v
      | .error s v => .error s v := by
  change EStateM.map (Function.const α ()) x w = _
  unfold EStateM.map
  cases x w <;> rfl

theorem discard_eq_ok {x : Run α} {w' : World} :
    (discard x : Run Unit) w = .ok () w' ↔ ∃ r, x w = .ok r w' := by
  rw [discard_eq]
  cases x w <;> simp

theorem exec_continuation (body : Calls → Nat → Run Unit) (n k : Nat) (w : World) :
    (Calls.hosting body (n + 2)).exec (continuation k) w =
      body (Calls.hosting body n) k (w.add (.entered k)) := by
  have hcall : (do record (.entered k); body (Calls.hosting body n) k; return ([] : List Value)) w =
      (do body (Calls.hosting body n) k; return ([] : List Value)) (w.add (.entered k)) :=
    bind_of_ok rfl
  change (discard (do record (.entered k); body (Calls.hosting body n) k; return ([] : List Value)) :
    Run Unit) w = _
  rw [discard_eq, hcall, bind_eq]
  cases body (Calls.hosting body n) k (w.add (.entered k)) <;> rfl

theorem completion_eq (h : w.store[a]? = some (.completion cell)) : completion a w = .ok cell w := by
  have hobject : object a w = .ok (.completion cell) w := by
    have hget : w.store.getD a (.value (.null .any)) = .completion cell := by
      rw [Array.getD_eq_getD_getElem?, h]
      rfl
    exact congrArg (EStateM.Result.ok · w) hget
  exact bind_of_ok hobject

theorem resume_eq (h : w.store[a]? = some (.completion cell)) (k : Waker) :
    resume c a k w =
      match k.runsOn cell.binding with
      | .free => c.exec k.callback (w.add (.resumed a k))
      | .loop => post k.callback (w.add (.resumed a k))
      | .nowhere => .ok () w := by
  rw [resume, bind_of_ok (completion_eq h)]
  cases k.runsOn cell.binding <;> rfl

/-- An outcome that comes too late is refused and changes nothing. -/
theorem finish_of_done (h : w.store[a]? = some (.completion cell)) (hd : cell.done = true)
    (err value : Option Value) :
    finish c a err value w = .ok false (w.add (.offered a err value false)) := by
  rw [finish, bind_of_ok (completion_eq h)]
  simp only [hd]
  rfl

/-- The first outcome is taken, and what has waited for it is resumed. -/
theorem finish_of_pending (h : w.store[a]? = some (.completion cell)) (hd : cell.done = false)
    (err value : Option Value) :
    finish c a err value w =
      (do cell.wakers.forM (resume c a); return true) (w.settle a cell err value) := by
  rw [finish, bind_of_ok (completion_eq h)]
  simp only [hd]
  rfl

/-- Failing with nil is failing with a new error. -/
theorem fail_none (w : World) :
    fail c a none w = finish c a (some (.pointer (.pointer (.named .errorText)) w.store.size)) none
      { w with
        store := w.store.push (textObject .errorText (Bytes.ofString "asyncrt: fail with nil error")) } :=
  rfl

theorem getElem?_push_of_some (h : w.store[a]? = some (.completion cell)) (o : Object) :
    (w.store.push o)[a]? = some (.completion cell) := by
  obtain ⟨hlt, -⟩ := Array.getElem?_eq_some_iff.mp h
  rw [Array.getElem?_push_lt hlt, ← h, Array.getElem?_eq_getElem hlt]

/-- The text of the error that is made when a cell fails with nil. -/
def nilFailure : Object := textObject .errorText (Bytes.ofString "asyncrt: fail with nil error")

/-- The error that is made when a cell fails with nil, as a world stands. -/
def madeError (w : World) : Value := .pointer (.pointer (.named .errorText)) w.store.size

theorem fail_none_of_done (h : w.store[a]? = some (.completion cell)) (hd : cell.done = true) :
    fail c a none w =
      .ok false ({ w with store := w.store.push nilFailure }.add (.offered a (some (madeError w)) none false)) := by
  rw [fail_none, finish_of_done (getElem?_push_of_some h _) hd]
  rfl

theorem fail_none_of_pending (h : w.store[a]? = some (.completion cell)) (hd : cell.done = false) :
    fail c a none w = (do cell.wakers.forM (resume c a); return true)
      ({ w with store := w.store.push nilFailure }.settle a cell (some (madeError w)) none) := by
  rw [fail_none, finish_of_pending (getElem?_push_of_some h _) hd]
  rfl

theorem onCompleted_of_done (h : w.store[a]? = some (.completion cell)) (hd : cell.done = true)
    (k : Callback) (inline : Bool) :
    onCompleted c a k inline w = resume c a ⟨k, inline⟩ (w.add (.registered a ⟨k, inline⟩)) := by
  rw [onCompleted, bind_of_ok (completion_eq h)]
  simp only [hd]
  rfl

theorem onCompleted_of_pending (h : w.store[a]? = some (.completion cell)) (hd : cell.done = false)
    (k : Callback) (inline : Bool) :
    onCompleted c a k inline w =
      .ok () ((w.add (.registered a ⟨k, inline⟩)).setCell a
        { cell with wakers := cell.wakers ++ [⟨k, inline⟩] }) := by
  rw [onCompleted, bind_of_ok (completion_eq h)]
  simp only [hd]
  rfl

end Run

/-! ### Invariants of a cell -/

/-- What can be seen of a cell: its state, and the trail and the loop. -/
structure View where
  cell : Completion
  trail : List Footprint
  loop : Option Loop

def View.add (v : View) (e : Footprint) : View := { v with trail := e :: v.trail }

/-- An invariant holds of the cell at an address. It may depend on the continuations that have been taken
from the cell and are about to be resumed. -/
def Holds (a : Nat) (I : List Waker → View → Prop) (fly : List Waker) (w : World) : Prop :=
  ∃ cell, w.store[a]? = some (.completion cell) ∧ I fly ⟨cell, w.trail, w.loop⟩

/-- The steps of the library keep an invariant of the cell at an address. -/
structure Stable (a : Nat) (I : List Waker → View → Prop) : Prop where
  /-- Only continuations wait, and not for a scheduler that drops them. -/
  known : ∀ {k fly v}, I (k :: fly) v → ∃ j, k.callback = continuation j
  somewhere : ∀ {k fly v}, I (k :: fly) v → k.runsOn v.cell.binding ≠ .nowhere
  refused : ∀ {fly v err value}, I fly v → v.cell.done = true →
    I fly (v.add (.offered a err value false))
  taken : ∀ {fly v err value}, I fly v → v.cell.done = false →
    I (v.cell.wakers ++ fly) { v.add (.offered a err value true) with
      cell := { v.cell with done := true, err := err, value := value <|> v.cell.value, wakers := [] } }
  waiting : ∀ {fly v j inline}, I fly v → v.cell.done = false →
    I fly { v.add (.registered a ⟨continuation j, inline⟩) with
      cell := { v.cell with wakers := v.cell.wakers ++ [⟨continuation j, inline⟩] } }
  late : ∀ {fly v j inline}, I fly v → v.cell.done = true →
    I (⟨continuation j, inline⟩ :: fly) (v.add (.registered a ⟨continuation j, inline⟩))
  ran : ∀ {k fly v j}, I (k :: fly) v → k.runsOn v.cell.binding = .free →
    k.callback = continuation j → I fly ((v.add (.resumed a k)).add (.entered j))
  queued : ∀ {k fly v}, I (k :: fly) v → k.runsOn v.cell.binding = .loop →
    I fly { v.add (.resumed a k) with loop := v.loop.map (·.post k.callback) }

/-- When the computation returns, the invariant still holds. -/
def Upholds (a : Nat) (I : List Waker → View → Prop) (x : Run α) : Prop :=
  ∀ ⦃fly w r w'⦄, Holds a I fly w → x w = .ok r w' → Holds a I fly w'

/-- When a continuation that is called returns, the invariant still holds. -/
def Carries (a : Nat) (I : List Waker → View → Prop) (c : Calls) : Prop :=
  ∀ ⦃k fly w w'⦄, Holds a I fly (w.add (.entered k)) → c.exec (continuation k) w = .ok () w' →
    Holds a I fly w'

variable {a : Nat} {I : List Waker → View → Prop} {c : Calls} {fly : List Waker} {w w' : World}

namespace Upholds

theorem discard {x : Run α} (h : Upholds a I x) : Upholds a I (discard x : Run Unit) := by
  intro fly w u w' hw hrun
  obtain ⟨r, hrun⟩ := Run.discard_eq_ok.mp hrun
  exact h hw hrun

theorem forM {f : δ → Run PUnit} (h : ∀ d, Upholds a I (f d)) (ds : List δ) :
    Upholds a I (ds.forM f) := by
  induction ds with
  | nil =>
    intro fly w u w' hw hrun
    cases hrun
    exact hw
  | cons d ds ih =>
    intro fly w u w' hw hrun
    obtain ⟨_, v, hd, hds⟩ := Run.bind_eq_ok.mp hrun
    exact ih (h d hw hd) hds

end Upholds

theorem Holds.setCell {cell : Completion} (hw : w.store[a]? = some (.completion cell)) {cell' : Completion}
    (h : I fly ⟨cell', w.trail, w.loop⟩) : Holds a I fly (w.setCell a cell') := by
  obtain ⟨hlt, -⟩ := Array.getElem?_eq_some_iff.mp hw
  refine ⟨cell', ?_, h⟩
  rw [World.setCell, Array.getElem?_setIfInBounds_self_of_lt hlt]

/-- An object more in the store changes nothing for the cell. -/
theorem Holds.alloc (hw : Holds a I fly w) (o : Object) :
    Holds a I fly { w with store := w.store.push o } := by
  obtain ⟨cell, hcell, h⟩ := hw
  exact ⟨cell, Run.getElem?_push_of_some hcell o, h⟩

namespace Stable

variable (hI : Stable a I) (hc : Carries a I c)

include hI hc

/-- Resuming a waker takes it out of those under way. -/
theorem resume {k : Waker} (hw : Holds a I (k :: fly) w) {r : Unit}
    (hrun : Run.resume c a k w = .ok r w') : Holds a I fly w' := by
  obtain ⟨cell, hcell, h⟩ := hw
  obtain ⟨j, hj⟩ := hI.known h
  rw [Run.resume_eq hcell] at hrun
  split at hrun
  · next hfree =>
    rw [hj] at hrun
    exact hc (w := w.add (.resumed a k)) ⟨cell, hcell, hI.ran h hfree hj⟩ hrun
  · next hloop =>
    have hqueued := hI.queued h hloop
    rw [hj] at hrun hqueued
    cases hrun
    exact ⟨cell, hcell, hqueued⟩
  · next hnowhere => exact absurd hnowhere (hI.somewhere h)

theorem resumeAll {ks : List Waker} (hw : Holds a I (ks ++ fly) w) {r : PUnit}
    (hrun : ks.forM (Run.resume c a) w = .ok r w') : Holds a I fly w' := by
  induction ks generalizing w with
  | nil =>
    cases hrun
    exact hw
  | cons k ks ih =>
    obtain ⟨_, v, hk, hks⟩ := Run.bind_eq_ok.mp hrun
    exact ih (hI.resume hc hw hk) hks

/-- Offering an outcome keeps the invariant, whatever the continuations do that it resumes. -/
theorem finish (err value : Option Value) : Upholds a I (Run.finish c a err value) := by
  intro fly w r w' hw hrun
  obtain ⟨cell, hcell, h⟩ := hw
  cases hd : cell.done with
  | true =>
    rw [Run.finish_of_done hcell hd] at hrun
    cases hrun
    exact ⟨cell, hcell, hI.refused h hd⟩
  | false =>
    rw [Run.finish_of_pending hcell hd] at hrun
    obtain ⟨_, v, hwake, hrun⟩ := Run.bind_eq_ok.mp hrun
    cases hrun
    -- the cell is settled before the first continuation is resumed
    exact hI.resumeAll hc (Holds.setCell (w := w.add (.offered a err value true)) hcell (hI.taken h hd)) hwake

theorem fail (e : Option Value) : Upholds a I (Run.fail c a e) := by
  cases e with
  | some e => exact hI.finish hc (some e) none
  | none =>
    intro fly w r w' hw hrun
    exact hI.finish hc _ _ (hw.alloc _) hrun

/-- Registering a continuation keeps the invariant. -/
theorem onCompleted (j : Nat) (inline : Bool) :
    Upholds a I (Run.onCompleted c a (continuation j) inline) := by
  intro fly w r w' hw hrun
  obtain ⟨cell, hcell, h⟩ := hw
  cases hd : cell.done with
  | true =>
    rw [Run.onCompleted_of_done hcell hd] at hrun
    exact hI.resume hc (w := w.add (.registered a ⟨continuation j, inline⟩))
      ⟨cell, hcell, hI.late h hd⟩ hrun
  | false =>
    rw [Run.onCompleted_of_pending hcell hd] at hrun
    cases hrun
    exact Holds.setCell (w := w.add (.registered a ⟨continuation j, inline⟩)) hcell (hI.waiting h hd)

end Stable

/-- A turn of the loop keeps an invariant when taking a callback from the loop and calling it does. -/
theorem Upholds.runOnce (hc : Carries a I c)
    (hturn : ∀ {fly v l l' k}, I fly v → v.loop = some l → l.next? = some (k, l') →
      ∃ j, k = continuation j ∧ I fly ({ v with loop := some l' }.add (.entered j))) :
    Upholds a I (Run.runOnce c) := by
  intro fly w r w' hw hrun
  obtain ⟨cell, hcell, h⟩ := hw
  rw [runOnce_eq] at hrun
  split at hrun
  · cases hrun
    exact ⟨cell, hcell, h⟩
  · next k l' hnext =>
    obtain ⟨l, hl, hnext⟩ := Option.bind_eq_some_iff.mp hnext
    obtain ⟨j, rfl, hj⟩ := hturn h hl hnext
    split at hrun
    · next u v hexec =>
      cases hrun
      exact hc (w := { w with loop := some l' }) ⟨cell, hcell, hj⟩ hexec
    · cases hrun

/-- Continuations keep the invariant when what they do keeps it. -/
theorem carries_hosting {body : Calls → Nat → Run Unit}
    (h : ∀ c, Carries a I c → ∀ k, Upholds a I (body c k)) : ∀ n, Carries a I (Calls.hosting body n)
  | 0, _, _, _, _, _, hrun => nomatch hrun
  | 1, _, _, _, _, _, hrun => nomatch hrun
  | n + 2, _, _, _, _, hw, hrun => by
    rw [Run.exec_continuation] at hrun
    exact h _ (carries_hosting h n) _ hw hrun

/-! ### Runs that return -/

/-- What a callback costs when continuations have the given costs. -/
def Callback.cost (cost : Nat → Nat) : Callback → Nat
  | .call (.func _ (.closure j)) => cost j
  | _ => 0

/-- What it costs to call everything that waits for a cell, is about to be resumed or is with the loop. -/
def View.burden (cost : Nat → Nat) (fly : List Waker) (v : View) : Nat :=
  ((fly ++ v.cell.wakers).map fun k => k.callback.cost cost).sum +
    v.loop.elim 0 fun l => ((l.ready ++ l.timers.map (·.fire)).map fun k => k.cost cost).sum

namespace View

variable (cost : Nat → Nat) (fly : List Waker) (v : View)

theorem burden_cons (k : Waker) : v.burden cost (k :: fly) = k.callback.cost cost + v.burden cost fly := by
  simp [burden, Nat.add_assoc]

theorem burden_wakers (e : Footprint) (cell : Completion) (h : cell.wakers = []) :
    ({ v.add e with cell := cell } : View).burden cost (v.cell.wakers ++ fly) = v.burden cost fly := by
  simp [burden, h, View.add]
  omega

theorem burden_waiting (e : Footprint) (k : Waker) :
    ({ v.add e with cell := { v.cell with wakers := v.cell.wakers ++ [k] } } : View).burden cost fly =
      k.callback.cost cost + v.burden cost fly := by
  simp [burden, View.add]
  omega

/-- A callback in the queue costs what it costs, when there is a loop. -/
theorem burden_queued (e : Footprint) (k : Callback) :
    ({ v.add e with loop := v.loop.map (·.post k) } : View).burden cost fly ≤
      k.cost cost + v.burden cost fly := by
  cases hl : v.loop with
  | none => simp [burden, View.add, hl]
  | some l =>
    simp [burden, View.add, hl, Loop.post]
    omega

/-- Taking the next callback takes its cost off what is waiting. -/
theorem burden_next {l l' : Loop} {k : Callback} (hl : v.loop = some l) (hn : l.next? = some (k, l')) :
    v.burden cost fly = k.cost cost + ({ v with loop := some l' } : View).burden cost fly := by
  obtain ⟨i, -, hk, rfl⟩ := Loop.next?_some hn
  obtain ⟨hlt, hget⟩ := List.getElem?_eq_some_iff.mp hk
  have hperm := ((List.getElem_cons_eraseIdx_perm hlt).map (·.cost cost)).sum_nat
  rw [hget] at hperm
  have hdue := l.due_append_undue
  simp [burden, hl, ← hdue] at hperm ⊢
  omega

end View

/-- The invariant holds, and what is waiting costs no more than `m`. -/
def Within (cost : Nat → Nat) (m : Nat) (I : List Waker → View → Prop) (fly : List Waker)
    (v : View) : Prop :=
  I fly v ∧ v.burden cost fly ≤ m

/-- Within a budget of `b`, a call of a continuation returns and takes up at least one of its cost. -/
def Affords (a : Nat) (I : List Waker → View → Prop) (cost : Nat → Nat) (b : Nat) (c : Calls) : Prop :=
  ∀ ⦃j fly w m⦄, m + cost j ≤ b → Holds a (Within cost m I) fly (w.add (.entered j)) →
    ∃ w', c.exec (continuation j) w = .ok () w' ∧ Holds a (Within cost (m + cost j - 1) I) fly w'

/-- When what is waiting costs no more than `m`, the computation returns, and then what is waiting costs no
more than `m'`. -/
def Returns (a : Nat) (I : List Waker → View → Prop) (cost : Nat → Nat) (m m' : Nat) (x : Run α) :
    Prop :=
  ∀ ⦃fly w⦄, Holds a (Within cost m I) fly w →
    ∃ r w', x w = .ok r w' ∧ Holds a (Within cost m' I) fly w'

variable {cost : Nat → Nat} {m m' b : Nat}

theorem Holds.within (hw : Holds a (Within cost m I) fly w) (h : m ≤ m') :
    Holds a (Within cost m' I) fly w := by
  obtain ⟨cell, hcell, hI, hm⟩ := hw
  exact ⟨cell, hcell, hI, hm.trans h⟩

namespace Returns

theorem discard {x : Run α} (h : Returns a I cost m m' x) :
    Returns a I cost m m' (discard x : Run Unit) := by
  intro fly w hw
  obtain ⟨r, w', hrun, hw'⟩ := h hw
  exact ⟨(), w', Run.discard_eq_ok.mpr ⟨r, hrun⟩, hw'⟩

theorem within {x : Run α} (h : Returns a I cost m m' x) {m'' : Nat} (hm : m' ≤ m'') :
    Returns a I cost m m'' x := by
  intro fly w hw
  obtain ⟨r, w', hrun, hw'⟩ := h hw
  exact ⟨r, w', hrun, hw'.within hm⟩

/-- Steps that each take up one of their price return, one after the other. -/
theorem forM {f : δ → Run PUnit} {price : δ → Nat}
    (h : ∀ d m, m + price d ≤ b + 1 → Returns a I cost m (m + price d - 1) (f d)) :
    ∀ (ds : List δ) ⦃m : Nat⦄, m + (ds.map price).sum ≤ b + 1 →
      Returns a I cost m (m + (ds.map price).sum) (ds.forM f)
  | [], _, _, _, _, hw => ⟨_, _, rfl, hw.within (Nat.le_add_right ..)⟩
  | d :: ds, m, hm, fly, w, hw => by
    rw [List.map_cons, List.sum_cons] at hm ⊢
    obtain ⟨_, v, hd, hv⟩ := h d m (by omega) hw
    obtain ⟨r, w', hds, hw'⟩ := forM h ds (m := m + price d - 1) (by omega) hv
    exact ⟨r, w', (Run.bind_of_ok hd).trans hds, hw'.within (by omega)⟩

end Returns

namespace Stable

variable (hI : Stable a I) (hc : Affords a I cost b c)

include hI hc

/-- Resuming a waker returns. -/
theorem resume_returns (hm : m ≤ b) {k : Waker} (hw : Holds a (Within cost m I) (k :: fly) w) :
    ∃ r w', Run.resume c a k w = .ok r w' ∧ Holds a (Within cost m I) fly w' := by
  obtain ⟨cell, hcell, h, hle⟩ := hw
  obtain ⟨j, hj⟩ := hI.known h
  rw [View.burden_cons] at hle
  rw [Run.resume_eq hcell]
  cases hon : k.runsOn cell.binding with
  | free =>
    rw [hj] at hle ⊢
    have hle : cost j + View.burden cost fly ⟨cell, w.trail, w.loop⟩ ≤ m := hle
    -- what waits besides the continuation leaves room for what the continuation costs
    have hrest : View.burden cost fly ⟨cell, w.trail, w.loop⟩ ≤ m - cost j := by omega
    obtain ⟨w', hexec, hw'⟩ := hc (m := m - cost j) (by omega) (w := w.add (.resumed a k))
      ⟨cell, hcell, hI.ran h hon hj, hrest⟩
    exact ⟨(), w', hexec, hw'.within (by omega)⟩
  | loop =>
    have hqueued := hI.queued h hon
    have hrest :=
      (View.burden_queued cost fly ⟨cell, w.trail, w.loop⟩ (.resumed a k) k.callback).trans hle
    rw [hj] at hqueued hrest ⊢
    exact ⟨(), _, rfl, cell, hcell, hqueued, hrest⟩
  | nowhere => exact absurd hon (hI.somewhere h)

theorem resumeAll_returns (hm : m ≤ b) (ks : List Waker) (hw : Holds a (Within cost m I) (ks ++ fly) w) :
    ∃ r w', ks.forM (Run.resume c a) w = .ok r w' ∧ Holds a (Within cost m I) fly w' := by
  induction ks generalizing w with
  | nil => exact ⟨_, w, rfl, hw⟩
  | cons k ks ih =>
    obtain ⟨_, v, hk, hv⟩ := hI.resume_returns hc hm hw
    obtain ⟨r, w', hks, hw'⟩ := ih hv
    exact ⟨r, w', (Run.bind_of_ok hk).trans hks, hw'⟩

/-- Settling a cell returns, and adds nothing to what is waiting. -/
theorem finish_returns (hm : m ≤ b) (err value : Option Value) :
    Returns a I cost m m (Run.finish c a err value) := by
  intro fly w hw
  obtain ⟨cell, hcell, h, hle⟩ := hw
  cases hd : cell.done with
  | true => exact ⟨_, _, Run.finish_of_done hcell hd err value, cell, hcell, hI.refused h hd, hle⟩
  | false =>
    rw [Run.finish_of_pending hcell hd]
    have hburden := View.burden_wakers cost fly ⟨cell, w.trail, w.loop⟩ (.offered a err value true)
      { cell with done := true, err := err, value := value <|> cell.value, wakers := [] } rfl
    obtain ⟨_, w', hwake, hw'⟩ := hI.resumeAll_returns hc hm cell.wakers
      (Holds.setCell (w := w.add (.offered a err value true)) hcell ⟨hI.taken h hd, hburden.le.trans hle⟩)
    exact ⟨true, w', Run.bind_of_ok hwake, hw'⟩

theorem fail_returns (hm : m ≤ b) (e : Option Value) : Returns a I cost m m (Run.fail c a e) := by
  cases e with
  | some e => exact hI.finish_returns hc hm (some e) none
  | none =>
    intro fly w hw
    exact hI.finish_returns hc hm _ _ (hw.alloc _)

/-- Registering a continuation returns. -/
theorem onCompleted_returns {j : Nat} (hm : m + cost j ≤ b) (inline : Bool) :
    Returns a I cost m (m + cost j) (Run.onCompleted c a (continuation j) inline) := by
  intro fly w hw
  obtain ⟨cell, hcell, h, hle⟩ := hw
  cases hd : cell.done with
  | true =>
    rw [Run.onCompleted_of_done hcell hd]
    have hburden : View.burden cost (⟨continuation j, inline⟩ :: fly) ⟨cell, w.trail, w.loop⟩ ≤
        m + cost j := by
      rw [View.burden_cons, Nat.add_comm]
      exact Nat.add_le_add_right hle _
    exact hI.resume_returns hc hm (w := w.add (.registered a ⟨continuation j, inline⟩))
      ⟨cell, hcell, hI.late h hd, hburden⟩
  | false =>
    rw [Run.onCompleted_of_pending hcell hd]
    have hburden := View.burden_waiting cost fly ⟨cell, w.trail, w.loop⟩
      (.registered a ⟨continuation j, inline⟩) ⟨continuation j, inline⟩
    rw [Nat.add_comm] at hburden
    exact ⟨(), _, rfl, Holds.setCell (w := w.add (.registered a ⟨continuation j, inline⟩)) hcell
      ⟨hI.waiting h hd, hburden.le.trans (Nat.add_le_add_right hle _)⟩⟩

end Stable

/-- A turn of the loop returns. -/
theorem Returns.runOnce (hc : Affords a I cost b c)
    (hturn : ∀ {fly v l l' k}, I fly v → v.loop = some l → l.next? = some (k, l') →
      ∃ j, k = continuation j ∧ I fly ({ v with loop := some l' }.add (.entered j)))
    (hm : m ≤ b) : Returns a I cost m m (Run.runOnce c) := by
  intro fly w hw
  obtain ⟨cell, hcell, h, hle⟩ := hw
  rw [runOnce_eq]
  cases hnext : w.loop.bind Loop.next? with
  | none => exact ⟨false, w, rfl, cell, hcell, h, hle⟩
  | some next =>
    obtain ⟨k, l'⟩ := next
    obtain ⟨l, hl, hn⟩ := Option.bind_eq_some_iff.mp hnext
    obtain ⟨j, rfl, hj⟩ := hturn h hl hn
    have hburden := View.burden_next cost fly ⟨cell, w.trail, w.loop⟩ hl hn
    have hburden : View.burden cost fly ⟨cell, w.trail, w.loop⟩ =
        cost j + View.burden cost fly ⟨cell, w.trail, some l'⟩ := hburden
    obtain ⟨w', hexec, hw'⟩ := hc (m := m - cost j) (by omega) (w := { w with loop := some l' })
      ⟨cell, hcell, hj, show View.burden cost fly ⟨cell, w.trail, some l'⟩ ≤ _ by omega⟩
    exact ⟨true, w', by simp [hexec], hw'.within (by omega)⟩

section

variable {perform : Calls → δ → Run Unit} {plan : Nat → List δ} {price : δ → Nat}

/-- With enough fuel calls of continuations return, when each costs more than what it does. -/
theorem affords_hosting (hplan : ∀ k, ((plan k).map price).sum < cost k)
    (h : ∀ c b, Affords a I cost b c → ∀ d m, m + price d ≤ b + 1 →
      Returns a I cost m (m + price d - 1) (perform c d)) :
    ∀ n, Affords a I cost (n / 2) (Calls.hosting (fun c k => (plan k).forM (perform c)) n)
  | 0, j, _, _, m, hm, _ => by
    have := hplan j
    omega
  | 1, j, _, _, m, hm, _ => by
    have := hplan j
    omega
  | n + 2, j, fly, w, m, hm, hw => by
    -- the continuation runs two levels down and costs at least one more than what it does
    have hj := hplan j
    obtain ⟨_, w', hrun, hw'⟩ :=
      Returns.forM (h _ _ (affords_hosting hplan h n)) (plan j) (m := m) (by omega) hw
    exact ⟨w', by rw [Run.exec_continuation, hrun], hw'.within (by omega)⟩

/-- What is done one after the other keeps the invariant, together with what the continuations do then. -/
theorem Upholds.hosted (h : ∀ c, Carries a I c → ∀ d, Upholds a I (perform c d)) (n : Nat) (ds : List δ) :
    Upholds a I (ds.forM (perform (Calls.hosting (fun c k => (plan k).forM (perform c)) n))) := by
  have hcarries : Carries a I (Calls.hosting (fun c k => (plan k).forM (perform c)) n) :=
    carries_hosting (fun c hc k => Upholds.forM (h c hc) (plan k)) n
  exact Upholds.forM (h _ hcarries) ds

/-- What is done one after the other returns with enough fuel, together with what the continuations do
then. -/
theorem Holds.exists_hosted (hplan : ∀ k, ((plan k).map price).sum < cost k)
    (h : ∀ c b, Affords a I cost b c → ∀ d m, m + price d ≤ b + 1 →
      Returns a I cost m (m + price d - 1) (perform c d)) (hw : Holds a I fly w) (ds : List δ) :
    ∃ n₀, ∀ n, n₀ ≤ n →
      ∃ w', ds.forM (perform (Calls.hosting (fun c k => (plan k).forM (perform c)) n)) w = .ok () w' := by
  obtain ⟨cell, hcell, hI⟩ := hw
  refine ⟨2 * (View.burden cost fly ⟨cell, w.trail, w.loop⟩ + (ds.map price).sum), fun n hn => ?_⟩
  obtain ⟨_, w', hrun, -⟩ :=
    Returns.forM (h _ _ (affords_hosting hplan h n)) ds (by omega) ⟨cell, hcell, hI, Nat.le_refl _⟩
  exact ⟨w', hrun⟩

end

end Resumable
