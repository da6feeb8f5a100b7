import Resumable.Proofs.Host

/-!
# `Proofs.Enumerating`: how an enumerator drives its step function

An enumerator remembers in two flags whether its step function was called and whether it may be called again.
These stand for the whole history of the calls: an enumeration is new, running or ended (`Stage`), and what a
call of the enumerator does depends on its stage alone. The step function may be any function that can be called
and may do and answer anything when it is called; only the enumerator itself is left to those who call it.

**Contents**
* `StepCall`, `Enumerator.Steps`, `Driven`: calls of a step function, what comes of them, and histories of them.
* `Steppable`: the step function returns.
* `Stage.Holds.moves`, `leaves` and so on: one call of an enumerator, at each stage.
* `Exchange.At`, `perform_took`, `exchanges_run`: what a call does at each stage, and any number of calls.
* `Protocol`, `enumerator_keeps_protocol`: what holds of all calls of one enumerator.
* `scripted_steppable`: the step functions of scripts return.
* `selfClosing_breaks`: a step function that closes its own enumerator.
-/

namespace Resumable

open Run

/-! ### Step functions -/

/-- A call of a step function and what came of it. -/
inductive StepCall where
  /-- It was asked for an element: whether there is one, the error, and the element. -/
  | advance (ok : Bool) (err element : Option Value)
  /-- It was asked to leave: the error. -/
  | dispose (err : Option Value)

namespace StepCall

/-- Whether the step function was asked to leave. -/
def isDispose : StepCall → Bool
  | .advance .. => false
  | .dispose _ => true

/-- Whether the enumeration is over with this call: it told the end or an error, or it asked to leave. -/
def isLast : StepCall → Bool
  | .advance ok err _ => err.isSome || !ok
  | .dispose _ => true

end StepCall

namespace World

/-- The world with another object at an address. -/
def withObject (w : World) (a : Nat) (o : Object) : World := { w with store := w.store.setIfInBounds a o }

/-- What is in the slot at an address. -/
def element (w : World) (slot : Nat) : Option Value :=
  match w.valueAt slot with
  | .struct _ [v] => v.content
  | _ => none

/-- The world with an empty slot at an address. -/
def withoutElement (w : World) (slot : Nat) : World :=
  w.withObject slot (.value (.struct (.named .current) [.ofAny none]))

/-- The world with one more object. -/
def withNew (w : World) (o : Object) : World := { w with store := w.store.push o }

/-- The enumerator at an address. -/
def Enumerates (w : World) (en : Nat) (e : Enumerator) : Prop := w.store[en]? = some (.enumerator e)

variable {w : World} {en a : Nat} {e e' : Enumerator} {o : Object}

theorem Enumerates.eq (h : w.Enumerates en e) (h' : w.Enumerates en e') : e = e' := by
  have := h.symm.trans h'
  simpa using this

theorem Enumerates.withObject_self (h : w.Enumerates en e) : (w.withObject en (.enumerator e')).Enumerates en e' := by
  obtain ⟨hlt, -⟩ := Array.getElem?_eq_some_iff.mp h
  exact Array.getElem?_setIfInBounds_self_of_lt hlt

theorem Enumerates.withObject (h : w.Enumerates en e) (ha : a ≠ en) : (w.withObject a o).Enumerates en e :=
  (Array.getElem?_setIfInBounds_ne ha).trans h

theorem Enumerates.withNew (h : w.Enumerates en e) : (w.withNew o).Enumerates en e := by
  obtain ⟨hlt, -⟩ := Array.getElem?_eq_some_iff.mp h
  exact (Array.getElem?_push_lt hlt).trans ((Array.getElem?_eq_getElem hlt).symm.trans h)

theorem enumerates_withNew (w : World) (e : Enumerator) : (w.withNew (.enumerator e)).Enumerates w.store.size e :=
  Array.getElem?_push_size

theorem element_withNew (w : World) (t : Ty) (v : Value) (o : Object) :
    ((w.withNew (.value (.struct t [v]))).withNew o).element w.store.size = v.content := by
  have hget : ((w.store.push (.value (.struct t [v]))).push o)[w.store.size]? = some (.value (.struct t [v])) := by
    rw [Array.getElem?_push, if_neg (by simp), Array.getElem?_push_size]
  unfold element valueAt withNew
  rw [hget]

theorem element_withObject (ha : a ≠ en) : (w.withObject en o).element a = w.element a := by
  unfold element valueAt World.withObject
  rw [Array.getElem?_setIfInBounds_ne ha.symm]

theorem element_withoutElement (w : World) (slot : Nat) : (w.withoutElement slot).element slot = none := by
  unfold element valueAt withoutElement World.withObject
  by_cases hlt : slot < w.store.size
  · rw [Array.getElem?_setIfInBounds_self_of_lt hlt]
    rfl
  · rw [Array.getElem?_eq_none (by simpa using hlt)]

end World

/-- The step function of an enumerator returns from one more call in a world, and this came of it. An element is
left in the slot. -/
def Enumerator.Steps (c : Calls) (e : Enumerator) (w : World) (x : StepCall) (w' : World) : Prop :=
  match x with
  | .advance ok err element =>
    (∃ a b, c.call e.step [.ofBool false, .pointer .current e.slot] w = .ok [a, b] w' ∧
      a.asBool = ok ∧ b.content = err) ∧ (x.isLast = false → w'.element e.slot = element)
  | .dispose err =>
    ∃ a b, c.call e.step [.ofBool true, .pointer .current e.slot] w = .ok [a, b] w' ∧ b.content = err

/-- Calls of the step function of the enumerator at an address lead from one world to another. In between, only
the flags of the enumerator are changed, and its slot is emptied when the enumeration is over. -/
inductive Driven (c : Calls) (en : Nat) (w₀ : World) : List StepCall → World → Prop
  | none : Driven c en w₀ [] w₀
  | step {past : List StepCall} {w w' : World} {e : Enumerator} {x : StepCall} (h : Driven c en w₀ past w)
      (he : w.Enumerates en e) (hx : e.Steps c w x w') : Driven c en w₀ (past ++ [x]) w'
  | flags {past : List StepCall} {w : World} {e : Enumerator} (h : Driven c en w₀ past w)
      (he : w.Enumerates en e) (started done : Bool) :
      Driven c en w₀ past (w.withObject en (.enumerator { e with started, done }))
  | clear {past : List StepCall} {w : World} {e : Enumerator} {x : StepCall} (h : Driven c en w₀ past w)
      (hx : x ∈ past) (hlast : x.isLast = true) (he : w.Enumerates en e) :
      Driven c en w₀ past (w.withoutElement e.slot)

/-- The step function returns from each of the first `n` calls, as long as the enumeration is not over, and it
leaves the enumerator to those who call it. -/
structure Steppable (c : Calls) (en : Nat) (w₀ : World) (n : Nat) : Prop where
  advances : ∀ {past w e}, Driven c en w₀ past w → (∀ x ∈ past, x.isLast = false) → past.length < n →
    w.Enumerates en e → ∃ ok err element w', e.Steps c w (.advance ok err element) w' ∧ w'.Enumerates en e
  disposes : ∀ {past w e}, Driven c en w₀ past w → (∀ x ∈ past, x.isLast = false) → past.length < n →
    past ≠ [] → w.Enumerates en e → ∃ err w', e.Steps c w (.dispose err) w' ∧ w'.Enumerates en e

namespace Enumerator

/-- An enumerator whose step function was called. -/
def begun (e : Enumerator) : Enumerator := { e with started := true }

/-- An enumerator whose step function may not be called any more. -/
def closed (e : Enumerator) : Enumerator := { e with done := true }

variable {c : Calls} {e : Enumerator} {w w' : World} {x : StepCall}

/-- The flags of an enumerator are its own: its step function does not depend on them. -/
theorem steps_begun : e.begun.Steps c w x w' ↔ e.Steps c w x w' := by
  cases x <;> rfl

theorem steps_closed : e.closed.Steps c w x w' ↔ e.Steps c w x w' := by
  cases x <;> rfl

end Enumerator

/-! ### Calls of an enumerator -/

section
variable {c : Calls} {w w' : World} {en : Nat} {e : Enumerator}

theorem enumerator_eq (h : w.Enumerates en e) : enumerator en w = .ok e w := by
  have hobject : object en w = .ok (.enumerator e) w := by
    have hget : w.store.getD en (.value (.null .any)) = .enumerator e := by
      rw [Array.getD_eq_getD_getElem?, show w.store[en]? = _ from h]
      rfl
    exact congrArg (EStateM.Result.ok · w) hget
  exact bind_of_ok hobject

theorem alloc_eq (o : Object) (w : World) : alloc o w = .ok w.store.size (w.withNew o) := rfl

theorem setObject_eq (a : Nat) (o : Object) (w : World) : setObject a o w = .ok () (w.withObject a o) := rfl

theorem clear_eq (slot : Nat) (w : World) : setSlot slot none w = .ok () (w.withoutElement slot) := rfl

theorem load_eq (a : Nat) (w : World) : load a w = .ok (w.valueAt a) w := by
  have hobject : object a w = .ok (w.store.getD a (.value (.null .any))) w := rfl
  unfold load World.valueAt
  rw [bind_of_ok hobject, Array.getD_eq_getD_getElem?]
  cases ho : w.store[a]? with
  | none => rfl
  | some o => cases o <;> rfl

theorem slotValue_eq (a : Nat) (w : World) : slotValue a w = .ok (w.element a) w := by
  unfold slotValue World.element
  rw [bind_of_ok (load_eq a w)]
  generalize w.valueAt a = v
  cases v with
  | struct t vs =>
    match vs with
    | [] | [_] | _ :: _ :: _ => rfl
  | _ => rfl

theorem currentOf_eq (h : w.Enumerates en e) : currentOf en w = .ok (w.element e.slot) w :=
  (bind_of_ok (enumerator_eq h)).trans (slotValue_eq _ _)

theorem callStep_advance {ok : Bool} {err element : Option Value} (h : e.Steps c w (.advance ok err element) w') :
    callStep c e false w = .ok (ok, err) w' := by
  obtain ⟨⟨a, b, hcall, rfl, rfl⟩, -⟩ := h
  exact bind_of_ok hcall

theorem callStep_dispose {err : Option Value} (h : e.Steps c w (.dispose err) w') :
    ∃ ok, callStep c e true w = .ok (ok, err) w' := by
  obtain ⟨a, b, hcall, rfl⟩ := h
  exact ⟨a.asBool, bind_of_ok hcall⟩

end

/-! ### The stages of an enumeration -/

/-- How far an enumeration is: the step function was not called yet, it may be called again, or it may not. -/
inductive Stage where
  | new
  | running
  | ended
deriving DecidableEq, Repr

/-- An enumerator stands at a stage. -/
structure Stage.Holds (s : Stage) (en : Nat) (w : World) (e : Enumerator) : Prop where
  enumerates : w.Enumerates en e
  apart : e.slot ≠ en
  started : s = .new → e.started = false
  running : s = .running → e.started = true
  done : e.done = (s == .ended)
  empty : s ≠ .running → w.element e.slot = none

namespace Stage.Holds

variable {c : Calls} {s : Stage} {en : Nat} {w w' : World} {e : Enumerator} {ok : Bool} {err element : Option Value}

theorem free (h : s.Holds en w e) (hopen : s ≠ .ended) : e.done = false := h.done.trans (by simpa using hopen)

/-- Before the step function is called. -/
theorem begun (h : s.Holds en w e) : (w.withObject en (.enumerator e.begun)).Enumerates en e.begun :=
  h.enumerates.withObject_self

/-- Before the step function is asked to leave. -/
theorem closed (h : s.Holds en w e) : (w.withObject en (.enumerator e.closed)).Enumerates en e.closed :=
  h.enumerates.withObject_self

/-- An enumerator that may be moved is moved by its step function. -/
theorem moves (h : s.Holds en w e) (hopen : s ≠ .ended)
    (hx : e.begun.Steps c (w.withObject en (.enumerator e.begun)) (.advance ok err element) w')
    (hlast : (StepCall.advance ok err element).isLast = false) (he : w'.Enumerates en e.begun) :
    moveNext c en w = .ok (ok, err) w' ∧ Stage.running.Holds en w' e.begun := by
  have hmove : moveNext c en w = .ok (ok, err) w' := by
    unfold moveNext
    rw [bind_of_ok (enumerator_eq h.enumerates), if_neg (by simp [h.free hopen]), bind_of_ok (setObject_eq _ _ _)]
    refine (bind_of_ok (callStep_advance (Enumerator.steps_begun.mp hx))).trans ?_
    dsimp only
    rw [show (err.isSome || !ok) = false from hlast]
    rfl
  exact ⟨hmove, he, h.apart, (nomatch ·), fun _ => rfl, h.free hopen, (absurd rfl ·)⟩

/-- The end and an error finish the enumerator. -/
theorem finishes (h : s.Holds en w e) (hopen : s ≠ .ended)
    (hx : e.begun.Steps c (w.withObject en (.enumerator e.begun)) (.advance ok err element) w')
    (hlast : (StepCall.advance ok err element).isLast = true) (he : w'.Enumerates en e.begun) :
    moveNext c en w = .ok (ok, err) ((w'.withObject en (.enumerator e.begun.closed)).withoutElement e.slot) ∧
      Stage.ended.Holds en ((w'.withObject en (.enumerator e.begun.closed)).withoutElement e.slot) e.begun.closed := by
  have hmove : moveNext c en w =
      .ok (ok, err) ((w'.withObject en (.enumerator e.begun.closed)).withoutElement e.slot) := by
    unfold moveNext
    rw [bind_of_ok (enumerator_eq h.enumerates), if_neg (by simp [h.free hopen]), bind_of_ok (setObject_eq _ _ _)]
    refine (bind_of_ok (callStep_advance (Enumerator.steps_begun.mp hx))).trans ?_
    dsimp only
    rw [show (err.isSome || !ok) = true from hlast, if_pos rfl, bind_of_ok (enumerator_eq he),
      bind_of_ok (setObject_eq _ _ _)]
    exact bind_of_ok (clear_eq _ _)
  have hclosed : World.Enumerates _ en e.begun.closed := he.withObject_self
  exact ⟨hmove, hclosed.withObject h.apart, h.apart, (nomatch ·), (nomatch ·), rfl,
    fun _ => World.element_withoutElement _ _⟩

/-- An enumerator that was not moved is closed without a call of the step function. -/
theorem abandons (h : Stage.new.Holds en w e) :
    close c en w = .ok none (w.withObject en (.enumerator e.closed)) ∧
      Stage.ended.Holds en (w.withObject en (.enumerator e.closed)) e.closed := by
  have hclose : close c en w = .ok none (w.withObject en (.enumerator e.closed)) := by
    unfold close
    rw [bind_of_ok (enumerator_eq h.enumerates), if_neg (by simp [h.free (by decide)]),
      bind_of_ok (setObject_eq _ _ _), if_pos (by simp [h.started rfl])]
    rfl
  refine ⟨hclose, h.closed, h.apart, (nomatch ·), (nomatch ·), rfl, fun _ => ?_⟩
  rw [World.element_withObject (show e.closed.slot ≠ en from h.apart)]
  exact h.empty (by decide)

/-- An enumerator that was moved leaves through its step function. -/
theorem leaves (h : Stage.running.Holds en w e)
    (hx : e.closed.Steps c (w.withObject en (.enumerator e.closed)) (.dispose err) w')
    (he : w'.Enumerates en e.closed) :
    close c en w = .ok err (w'.withoutElement e.slot) ∧
      Stage.ended.Holds en (w'.withoutElement e.slot) e.closed := by
  have hclose : close c en w = .ok err (w'.withoutElement e.slot) := by
    obtain ⟨ok, hstep⟩ := callStep_dispose (Enumerator.steps_closed.mp hx)
    unfold close
    rw [bind_of_ok (enumerator_eq h.enumerates), if_neg (by simp [h.free (by decide)]),
      bind_of_ok (setObject_eq _ _ _), if_neg (by simp [h.running rfl])]
    exact (bind_of_ok hstep).trans (bind_of_ok (clear_eq _ _))
  exact ⟨hclose, he.withObject h.apart, h.apart, (nomatch ·), (nomatch ·), rfl,
    fun _ => World.element_withoutElement _ _⟩

/-- An enumerator that is finished has nothing more. -/
theorem stays (h : Stage.ended.Holds en w e) :
    moveNext c en w = .ok (false, none) w ∧ close c en w = .ok none w := by
  have hdone : e.done = true := h.done
  constructor
  · unfold moveNext
    rw [bind_of_ok (enumerator_eq h.enumerates), if_pos hdone]
    rfl
  · unfold close
    rw [bind_of_ok (enumerator_eq h.enumerates), if_pos hdone]
    rfl

end Stage.Holds

/-! ### One call after the other -/

/-- A call of an enumerator. -/
inductive EnumeratorCall where
  | moveNext
  | close
deriving DecidableEq, Repr

/-- What is seen of an enumerator after a call: whether there is an element, the error, and the current element. -/
structure Reply where
  ok : Bool
  err : Option Value
  current : Option Value

/-- No element, no error, and nothing current. -/
def Reply.silent : Reply := ⟨false, none, none⟩

/-- Calls an enumerator and looks at the current element. -/
def EnumeratorCall.perform (c : Calls) (en : Nat) : EnumeratorCall → Run Reply
  | .moveNext => do
    let (ok, err) ← Run.moveNext c en
    return ⟨ok, err, ← currentOf en⟩
  | .close => do
    let err ← Run.close c en
    return ⟨false, err, ← currentOf en⟩

/-- A call of an enumerator, the calls of the step function that it made, and the reply. -/
structure Exchange where
  call : EnumeratorCall
  steps : List StepCall
  reply : Reply

/-- What a call does at a stage, and the stage after it. -/
inductive Exchange.At : Stage → Exchange → Stage → Prop
  | moved {s : Stage} {ok : Bool} {err element : Option Value} (hs : s ≠ .ended)
      (hlast : (StepCall.advance ok err element).isLast = false) :
      At s ⟨.moveNext, [.advance ok err element], ⟨ok, err, element⟩⟩ .running
  | finished {s : Stage} {ok : Bool} {err element : Option Value} (hs : s ≠ .ended)
      (hlast : (StepCall.advance ok err element).isLast = true) :
      At s ⟨.moveNext, [.advance ok err element], ⟨ok, err, none⟩⟩ .ended
  | abandoned : At .new ⟨.close, [], .silent⟩ .ended
  | left (err : Option Value) : At .running ⟨.close, [.dispose err], ⟨false, err, none⟩⟩ .ended
  | silent (call : EnumeratorCall) : At .ended ⟨call, [], .silent⟩ .ended

section
variable {c : Calls} {w w' w₀ : World} {en n : Nat} {e : Enumerator} {s s' : Stage} {past : List StepCall}
  {x : Exchange}

theorem perform_moveNext {ok : Bool} {err v : Option Value} (h : moveNext c en w = .ok (ok, err) w')
    (he : w'.Enumerates en e) (hv : w'.element e.slot = v) :
    EnumeratorCall.moveNext.perform c en w = .ok ⟨ok, err, v⟩ w' := by
  subst hv
  exact (bind_of_ok h).trans (bind_of_ok (currentOf_eq he))

theorem perform_close {err v : Option Value} (h : close c en w = .ok err w')
    (he : w'.Enumerates en e) (hv : w'.element e.slot = v) :
    EnumeratorCall.close.perform c en w = .ok ⟨false, err, v⟩ w' := by
  subst hv
  exact (bind_of_ok h).trans (bind_of_ok (currentOf_eq he))

/-- An exchange took place: the enumerator replied like this, and its step function was called like this. -/
structure Exchange.Took (x : Exchange) (c : Calls) (en : Nat) (w₀ : World) (past : List StepCall) (w : World)
    (s' : Stage) (w' : World) : Prop where
  ends : x.call.perform c en w = .ok x.reply w'
  driven : Driven c en w₀ (past ++ x.steps) w'
  holds : ∃ e, s'.Holds en w' e

/-- A finished enumerator does nothing. -/
theorem silent_took (h : Stage.ended.Holds en w e) (hd : Driven c en w₀ past w) (call : EnumeratorCall) :
    Exchange.Took ⟨call, [], .silent⟩ c en w₀ past w .ended w := by
  refine ⟨?_, by simpa using hd, e, h⟩
  cases call with
  | moveNext => exact perform_moveNext h.stays.1 h.enumerates (h.empty (by decide))
  | close => exact perform_close h.stays.2 h.enumerates (h.empty (by decide))

/-- An enumerator that was not moved is finished once it is closed. -/
theorem abandoned_took (h : Stage.new.Holds en w e) (hd : Driven c en w₀ past w) :
    ∃ w', Exchange.Took ⟨.close, [], .silent⟩ c en w₀ past w .ended w' := by
  obtain ⟨hclose, hended⟩ := h.abandons
  have hd : Driven c en w₀ past (w.withObject en (.enumerator e.closed)) := hd.flags h.enumerates e.started true
  exact ⟨_, perform_close hclose hended.enumerates (hended.empty (by decide)), by simpa using hd, _, hended⟩

/-- A running enumerator leaves through its step function. -/
theorem left_took (hs : Steppable c en w₀ n) (h : Stage.running.Holds en w e) (hd : Driven c en w₀ past w)
    (hlive : ∀ y ∈ past, y.isLast = false) (hn : past.length < n) (hpast : past ≠ []) :
    ∃ err w', Exchange.Took ⟨.close, [.dispose err], ⟨false, err, none⟩⟩ c en w₀ past w .ended w' := by
  have hd := hd.flags h.enumerates e.started true
  obtain ⟨err, w', hstep, he⟩ := hs.disposes hd hlive hn hpast h.closed
  obtain ⟨hclose, hended⟩ := h.leaves hstep he
  have hd := (hd.step h.closed hstep).clear List.mem_concat_self rfl he
  exact ⟨err, _, perform_close hclose hended.enumerates (hended.empty (by decide)), hd, _, hended⟩

/-- An enumerator that is not finished is moved by its step function. -/
theorem moved_took (hs : Steppable c en w₀ n) (h : s.Holds en w e) (hopen : s ≠ .ended) (hd : Driven c en w₀ past w)
    (hlive : ∀ y ∈ past, y.isLast = false) (hn : past.length < n) :
    ∃ x s' w', x.call = .moveNext ∧ Exchange.At s x s' ∧ Exchange.Took x c en w₀ past w s' w' := by
  have hd := hd.flags h.enumerates true e.done
  obtain ⟨ok, err, element, w', hstep, he⟩ := hs.advances hd hlive hn h.begun
  have hd := hd.step h.begun hstep
  cases hlast : (StepCall.advance ok err element).isLast with
  | false =>
    obtain ⟨hmove, hrunning⟩ := h.moves hopen hstep hlast he
    exact ⟨_, _, w', rfl, .moved hopen hlast, perform_moveNext hmove he (hstep.2 hlast), hd, _, hrunning⟩
  | true =>
    obtain ⟨hmove, hended⟩ := h.finishes hopen hstep hlast he
    have hd := (hd.flags he true true).clear List.mem_concat_self hlast he.withObject_self
    exact ⟨_, _, _, rfl, .finished hopen hlast, perform_moveNext hmove hended.enumerates (hended.empty (by decide)),
      hd, _, hended⟩

/-- One call of an enumerator, at any stage. -/
theorem perform_took (hs : Steppable c en w₀ n) (h : s.Holds en w e) (hd : Driven c en w₀ past w)
    (hlive : s ≠ .ended → ∀ y ∈ past, y.isLast = false) (hn : past.length < n) (hpast : s = .running → past ≠ [])
    (call : EnumeratorCall) :
    ∃ x s' w', x.call = call ∧ Exchange.At s x s' ∧ Exchange.Took x c en w₀ past w s' w' := by
  cases s with
  | ended => exact ⟨_, _, w, rfl, .silent call, silent_took h hd call⟩
  | new =>
    cases call with
    | moveNext => exact moved_took hs h (by decide) hd (hlive (by decide)) hn
    | close =>
      obtain ⟨w', htook⟩ := abandoned_took h hd
      exact ⟨_, _, w', rfl, .abandoned, htook⟩
  | running =>
    cases call with
    | moveNext => exact moved_took hs h (by decide) hd (hlive (by decide)) hn
    | close =>
      obtain ⟨err, w', htook⟩ := left_took hs h hd (hlive (by decide)) hn (hpast rfl)
      exact ⟨_, _, w', rfl, .left err, htook⟩

end

/-- Exchanges one after the other, from one stage to another. -/
inductive Exchanges : Stage → List Exchange → Stage → Prop
  | nil (s : Stage) : Exchanges s [] s
  | cons {s s' s'' : Stage} {x : Exchange} {xs : List Exchange} (hx : x.At s s') (hxs : Exchanges s' xs s'') :
      Exchanges s (x :: xs) s''

namespace Exchange

variable {s s' : Stage} {x : Exchange} {past : List StepCall}

/-- As long as the enumeration is not over, no call of the step function was the last. -/
theorem At.live (h : x.At s s') (hlive : s ≠ .ended → ∀ y ∈ past, y.isLast = false) (hs : s' ≠ .ended) :
    ∀ y ∈ past ++ x.steps, y.isLast = false := by
  cases h with
  | moved hopen hlast =>
    intro y hy
    obtain hy | hy := List.mem_append.mp hy
    · exact hlive hopen y hy
    · rw [List.mem_singleton.mp hy]
      exact hlast
  | _ => exact absurd rfl hs

/-- A running enumerator was moved. -/
theorem At.nonempty (h : x.At s s') (hs : s' = .running) : past ++ x.steps ≠ [] := by
  cases h with
  | moved => simp
  | _ => cases hs

/-- An exchange calls the step function at most once. -/
theorem At.length_le (h : x.At s s') : x.steps.length ≤ 1 := by
  cases h <;> simp

end Exchange

/-- Any number of calls of an enumerator. -/
theorem exchanges_run {c : Calls} {en n : Nat} {w₀ : World} (hs : Steppable c en w₀ n) (calls : List EnumeratorCall)
    {w : World} {e : Enumerator} {s : Stage} {past : List StepCall} (h : s.Holds en w e) (hd : Driven c en w₀ past w)
    (hlive : s ≠ .ended → ∀ y ∈ past, y.isLast = false) (hpast : s = .running → past ≠ [])
    (hn : past.length + calls.length ≤ n) :
    ∃ xs s' w', xs.map (·.call) = calls ∧ Exchanges s xs s' ∧
      calls.mapM (·.perform c en) w = .ok (xs.map (·.reply)) w' ∧
      Driven c en w₀ (past ++ xs.flatMap (·.steps)) w' := by
  induction calls generalizing w e s past with
  | nil => exact ⟨[], s, w, rfl, .nil s, rfl, by simpa using hd⟩
  | cons call calls ih =>
    rw [List.length_cons] at hn
    obtain ⟨x, s₁, w₁, rfl, hat, hends, hd₁, e₁, h₁⟩ := perform_took hs h hd hlive (by omega) hpast call
    have hn₁ : (past ++ x.steps).length + calls.length ≤ n := by
      have := hat.length_le
      rw [List.length_append]
      omega
    obtain ⟨xs, s', w', hcalls, hexchanges, hrest, hd'⟩ := ih h₁ hd₁ (hat.live hlive) hat.nonempty hn₁
    refine ⟨x :: xs, s', w', by rw [List.map_cons, hcalls], .cons hat hexchanges, ?_, ?_⟩
    · rw [List.mapM_cons, bind_of_ok hends]
      exact bind_of_ok hrest
    · rwa [List.append_assoc, ← List.flatMap_cons] at hd'

/-! ### The protocol -/

namespace Exchange

/-- Whether the enumerator is finished by this exchange at the latest: it told the end or an error, or it was
closed. -/
def finishes (x : Exchange) : Bool := x.call == .close || x.reply.err.isSome || !x.reply.ok

variable {s s' : Stage} {x : Exchange}

theorem At.ended (h : x.At s s') : x.finishes = (s' == .ended) := by
  cases h with
  | moved _ hlast => exact hlast
  | finished _ hlast => exact hlast
  | silent call => cases call <;> rfl
  | _ => rfl

end Exchange

namespace Exchanges

variable {s s' : Stage} {x : Exchange} {xs before after : List Exchange}

/-- An enumerator that is over stays silent. -/
theorem silent (h : Exchanges .ended xs s') : ∀ x ∈ xs, x.steps = [] ∧ x.reply = .silent := by
  generalize hs : Stage.ended = s at h
  induction h with
  | nil => exact fun _ hx => nomatch hx
  | cons hat _ ih =>
    subst hs
    cases hat with
    | moved hopen => exact absurd rfl hopen
    | finished hopen => exact absurd rfl hopen
    | silent call =>
      rintro x (_ | ⟨_, hx⟩)
      · exact ⟨rfl, rfl⟩
      · exact ih rfl x hx

theorem steps_nil (h : Exchanges .ended xs s') : xs.flatMap (·.steps) = [] :=
  List.flatMap_eq_nil_iff.mpr fun x hx => (h.silent x hx).1

/-- Exchanges are cut anywhere. -/
theorem split (h : Exchanges s (before ++ after) s') : ∃ m, Exchanges s before m ∧ Exchanges m after s' := by
  induction before generalizing s with
  | nil => exact ⟨s, .nil s, h⟩
  | cons x before ih =>
    obtain _ | ⟨hx, h⟩ := h
    obtain ⟨m, hbefore, hafter⟩ := ih h
    exact ⟨m, .cons hx hbefore, hafter⟩

/-- Exchanges that did not finish the enumerator leave it running, unless there were none at all. -/
theorem running (h : Exchanges s xs s') (hxs : ∀ x ∈ xs, x.finishes = false) :
    s' = if xs.isEmpty then s else .running := by
  induction h with
  | nil => rfl
  | @cons s s' s'' x xs hx _ ih =>
    have hlive := hx.ended.symm.trans (hxs x List.mem_cons_self)
    have hs' : s' = .running := by
      cases hx with
      | moved => rfl
      | _ => exact absurd hlive (by decide)
    rw [ih fun y hy => hxs y (List.mem_cons_of_mem _ hy), hs']
    cases xs <;> rfl

/-- The calls of the step function: some advances, and perhaps one more call that asks it to leave. -/
theorem shape (h : Exchanges s xs s') (hs : s ≠ .ended) :
    ∃ advances, (∀ x ∈ advances, StepCall.isDispose x = false) ∧
      (xs.flatMap (·.steps) = advances ∨ ∃ err, xs.flatMap (·.steps) = advances ++ [.dispose err] ∧
        (s = .new → advances ≠ []) ∧ ∀ x ∈ advances, StepCall.isLast x = false) := by
  induction h with
  | nil => exact ⟨[], (nomatch ·, ·), .inl rfl⟩
  | cons hx hxs ih =>
    cases hx with
    | @moved _ ok err element _ hlast =>
      obtain ⟨advances, hadvances, hshape⟩ := ih (by decide)
      refine ⟨.advance ok err element :: advances, List.forall_mem_cons.mpr ⟨rfl, hadvances⟩, ?_⟩
      obtain hsteps | ⟨e, hsteps, -, hlive⟩ := hshape
      · exact .inl (congrArg (_ :: ·) hsteps)
      · exact .inr ⟨e, congrArg (_ :: ·) hsteps, fun _ => List.cons_ne_nil _ _,
          List.forall_mem_cons.mpr ⟨hlast, hlive⟩⟩
    | @finished _ ok err element =>
      refine ⟨[.advance ok err element], by simp [StepCall.isDispose], .inl ?_⟩
      rw [List.flatMap_cons, hxs.steps_nil]
      rfl
    | abandoned => exact ⟨[], (nomatch ·, ·), .inl hxs.steps_nil⟩
    | left err =>
      refine ⟨[], (nomatch ·, ·), .inr ⟨err, ?_, (nomatch ·), (nomatch ·, ·)⟩⟩
      rw [List.flatMap_cons, hxs.steps_nil]
      rfl
    | silent => exact absurd rfl hs

/-- Nothing comes after the last call of the step function. -/
theorem lasts (h : Exchanges s xs s') : (xs.flatMap (·.steps)).Pairwise fun x _ => x.isLast = false := by
  induction h with
  | nil => exact .nil
  | cons hx hxs ih =>
    rw [List.flatMap_cons]
    cases hx with
    | moved _ hlast => exact .cons (fun _ _ => hlast) ih
    | abandoned => exact ih
    | silent => exact ih
    | _ =>
      rw [hxs.steps_nil]
      exact .cons (nomatch ·, ·) .nil

end Exchanges

/-- How an enumerator drives its step function, for all calls from the first on. -/
structure Protocol (xs : List Exchange) : Prop where
  /-- Some advances and at most one disposal. The disposal comes after at least one advance, and only when no
  advance told the end or an error. -/
  shape : ∃ advances, (∀ x ∈ advances, StepCall.isDispose x = false) ∧
    (xs.flatMap (·.steps) = advances ∨ ∃ err, xs.flatMap (·.steps) = advances ++ [.dispose err] ∧
      advances ≠ [] ∧ ∀ x ∈ advances, StepCall.isLast x = false)
  /-- No call follows one that told the end or an error, or a disposal. -/
  last : (xs.flatMap (·.steps)).Pairwise fun x _ => x.isLast = false
  /-- Once the enumerator is finished there is no current element, and nothing happens any more. -/
  finished : ∀ {before x after}, xs = before ++ x :: after → x.finishes = true →
    x.reply.current = none ∧ ∀ y ∈ after, y.steps = [] ∧ y.reply = .silent
  /-- Before that, each move is one advance, and replies what the step function tells. -/
  moves : ∀ {before x after}, xs = before ++ x :: after → (∀ y ∈ before, y.finishes = false) → x.call = .moveNext →
    ∃ ok err element, x.steps = [.advance ok err element] ∧
      x.reply = ⟨ok, err, if err.isSome || !ok then none else element⟩
  /-- Closing before that is a disposal if there was a move before it, and nothing otherwise. -/
  closes : ∀ {before x after}, xs = before ++ x :: after → (∀ y ∈ before, y.finishes = false) → x.call = .close →
    if before.isEmpty then x.steps = [] ∧ x.reply = .silent
    else ∃ err, x.steps = [.dispose err] ∧ x.reply = ⟨false, err, none⟩

/-- Exchanges from the first on keep the protocol. -/
theorem Exchanges.protocol {xs : List Exchange} {s : Stage} (h : Exchanges .new xs s) : Protocol xs where
  shape := by
    obtain ⟨advances, hadvances, hshape⟩ := h.shape (by decide)
    exact ⟨advances, hadvances, hshape.imp id fun ⟨err, hsteps, hne, hlive⟩ => ⟨err, hsteps, hne rfl, hlive⟩⟩
  last := h.lasts
  finished := by
    rintro before x after rfl hx
    obtain ⟨m, -, _ | ⟨hat, hafter⟩⟩ := h.split
    rw [hat.ended] at hx
    obtain rfl := eq_of_beq hx
    refine ⟨?_, hafter.silent⟩
    cases hat <;> rfl
  moves := by
    rintro before x after rfl hbefore hcall
    obtain ⟨m, hm, _ | ⟨hat, -⟩⟩ := h.split
    -- before the first call the enumerator is new, afterwards it runs
    have hrunning := hm.running hbefore
    cases hat with
    | @moved _ ok err element _ hlast =>
      refine ⟨ok, err, element, rfl, ?_⟩
      rw [if_neg (by simpa [StepCall.isLast] using hlast)]
    | @finished _ ok err element _ hlast =>
      refine ⟨ok, err, element, rfl, ?_⟩
      rw [if_pos (by simpa [StepCall.isLast] using hlast)]
    | silent => split at hrunning <;> cases hrunning
    | _ => cases hcall
  closes := by
    rintro before x after rfl hbefore hcall
    obtain ⟨m, hm, _ | ⟨hat, -⟩⟩ := h.split
    have hrunning := hm.running hbefore
    split at hrunning <;> rename_i hempty
    · rw [if_pos hempty]
      subst hrunning
      cases hat with
      | abandoned => exact ⟨rfl, rfl⟩
      | _ => cases hcall
    · rw [if_neg hempty]
      subst hrunning
      cases hat with
      | left err => exact ⟨err, rfl, rfl⟩
      | _ => cases hcall

/-- A new enumerator is at the first stage. -/
theorem enumerate_fresh {c : Calls} {seq : Value} {w₀ w : World} {en : Nat}
    (h : enumerate c seq w₀ = .ok en w) : ∃ e, Stage.new.Holds en w e := by
  unfold enumerate at h
  obtain ⟨a, w₁, -, h⟩ := bind_eq_ok.mp h
  obtain ⟨o, w₂, -, h⟩ := bind_eq_ok.mp h
  split at h
  · obtain ⟨rs, w₃, -, h⟩ := bind_eq_ok.mp h
    split at h
    · rename_i step _
      rw [bind_of_ok (alloc_eq _ _)] at h
      cases h
      refine ⟨⟨step, w₃.store.size, false, false⟩, World.enumerates_withNew _ _, ?_, fun _ => rfl, fun h => (by cases h), rfl,
        fun _ => World.element_withNew _ _ _ _⟩
      simp [World.withNew]
    · cases h
  · cases h

/-- Whatever its step function does, as long as it leaves the enumerator to its callers, the enumerator drives it
by the protocol, in any order of calls. -/
theorem enumerator_keeps_protocol {c : Calls} {seq : Value} {w₀ w : World} {en : Nat} (calls : List EnumeratorCall)
    (hnew : enumerate c seq w₀ = .ok en w) (hs : Steppable c en w calls.length) :
    ∃ xs w', xs.map (·.call) = calls ∧ calls.mapM (·.perform c en) w = .ok (xs.map (·.reply)) w' ∧
      Driven c en w (xs.flatMap (·.steps)) w' ∧ Protocol xs := by
  obtain ⟨e, hfresh⟩ := enumerate_fresh hnew
  obtain ⟨xs, s, w', hcalls, hexchanges, hends, hdriven⟩ :=
    exchanges_run hs calls hfresh .none (fun _ => (nomatch ·, ·)) (nomatch ·) (by simp)
  exact ⟨xs, w', hcalls, hends, hdriven, hexchanges.protocol⟩

/-! ### Scripted sequences -/

/-- A step of a script returns, and changes no consumer and no object but the slot. -/
theorem stepScript_returns (k : Nat) (dispose : Bool) (t : Ty) (slot : Nat) (w : World) :
    ∃ r w', stepScript k dispose (.pointer t slot) w = .ok r w' ∧ w'.consumers = w.consumers ∧
      ∀ a, a ≠ slot → w'.store[a]? = w.store[a]? := by
  unfold stepScript
  rw [bind_of_ok (show (get : Run World) w = .ok w w from rfl)]
  obtain ⟨id, produced⟩ := w.scriptRuns.getD k (0, 0)
  dsimp only
  cases dispose with
  | true => exact ⟨_, _, rfl, rfl, fun _ _ => rfl⟩
  | false =>
    simp only [Bool.false_eq_true, if_false]
    cases (w.scripts.getD id ⟨[], none, none⟩).elems[produced]? with
    | some v => exact ⟨_, _, rfl, rfl, fun a ha => Array.getElem?_setIfInBounds_ne (Ne.symm ha)⟩
    | none => exact ⟨_, _, rfl, rfl, fun _ _ => rfl⟩

section
variable {m k n en : Nat} {t : Ty} {w w' w₀ : World} {e e₀ : Enumerator} {past : List StepCall}

theorem scriptStep_returns (t : Ty) (m k : Nat) (dispose : Bool) (slot : Nat) (w : World) :
    ∃ ok err w', (Calls.level (m + 1)).call (.func t (.scriptStep k)) [.ofBool dispose, .pointer .current slot] w =
      .ok [.ofBool ok, .ofError err] w' ∧ w'.consumers = w.consumers ∧
      ∀ a, a ≠ slot → w'.store[a]? = w.store[a]? := by
  obtain ⟨⟨ok, err⟩, w', hrun, hkeep⟩ := stepScript_returns k dispose .current slot w
  exact ⟨ok, err, w', bind_of_ok hrun, hkeep⟩

/-- Any call of the step function of a script leaves the enumerator and the consumers alone. -/
theorem scriptStep_keeps {x : StepCall} (hstep : e.step = .func t (.scriptStep k)) (ha : e.slot ≠ en)
    (hx : e.Steps (Calls.level (m + 1)) w x w') :
    w'.consumers = w.consumers ∧ w'.store[en]? = w.store[en]? := by
  unfold Enumerator.Steps at hx
  rw [hstep] at hx
  cases x with
  | advance =>
    obtain ⟨⟨a, b, hcall, -, -⟩, -⟩ := hx
    obtain ⟨ok, err, w₁, hrun, hconsumers, hkeep⟩ := scriptStep_returns t m k false e.slot w
    cases hrun.symm.trans hcall
    exact ⟨hconsumers, hkeep en ha.symm⟩
  | dispose =>
    obtain ⟨a, b, hcall, -⟩ := hx
    obtain ⟨ok, err, w₁, hrun, hconsumers, hkeep⟩ := scriptStep_returns t m k true e.slot w
    cases hrun.symm.trans hcall
    exact ⟨hconsumers, hkeep en ha.symm⟩

/-- However often the step function of a script is called, the enumerator keeps its step function and its slot. -/
theorem Driven.scripted (h : w₀.Enumerates en e₀) (hstep : e₀.step = .func t (.scriptStep k)) (ha : e₀.slot ≠ en)
    (hd : Driven (Calls.level (m + 1)) en w₀ past w) : ∃ started done, w.Enumerates en { e₀ with started, done } := by
  induction hd with
  | none => exact ⟨_, _, h⟩
  | step _ he hx ih =>
    obtain ⟨started, done, hcur⟩ := ih
    obtain rfl := he.eq hcur
    exact ⟨started, done, (scriptStep_keeps hstep ha hx).2.trans hcur⟩
  | flags _ he started done ih =>
    obtain ⟨_, _, hcur⟩ := ih
    obtain rfl := he.eq hcur
    exact ⟨started, done, hcur.withObject_self⟩
  | clear _ _ _ he ih =>
    obtain ⟨started, done, hcur⟩ := ih
    obtain rfl := he.eq hcur
    exact ⟨started, done, hcur.withObject ha⟩

/-- The step function of a script returns from any number of calls. -/
theorem scripted_steppable (h : w₀.Enumerates en e₀) (hstep : e₀.step = .func t (.scriptStep k)) (ha : e₀.slot ≠ en) :
    Steppable (Calls.level (m + 1)) en w₀ n where
  advances {past w e} hd _ _ he := by
    obtain ⟨started, done, hcur⟩ := hd.scripted h hstep ha
    obtain rfl := he.eq hcur
    obtain ⟨ok, err, w', hrun, -, hkeep⟩ := scriptStep_returns t m k false e₀.slot w
    rw [← hstep] at hrun
    exact ⟨ok, _, _, w', ⟨⟨_, _, hrun, rfl, rfl⟩, fun _ => rfl⟩, (hkeep en ha.symm).trans hcur⟩
  disposes {past w e} hd _ _ _ he := by
    obtain ⟨started, done, hcur⟩ := hd.scripted h hstep ha
    obtain rfl := he.eq hcur
    obtain ⟨ok, err, w', hrun, -, hkeep⟩ := scriptStep_returns t m k true e₀.slot w
    rw [← hstep] at hrun
    exact ⟨_, w', ⟨_, _, hrun, rfl⟩, (hkeep en ha.symm).trans hcur⟩

end

/-- A world with one sequence, which is scripted: it has two elements, and leaving it fails. -/
def World.twoElements : World :=
  { store := #[.sequence (.func (.func [] false [.step]) (.script 0))]
    scripts := #[⟨[.ofAny (some (.ofInt 1)), .ofAny (some (.ofInt 2))], none, some (.text .string [])⟩] }

/-- A new enumerator of the scripted sequence. -/
theorem twoElements_enumerates (n : Nat) :
    ∃ w, enumerate (Calls.level (n + 1)) (.pointer .sequence 0) .twoElements = .ok 2 w ∧
      w.Enumerates 2 ⟨.func .step (.scriptStep 0), 1, false, false⟩ := ⟨_, rfl, rfl⟩

theorem enumerator_keeps_protocol_twoElements :
    ∃ w, enumerate (Calls.level 1) (.pointer .sequence 0) .twoElements = .ok 2 w ∧
      ∃ xs w', xs.map Exchange.call = [.moveNext, .close, .moveNext] ∧
        [.moveNext, .close, .moveNext].mapM (EnumeratorCall.perform (Calls.level 1) 2) w =
          .ok (xs.map (·.reply)) w' ∧
        Driven (Calls.level 1) 2 w (xs.flatMap (·.steps)) w' ∧ Protocol xs := by
  obtain ⟨w, hnew, he⟩ := twoElements_enumerates 0
  exact ⟨w, hnew, enumerator_keeps_protocol _ hnew (scripted_steppable he rfl (by decide))⟩

/-! ### A step function that closes its own enumerator -/

/-- Calls of a function that tells the end. -/
def Calls.leaving : Calls := { Calls.empty with call := fun _ _ => return [.ofBool false, .ofError none] }

/-- A factory, and a step function that closes the enumerator which calls it and tells an element all the same. -/
def Calls.selfClosing : Calls :=
  { Calls.empty with
    call := fun f args =>
      match f, args with
      | .func _ (.closure 0), _ => return [.func .step (.closure 1)]
      | _, [.bool _ false, .pointer _ slot] => do
        discard (close .leaving 2)
        setSlot slot (some (.ofInt 1))
        return [.ofBool true, .ofError none]
      | _, _ => return [.ofBool false, .ofError none] }

/-- A world with a sequence of that factory. -/
def World.selfClosing : World := { store := #[.sequence (.func (.func [] false [.step]) (.closure 0))] }

/-- The step function returns wherever its enumerator is. -/
theorem selfClosing_returns {w : World} {e : Enumerator} (h : w.Enumerates 2 e) (dispose : Bool) :
    ∃ a b w', Calls.selfClosing.call (.func .step (.closure 1)) [.ofBool dispose, .pointer .current e.slot] w =
      .ok [a, b] w' := by
  cases dispose with
  | true => exact ⟨_, _, _, rfl⟩
  | false =>
    obtain ⟨r, w', hclose⟩ : ∃ r w', close .leaving 2 w = .ok r w' := by
      unfold close
      rw [bind_of_ok (enumerator_eq h)]
      cases e.done with
      | true => exact ⟨none, w, rfl⟩
      | false => cases hstarted : e.started <;> exact ⟨_, _, rfl⟩
    have hdiscard : (discard (close .leaving 2) : Run Unit) w = .ok () w' := discard_eq_ok.mpr ⟨r, hclose⟩
    exact ⟨_, _, _, bind_of_ok hdiscard⟩

/-- **A step function that closes its own enumerator breaks the protocol.** It returns whenever it is called; but
the first move is answered with an element when the enumeration is over already, and that element stays
current. -/
theorem selfClosing_breaks :
    (∀ (w : World) (e : Enumerator) (dispose : Bool), w.Enumerates 2 e →
      ∃ a b w', Calls.selfClosing.call (.func .step (.closure 1)) [.ofBool dispose, .pointer .current e.slot] w =
        .ok [a, b] w') ∧
    ∃ w, enumerate .selfClosing (.pointer .sequence 0) .selfClosing = .ok 2 w ∧
      ¬∃ xs w', xs.map Exchange.call = [.moveNext, .moveNext] ∧
        [.moveNext, .moveNext].mapM (EnumeratorCall.perform .selfClosing 2) w = .ok (xs.map (·.reply)) w' ∧
        Protocol xs := by
  obtain ⟨w, hnew, v, hends⟩ : ∃ w, enumerate .selfClosing (.pointer .sequence 0) .selfClosing = .ok 2 w ∧
      ∃ v, [.moveNext, .moveNext].mapM (EnumeratorCall.perform .selfClosing 2) w =
        .ok [⟨true, none, some (.ofInt 1)⟩, ⟨false, none, some (.ofInt 1)⟩] v := ⟨_, rfl, _, rfl⟩
  refine ⟨fun w e dispose h => selfClosing_returns h dispose, w, hnew, ?_⟩
  rintro ⟨xs, w', hcalls, hrun, hprotocol⟩
  obtain ⟨x, y, rfl⟩ : ∃ x y, xs = [x, y] := List.length_eq_two.mp (by simpa using congrArg List.length hcalls)
  -- the second move finds nothing more, and the element of the first one is still there
  obtain ⟨hreplies, -⟩ := EStateM.Result.ok.inj (hends.symm.trans hrun)
  have hreply : y.reply = ⟨false, none, some (.ofInt 1)⟩ := (List.cons.inj (List.cons.inj hreplies).2).1.symm
  have hsplit : [x, y] = [x] ++ y :: [] := rfl
  have hnone := (hprotocol.finished hsplit (by simp [Exchange.finishes, hreply])).1
  rw [hreply] at hnone
  cases hnone

end Resumable
