import Resumable.Proofs.Ending
import Resumable.Proofs.Enumerating

/-!
# `Proofs.Draining`: giving the elements of a sequence to a consumer

What a step function answers while it is called by one enumerator makes up a series of elements, with an end. A
consumer that is given the elements one after the other may want more, have enough, or not return; what the step
function answers and what the consumer does may depend on one another in any way. Ranging over a sequence gives the
consumer the elements until something else comes, and then the enumerator is closed: the step function is asked to
leave once when the enumeration is left early, and not at all when it ends by itself.

**Contents**
* `Series`, `Series.Has`: the answers of a step function, and how many elements there are.
* `Reaction`, `Fed`: consumers, and histories of calls of a step function and a consumer.
* `Series.Follows`, `Reacts`: what a step function and a consumer do in such a history.
* `Series.Stands.moves`, `takes`, `leaves` and so on: the parts of a turn.
* `Series.Finale`, `all_ends`: how ranging over a sequence ends.
-/

namespace Resumable

open Run

/-! ### Series -/

/-- What a step function answers: to its `k`-th call whether there is an element, the error, and the element; and
to being asked to leave after `k` calls, the error. Values stand here outside of interfaces. -/
structure Series where
  ok : Nat → Bool
  err : Nat → Option Value
  element : Nat → Option Value
  leaving : Nat → Option Value
  bare : ∀ {k v}, err k = some v ∨ element k = some v ∨ leaving k = some v → v.content = some v

/-- What a consumer is given: an element or nil, and an error or nil. -/
abbrev Pair := Option Value × Option Value

/-- The arguments that a consumer is called with. -/
def Pair.args (p : Pair) : List Value := [.ofAny p.1, .ofError p.2]

namespace Series

/-- The `k`-th call of the step function. -/
def advance (K : Series) (k : Nat) : StepCall := .advance (K.ok k) (K.err k) (K.element k)

/-- There are at least `k` elements. -/
def Live (K : Series) (k : Nat) : Prop := ∀ i < k, (K.advance i).isLast = false

/-- How many elements there are, which may be infinitely many. -/
def Has (K : Series) (n : ℕ∞) : Prop := ∀ k : Nat, K.Live k ↔ (k : ℕ∞) ≤ n

/-- The first `k` calls of the step function. -/
def steps (K : Series) (k : Nat) : List StepCall := (List.range k).map K.advance

/-- The first `k` elements, each without an error. -/
def pairs (K : Series) (k : Nat) : List Pair := (List.range k).map fun i => (K.element i, none)

/-- The first `k` elements, in a list of any elements. -/
def elements (K : Series) (k : Nat) : List Value := (List.range k).map fun i => .ofAny (K.element i)

variable {K : Series} {k n : Nat}

theorem steps_succ (K : Series) (k : Nat) : K.steps (k + 1) = K.steps k ++ [K.advance k] := by
  simp [steps, List.range_succ]

theorem pairs_succ (K : Series) (k : Nat) : K.pairs (k + 1) = K.pairs k ++ [(K.element k, none)] := by
  simp [pairs, List.range_succ]

theorem elements_succ (K : Series) (k : Nat) : K.elements (k + 1) = K.elements k ++ [.ofAny (K.element k)] := by
  simp [elements, List.range_succ]

@[simp] theorem length_steps : (K.steps k).length = k := by simp [steps]

@[simp] theorem length_pairs : (K.pairs k).length = k := by simp [pairs]

theorem Live.steps (h : K.Live k) : ∀ x ∈ K.steps k, x.isLast = false := by
  simpa [Series.steps, Live] using h

theorem Live.mono (h : K.Live n) (hk : k ≤ n) : K.Live k := fun i hi => h i (by omega)

theorem live_succ : K.Live (k + 1) ↔ K.Live k ∧ (K.advance k).isLast = false := by
  constructor
  · exact fun h => ⟨h.mono (by omega), h k (by omega)⟩
  · rintro ⟨h, hk⟩ i hi
    obtain rfl | hi := Nat.lt_succ_iff_lt_or_eq.mp hi |>.symm
    · exact hk
    · exact h i hi

end Series

/-! ### Consumers -/

/-- What comes of giving a consumer something: it wants more, it has enough, or it does not return. -/
inductive Reaction where
  | more
  | enough
  | stops (s : Stop) (hs : s ≠ .exhausted)

/-- A call of a consumer came to a reaction, and left a world. -/
def Reaction.Came (r : Reaction) (x : EStateM.Result Stop World (List Value)) (w : World) : Prop :=
  match r with
  | .more => ∃ rs, x = .ok rs w ∧ (rs.headD (.ofBool false)).asBool = true
  | .enough => ∃ rs, x = .ok rs w ∧ (rs.headD (.ofBool false)).asBool = false
  | .stops s _ => x = .error s w

/-- How a computation ends that does nothing after it gave a consumer something. -/
def Reaction.outcome : Reaction → Except Stop Unit
  | .stops s _ => .error s
  | _ => .ok ()

/-- How a computation ends that leaves an enumeration for good: an error of leaving is a panic. -/
def panicking : Option Value → Except Stop Unit
  | some v => .error (.panic (.error v))
  | none => .ok ()

/-- What a consumer is given after a call of the step function. -/
def StepCall.pair? : StepCall → Option Pair
  | .advance ok err element => if err.isSome then some (none, err) else if ok then some (element, none) else none
  | .dispose _ => none

/-- What is to be given to a consumer that was given everything up to the last call of the step function. -/
def due (past : List StepCall) (given : List Pair) : Option Pair :=
  if given.length + 1 = past.length then past.getLast?.bind StepCall.pair? else none

/-- Calls of the step function of an enumerator, and of a consumer if there is one, lead from one world to another.
A consumer is given each element before the step function is called again. In between, only the flags of the
enumerator are changed, and its slot is emptied when the enumeration is over. -/
inductive Fed (c : Calls) (en : Nat) (consumer : Option Value) (w₀ : World) :
    List StepCall → List Pair → World → Prop
  | none : Fed c en consumer w₀ [] [] w₀
  | step {past : List StepCall} {given : List Pair} {w w' : World} {e : Enumerator} {x : StepCall}
      (h : Fed c en consumer w₀ past given w) (hgiven : consumer.isSome → given.length = past.length)
      (he : w.Enumerates en e) (hx : e.Steps c w x w') : Fed c en consumer w₀ (past ++ [x]) given w'
  | take {past : List StepCall} {given : List Pair} {w : World} {p : Pair} {yield : Value}
      (h : Fed c en consumer w₀ past given w) (hyield : consumer = some yield) (hp : due past given = some p) :
      Fed c en consumer w₀ past (given ++ [p]) ((c.call yield p.args).left w)
  | flags {past : List StepCall} {given : List Pair} {w : World} {e : Enumerator}
      (h : Fed c en consumer w₀ past given w) (he : w.Enumerates en e) (started done : Bool) :
      Fed c en consumer w₀ past given (w.withObject en (.enumerator { e with started, done }))
  | clear {past : List StepCall} {given : List Pair} {w : World} {e : Enumerator} {x : StepCall}
      (h : Fed c en consumer w₀ past given w) (hx : x ∈ past) (hlast : x.isLast = true) (he : w.Enumerates en e) :
      Fed c en consumer w₀ past given (w.withoutElement e.slot)

/-- The step function of an enumerator takes a series while the consumer is given it, and leaves the enumerator to
those who call it. -/
structure Series.Follows (K : Series) (c : Calls) (en : Nat) (consumer : Option Value) (w₀ : World) : Prop where
  advances : ∀ {past given w e}, Fed c en consumer w₀ past given w → (∀ x ∈ past, x.isLast = false) →
    (consumer.isSome → given.length = past.length) → w.Enumerates en e →
    ∃ w', e.Steps c w (K.advance past.length) w' ∧ w'.Enumerates en e
  disposes : ∀ {past given w e}, Fed c en consumer w₀ past given w → (∀ x ∈ past, x.isLast = false) → past ≠ [] →
    (consumer.isSome → given.length = past.length) → w.Enumerates en e →
    ∃ w', e.Steps c w (.dispose (K.leaving past.length)) w' ∧ w'.Enumerates en e

/-- A consumer wanted more each time. -/
def Hungry (react : List Pair → Reaction) (given : List Pair) : Prop :=
  ∀ i < given.length, react (given.take (i + 1)) = .more

/-- A consumer reacts to all that it was given so far, as long as it wanted more, and leaves the enumerator alone. -/
def Reacts (react : List Pair → Reaction) (c : Calls) (en : Nat) (yield : Value) (w₀ : World) : Prop :=
  ∀ {past given w e p}, Fed c en (some yield) w₀ past given w → due past given = some p → Hungry react given →
    w.Enumerates en e → ∃ w', (react (given ++ [p])).Came (c.call yield p.args w) w' ∧ w'.Enumerates en e

/-! ### One turn -/

/-- One turn of giving a consumer the elements of an enumeration. -/
def servePair (c : Calls) (en : Nat) (yield : Value) : Run (Unit ⊕ Unit) := do
  let (ok, err) ← moveNext c en
  if err.isSome then
    discard (c.call yield [.ofAny none, .ofError err])
    return .inr ()
  if !ok then return .inr ()
  let more ← c.call yield [.ofAny (← currentOf en), .ofError none]
  if (more.headD (.ofBool false)).asBool then return .inl ()
  closeOrPanic c en
  return .inr ()

theorem feedPairs_eq (c : Calls) (en : Nat) (yield : Value) :
    feedPairs c en yield = iterate (fun _ => servePair c en yield) c.turns () := rfl

/-- An enumeration stands like this after `k` turns that did not finish it. -/
structure Series.Stands (K : Series) (c : Calls) (en : Nat) (consumer : Option Value) (w₀ : World) (k : Nat)
    (given : List Pair) (w : World) : Prop where
  live : K.Live k
  fed : Fed c en consumer w₀ (K.steps k) given w
  holds : ∃ e, (if k = 0 then Stage.new else .running).Holds en w e

/-- An enumeration is finished, and the step function was called like this. -/
structure Over (c : Calls) (en : Nat) (consumer : Option Value) (w₀ : World) (past : List StepCall)
    (given : List Pair) (w : World) : Prop where
  fed : Fed c en consumer w₀ past given w
  holds : ∃ e, w.Enumerates en e ∧ e.done = true

section
variable {K : Series} {react : List Pair → Reaction} {c : Calls} {en k : Nat} {consumer : Option Value}
  {yield : Value} {w w₀ : World} {given : List Pair} {p : Pair}

namespace Series.Stands

/-- The step function has another element. -/
theorem moves (h : K.Stands c en consumer w₀ k given w) (hK : K.Follows c en consumer w₀)
    (hgiven : consumer.isSome → given.length = k) (hlast : (K.advance k).isLast = false) :
    ∃ w', moveNext c en w = .ok (K.ok k, K.err k) w' ∧ currentOf en w' = .ok (K.element k) w' ∧
      K.Stands c en consumer w₀ (k + 1) given w' := by
  obtain ⟨hlive, hfed, e, he⟩ := h
  have hopen : (if k = 0 then Stage.new else .running) ≠ .ended := by split <;> decide
  have hfed := hfed.flags he.enumerates true e.done
  rw [← Series.length_steps (K := K) (k := k)] at hgiven
  obtain ⟨w', hstep, he'⟩ := hK.advances hfed hlive.steps hgiven he.begun
  rw [Series.length_steps] at hstep
  have hfed := hfed.step hgiven he.begun hstep
  rw [← Series.steps_succ] at hfed
  obtain ⟨hmove, hrunning⟩ := he.moves hopen hstep hlast he'
  have helement : w'.element e.begun.slot = K.element k := hstep.2 hlast
  exact ⟨w', hmove, helement ▸ currentOf_eq he', Series.live_succ.mpr ⟨hlive, hlast⟩, hfed, _, hrunning⟩

/-- The step function tells the end or an error. -/
theorem finishes (h : K.Stands c en consumer w₀ k given w) (hK : K.Follows c en consumer w₀)
    (hgiven : consumer.isSome → given.length = k) (hlast : (K.advance k).isLast = true) :
    ∃ w', moveNext c en w = .ok (K.ok k, K.err k) w' ∧ Over c en consumer w₀ (K.steps (k + 1)) given w' := by
  obtain ⟨hlive, hfed, e, he⟩ := h
  have hopen : (if k = 0 then Stage.new else .running) ≠ .ended := by split <;> decide
  have hfed := hfed.flags he.enumerates true e.done
  rw [← Series.length_steps (K := K) (k := k)] at hgiven
  obtain ⟨w', hstep, he'⟩ := hK.advances hfed hlive.steps hgiven he.begun
  rw [Series.length_steps] at hstep
  have hfed := hfed.step hgiven he.begun hstep
  rw [← Series.steps_succ] at hfed
  obtain ⟨hmove, hended⟩ := he.finishes hopen hstep hlast he'
  have hfed := (hfed.flags he' true true).clear (by simp [Series.steps_succ]) hlast he'.withObject_self
  exact ⟨_, hmove, hfed, _, hended.enumerates, hended.done⟩

/-- An enumeration that had an element is left through its step function. -/
theorem leaves (h : K.Stands c en consumer w₀ (k + 1) given w) (hK : K.Follows c en consumer w₀)
    (hgiven : consumer.isSome → given.length = k + 1) :
    ∃ w', close c en w = .ok (K.leaving (k + 1)) w' ∧
      Over c en consumer w₀ (K.steps (k + 1) ++ [.dispose (K.leaving (k + 1))]) given w' := by
  obtain ⟨hlive, hfed, e, he⟩ := h
  have hfed := hfed.flags he.enumerates e.started true
  have hne : K.steps (k + 1) ≠ [] := by simp [Series.steps_succ]
  rw [← Series.length_steps (K := K) (k := k + 1)] at hgiven
  obtain ⟨w', hstep, he'⟩ := hK.disposes hfed hlive.steps hne hgiven he.closed
  rw [Series.length_steps] at hstep
  obtain ⟨hclose, hended⟩ := he.leaves hstep he'
  have hfed := (hfed.step hgiven he.closed hstep).clear List.mem_concat_self rfl he'
  exact ⟨_, hclose, hfed, _, hended.enumerates, hended.done⟩

end Series.Stands

theorem hungry_pairs {react : List Pair → Reaction} {K : Series} {n : Nat} :
    Hungry react (K.pairs n) ↔ ∀ i < n, react (K.pairs (i + 1)) = .more := by
  have htake : ∀ i < n, (K.pairs n).take (i + 1) = K.pairs (i + 1) := fun i hi => by
    simp only [Series.pairs, ← List.map_take, List.take_range]
    rw [min_eq_left (by omega)]
  unfold Hungry
  rw [Series.length_pairs]
  exact forall₂_congr fun i hi => by rw [htake i hi]

theorem Reaction.Came.left {r : Reaction} {x : Run (List Value)} {w' : World} (h : r.Came (x w) w') :
    x.left w = w' := by
  cases r with
  | stops => exact left_error h
  | _ => obtain ⟨rs, hrs, -⟩ := h; exact left_ok hrs

theorem Reaction.Came.discard {r : Reaction} {x : Run (List Value)} {w' : World} (h : r.Came (x w) w') :
    attempt (discard x : Run Unit) w = .ok r.outcome w' := by
  cases r with
  | stops => exact attempt_of_error (bind_of_error h)
  | _ => obtain ⟨rs, hrs, -⟩ := h; exact attempt_of_ok (discard_eq_ok.mpr ⟨rs, hrs⟩)

theorem Reaction.outcome_returns (r : Reaction) : r.outcome ≠ .error .exhausted := by
  cases r with
  | stops s hs => exact fun h => hs (Except.error.inj h)
  | _ => nofun

theorem panicking_returns (err : Option Value) : panicking err ≠ .error .exhausted := by
  cases err <;> nofun

theorem closeOrPanic_eq {err : Option Value} {w' : World} (h : close c en w = .ok err w') :
    attempt (closeOrPanic c en) w = .ok (panicking err) w' := by
  unfold closeOrPanic
  cases err with
  | none => exact attempt_of_ok (bind_of_ok h)
  | some v => exact attempt_of_error (bind_of_ok h)

theorem Series.due_steps (hgiven : given.length = k) : due (K.steps (k + 1)) given = (K.advance k).pair? := by
  unfold due
  rw [if_pos (by simp [hgiven]), Series.steps_succ, List.getLast?_concat]
  rfl

/-- A consumer is given something while the enumeration is not finished. -/
theorem Series.Stands.takes (h : K.Stands c en (some yield) w₀ (k + 1) given w) (hr : Reacts react c en yield w₀)
    (hgiven : Hungry react given) (hp : due (K.steps (k + 1)) given = some p) :
    ∃ w', (react (given ++ [p])).Came (c.call yield p.args w) w' ∧
      K.Stands c en (some yield) w₀ (k + 1) (given ++ [p]) w' := by
  obtain ⟨hlive, hfed, e, he⟩ := h
  obtain ⟨w', hcame, he'⟩ := hr hfed hp hgiven he.enumerates
  have hfed := hfed.take rfl hp
  rw [hcame.left] at hfed
  exact ⟨w', hcame, hlive, hfed, e, he', he.apart, (nomatch ·), he.running, he.done, (absurd rfl ·)⟩

namespace Over

variable {past : List StepCall}

/-- A consumer is given something when the enumeration is finished. -/
theorem takes (h : Over c en (some yield) w₀ past given w) (hr : Reacts react c en yield w₀)
    (hgiven : Hungry react given) (hp : due past given = some p) :
    ∃ w', (react (given ++ [p])).Came (c.call yield p.args w) w' ∧
      Over c en (some yield) w₀ past (given ++ [p]) w' := by
  obtain ⟨hfed, e, he, hdone⟩ := h
  obtain ⟨w', hcame, he'⟩ := hr hfed hp hgiven he
  have hfed := hfed.take rfl hp
  rw [hcame.left] at hfed
  exact ⟨w', hcame, hfed, e, he', hdone⟩

/-- A finished enumeration is closed without a call of the step function. -/
theorem closes (h : Over c en consumer w₀ past given w) : close c en w = .ok none w := by
  obtain ⟨-, e, he, hdone⟩ := h
  unfold close
  rw [bind_of_ok (enumerator_eq he), if_pos hdone]
  rfl

end Over

end

/-! ### Giving all elements to a consumer -/

/-- How giving a consumer the elements ends, where something else comes in place of the element after the first `n`
than an element after which the consumer wants more: the calls of the step function, what the consumer was given,
and how the computation ends. -/
inductive Series.Finale (K : Series) (react : List Pair → Reaction) (n : Nat) :
    List StepCall → List Pair → Except Stop Unit → Prop
  /-- There are no more elements. -/
  | drained (hlast : (K.advance n).isLast = true) (herr : K.err n = none) :
      Finale K react n (K.steps (n + 1)) (K.pairs n) (.ok ())
  /-- An error ends the elements. The consumer is given it, and may not return. -/
  | failed {v : Value} (herr : K.err n = some v) :
      Finale K react n (K.steps (n + 1)) (K.pairs n ++ [(none, some v)])
        (react (K.pairs n ++ [(none, some v)])).outcome
  /-- The consumer has enough. An error of leaving is a panic. -/
  | stopped (hlast : (K.advance n).isLast = false) (hr : react (K.pairs (n + 1)) = .enough) :
      Finale K react n (K.steps (n + 1) ++ [.dispose (K.leaving (n + 1))]) (K.pairs (n + 1))
        (panicking (K.leaving (n + 1)))
  /-- The consumer does not return. An error of leaving is dropped. -/
  | thrown {s : Stop} {hs : s ≠ .exhausted} (hlast : (K.advance n).isLast = false)
      (hr : react (K.pairs (n + 1)) = .stops s hs) :
      Finale K react n (K.steps (n + 1) ++ [.dispose (K.leaving (n + 1))]) (K.pairs (n + 1)) (.error s)

section
variable {K : Series} {react : List Pair → Reaction} {c : Calls} {en k n : Nat} {yield : Value} {w w₀ : World}

/-- The consumer is given one more element. -/
theorem servePair_element (h : K.Stands c en (some yield) w₀ k (K.pairs k) w) (hK : K.Follows c en (some yield) w₀)
    (hr : Reacts react c en yield w₀) (hgiven : Hungry react (K.pairs k)) (hlast : (K.advance k).isLast = false) :
    ∃ x w₁ w', servePair c en yield w = ((do
        if (List.headD (← x) (.ofBool false)).asBool then return .inl ()
        closeOrPanic c en
        return .inr () : Run (Unit ⊕ Unit)) w₁) ∧
      (react (K.pairs (k + 1))).Came (x w₁) w' ∧ K.Stands c en (some yield) w₀ (k + 1) (K.pairs (k + 1)) w' := by
  obtain ⟨w₁, hmove, hcurrent, h₁⟩ := h.moves hK (fun _ => Series.length_pairs) hlast
  have hno : (K.err k).isSome = false ∧ K.ok k = true := by
    simpa [Series.advance, StepCall.isLast] using hlast
  have hdue : due (K.steps (k + 1)) (K.pairs k) = some (K.element k, none) := by
    rw [Series.due_steps Series.length_pairs]
    simp [Series.advance, StepCall.pair?, hno]
  obtain ⟨w', hcame, h'⟩ := h₁.takes hr hgiven hdue
  rw [← Series.pairs_succ] at hcame h'
  refine ⟨c.call yield [.ofAny (K.element k), .ofError none], w₁, w', ?_, hcame, h'⟩
  unfold servePair
  rw [bind_of_ok hmove]
  dsimp only
  rw [if_neg (by simp [hno.1]), if_neg (by simp [hno.2]), bind_of_ok hcurrent]

/-- A turn after which the consumer wants more. -/
theorem servePair_more (h : K.Stands c en (some yield) w₀ k (K.pairs k) w) (hK : K.Follows c en (some yield) w₀)
    (hr : Reacts react c en yield w₀) (hgiven : Hungry react (K.pairs k)) (hlast : (K.advance k).isLast = false)
    (hmore : react (K.pairs (k + 1)) = .more) :
    ∃ w', servePair c en yield w = .ok (.inl ()) w' ∧ K.Stands c en (some yield) w₀ (k + 1) (K.pairs (k + 1)) w' := by
  obtain ⟨x, w₁, w', heq, hcame, h'⟩ := servePair_element h hK hr hgiven hlast
  rw [hmore] at hcame
  obtain ⟨rs, hcall, hrs⟩ := hcame
  refine ⟨w', ?_, h'⟩
  rw [heq, bind_of_ok hcall, if_pos hrs]
  rfl

/-- A computation ended with an outcome, and the enumerator was or can be closed, as in this finale. -/
structure Series.Closing (K : Series) (react : List Pair → Reaction) (c : Calls) (en : Nat) (yield : Value)
    (w₀ : World) (n : Nat) (r : Except Stop Unit) (w : World) : Prop where
  returns : r ≠ .error .exhausted
  closes : ∃ err w' past given, close c en w = .ok err w' ∧ Over c en (some yield) w₀ past given w' ∧
    K.Finale react n past given r

/-- What is done before a turn ends decides how it ends. -/
theorem attempt_then {x : Run Unit} {r : Except Stop Unit} {w' : World} (h : attempt x w = .ok r w') :
    attempt (x >>= fun _ => pure (Sum.inr ()) : Run (Unit ⊕ Unit)) w = .ok (r.map .inr) w' := by
  unfold attempt at h
  cases hx : x w with
  | ok a v =>
    rw [hx] at h
    cases h
    exact attempt_of_ok (bind_of_ok hx)
  | error s v =>
    rw [hx] at h
    cases h
    exact attempt_of_error (bind_of_error hx)

/-- The turn after the last element. -/
theorem servePair_finished (h : K.Stands c en (some yield) w₀ n (K.pairs n) w) (hK : K.Follows c en (some yield) w₀)
    (hr : Reacts react c en yield w₀) (hgiven : Hungry react (K.pairs n)) (hlast : (K.advance n).isLast = true) :
    ∃ r w', attempt (servePair c en yield) w = .ok (r.map .inr) w' ∧ K.Closing react c en yield w₀ n r w' := by
  obtain ⟨w₁, hmove, h₁⟩ := h.finishes hK (fun _ => Series.length_pairs) hlast
  unfold servePair
  cases herr : K.err n with
  | none =>
    rw [herr] at hmove
    have hok : K.ok n = false := by simpa [Series.advance, StepCall.isLast, herr] using hlast
    refine ⟨.ok (), w₁, attempt_of_ok ?_, fun h => (by cases h), none, w₁, _, _, h₁.closes, h₁, .drained hlast herr⟩
    rw [bind_of_ok hmove, hok]
    rfl
  | some v =>
    rw [herr] at hmove
    have hdue : due (K.steps (n + 1)) (K.pairs n) = some (none, some v) := by
      rw [Series.due_steps Series.length_pairs]
      simp [Series.advance, StepCall.pair?, herr]
    obtain ⟨w', hcame, h'⟩ := h₁.takes hr hgiven hdue
    refine ⟨_, w', ?_, Reaction.outcome_returns _, none, w', _, _, h'.closes, h', .failed herr⟩
    have hgive := attempt_then hcame.discard
    unfold attempt at hgive ⊢
    rwa [bind_of_ok hmove]

/-- The turn with an element after which the consumer does not want more. -/
theorem servePair_refused (h : K.Stands c en (some yield) w₀ n (K.pairs n) w) (hK : K.Follows c en (some yield) w₀)
    (hr : Reacts react c en yield w₀) (hgiven : Hungry react (K.pairs n)) (hlast : (K.advance n).isLast = false)
    (hmore : react (K.pairs (n + 1)) ≠ .more) :
    ∃ r w', attempt (servePair c en yield) w = .ok (r.map .inr) w' ∧ K.Closing react c en yield w₀ n r w' := by
  obtain ⟨x, w₁, w₂, heq, hcame, h₂⟩ := servePair_element h hK hr hgiven hlast
  obtain ⟨w', hclose, h'⟩ := h₂.leaves hK (fun _ => Series.length_pairs)
  unfold attempt
  rw [heq]
  cases hreact : react (K.pairs (n + 1)) with
  | more => exact absurd hreact hmore
  | enough =>
    rw [hreact] at hcame
    obtain ⟨rs, hcall, hrs⟩ := hcame
    rw [bind_of_ok hcall, if_neg (by rw [hrs]; decide)]
    exact ⟨_, w', attempt_then (closeOrPanic_eq hclose), panicking_returns _, none, w', _, _, h'.closes, h',
      .stopped hlast hreact⟩
  | stops s hs =>
    rw [hreact] at hcame
    rw [bind_of_error hcame]
    exact ⟨.error s, w₂, rfl, fun h => hs (Except.error.inj h), _, w', _, _, hclose, h', .thrown hlast hreact⟩

/-- Nothing else than elements after which the consumer wants more comes before the `n`-th turn, and something
else comes then. -/
structure Series.StopsAt (K : Series) (react : List Pair → Reaction) (n : Nat) : Prop where
  live : K.Live n
  hungry : Hungry react (K.pairs n)
  ends : (K.advance n).isLast = true ∨ react (K.pairs (n + 1)) ≠ .more

/-- A first step that ends the loop ends it with the same result. -/
theorem attempt_iterate {step : Unit → Run (Unit ⊕ Unit)} {r : Except Stop Unit} {w' : World} {m : Nat}
    (h : attempt (step ()) w = .ok (r.map .inr) w') : attempt (iterate step (m + 1) ()) w = .ok r w' := by
  rw [iterate_succ]
  unfold attempt at h
  cases hx : step () w with
  | ok a v =>
    rw [hx] at h
    cases r with
    | ok u =>
      cases h
      exact attempt_of_ok (bind_of_ok hx)
    | error s => cases h
  | error s v =>
    rw [hx] at h
    cases r with
    | ok u => cases h
    | error s =>
      cases h
      exact attempt_of_error (bind_of_error hx)

/-- All turns. -/
theorem feedPairs_ends (hstop : K.StopsAt react n) (hK : K.Follows c en (some yield) w₀)
    (hr : Reacts react c en yield w₀) {m : Nat} (hk : k ≤ n) (hm : n < k + m) (h : K.Stands c en (some yield) w₀ k (K.pairs k) w) :
    ∃ r w', attempt (iterate (fun _ => servePair c en yield) m ()) w = .ok r w' ∧
      K.Closing react c en yield w₀ n r w' := by
  induction m generalizing k w with
  | zero => omega
  | succ m ih =>
    have hgiven : Hungry react (K.pairs k) :=
      hungry_pairs.mpr fun i hi => hungry_pairs.mp hstop.hungry i (by omega)
    obtain rfl | hlt := Nat.eq_or_lt_of_le hk
    · -- the last turn
      have hturn : ∃ r w', attempt (servePair c en yield) w = .ok (r.map .inr) w' ∧
          K.Closing react c en yield w₀ k r w' := by
        cases hlast : (K.advance k).isLast with
        | true => exact servePair_finished h hK hr hgiven hlast
        | false => exact servePair_refused h hK hr hgiven hlast (hstop.ends.resolve_left (by simp [hlast]))
      obtain ⟨r, w', hturn, hclosing⟩ := hturn
      exact ⟨r, w', attempt_iterate hturn, hclosing⟩
    · have hlast : (K.advance k).isLast = false := hstop.live k hlt
      have hmore := hungry_pairs.mp hstop.hungry k hlt
      obtain ⟨w', hturn, h'⟩ := servePair_more h hK hr hgiven hlast hmore
      obtain ⟨r, w'', hrest, hclosing⟩ := ih hlt (by omega) h'
      refine ⟨r, w'', ?_, hclosing⟩
      rw [← hrest]
      unfold attempt
      rw [iterate_succ, bind_of_ok hturn]
      rfl

/-- A sequence takes a series, and these are the enumerator and the world of an enumeration of it that has just
begun. -/
structure Series.Starts (K : Series) (c : Calls) (seq : Value) (consumer : Option Value) (w₀ : World) (en : Nat)
    (w : World) : Prop where
  enumerates : enumerate c seq w₀ = .ok en w
  follows : K.Follows c en consumer w

theorem Series.Starts.stands {seq : Value} {consumer : Option Value} (h : K.Starts c seq consumer w₀ en w) :
    K.Stands c en consumer w 0 [] w :=
  ⟨fun _ hi => absurd hi (by omega), .none, enumerate_fresh h.enumerates⟩

/-- Ranging over a sequence: the consumer is given the elements until something else comes, and the enumerator is
closed. -/
theorem all_ends {seq : Value} (h : K.Starts c seq (some yield) w₀ en w) (hr : Reacts react c en yield w)
    (hstop : K.StopsAt react n) (hn : n < c.turns) :
    ∃ r w' past given, attempt (all c seq yield) w₀ = .ok r w' ∧ Over c en (some yield) w past given w' ∧
      K.Finale react n past given r := by
  have hturns : n < 0 + c.turns := by omega
  obtain ⟨r, w₁, hfeed, hreturns, err, w', past, given, hclose, hover, hfinale⟩ :=
    feedPairs_ends hstop h.follows hr (Nat.zero_le n) hturns h.stands
  rw [← feedPairs_eq] at hfeed
  refine ⟨r, w', past, given, ?_, hover, hfinale⟩
  have hdiscard : (discard (close c en) : Run Unit) w₁ = .ok () w' := discard_eq_ok.mpr ⟨_, hclose⟩
  have hall : all c seq yield w₀ = settleOn r w' := by
    unfold all
    rw [bind_of_ok h.enumerates, bind_of_ok hfeed]
    split
    · exact absurd rfl hreturns
    · exact bind_of_ok hdiscard
  cases r with
  | ok u => exact attempt_of_ok hall
  | error s => exact attempt_of_error hall

end

end Resumable
