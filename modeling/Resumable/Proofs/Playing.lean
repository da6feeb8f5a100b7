import Resumable.Proofs.Draining

/-!
# `Proofs.Playing`: the series of a script

A scripted sequence has given elements, a given error after them and a given error of leaving. Its step function
counts the elements it was asked for, and nothing that a consumer does changes the count. So it takes the series
of its script, whoever is given the elements.

**Contents**
* `Script.series`: the series of a script.
* `stepScript_eq`, `Script.stands`: a step of a script, and how a scripted enumeration stands.
* `scripted_follows`: a scripted sequence takes the series of its script.
* `feedConsumer_left`, `consumer_spectates`: consumers leave scripts alone.
* `scripted_more`, `scripted_wanting`: consumers that want everything, or a number of pairs.
-/

namespace Resumable

open Run

/-! ### Scripted sequences -/

/-- The values in a script stand outside of interfaces. -/
structure Script.Bare (s : Script) : Prop where
  elems : ∀ {v u}, v ∈ s.elems → v.content = some u → u.content = some u
  fail : ∀ {u}, s.fail = some u → u.content = some u
  leaving : ∀ {u}, s.disposeErr = some u → u.content = some u

theorem Script.Bare.element {s : Script} (hs : s.Bare) (i : Nat) :
    (s.elems[i]?.bind Value.content).bind Value.content = s.elems[i]?.bind Value.content := by
  cases hi : s.elems[i]? with
  | none => rfl
  | some v =>
    cases hv : v.content with
    | none => simp [hv]
    | some u => simp [hv, hs.elems (List.mem_of_getElem? hi) hv]

/-- The series that a scripted sequence takes. -/
def Script.series (s : Script) (hs : s.Bare) : Series where
  ok k := k < s.elems.length
  err k := if k < s.elems.length then none else s.fail
  element k := s.elems[k]?.bind Value.content
  leaving _ := s.disposeErr
  bare {k v} h := by
    obtain h | h | h := h
    · split at h
      · cases h
      · exact hs.fail h
    · obtain ⟨u, hu, hv⟩ := Option.bind_eq_some_iff.mp h
      exact hs.elems (List.mem_of_getElem? hu) hv
    · exact hs.leaving h

/-- How a script is played: which one, how many elements there were, and where the next one is put. -/
structure World.Plays (w : World) (s : Script) (k slot : Nat) (i : Nat) : Prop where
  run : ∃ d, w.scriptRuns[k]? = some (d, i) ∧ w.scripts[d]? = some s
  slot : slot < w.store.size

/-- What was put into a slot. -/
theorem World.element_filled {w : World} {slot : Nat} (h : slot < w.store.size) (v : Option Value) :
    (w.withObject slot (.value (.struct (.named .current) [.ofAny v]))).element slot = v.bind Value.content := by
  unfold element valueAt withObject
  rw [Array.getElem?_setIfInBounds_self_of_lt h]
  rfl

section
variable {s : Script} {k slot i : Nat} {w : World} {v : Value} {t : Ty}

/-- A step of a script gives its next element, or nothing more, or what leaving it gives. -/
theorem stepScript_eq (h : w.Plays s k slot i) (t : Ty) (dispose : Bool) :
    ∃ w', stepScript k dispose (.pointer t slot) w =
      .ok (if dispose then (false, s.disposeErr) else
        (i < s.elems.length, if i < s.elems.length then none else s.fail)) w' ∧
      w'.store.size = w.store.size ∧ (∀ a, a ≠ slot → w'.store[a]? = w.store[a]?) ∧
      (dispose = false → i < s.elems.length → w'.Plays s k slot (i + 1) ∧
        w'.element slot = (s.elems[i]?.bind Value.content).bind Value.content) := by
  obtain ⟨⟨d, hrun, hscript⟩, hslot⟩ := h
  -- the place in the script, and the script itself
  have hgetRun : w.scriptRuns.getD k (0, 0) = (d, i) := by
    rw [Array.getD_eq_getD_getElem?, hrun]
    rfl
  have hgetScript : w.scripts.getD d ⟨[], none, none⟩ = s := by
    rw [Array.getD_eq_getD_getElem?, hscript]
    rfl
  unfold stepScript
  rw [bind_of_ok (show (get : Run World) w = .ok w w from rfl), hgetRun]
  dsimp only
  rw [hgetScript]
  cases dispose with
  | true => exact ⟨_, rfl, rfl, fun _ _ => rfl, nofun⟩
  | false =>
    simp only [Bool.false_eq_true, if_false]
    by_cases hi : i < s.elems.length
    · have hv : s.elems[i]? = some s.elems[i] := List.getElem?_eq_getElem hi
      obtain ⟨hk, -⟩ := Array.getElem?_eq_some_iff.mp hrun
      rw [hv]
      simp only [hi, decide_true, if_true]
      refine ⟨_, rfl, ?_, fun a ha => ?_, fun _ _ => ⟨⟨⟨d, ?_, hscript⟩, ?_⟩, ?_⟩⟩
      · exact Array.size_setIfInBounds
      · exact Array.getElem?_setIfInBounds_ne (Ne.symm ha)
      · exact Array.getElem?_setIfInBounds_self_of_lt hk
      · exact hslot.trans_eq Array.size_setIfInBounds.symm
      · exact World.element_filled hslot _
    · rw [List.getElem?_eq_none (by omega)]
      refine ⟨w, ?_, rfl, fun _ _ => rfl, fun _ h => absurd h hi⟩
      simp [hi]
      rfl
end

theorem ofError_content {v : Option Value} (h : ∀ u, v = some u → u.content = some u) :
    (Value.ofError v).content = v := by
  cases v with
  | none => rfl
  | some u => exact h u rfl

/-- Calls of a function leave scripts, the plays of them and an enumerator alone. -/
def Spectates (c : Calls) (en : Nat) (f : Value) : Prop :=
  ∀ args w, let w' := (c.call f args).left w
    w'.scripts = w.scripts ∧ w'.scriptRuns = w.scriptRuns ∧ w.store.size ≤ w'.store.size ∧
      ∀ e, w.Enumerates en e → w'.Enumerates en e

/-- How a scripted enumeration stands after some calls of the step function. -/
structure Script.Stands (s : Script) (k en : Nat) (e₀ : Enumerator) (past : List StepCall) (w : World) : Prop where
  enumerates : ∃ started done, w.Enumerates en { e₀ with started, done }
  plays : (∀ x ∈ past, x.isLast = false) → w.Plays s k e₀.slot past.length

section
variable {s : Script} {hs : s.Bare} {m k en : Nat} {t : Ty} {e₀ e : Enumerator} {w w' w₀ : World}
  {past : List StepCall} {given : List Pair} {consumer : Option Value}

/-- The next call of the step function of a script. -/
theorem Script.Stands.step (h : s.Stands k en e₀ past w) (hstep : e₀.step = .func t (.scriptStep k))
    (ha : e₀.slot ≠ en) (hlive : ∀ x ∈ past, x.isLast = false) (he : w.Enumerates en e) (dispose : Bool) :
    ∃ w', (Calls.level (m + 1)).call e.step [.ofBool dispose, .pointer .current e.slot] w =
        .ok (if dispose then [.ofBool false, .ofError s.disposeErr] else
          [.ofBool (past.length < s.elems.length),
            .ofError (if past.length < s.elems.length then none else s.fail)]) w' ∧
      w'.Enumerates en e ∧
      (dispose = false → past.length < s.elems.length → w'.Plays s k e₀.slot (past.length + 1) ∧
        w'.element e.slot = (s.elems[past.length]?.bind Value.content).bind Value.content) := by
  obtain ⟨started, done, hcur⟩ := h.enumerates
  obtain rfl := he.eq hcur
  obtain ⟨w', hrun, -, hkeep, helement⟩ := stepScript_eq (h.plays hlive) .current dispose
  refine ⟨w', ?_, (hkeep en ha.symm).trans he, helement⟩
  rw [show Enumerator.step { e₀ with started, done } = _ from hstep]
  refine (bind_of_ok hrun).trans ?_
  cases dispose <;> rfl

/-- However a scripted enumeration goes on, it stands like this. -/
theorem Script.stands (h : w₀.Enumerates en e₀) (hstep : e₀.step = .func t (.scriptStep k)) (ha : e₀.slot ≠ en)
    (hplays : w₀.Plays s k e₀.slot 0) (hconsumer : ∀ y ∈ consumer, Spectates (Calls.level (m + 1)) en y)
    (hfed : Fed (Calls.level (m + 1)) en consumer w₀ past given w) : s.Stands k en e₀ past w := by
  induction hfed with
  | none => exact ⟨⟨_, _, h⟩, fun _ => hplays⟩
  | @step past given w w' e x _ _ he hx ih =>
    obtain ⟨started, done, hcur⟩ := ih.enumerates
    obtain rfl := he.eq hcur
    refine ⟨⟨started, done, (scriptStep_keeps hstep ha hx).2.trans he⟩, fun hlive => ?_⟩
    obtain ⟨hpast, hlast⟩ := List.forall_mem_append.mp hlive
    have hlast : x.isLast = false := hlast x List.mem_cons_self
    rw [List.length_append, List.length_singleton]
    cases x with
    | dispose => cases hlast
    | advance ok err element =>
      obtain ⟨⟨a, b, hcall, rfl, rfl⟩, -⟩ := hx
      obtain ⟨w₁, hrun, -, helement⟩ := ih.step (m := m) hstep ha hpast he false
      cases hrun.symm.trans hcall
      -- a call that was not the last produced an element, so the script had one left
      have hi : past.length < s.elems.length := by
        by_contra hi
        simp [StepCall.isLast, hi, Value.asBool, Value.ofBool] at hlast
      exact (helement rfl hi).1
  | @take past given w p yield _ hyield _ ih =>
    obtain ⟨hscripts, hruns, hsize, hkeep⟩ := hconsumer yield hyield p.args w
    obtain ⟨started, done, hcur⟩ := ih.enumerates
    refine ⟨⟨started, done, hkeep _ hcur⟩, fun hlive => ?_⟩
    obtain ⟨⟨d, hrun, hscript⟩, hslot⟩ := ih.plays hlive
    exact ⟨⟨d, hruns ▸ hrun, hscripts ▸ hscript⟩, by omega⟩
  -- the flags are the enumerator's own, apart from the script
  | flags _ he started done ih =>
    obtain ⟨_, _, hcur⟩ := ih.enumerates
    obtain rfl := he.eq hcur
    refine ⟨⟨started, done, hcur.withObject_self⟩, fun hlive => ⟨(ih.plays hlive).run, ?_⟩⟩
    exact (ih.plays hlive).slot.trans_eq Array.size_setIfInBounds.symm
  | clear _ hx hlast he ih =>
    obtain ⟨started, done, hcur⟩ := ih.enumerates
    obtain rfl := he.eq hcur
    exact ⟨⟨started, done, hcur.withObject ha⟩, fun hlive => absurd (hlive _ hx) (by simp [hlast])⟩

/-- A scripted sequence takes the series of its script. -/
theorem scripted_follows (h : w₀.Enumerates en e₀) (hstep : e₀.step = .func t (.scriptStep k)) (ha : e₀.slot ≠ en)
    (hplays : w₀.Plays s k e₀.slot 0) (hconsumer : ∀ y ∈ consumer, Spectates (Calls.level (m + 1)) en y) :
    (s.series hs).Follows (Calls.level (m + 1)) en consumer w₀ where
  advances {past given w e} hfed hlive _ he := by
    obtain ⟨w', hcall, he', helement⟩ :=
      (Script.stands h hstep ha hplays hconsumer hfed).step (m := m) hstep ha hlive he false
    refine ⟨w', ⟨⟨_, _, hcall, rfl, ?_⟩, fun hlast => ?_⟩, he'⟩
    · refine ofError_content fun u hu => ?_
      split at hu
      · cases hu
      · exact hs.fail hu
    · have hi : past.length < s.elems.length := by
        by_contra hi
        simp [Script.series, Series.advance, StepCall.isLast, hi] at hlast
      exact (helement rfl hi).2.trans (hs.element _)
  disposes {past given w e} hfed hlive _ _ he := by
    obtain ⟨w', hcall, he', -⟩ :=
      (Script.stands h hstep ha hplays hconsumer hfed).step (m := m) hstep ha hlive he true
    exact ⟨w', ⟨_, _, hcall, ofError_content fun u hu => hs.leaving hu⟩, he'⟩

end

/-! ### Consumers by number -/

/-- The world with another consumer of a number. -/
def World.withConsumer (w : World) (d : Nat) (k : Consumer) : World :=
  { w with consumers := w.consumers.setIfInBounds d k }

section
variable {w : World} {d : Nat} {k : Consumer}

theorem consumerOf_eq (h : w.consumers[d]? = some k) : consumerOf d w = .ok k w := by
  have hget : w.consumers.getD d { appetite := .all } = k := by
    rw [Array.getD_eq_getD_getElem?, h]
    rfl
  exact congrArg (EStateM.Result.ok · w) hget

theorem setConsumer_eq (d : Nat) (k : Consumer) (w : World) : setConsumer d k w = .ok () (w.withConsumer d k) := rfl

end

/-- Feeding a consumer changes that consumer, and may make a new error. -/
theorem feedConsumer_left (d : Nat) (args : List Value) (w : World) :
    (feedConsumer d args).left w = w ∨ (∃ k, (feedConsumer d args).left w = w.withConsumer d k) ∨
      ∃ o k, (feedConsumer d args).left w = (w.withNew o).withConsumer d k := by
  have hconsumer : consumerOf d w = .ok (w.consumers.getD d { appetite := .all }) w := rfl
  unfold feedConsumer Run.left
  rw [bind_of_ok hconsumer]
  generalize w.consumers.getD d { appetite := .all } = k
  obtain ⟨appetite, seen, count, failed⟩ := k
  cases appetite with
  | all => exact .inr (.inl ⟨_, rfl⟩)
  | one =>
    dsimp only
    by_cases hcount : count > 0
    · rw [if_pos hcount]
      exact .inl rfl
    · rw [if_neg hcount]
      exact .inr (.inl ⟨_, rfl⟩)
  | count n => exact .inr (.inl ⟨_, rfl⟩)
  | untilError limit =>
    -- what remains once the arguments tell of no error
    have hrest : ∀ r, r = (if (count == limit) = true then do
          let e ← newError ("drive: sequence exceeds " ++ toString limit ++ " elements")
          setConsumer d ⟨.untilError limit, seen, count, some e⟩
          return false
        else do
          setConsumer d ⟨.untilError limit, args :: seen, count + 1, failed⟩
          return true : Run Bool) →
        r.left w = w ∨ (∃ k, r.left w = w.withConsumer d k) ∨ ∃ o k, r.left w = (w.withNew o).withConsumer d k := by
      rintro r rfl
      by_cases hcount : (count == limit) = true
      · rw [if_pos hcount]
        exact .inr (.inr ⟨_, _, rfl⟩)
      · rw [if_neg hcount]
        exact .inr (.inl ⟨_, rfl⟩)
    match args with
    | [v, err] =>
      dsimp only
      cases err.content with
      | some e => exact .inr (.inl ⟨_, rfl⟩)
      | none => exact hrest _ rfl
    | [] | [_] | _ :: _ :: _ :: _ => exact hrest _ rfl

/-- Consumers leave all scripts alone. -/
theorem consumer_spectates (m en d : Nat) (t : Ty) : Spectates (Calls.level (m + 1)) en (.func t (.consumer d)) := by
  intro args w
  have hleft : ((Calls.level (m + 1)).call (.func t (.consumer d)) args).left w = (feedConsumer d args).left w := by
    show ((do return [.ofBool (← feedConsumer d args)] : Run (List Value))).left w = _
    rw [left_bind]
    unfold Run.left
    cases feedConsumer d args w <;> rfl
  intro w'
  have hw' : w' = (feedConsumer d args).left w := hleft
  obtain h | ⟨k, h⟩ | ⟨o, k, h⟩ := feedConsumer_left d args w
  · rw [hw', h]
    exact ⟨rfl, rfl, le_rfl, fun _ he => he⟩
  · rw [hw', h]
    exact ⟨rfl, rfl, le_rfl, fun _ he => he⟩
  · rw [hw', h]
    refine ⟨rfl, rfl, ?_, fun _ he => he.withNew⟩
    simp [World.withConsumer, World.withNew]

section
variable {m k en d : Nat} {t u : Ty} {e₀ : Enumerator} {w₀ : World} {s : Script}

/-- A consumer that no test has set up takes everything. -/
theorem feedConsumer_unknown {w : World} (hd : w.consumers.size ≤ d) (args : List Value) :
    feedConsumer d args w = .ok true w := by
  have hconsumer : consumerOf d w = .ok { appetite := .all } w := by
    have hget : w.consumers.getD d { appetite := .all } = { appetite := .all } := by
      rw [Array.getD_eq_getD_getElem?, Array.getElem?_eq_none hd]
      rfl
    exact congrArg (EStateM.Result.ok · w) hget
  have hset : ∀ k, w.withConsumer d k = w := fun k => by
    unfold World.withConsumer
    rw [Array.setIfInBounds_eq_of_size_le hd]
  unfold feedConsumer
  rw [bind_of_ok hconsumer]
  exact (bind_of_ok (setConsumer_eq _ _ _)).trans (by rw [hset]; rfl)

/-- A consumer that nobody knows of wants more each time. -/
theorem scripted_more (h : w₀.Enumerates en e₀) (hstep : e₀.step = .func t (.scriptStep k)) (ha : e₀.slot ≠ en)
    (hplays : w₀.Plays s k e₀.slot 0) (hd : w₀.consumers.size ≤ d) :
    Reacts (fun _ => .more) (Calls.level (m + 1)) en (.func u (.consumer d)) w₀ := by
  have hconsumer : ∀ y ∈ some (Value.func u (.consumer d)), Spectates (Calls.level (m + 1)) en y := by
    rintro _ ⟨rfl⟩
    exact consumer_spectates m en d _
  have hsize : ∀ {past given w}, Fed (Calls.level (m + 1)) en (some (.func u (.consumer d))) w₀ past given w →
      w.consumers.size ≤ d := by
    intro past given w hfed
    induction hfed with
    | none => exact hd
    | step hfed _ he hx ih =>
      obtain ⟨started, done, hcur⟩ := (Script.stands h hstep ha hplays hconsumer hfed).enumerates
      obtain rfl := he.eq hcur
      rwa [(scriptStep_keeps hstep ha hx).1]
    | @take past given w p yield _ hyield _ ih =>
      obtain rfl := Option.some.inj hyield
      have hcall : (Calls.level (m + 1)).call (.func u (.consumer d)) p.args w = .ok [.ofBool true] w :=
        bind_of_ok (feedConsumer_unknown ih p.args)
      rwa [left_ok hcall]
    | flags _ _ _ _ ih => exact ih
    | clear _ _ _ _ ih => exact ih
  intro past given w e p hfed _ _ he
  exact ⟨w, ⟨_, bind_of_ok (feedConsumer_unknown (hsize hfed) p.args), rfl⟩, he⟩

/-- How a consumer reacts that wants `n` pairs, or any number of them when `n` is 0. -/
def wanting (n : Nat) (given : List Pair) : Reaction := if n = 0 ∨ given.length < n then .more else .enough

/-- A consumer that wants `n` pairs, after some. -/
def Consumer.wanting (n : Nat) (given : List Pair) : Consumer where
  appetite := .count n
  seen := (given.map Pair.args).reverse
  count := given.length

theorem feedConsumer_wanting {n : Nat} {w : World} {given : List Pair}
    (hd : w.consumers[d]? = some (.wanting n given)) (p : Pair) :
    feedConsumer d p.args w =
      .ok (n == 0 || given.length + 1 < n) (w.withConsumer d (.wanting n (given ++ [p]))) := by
  have htaken : Consumer.wanting n (given ++ [p]) =
      { Consumer.wanting n given with seen := p.args :: (given.map Pair.args).reverse, count := given.length + 1 } := by
    simp [Consumer.wanting]
  unfold feedConsumer
  rw [bind_of_ok (consumerOf_eq hd), htaken]
  rfl

/-- A consumer of a script that wants `n` pairs reacts to each as it should. -/
theorem scripted_wanting {n : Nat} (h : w₀.Enumerates en e₀) (hstep : e₀.step = .func t (.scriptStep k))
    (ha : e₀.slot ≠ en) (hplays : w₀.Plays s k e₀.slot 0) (hd : w₀.consumers[d]? = some (.wanting n [])) :
    Reacts (wanting n) (Calls.level (m + 1)) en (.func u (.consumer d)) w₀ := by
  have hconsumer : ∀ y ∈ some (Value.func u (.consumer d)), Spectates (Calls.level (m + 1)) en y := by
    rintro _ ⟨rfl⟩
    exact consumer_spectates m en d _
  -- the consumer counts what it is given, whether it still wants more or not
  have hcounts : ∀ {past given w}, Fed (Calls.level (m + 1)) en (some (.func u (.consumer d))) w₀ past given w →
      w.consumers[d]? = some (.wanting n given) := by
    intro past given w hfed
    induction hfed with
    | none => exact hd
    | step hfed _ he hx ih =>
      obtain ⟨started, done, hcur⟩ := (Script.stands h hstep ha hplays hconsumer hfed).enumerates
      obtain rfl := he.eq hcur
      rwa [(scriptStep_keeps hstep ha hx).1]
    | @take past given w p yield _ hyield _ ih =>
      obtain rfl := Option.some.inj hyield
      have hcall : (Calls.level (m + 1)).call (.func u (.consumer d)) p.args w = .ok [.ofBool _] _ :=
        bind_of_ok (feedConsumer_wanting ih p)
      rw [left_ok hcall]
      obtain ⟨hlt, -⟩ := Array.getElem?_eq_some_iff.mp ih
      exact Array.getElem?_setIfInBounds_self_of_lt hlt
    | flags _ _ _ _ ih => exact ih
    | clear _ _ _ _ ih => exact ih
  intro past given w e p hfed _ _ he
  refine ⟨_, ?_, (show (w.withConsumer d (.wanting n (given ++ [p]))).Enumerates en e from he)⟩
  have hcall : (Calls.level (m + 1)).call (.func u (.consumer d)) p.args w = .ok [.ofBool _] _ :=
    bind_of_ok (feedConsumer_wanting (hcounts hfed) p)
  unfold wanting
  by_cases hmore : n = 0 ∨ given.length + 1 < n
  · rw [if_pos (by simpa using hmore)]
    exact ⟨_, hcall, by simpa [Value.asBool, Value.ofBool] using hmore⟩
  · rw [if_neg (by simpa using hmore)]
    exact ⟨_, hcall, by simpa [Value.asBool, Value.ofBool] using hmore⟩

end

/-- The script of two elements. -/
def Script.twoElements : Script := ⟨[.ofAny (some (.ofInt 1)), .ofAny (some (.ofInt 2))], none, some (.text .string [])⟩

theorem Script.twoElements_bare : Script.twoElements.Bare where
  elems {v u} hv hu := by
    simp only [twoElements, List.mem_cons, List.not_mem_nil, or_false] at hv
    obtain rfl | rfl := hv <;> (cases hu; rfl)
  fail h := nomatch h
  leaving h := by cases h; rfl

/-- The series of two elements. -/
def Series.twoElements : Series := Script.twoElements.series Script.twoElements_bare

theorem Series.twoElements_has : Series.twoElements.Has (2 : Nat) := by
  intro k
  rw [Nat.cast_le]
  constructor
  · intro hlive
    by_contra hk
    exact absurd (hlive 2 (by omega)) (by decide)
  · intro hk i hi
    obtain rfl | rfl : i = 0 ∨ i = 1 := by omega
    · rfl
    · rfl

/-- A new enumeration of the scripted sequence, whatever consumers there are. -/
theorem twoElements_starts (n : Nat) (consumers : Array Consumer) (consumer : Option Value)
    (hconsumer : ∀ y ∈ consumer, Spectates (Calls.level (n + 1)) 2 y) :
    ∃ w, Series.twoElements.Starts (Calls.level (n + 1)) (.pointer .sequence 0) consumer
        { World.twoElements with consumers } 2 w ∧
      w.Enumerates 2 ⟨.func .step (.scriptStep 0), 1, false, false⟩ ∧
      w.Plays Script.twoElements 0 1 0 ∧ w.consumers = consumers := by
  obtain ⟨w, henumerate, he, hplays, hconsumers⟩ :
      ∃ w, enumerate (Calls.level (n + 1)) (.pointer .sequence 0) { World.twoElements with consumers } = .ok 2 w ∧
        w.Enumerates 2 ⟨.func .step (.scriptStep 0), 1, false, false⟩ ∧
        w.Plays Script.twoElements 0 1 0 ∧ w.consumers = consumers :=
    ⟨_, rfl, rfl, ⟨⟨0, rfl, rfl⟩, (by omega : 1 < 3)⟩, rfl⟩
  exact ⟨w, ⟨henumerate, scripted_follows he rfl (by decide) hplays hconsumer⟩, he, hplays, hconsumers⟩

end Resumable
