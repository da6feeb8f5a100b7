import Resumable.Proofs.Playing

/-!
# `Proofs.Collecting`: all ways to draw the elements of a sequence agree

A sequence is ranged over by its own range function, by a range function that it is adapted to, by collecting its
elements, or by settling. The elements drawn, the errors told and the calls of the step function are those of the
sequence each time; where an enumeration is left early its step function is asked to leave once, and where it ends
by itself it is not.

**Contents**
* `range_pairs`, `callFunc_ranging`: adapting a sequence to a range function of any elements changes nothing.
* `collect_ends`: collecting.
* `drawing`, `Draws`, `Draws.drawn`: the consumer that settling draws with.
* `settle_all`, `settle_first`: settling, with few enough elements and with too many.
* `Series.Drains`, `drains_agree`: all of it together.
-/

namespace Resumable

open Run

/-! ### Adapted range functions -/

theorem Ty.assignableTo_any (t : Ty) : t.assignableTo .any = true := by
  have himplements : t.implements .any = true := by
    have hrequired : Ty.required .any = [] := by decide
    unfold implements
    rw [hrequired]
    exact (show Ty.isInterface .any = true by decide)
  unfold assignableTo
  simp [himplements]

theorem elementValue_any (v : Option Value) : elementValue v .any = pure (.ofAny v) := by
  cases v with
  | none => rfl
  | some v =>
    unfold elementValue
    simp only [Ty.assignableTo_any, if_true]
    have hinterface : Ty.isInterface .any = true := by decide
    unfold Value.widen
    rw [hinterface]
    rfl

theorem feed_pairs (c : Calls) (en : Nat) (yield : Value) : feed c en .any true yield = feedPairs c en yield := by
  unfold feed feedPairs
  congr 1
  funext _
  congr 1
  funext ⟨ok, err⟩
  cases err with
  | none => 
    simp only [elementValue_any]
    rfl
  | some v => rfl

theorem range_pairs (c : Calls) (seq yield : Value) : range c seq pairRange yield = all c seq yield := by
  unfold range all
  have hsignature : Ty.signature? pairRange = some ([.func [.any, .error] false [.bool]], false, []) := by decide
  simp only [hsignature, ← feed_pairs]
  rfl

/-- A call of a range function that a sequence was adapted to is a call of the sequence's own. -/
theorem callFunc_ranging (c : Calls) (a : Nat) (args : List Value) :
    callFunc c (.func pairRange (.ranging a)) args = callFunc c (.func pairRange (.pairs a)) args := by
  unfold callFunc
  simp only [range_pairs]

/-- The function that a sequence is adapted to. -/
theorem adapt_pairs (t : Ty) (a : Nat) : adapt (.pointer t a) pairRange = pure (.func pairRange (.ranging a)) := by
  have hsignature : Ty.signature? pairRange = some ([.func [.any, .error] false [.bool]], false, []) := by decide
  have hyield : Ty.signature? (.func [.any, .error] false [.bool]) = some ([.any, .error], false, [.bool]) := by decide
  have hshape : (pairRange == Ty.sequence) = false := by decide
  unfold adapt
  simp only [hsignature, hyield, hshape]
  rfl

/-! ### Collecting -/

section
variable {K : Series} {c : Calls} {en k n : Nat} {w w₀ : World}

/-- One turn of drawing all elements into a list. -/
def drawElement (c : Calls) (en : Nat) (out : List Value) : Run (List Value ⊕ (List Value × Option Value)) := do
  let (ok, err) ← moveNext c en
  if err.isSome || !ok then return .inr (out, err)
  match ← currentOf en with
  | none => return .inl (Ty.zero .any :: out)
  | some v => return .inl (.box .any (some v) :: out)

theorem collect_eq (c : Calls) (seq : Value) :
    collect c seq .any = (do
      let en ← enumerate c seq
      let (out, err) ← iterate (drawElement c en) c.turns []
      return (out.reverse, err)) := rfl

/-- An element is drawn. -/
theorem drawElement_more (h : K.Stands c en none w₀ k [] w) (hK : K.Follows c en none w₀)
    (hlast : (K.advance k).isLast = false) (out : List Value) :
    ∃ w', drawElement c en out w = .ok (.inl (.ofAny (K.element k) :: out)) w' ∧
      K.Stands c en none w₀ (k + 1) [] w' := by
  obtain ⟨w', hmove, hcurrent, h'⟩ := h.moves hK (nomatch ·) hlast
  refine ⟨w', ?_, h'⟩
  unfold drawElement
  rw [bind_of_ok hmove]
  dsimp only
  rw [show ((K.err k).isSome || !K.ok k) = false from hlast, if_neg (by decide), bind_of_ok hcurrent]
  cases helement : K.element k with
  | none => rfl
  | some v =>
    have hbare : v.content = some v := K.bare (.inr (.inl helement))
    have hany : Value.ofAny (some v) = .box .any (some v) := congrArg (Value.box .any) hbare
    rw [hany]
    rfl

/-- All elements are drawn. -/
theorem drawElements_ends (hK : K.Follows c en none w₀) (hlive : K.Live n) (hlast : (K.advance n).isLast = true)
    {m : Nat} (hk : k ≤ n) (hm : n < k + m) (h : K.Stands c en none w₀ k [] w) :
    ∃ w', iterate (drawElement c en) m (K.elements k).reverse w = .ok ((K.elements n).reverse, K.err n) w' ∧
      Over c en none w₀ (K.steps (n + 1)) [] w' := by
  induction m generalizing k w with
  | zero => omega
  | succ m ih =>
    rw [iterate_succ]
    obtain rfl | hlt := Nat.eq_or_lt_of_le hk
    · obtain ⟨w', hmove, h'⟩ := h.finishes hK (nomatch ·) hlast
      refine ⟨w', ?_, h'⟩
      have hdraw : drawElement c en (K.elements k).reverse w = .ok (.inr ((K.elements k).reverse, K.err k)) w' := by
        unfold drawElement
        rw [bind_of_ok hmove]
        dsimp only
        rw [show ((K.err k).isSome || !K.ok k) = true from hlast]
        rfl
      exact bind_of_ok hdraw
    · obtain ⟨w₁, hdraw, h₁⟩ := drawElement_more h hK (hlive k hlt) (K.elements k).reverse
      obtain ⟨w', hrest, h'⟩ := ih hlt (by omega) h₁
      refine ⟨w', ?_, h'⟩
      rw [Series.elements_succ, List.reverse_append] at hrest
      exact (bind_of_ok hdraw).trans hrest

/-- Collecting a sequence draws its elements and the error that ends them, and needs not leave it. -/
theorem collect_ends {seq : Value} (h : K.Starts c seq none w₀ en w) (hlive : K.Live n)
    (hlast : (K.advance n).isLast = true) (hn : n < c.turns) :
    ∃ w', collect c seq .any w₀ = .ok (K.elements n, K.err n) w' ∧ Over c en none w (K.steps (n + 1)) [] w' := by
  have hturns : n < 0 + c.turns := by omega
  obtain ⟨w', hdraw, hover⟩ := drawElements_ends h.follows hlive hlast (Nat.zero_le n) hturns h.stands
  refine ⟨w', ?_, hover⟩
  have hdraw : iterate (drawElement c en) c.turns [] w = .ok ((K.elements n).reverse, K.err n) w' := hdraw
  rw [collect_eq, bind_of_ok h.enumerates, bind_of_ok hdraw]
  simp only [List.reverse_reverse]
  rfl

end

/-! ### The consumer of a drain -/

/-- The error that a pair tells of. -/
def Pair.failure (p : Pair) : Option Value := p.2.bind Value.content

/-- How the consumer that elements are drawn with reacts: it has enough after an error, and after more elements than
are allowed. -/
def drawing (given : List Pair) : Reaction :=
  if (given.getLast?.bind Pair.failure).isSome || maxElements < given.length then .enough else .more

/-- A consumer that has drawn all that it was given. -/
def Consumer.drawn (given : List Pair) : Consumer where
  appetite := .untilError maxElements
  seen := (given.map Pair.args).reverse
  count := given.length

/-- The consumer that elements are drawn with. -/
def drawer (d : Nat) : Value := .func (yieldType pairRange) (.consumer d)

/-- The world with one more consumer that has drawn nothing yet. -/
def World.withDrawer (w : World) : World := { w with consumers := w.consumers.push (.drawn []) }

section
variable {w w' : World} {d : Nat} {k : Consumer} {given : List Pair} {p : Pair} {v : Value}

theorem consumers_withConsumer (h : w.consumers[d]? = some k) (k' : Consumer) :
    (w.withConsumer d k').consumers[d]? = some k' := by
  obtain ⟨hlt, -⟩ := Array.getElem?_eq_some_iff.mp h
  exact Array.getElem?_setIfInBounds_self_of_lt hlt

/-- An error ends the drawing. -/
theorem feedConsumer_failure (h : w.consumers[d]? = some (.drawn given)) (hp : p.failure = some v) :
    feedConsumer d p.args w = .ok false (w.withConsumer d { Consumer.drawn given with failed := some v }) := by
  unfold feedConsumer
  rw [bind_of_ok (consumerOf_eq h)]
  have hcontent : (Value.ofError p.2).content = some v := hp
  simp only [Pair.args, hcontent, Consumer.drawn]
  rfl

/-- An element is drawn. -/
theorem feedConsumer_element (h : w.consumers[d]? = some (.drawn given)) (hp : p.failure = none)
    (hlt : given.length < maxElements) :
    feedConsumer d p.args w = .ok true (w.withConsumer d (.drawn (given ++ [p]))) := by
  unfold feedConsumer
  rw [bind_of_ok (consumerOf_eq h)]
  have hcontent : (Value.ofError p.2).content = none := hp
  have hne : (given.length == maxElements) = false := by simp; omega
  have htaken : Consumer.drawn (given ++ [p]) =
      { Consumer.drawn given with seen := p.args :: (given.map Pair.args).reverse, count := given.length + 1 } := by
    simp [Consumer.drawn]
  rw [htaken]
  simp only [Pair.args, hcontent, Consumer.drawn, hne]
  rfl

/-- One element too many. -/
theorem feedConsumer_full (h : w.consumers[d]? = some (.drawn given)) (hp : p.failure = none)
    (heq : given.length = maxElements) :
    ∃ v o, feedConsumer d p.args w =
      .ok false ((w.withNew o).withConsumer d { Consumer.drawn given with failed := some v }) := by
  unfold feedConsumer
  rw [bind_of_ok (consumerOf_eq h)]
  have hcontent : (Value.ofError p.2).content = none := hp
  have heq : (given.length == maxElements) = true := by simp [heq]
  simp only [Pair.args, hcontent, Consumer.drawn, heq]
  exact ⟨_, _, rfl⟩
end

section
variable {c : Calls} {en d : Nat} {w w' w₁ : World} {past : List StepCall} {given : List Pair} {p : Pair}

/-- The consumer that elements are drawn with is where it is called, and no step function can reach it. -/
structure Draws (c : Calls) (en d : Nat) (w₁ : World) : Prop where
  calls : ∀ p : Pair, c.call (drawer d) p.args = (do return [.ofBool (← feedConsumer d p.args)])
  fresh : w₁.consumers[d]? = some (.drawn [])
  spared : ∀ {past given w e x w'}, Fed c en (some (drawer d)) w₁ past given w → w.Enumerates en e → e.Steps c w x w' →
    w'.consumers[d]? = w.consumers[d]?

/-- A consumer that drew elements and had enough with the last thing it was given. -/
def Consumer.Sated (k : Consumer) (given : List Pair) (p : Pair) : Prop :=
  ∃ v, k = { Consumer.drawn given with failed := some v } ∧ ∀ u, p.failure = some u → v = u

/-- A consumer is hungry after one more pair when it was before and wants more. -/
theorem hungry_append {react : List Pair → Reaction} :
    Hungry react (given ++ [p]) ↔ Hungry react given ∧ react (given ++ [p]) = .more := by
  have htake : ∀ i < given.length, (given ++ [p]).take (i + 1) = given.take (i + 1) := fun i hi =>
    List.take_append_of_le_length hi
  have hall : (given ++ [p]).take (given.length + 1) = given ++ [p] := List.take_of_length_le (by simp)
  unfold Hungry
  rw [List.length_append, List.length_singleton]
  constructor
  · intro h
    refine ⟨fun i hi => ?_, hall ▸ h given.length (by omega)⟩
    rw [← htake i hi]
    exact h i (by omega)
  · rintro ⟨h, hp⟩ i hi
    obtain hi | rfl := Nat.lt_succ_iff_lt_or_eq.mp hi
    · rw [htake i hi]
      exact h i hi
    · rwa [hall]

theorem drawing_append : drawing (given ++ [p]) = if p.failure.isSome || maxElements < given.length + 1 then .enough
    else .more := by
  simp [drawing]

/-- What giving a pair to the consumer that elements are drawn with does, while it wants more. -/
theorem Draws.takes (hd : Draws c en d w₁) (h : w.consumers[d]? = some (.drawn given))
    (hgiven : given.length ≤ maxElements) (p : Pair) :
    ∃ w' : World, (drawing (given ++ [p])).Came (c.call (drawer d) p.args w) w' ∧
      (drawing (given ++ [p]) = .more → w'.consumers[d]? = some (.drawn (given ++ [p]))) ∧
      (drawing (given ++ [p]) = .enough → ∃ k, w'.consumers[d]? = some k ∧ k.Sated given p) ∧
      ∀ {e}, w.Enumerates en e → w'.Enumerates en e := by
  rw [hd.calls, drawing_append]
  cases hp : p.failure with
  | some v =>
    refine ⟨_, ⟨_, bind_of_ok (feedConsumer_failure h hp), rfl⟩, nofun, fun _ => ?_, fun he => he⟩
    exact ⟨_, consumers_withConsumer h _, v, rfl, fun u hu => Option.some.inj (hp.symm.trans hu)⟩
  | none =>
    obtain hlt | heq := Nat.lt_or_eq_of_le hgiven
    · rw [if_neg (by simp; omega)]
      exact ⟨_, ⟨_, bind_of_ok (feedConsumer_element h hp hlt), rfl⟩, fun _ => consumers_withConsumer h _, nofun,
        fun he => he⟩
    · rw [if_pos (by simp; omega)]
      obtain ⟨v, o, hfeed⟩ := feedConsumer_full h hp heq
      have hnew : (w.withNew o).consumers[d]? = some (.drawn given) := h
      refine ⟨_, ⟨_, bind_of_ok hfeed, rfl⟩, nofun, fun _ => ?_, fun he => he.withNew⟩
      exact ⟨_, consumers_withConsumer hnew _, v, rfl, fun u hu => nomatch hp.symm.trans hu⟩

/-- No consumer that still wants more has got more than the limit. -/
theorem Hungry.length_le (h : Hungry drawing given) : given.length ≤ maxElements := by
  obtain rfl | ⟨g, p, rfl⟩ := List.eq_nil_or_concat given
  · exact Nat.zero_le _
  · rw [List.concat_eq_append] at h ⊢
    have hmore := (hungry_append.mp h).2
    rw [drawing_append] at hmore
    split at hmore
    · cases hmore
    · rename_i hle
      simp only [Bool.or_eq_true, decide_eq_true_eq, not_or, not_lt] at hle
      simpa using hle.2

/-- The state of the consumer that elements are drawn with: it has drawn all that it was given as long as it wanted
more, and then it had enough. -/
theorem Draws.drawn (hd : Draws c en d w₁) (h : Fed c en (some (drawer d)) w₁ past given w) :
    (Hungry drawing given → w.consumers[d]? = some (.drawn given)) ∧
      ∀ {g p}, given = g ++ [p] → Hungry drawing g → drawing given = .enough →
        ∃ k, w.consumers[d]? = some k ∧ k.Sated g p := by
  induction h with
  | none => exact ⟨fun _ => hd.fresh, fun hg => absurd hg (by simp)⟩
  | step h _ he hx ih =>
    rw [hd.spared h he hx]
    exact ih
  | @take past given w p yield h hyield _ ih =>
    obtain rfl := Option.some.inj hyield
    by_cases hgiven : Hungry drawing given
    · obtain ⟨w', hcame, hmore, hsated, -⟩ := hd.takes (ih.1 hgiven) hgiven.length_le p
      rw [hcame.left]
      refine ⟨fun h => hmore (hungry_append.mp h).2, fun hg _ henough => ?_⟩
      obtain ⟨rfl, hp⟩ := List.append_inj' hg rfl
      obtain rfl := List.singleton_inj.mp hp
      exact hsated henough
    · refine ⟨fun h => absurd (hungry_append.mp h).1 hgiven, fun hg hhungry _ => ?_⟩
      obtain ⟨rfl, -⟩ := List.append_inj' hg rfl
      exact absurd hhungry hgiven
  | flags _ _ _ _ ih => exact ih
  | clear _ _ _ _ ih => exact ih

/-- The consumer that elements are drawn with reacts as it should. -/
theorem Draws.reacts (hd : Draws c en d w₁) : Reacts drawing c en (drawer d) w₁ := by
  intro past given w e p hfed _ hgiven he
  obtain ⟨w', hcame, -, -, hkeep⟩ := hd.takes ((hd.drawn hfed).1 hgiven) hgiven.length_le p
  exact ⟨w', hcame, hkeep he⟩

end

section
variable {m k en d : Nat} {t : Ty} {e₀ : Enumerator} {w₀ : World} {s : Script}

/-- The consumer that elements are drawn with is out of reach for scripts. -/
theorem scripted_draws (h : w₀.Enumerates en e₀) (hstep : e₀.step = .func t (.scriptStep k)) (ha : e₀.slot ≠ en)
    (hplays : w₀.Plays s k e₀.slot 0) (hfresh : w₀.consumers[d]? = some (.drawn [])) :
    Draws (Calls.level (m + 1)) en d w₀ where
  calls _ := rfl
  fresh := hfresh
  spared {past given w e x w'} hfed he hx := by
    have hconsumer : ∀ y ∈ some (drawer d), Spectates (Calls.level (m + 1)) en y := by
      rintro _ ⟨rfl⟩
      exact consumer_spectates m en d _
    obtain ⟨started, done, hcur⟩ := (Script.stands h hstep ha hplays hconsumer hfed).enumerates
    obtain rfl := he.eq hcur
    rw [(scriptStep_keeps hstep ha hx).1]

end

/-! ### What is drawn -/

/-- Drawn elements as a list. -/
def listed (es : List Value) : Value := if es.isEmpty then .null (.slice .any) else .slice (.slice .any) es

/-- The elements that a consumer has drawn. -/
def Consumer.list (k : Consumer) : Value := listed (k.elems.map fun v => .ofAny v.content)

section
variable {c : Calls} {f : Value} {w w' w₀ : World} {k : Consumer} {given : List Pair}

theorem newConsumer_eq (w : World) :
    newConsumer (yieldType pairRange) (.untilError maxElements) w =
      .ok (w.consumers.size, drawer w.consumers.size) w.withDrawer := rfl

theorem Consumer.list_eq (hcount : k.count = k.elems.length) :
    (if k.count == 0 then Value.null (.slice .any)
      else .slice (.slice .any) (k.elems.map fun v => .ofAny v.content)) = k.list := by
  unfold Consumer.list listed
  rw [hcount]
  cases k.elems <;> rfl

/-- When the drained function returns, what was drawn is what its consumer kept. -/
theorem drain_returns {rs : List Value} (hcall : c.call f [drawer w₀.consumers.size] w₀.withDrawer = .ok rs w)
    (hk : w.consumers[w₀.consumers.size]? = some k) (hcount : k.count = k.elems.length) :
    drain c f (yieldType pairRange) w₀ = .ok (some k.list, k.failed) w := by
  unfold drain
  rw [bind_of_ok (newConsumer_eq w₀)]
  dsimp only
  rw [bind_of_ok (attempt_of_ok hcall), bind_of_ok (consumerOf_eq hk)]
  dsimp only
  rw [Consumer.list_eq hcount]
  rfl

/-- When it panics, what was drawn before is kept and the panic is an error. -/
theorem drain_panics {v : Value}
    (hcall : c.call f [drawer w₀.consumers.size] w₀.withDrawer = .error (.panic (.error v)) w)
    (hk : w.consumers[w₀.consumers.size]? = some k) (hcount : k.count = k.elems.length) :
    ∃ u w', drain c f (yieldType pairRange) w₀ = .ok (some k.list, some u) w' := by
  unfold drain
  rw [bind_of_ok (newConsumer_eq w₀)]
  dsimp only
  rw [bind_of_ok (attempt_of_error hcall), bind_of_ok (consumerOf_eq hk)]
  dsimp only
  rw [Consumer.list_eq hcount]
  exact ⟨_, _, rfl⟩

end

/-! ### Settling -/

namespace Series

variable {K : Series} {n : Nat}

theorem Has.live (h : K.Has n) : K.Live n := (h n).mpr le_rfl

theorem Has.last (h : K.Has n) : (K.advance n).isLast = true := by
  by_contra hlast
  have hlive : K.Live (n + 1) := live_succ.mpr ⟨h.live, by simpa using hlast⟩
  have := (h (n + 1)).mp hlive
  rw [Nat.cast_le] at this
  omega

theorem drawing_pairs_succ : drawing (K.pairs (n + 1)) = if maxElements < n + 1 then .enough else .more := by
  rw [pairs_succ, drawing_append]
  simp [Pair.failure]

theorem hungry_drawing (hn : n ≤ maxElements) : Hungry drawing (K.pairs n) :=
  hungry_pairs.mpr fun i hi => by rw [drawing_pairs_succ, if_neg (by omega)]

theorem elems_drawn : (Consumer.drawn (K.pairs n)).elems.map (fun v => Value.ofAny v.content) = K.elements n := by
  have hany : ∀ i, Value.ofAny (Value.ofAny (K.element i)).content = .ofAny (K.element i) := fun i => by
    cases helement : K.element i with
    | none => rfl
    | some v =>
      have hbare : v.content = some v := K.bare (.inr (.inl helement))
      show Value.ofAny v.content = _
      rw [hbare]
  simp [Consumer.elems, Consumer.drawn, Pair.args, pairs, elements, hany]

theorem list_drawn (failed : Option Value) :
    Consumer.list { Consumer.drawn (K.pairs n) with failed } = listed (K.elements n) :=
  congrArg listed elems_drawn

end Series

section
variable {K : Series} {c c' : Calls} {a en n : Nat} {w w' w₀ w₁ : World}

theorem attempt_eq_ok {x : Run α} {u : α} : attempt x w = .ok (.ok u) w' ↔ x w = .ok u w' := by
  unfold attempt
  cases x w <;> simp

theorem attempt_eq_error {x : Run α} {s : Stop} : attempt x w = .ok (.error s) w' ↔ x w = .error s w' := by
  unfold attempt
  cases x w <;> simp

/-- Settling a sequence drains its own range function. -/
theorem settle_sequence (c : Calls) (a : Nat) (canceled : Bool) :
    settle c (some (.pointer .sequence a)) canceled = drain c (.func pairRange (.pairs a)) (yieldType pairRange) := by
  have hsequence : (Ty.sequence == Ty.sequence) = true := by decide
  unfold settle
  refine (if_pos hsequence).trans ?_
  rfl

/-- How settling ends once the elements are drawn. -/
theorem settle_draws {r : Except Stop Unit} {failed : Option Value}
    (hcall : ∀ args, c'.call (.func pairRange (.pairs a)) args = callFunc c (.func pairRange (.pairs a)) args)
    (hall : attempt (all c (.pointer .sequence a) (drawer w₀.consumers.size)) w₀.withDrawer = .ok r w)
    (hk : w.consumers[w₀.consumers.size]? = some { Consumer.drawn (K.pairs n) with failed }) (canceled : Bool) :
    (r = .ok () → settle c' (some (.pointer .sequence a)) canceled w₀ =
      .ok (some (listed (K.elements n)), failed) w) ∧
    ∀ v, r = .error (.panic (.error v)) →
      ∃ u w', settle c' (some (.pointer .sequence a)) canceled w₀ = .ok (some (listed (K.elements n)), some u) w' := by
  have hcalls : ∀ y, c'.call (.func pairRange (.pairs a)) [y] = (do all c (.pointer .sequence a) y; return []) :=
    fun y => hcall [y]
  have hcount : (Consumer.drawn (K.pairs n)).count = (Consumer.drawn (K.pairs n)).elems.length := by
    simp [Consumer.drawn, Consumer.elems]
  rw [settle_sequence, ← Series.list_drawn failed]
  constructor
  · rintro rfl
    have hcalled : c'.call (.func pairRange (.pairs a)) [drawer w₀.consumers.size] w₀.withDrawer = .ok [] w := by
      rw [hcalls]
      exact bind_of_ok (attempt_eq_ok.mp hall)
    exact drain_returns hcalled hk hcount
  · rintro v rfl
    have hcalled : c'.call (.func pairRange (.pairs a)) [drawer w₀.consumers.size] w₀.withDrawer =
        .error (.panic (.error v)) w := by
      rw [hcalls]
      exact bind_of_error (attempt_eq_error.mp hall)
    exact drain_panics hcalled hk hcount

/-- The functions that the library makes over sequences are called as the evaluator does with `c` for what they call
in turn. -/
def Calls.Ranges (c' c : Calls) : Prop :=
  ∀ t a args, c'.call (.func t (.pairs a)) args = callFunc c (.func t (.pairs a)) args ∧
    c'.call (.func t (.ranging a)) args = callFunc c (.func t (.ranging a)) args

/-- A sequence with few enough elements is drained. -/
theorem settle_all (hc : c'.Ranges c)
    (h : K.Starts c (.pointer .sequence a) (some (drawer w₀.consumers.size)) w₀.withDrawer en w₁)
    (hd : Draws c en w₀.consumers.size w₁) (hn : K.Has n) (hle : n ≤ maxElements) (hturns : n < c.turns)
    (canceled : Bool) :
    ∃ w' given, settle c' (some (.pointer .sequence a)) canceled w₀ = .ok (some (listed (K.elements n)), K.err n) w' ∧
      Over c en (some (drawer w₀.consumers.size)) w₁ (K.steps (n + 1)) given w' := by
  have hstop : K.StopsAt drawing n := ⟨hn.live, Series.hungry_drawing hle, .inl hn.last⟩
  obtain ⟨r, w', past, given, hall, hover, hfinale⟩ := all_ends h hd.reacts hstop hturns
  obtain ⟨hdrawn, hsated⟩ := hd.drawn hover.fed
  cases hfinale with
  | drained hlast herr =>
    have hk := hdrawn (Series.hungry_drawing hle)
    have hsettle := (settle_draws (fun _ => (hc _ _ _).1) hall hk canceled).1 rfl
    exact ⟨w', _, herr ▸ hsettle, hover⟩
  | @failed v herr =>
    have hbare : v.content = some v := K.bare (.inl herr)
    have henough : drawing (K.pairs n ++ [(none, some v)]) = .enough := by
      rw [drawing_append]
      simp [Pair.failure, hbare]
    obtain ⟨k, hk, u, rfl, hu⟩ := hsated rfl (Series.hungry_drawing hle) henough
    obtain rfl := hu v hbare
    rw [henough] at hall
    have hsettle := (settle_draws (fun _ => (hc _ _ _).1) hall hk canceled).1 rfl
    exact ⟨w', _, herr ▸ hsettle, hover⟩
  | stopped hlast => exact absurd hn.last (by simp [hlast])
  | thrown hlast => exact absurd hn.last (by simp [hlast])

/-- Of a sequence with more elements those that are allowed are drawn, with an error. -/
theorem settle_first (hc : c'.Ranges c)
    (h : K.Starts c (.pointer .sequence a) (some (drawer w₀.consumers.size)) w₀.withDrawer en w₁)
    (hd : Draws c en w₀.consumers.size w₁) (hlive : K.Live (maxElements + 1)) (hturns : maxElements < c.turns)
    (canceled : Bool) :
    ∃ v w' w₂ given, settle c' (some (.pointer .sequence a)) canceled w₀ =
        .ok (some (listed (K.elements maxElements)), some v) w' ∧
      Over c en (some (drawer w₀.consumers.size)) w₁
        (K.steps (maxElements + 1) ++ [.dispose (K.leaving (maxElements + 1))]) given w₂ := by
  obtain ⟨hall', hlast⟩ := Series.live_succ.mp hlive
  have hgiven := Series.hungry_drawing (K := K) (le_refl maxElements)
  have henough : drawing (K.pairs (maxElements + 1)) = .enough := by
    rw [Series.drawing_pairs_succ, if_pos (by omega)]
  have hstop : K.StopsAt drawing maxElements := ⟨hall', hgiven, .inr (by simp [henough])⟩
  obtain ⟨r, w₂, past, given, hall, hover, hfinale⟩ := all_ends h hd.reacts hstop hturns
  obtain ⟨-, hsated⟩ := hd.drawn hover.fed
  cases hfinale with
  | drained hlast' => exact absurd hlast' (by simp [hlast])
  | failed herr => exact absurd hlast (by simp [Series.advance, StepCall.isLast, herr])
  | thrown _ hr => exact absurd (henough.symm.trans hr) (by simp)
  | stopped =>
    obtain ⟨k, hk, u, rfl, -⟩ := hsated (Series.pairs_succ _ _) hgiven henough
    obtain ⟨hreturns, hpanics⟩ := settle_draws (fun _ => (hc _ _ _).1) hall hk canceled
    cases hleaving : K.leaving (maxElements + 1) with
    | none =>
      rw [hleaving] at hreturns hover
      exact ⟨u, w₂, w₂, _, hreturns rfl, hover⟩
    | some v =>
      rw [hleaving] at hpanics hover
      obtain ⟨u', w', hsettle⟩ := hpanics v rfl
      exact ⟨u', w', w₂, _, hsettle, hover⟩

end

/-! ### All ways together -/

/-- The elements that a consumer was given, and the error that it was given last. -/
def delivered (given : List Pair) : List Value × Option Value :=
  ((given.filter (·.2.isNone)).map fun p => .ofAny p.1, given.getLast?.bind (·.2))

theorem filter_pairs (K : Series) (n : Nat) : (K.pairs n).filter (·.2.isNone) = K.pairs n :=
  List.filter_eq_self.mpr (by simp [Series.pairs])

theorem map_pairs (K : Series) (n : Nat) : ((K.pairs n).map fun p => Value.ofAny p.1) = K.elements n := by
  simp [Series.pairs, Series.elements]

theorem delivered_pairs (K : Series) (n : Nat) : delivered (K.pairs n) = (K.elements n, none) := by
  have hlast : (K.pairs n).getLast?.bind (·.2) = none := by
    cases n with
    | zero => rfl
    | succ n => simp [Series.pairs_succ]
  unfold delivered
  rw [filter_pairs, map_pairs, hlast]

theorem delivered_failed (K : Series) (n : Nat) (v : Value) :
    delivered (K.pairs n ++ [(none, some v)]) = (K.elements n, some v) := by
  unfold delivered
  rw [List.filter_append, filter_pairs, List.getLast?_concat]
  simp [map_pairs]

section
variable {K : Series} {c c' : Calls} {a en n : Nat} {yield : Value} {w w₀ : World}

/-- What a consumer that never stops is given is what collecting draws, with the same calls of the step function. -/
theorem collect_delivered (h : K.Starts c (.pointer .sequence a) (some yield) w₀ en w)
    (h₂ : K.Starts c (.pointer .sequence a) none w₀ en w) (hr : Reacts (fun _ => .more) c en yield w) (hn : K.Has n)
    (hturns : n < c.turns) :
    ∃ w₁ w₂ given, all c (.pointer .sequence a) yield w₀ = .ok () w₁ ∧
      Over c en (some yield) w (K.steps (n + 1)) given w₁ ∧
      collect c (.pointer .sequence a) .any w₀ = .ok (K.elements n, K.err n) w₂ ∧
      Over c en none w (K.steps (n + 1)) [] w₂ ∧ delivered given = (K.elements n, K.err n) := by
  have hstop : K.StopsAt (fun _ => .more) n := ⟨hn.live, fun _ _ => rfl, .inl hn.last⟩
  obtain ⟨r, w₁, past, given, hall, hover, hfinale⟩ := all_ends h hr hstop hturns
  obtain ⟨w₂, hcollect, hover₂⟩ := collect_ends h₂ hn.live hn.last hturns
  cases hfinale with
  | drained _ herr =>
    exact ⟨w₁, w₂, _, attempt_eq_ok.mp hall, hover, hcollect, hover₂, herr ▸ delivered_pairs K n⟩
  | failed herr =>
    exact ⟨w₁, w₂, _, attempt_eq_ok.mp hall, hover, hcollect, hover₂, herr ▸ delivered_failed K n _⟩
  | stopped hlast => exact absurd hn.last (by simp [hlast])
  | thrown hlast => exact absurd hn.last (by simp [hlast])

/-- Settling a range function that a sequence is adapted to is settling the sequence. -/
theorem settle_ranging (hc : c'.Ranges c) (a : Nat) (canceled : Bool) :
    settle c' (some (.func pairRange (.ranging a))) canceled = settle c' (some (.pointer .sequence a)) canceled := by
  have hsequence : (pairRange == Ty.sequence) = false := by decide
  have hawaitable : pairRange.awaitable? = none := by decide
  have hiterable : pairRange.iterable? = some ⟨pairRange, .any, true, .seqErr⟩ := rfl
  have hdrain : settle c' (some (.func pairRange (.ranging a))) canceled =
      drain c' (.func pairRange (.ranging a)) (yieldType pairRange) := by
    unfold settle
    have htype : (Value.func pairRange (.ranging a)).typeOf = pairRange := rfl
    refine (if_neg (by rw [htype, hsequence]; decide)).trans ?_
    simp only [htype, hawaitable, hiterable]
    rfl
  rw [hdrain, settle_sequence]
  unfold drain
  simp only [(hc pairRange a _).1, (hc pairRange a _).2, callFunc_ranging]

/-- All ways to draw the elements of a sequence that has `n` of them. -/
structure Series.Drains (K : Series) (n : ℕ∞) (c c' : Calls) (a : Nat) (w₀ : World) : Prop where
  /-- What the sequence is adapted to is called and settled like the sequence itself. -/
  adapts : ∃ f, adapt (.pointer .sequence a) pairRange w₀ = .ok f w₀ ∧
    (∀ args, c'.call f args = do c'.call (← allOf (.pointer .sequence a)) args) ∧
    ∀ canceled, settle c' (some f) canceled = settle c' (some (.pointer .sequence a)) canceled
  /-- Any consumer is given the elements until something else comes than an element after which it wants more. -/
  ranges : ∀ {yield react en w} {m : Nat}, K.Starts c (.pointer .sequence a) (some yield) w₀ en w →
    Reacts react c en yield w → K.StopsAt react m → m < c.turns →
    ∃ r w' past given, attempt (all c (.pointer .sequence a) yield) w₀ = .ok r w' ∧
      Over c en (some yield) w past given w' ∧ K.Finale react m past given r
  /-- Collecting draws what a consumer is given that never stops, with the same calls of the step function. -/
  collects : ∀ {yield en w} {m : Nat}, n = m → m < c.turns → K.Starts c (.pointer .sequence a) (some yield) w₀ en w →
    K.Starts c (.pointer .sequence a) none w₀ en w → Reacts (fun _ => .more) c en yield w →
    ∃ w₁ w₂ given, all c (.pointer .sequence a) yield w₀ = .ok () w₁ ∧
      Over c en (some yield) w (K.steps (m + 1)) given w₁ ∧
      collect c (.pointer .sequence a) .any w₀ = .ok (delivered given) w₂ ∧
      Over c en none w (K.steps (m + 1)) [] w₂ ∧ delivered given = (K.elements m, K.err m)
  /-- Settling draws the elements that are allowed, with the error that ended them if there are no more. -/
  settles : ∀ {en w} canceled, min n maxElements < c.turns →
    K.Starts c (.pointer .sequence a) (some (drawer w₀.consumers.size)) w₀.withDrawer en w →
    Draws c en w₀.consumers.size w →
    ∃ failed w₁ w₂ past given, settle c' (some (.pointer .sequence a)) canceled w₀ =
        .ok (some (listed (K.elements (min n maxElements).toNat)), failed) w₁ ∧
      Over c en (some (drawer w₀.consumers.size)) w past given w₂ ∧
      (failed = none ↔ n ≤ maxElements ∧ K.err n.toNat = none) ∧
      (n ≤ maxElements → failed = K.err n.toNat ∧ past = K.steps (n.toNat + 1)) ∧
      (maxElements < n → past = K.steps (maxElements + 1) ++ [.dispose (K.leaving (maxElements + 1))])

end

/-- All ways to draw the elements of a sequence agree. -/
theorem drains_agree {K : Series} {n : ℕ∞} {c c' : Calls} (a : Nat) (w₀ : World) (hn : K.Has n) (hc : c'.Ranges c) :
    K.Drains n c c' a w₀ where
  adapts := by
    refine ⟨_, congrFun (adapt_pairs _ a) w₀, fun args => ?_, settle_ranging hc a⟩
    rw [(hc _ _ _).2, callFunc_ranging]
    exact ((hc _ _ _).1).symm
  ranges h hr hstop hm := all_ends h hr hstop hm
  collects hnm hm h h₂ hr := by
    subst hnm
    obtain ⟨w₁, w₂, given, hall, hover, hcollect, hover₂, hgiven⟩ := collect_delivered h h₂ hr hn hm
    exact ⟨w₁, w₂, given, hall, hover, hgiven ▸ hcollect, hover₂, hgiven⟩
  settles canceled hturns h hd := by
    obtain hle | hlt := le_or_gt n maxElements
    · obtain ⟨m, rfl⟩ := ENat.ne_top_iff_exists.mp (ne_top_of_le_ne_top (ENat.natCast_ne_top _) hle)
      rw [min_eq_left hle] at hturns ⊢
      rw [Nat.cast_le] at hle
      obtain ⟨w', given, hsettle, hover⟩ := settle_all hc h hd hn hle (Nat.cast_lt.mp hturns) canceled
      refine ⟨_, w', w', _, given, hsettle, hover, ?_, fun _ => ⟨rfl, rfl⟩, fun hlt => ?_⟩
      · simp [hle]
      · rw [Nat.cast_lt] at hlt
        omega
    · have hlive : K.Live (maxElements + 1) := (hn _).mpr (Order.add_one_le_of_lt hlt)
      rw [min_eq_right hlt.le] at hturns ⊢
      obtain ⟨v, w', w₂, given, hsettle, hover⟩ := settle_first hc h hd hlive (Nat.cast_lt.mp hturns) canceled
      exact ⟨_, w', w₂, _, given, hsettle, hover, by simp [hlt], fun hle => absurd hle (by simp [hlt]), fun _ => rfl⟩

/-- The world of the two elements with a consumer that wants one of them. -/
def World.oneWanted : World := { World.twoElements with consumers := #[.wanting 1 []] }

/-- Two elements are collected and settled; a consumer that wants one of them is given the first, and learns with a
panic that the sequence could not be left. -/
theorem drains_agree_twoElements :
    Series.twoElements.Has (2 : Nat) ∧ (Calls.level 5).Ranges (Calls.level 4) ∧
      Series.twoElements.Drains (2 : Nat) (Calls.level 4) (Calls.level 5) 0 .twoElements ∧
      (∃ w, collect (Calls.level 4) (.pointer .sequence 0) .any .twoElements =
        .ok ([.ofAny (some (.ofInt 1)), .ofAny (some (.ofInt 2))], none) w) ∧
      (∃ w w', attempt (all (Calls.level 4) (.pointer .sequence 0) (drawer 0)) .oneWanted =
          .ok (.error (.panic (.error (.text .string [])))) w' ∧
        Over (Calls.level 4) 2 (some (drawer 0)) w
          (Series.twoElements.steps 1 ++ [.dispose (some (.text .string []))]) [(some (.ofInt 1), none)] w') ∧
      ∃ w, settle (Calls.level 5) (some (.pointer .sequence 0)) false .twoElements =
        .ok (some (.slice (.slice .any) [.ofAny (some (.ofInt 1)), .ofAny (some (.ofInt 2))]), none) w := by
  have hranges : (Calls.level 5).Ranges (Calls.level 4) := fun _ _ _ => ⟨rfl, rfl⟩
  have hdrains := drains_agree 0 .twoElements Series.twoElements_has hranges
  refine ⟨Series.twoElements_has, hranges, hdrains, ?_, ?_, ?_⟩
  · -- the consumer that wants more each time is one that nobody knows of
    obtain ⟨w, hstarts, he, hplays, hconsumers⟩ := twoElements_starts 3 #[] (some (drawer 0))
      (by rintro _ ⟨rfl⟩; exact consumer_spectates 3 2 0 _)
    obtain ⟨w', hstarts', -⟩ := twoElements_starts 3 #[] none nofun
    obtain rfl : w = w' := by
      cases hstarts.enumerates.symm.trans hstarts'.enumerates
      rfl
    have hmore : Reacts (fun _ => .more) (Calls.level 4) 2 (drawer 0) w :=
      scripted_more he rfl (by decide) hplays (by rw [hconsumers]; decide)
    obtain ⟨-, w₂, given, -, -, hcollect, -, hgiven⟩ := hdrains.collects rfl (by decide) hstarts hstarts' hmore
    rw [hgiven] at hcollect
    exact ⟨w₂, hcollect⟩
  · obtain ⟨w, hstarts, he, hplays, hconsumers⟩ := twoElements_starts 3 #[.wanting 1 []] (some (drawer 0))
      (by rintro _ ⟨rfl⟩; exact consumer_spectates 3 2 0 _)
    have hreacts : Reacts (wanting 1) (Calls.level 4) 2 (drawer 0) w :=
      scripted_wanting he rfl (by decide) hplays (by rw [hconsumers]; rfl)
    have henough : wanting 1 (Series.twoElements.pairs 1) = .enough := rfl
    have hstops : Series.twoElements.StopsAt (wanting 1) 0 :=
      ⟨fun _ h => absurd h (by omega), fun _ h => absurd h (by simp), .inr (by simp [henough])⟩
    obtain ⟨r, w', past, given, hall, hover, hfinale⟩ :=
      (drains_agree 0 .oneWanted Series.twoElements_has hranges).ranges hstarts hreacts hstops (by decide)
    cases hfinale with
    | drained hlast => exact absurd hlast (by decide)
    | failed herr => cases herr
    | stopped => exact ⟨w, w', hall, hover⟩
    | thrown _ hr => exact absurd (henough.symm.trans hr) (by simp)
  · obtain ⟨w, hstarts, he, hplays, hconsumers⟩ := twoElements_starts 3 #[.drawn []] (some (drawer 0))
      (by rintro _ ⟨rfl⟩; exact consumer_spectates 3 2 0 _)
    have hdraws : Draws (Calls.level 4) 2 0 w := scripted_draws he rfl (by decide) hplays (by rw [hconsumers]; rfl)
    have hle : ((2 : Nat) : ℕ∞) ≤ maxElements := Nat.cast_le.mpr (by decide)
    have hturns : min ((2 : Nat) : ℕ∞) maxElements < (Calls.level 4).turns := by
      rw [min_eq_left hle]
      exact Nat.cast_lt.mpr (by decide)
    obtain ⟨failed, w₁, w₂, past, given, hsettle, -, -, hall, -⟩ := hdrains.settles false hturns hstarts hdraws
    rw [min_eq_left hle, (hall hle).1, ENat.toNat_natCast] at hsettle
    exact ⟨w₁, hsettle⟩

end Resumable
