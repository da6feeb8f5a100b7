import Mathlib
import Resumable.Proofs.Walks

/-!
# `Proofs.Agree`: two runs that do the same

To say that a pass keeps the meaning of a tree is to compare two runs, one of the tree and one of what
became of it. The two may use different slots for one variable and different amounts of fuel, and nothing
else may differ. `Follows` says of two computations that from related worlds the second does what the first
does, ending in related worlds again; where the first gives up, nothing is said. `Agree` is the case in
which one relation holds all along, and the rules below put it together the way computations are put
together.

**Contents**
* `World.Peer`, `Lax`: worlds that differ in slots and trail only, and relations between such worlds.
* `Follows`, with a rule for every way to build a computation.
* `Agree`: the class that instance search puts together for the functions behind a tree.
-/

namespace Resumable

/-- Two worlds without closures that differ in the slots of variables and in the trail only. -/
structure World.Peer (w w' : World) : Prop where
  rest : w' = { w with slots := w'.slots, trail := w'.trail }
  closures : w.closures = #[]

/-- Relations between peers that look at nothing but their slots. -/
class Lax (I : World → World → Prop) : Prop where
  peer : ∀ {w w'}, I w w' → w.Peer w'
  keep : ∀ {w w' v v'}, I w w' → v.Peer v' → v.slots = w.slots → v'.slots = w'.slots → I v v'

/-- The second computation does what the first does: from worlds in `P` both return, and `Q` holds of
the results and worlds, or both stop for the same reason in worlds in `E`. Nothing is said when the first
stops for a reason in `lost`. -/
def Follows (lost : Stop → Prop) (P : World → World → Prop) (x : Run α) (y : Run β)
    (Q : α → β → World → World → Prop) (E : World → World → Prop) : Prop :=
  ∀ w w', P w w' →
    match x w with
    | .ok a v => ∃ b v', y w' = .ok b v' ∧ Q a b v v'
    | .error s v => lost s ∨ ∃ v', y w' = .error s v' ∧ E v v'

namespace Follows

variable {lost lost' : Stop → Prop} {P P' E E' : World → World → Prop} {x : Run α} {y : Run β}
  {Q Q' : α → β → World → World → Prop} {f : α → Run γ} {g : β → Run δ}
  {R : γ → δ → World → World → Prop}

/-- What is known after a run may be forgotten. -/
theorem mono (h : Follows lost P x y Q E) (hlost : ∀ s, lost s → lost' s) (hP : ∀ w w', P' w w' → P w w')
    (hQ : ∀ a b w w', Q a b w w' → Q' a b w w') (hE : ∀ w w', E w w' → E' w w') :
    Follows lost' P' x y Q' E' := by
  intro w w' hw
  have := h w w' (hP w w' hw)
  split at this
  · obtain ⟨b, v', hy, hq⟩ := this
    exact ⟨b, v', hy, hQ _ _ _ _ hq⟩
  · refine this.imp (hlost _) ?_
    rintro ⟨v', hy, he⟩
    exact ⟨v', hy, hE _ _ he⟩

theorem post (h : Follows lost P x y Q E) (hQ : ∀ a b w w', Q a b w w' → Q' a b w w') :
    Follows lost P x y Q' E :=
  h.mono (fun _ => id) (fun _ _ => id) hQ fun _ _ => id

theorem lose (h : Follows lost P x y Q E) (hlost : ∀ s, lost s → lost' s) : Follows lost' P x y Q E :=
  h.mono hlost (fun _ _ => id) (fun _ _ _ _ => id) fun _ _ => id

theorem pure {a : α} {b : β} (h : ∀ w w', P w w' → Q a b w w') :
    Follows lost P (pure a) (pure b) Q E :=
  fun w w' hw => ⟨b, w', rfl, h w w' hw⟩

theorem throw (s : Stop) (h : ∀ w w', P w w' → E w w') :
    Follows lost P (throw s : Run α) (throw s : Run β) Q E :=
  fun w w' hw => Or.inr ⟨w', rfl, h w w' hw⟩

/-- Giving up is followed by anything. -/
theorem giveUp {s : Stop} (h : lost s) : Follows lost P (MonadExcept.throw s : Run α) y Q E :=
  fun _ _ _ => Or.inl h

/-- So is running out of turns. -/
theorem spent (h : lost .exhausted) : Follows lost P (Run.giveUp : Run α) y Q E :=
  fun _ _ _ => Or.inl h

/-- Two computations agree when their parts do, one after the other. -/
theorem bind (hx : Follows lost P x y Q E)
    (hf : ∀ a b, Follows lost (Q a b) (f a) (g b) R E) :
    Follows lost P (x >>= f) (y >>= g) R E := by
  intro w w' hw
  change match EStateM.bind x f w with | .ok a v => _ | .error s v => _
  have hrun := hx w w' hw
  unfold EStateM.bind
  cases hxw : x w with
  | ok a v =>
    rw [hxw] at hrun
    obtain ⟨b, v', hy, hq⟩ := hrun
    have hgy : (y >>= g) w' = g b v' := by
      change EStateM.bind y g w' = _
      unfold EStateM.bind
      rw [hy]
    rw [hgy]
    exact hf a b v v' hq
  | error s v =>
    rw [hxw] at hrun
    refine hrun.imp id ?_
    rintro ⟨v', hy, he⟩
    refine ⟨v', ?_, he⟩
    change EStateM.bind y g w' = _
    unfold EStateM.bind
    rw [hy]

theorem map {F : α → γ} {G : β → δ} (hx : Follows lost P x y Q E)
    (hR : ∀ a b w w', Q a b w w' → R (F a) (G b) w w') :
    Follows lost P (F <$> x) (G <$> y) R E := by
  rw [map_eq_pure_bind, map_eq_pure_bind]
  exact hx.bind fun a b => pure (hR a b)

/-- Looking at the outcome of a run: a run that gave up must be given up on. -/
theorem attempt_bind {k : Except Stop α → Run γ} {k' : Except Stop β → Run δ}
    (hx : Follows lost P x y Q E)
    (hok : ∀ a b, Follows lost' (Q a b) (k (.ok a)) (k' (.ok b)) R E')
    (herr : ∀ s, ¬ lost s → Follows lost' E (k (.error s)) (k' (.error s)) R E')
    (hlost : ∀ s, lost s → ∀ w, ∃ t v, k (.error s) w = .error t v ∧ lost' t) :
    Follows lost' P (Run.attempt x >>= k) (Run.attempt y >>= k') R E' := by
  intro w w' hw
  have hrun := hx w w' hw
  have hleft : (Run.attempt x >>= k) w = match x w with
      | .ok a v => k (.ok a) v
      | .error s v => k (.error s) v := by
    change EStateM.bind (Run.attempt x) k w = _
    unfold EStateM.bind Run.attempt
    cases x w <;> rfl
  have hright : (Run.attempt y >>= k') w' = match y w' with
      | .ok a v => k' (.ok a) v
      | .error s v => k' (.error s) v := by
    change EStateM.bind (Run.attempt y) k' w' = _
    unfold EStateM.bind Run.attempt
    cases y w' <;> rfl
  rw [hleft, hright]
  cases hxw : x w with
  | ok a v =>
    rw [hxw] at hrun
    obtain ⟨b, v', hy, hq⟩ := hrun
    rw [hy]
    exact hok a b v v' hq
  | error s v =>
    rw [hxw] at hrun
    by_cases hs : lost s
    · obtain ⟨t, v₁, hk, ht⟩ := hlost s hs v
      dsimp only
      rw [hk]
      exact Or.inl ht
    · obtain ⟨v', hy, he⟩ := hrun.resolve_left hs
      rw [hy]
      exact herr s hs v v' he

/-- Looking at the world: the two worlds agree in all but slots and trail. -/
theorem get_bind {f : World → Run γ} {g : World → Run δ} (hP : ∀ w w', P w w' → w.Peer w')
    (h : ∀ w slots trail, w.closures = #[] →
      Follows lost P (f w) (g { w with slots := slots, trail := trail }) R E) :
    Follows lost P (get >>= f) (get >>= g) R E := by
  intro w w' hw
  have hp := hP w w' hw
  have := h w w'.slots w'.trail hp.closures w w' hw
  rw [← hp.rest] at this
  exact this

end Follows

/-- What goes on after a computation that returned. -/
theorem Run.bind_of_ok {x : Run α} {f : α → Run β} {a : α} {w v : World} (h : x w = .ok a v) :
    (x >>= f) w = f a v := by
  change EStateM.bind x f w = _
  unfold EStateM.bind
  rw [h]

/-- From worlds in `I` the two computations do the same and end in worlds in `I`, unless the first runs
out of fuel. -/
class Agree (I : World → World → Prop) (x y : Run α) : Prop where
  follows : Follows (· = .exhausted) I x y (fun a b w w' => a = b ∧ I w w') I

namespace Agree

variable {I : World → World → Prop} {x y : Run α} {f g : α → Run β}

theorem bind (hx : Agree I x y) (hf : ∀ a, Agree I (f a) (g a)) : Agree I (x >>= f) (y >>= g) where
  follows := hx.follows.bind fun a b => by
    intro w w' h
    obtain ⟨rfl, hw⟩ := h
    exact (hf a).follows w w' hw

instance [hx : Agree I x y] [hf : ∀ a, Agree I (f a) (g a)] : Agree I (x >>= f) (y >>= g) :=
  hx.bind hf

/-- Computations that do the same may come before any others. -/
theorem follows_bind {lost : Stop → Prop} {h : α → Run γ} {k : α → Run δ}
    {R : γ → δ → World → World → Prop} (hx : Agree I x y) (hlost : lost .exhausted)
    (hf : ∀ a, Follows lost I (h a) (k a) R I) : Follows lost I (x >>= h) (y >>= k) R I := by
  refine (hx.follows.lose fun _ hs => hs ▸ hlost).bind fun a b w w' hw => ?_
  obtain ⟨rfl, hw⟩ := hw
  exact hf a w w' hw

instance {p : Prop} [Decidable p] {x' y' : Run α} [hx : Agree I x y] [hx' : Agree I x' y'] :
    Agree I (if p then x else x') (if p then y else y') := by
  split
  · exact hx
  · exact hx'

instance (a : α) : Agree I (pure a) (pure a) := ⟨.pure fun _ _ h => ⟨rfl, h⟩⟩

instance (s : Stop) : Agree I (throw s : Run α) (throw s) := ⟨.throw s fun _ _ h => h⟩

instance (s : Stop) : Agree I (EStateM.throw s : Run α) (EStateM.throw s) := ⟨.throw s fun _ _ h => h⟩

instance [hx : Agree I x y] (F : α → β) : Agree I (F <$> x) (F <$> y) :=
  ⟨hx.follows.map fun _ _ _ _ h => ⟨congrArg F h.1, h.2⟩⟩

instance [hx : Agree I x y] : Agree I (discard x) (discard y) :=
  inferInstanceAs (Agree I ((fun _ => PUnit.unit) <$> x) ((fun _ => PUnit.unit) <$> y))

/-- Looking at the outcome of a run; a run without fuel is given up on. -/
theorem attempt_bind {k k' : Except Stop α → Run β} (hx : Agree I x y)
    (hok : ∀ a, Agree I (k (.ok a)) (k' (.ok a)))
    (herr : ∀ s, Agree I (k (.error s)) (k' (.error s)))
    (hout : k (.error .exhausted) = throw .exhausted) :
    Agree I (Run.attempt x >>= k) (Run.attempt y >>= k') where
  follows := by
    refine hx.follows.attempt_bind (fun a b => ?_) (fun s _ => (herr s).follows) ?_
    · intro w w' h
      obtain ⟨rfl, hw⟩ := h
      exact (hok a).follows w w' hw
    · rintro s rfl w
      exact ⟨.exhausted, w, by rw [hout]; rfl, rfl⟩

/-- Loops agree when their turns do, also with more turns to spare. -/
theorem iterate {step step' : σ → Run (σ ⊕ α)} (h : ∀ s, Agree I (step s) (step' s)) {n n' : Nat}
    (hn : n ≤ n') (s : σ) : Agree I (Run.iterate step n s) (Run.iterate step' n' s) := by
  induction n generalizing n' s with
  | zero => exact ⟨.spent rfl⟩
  | succ n ih =>
    obtain ⟨k, rfl⟩ : ∃ k, n' = k + 1 := ⟨n' - 1, by omega⟩
    rw [Run.iterate_succ, Run.iterate_succ]
    refine (h s).bind fun r => ?_
    cases r with
    | inl t => exact ih (Nat.le_of_succ_le_succ hn) t
    | inr a => exact (inferInstance : Agree I (pure a) (pure a))

instance mapM {F G : γ → Run α} [h : ∀ c, Agree I (F c) (G c)] (cs : List γ) :
    Agree I (cs.mapM F) (cs.mapM G) := by
  induction cs with
  | nil =>
    rw [List.mapM_nil, List.mapM_nil]
    infer_instance
  | cons c cs ih =>
    rw [List.mapM_cons, List.mapM_cons]
    exact (h c).bind fun a => ih.bind fun as => inferInstance

theorem forM {F G : γ → Run PUnit} (h : ∀ c, Agree I (F c) (G c)) (cs : List γ) :
    Agree I (cs.forM F) (cs.forM G) := by
  induction cs with
  | nil => exact inferInstanceAs (Agree I (pure PUnit.unit) (pure PUnit.unit))
  | cons c cs ih => exact (h c).bind fun _ => ih

variable [Lax I]

/-- Looking at the world. -/
theorem get_bind {f g : World → Run β}
    (h : ∀ w slots trail, w.closures = #[] → Agree I (f w) (g { w with slots := slots, trail := trail })) :
    Agree I (get >>= f) (get >>= g) :=
  ⟨.get_bind (fun _ _ => Lax.peer) fun w slots trail hc => (h w slots trail hc).follows⟩

/-- A change of the world that neither looks at slots and trail nor changes them, nor makes closures. -/
structure Blind (f : World → α × World) : Prop where
  through : ∀ w slots trail, f { w with slots := slots, trail := trail } =
    ((f w).1, { (f w).2 with slots := slots, trail := trail })
  slots : ∀ w, (f w).2.slots = w.slots
  closures : ∀ w, (f w).2.closures = w.closures

theorem modifyGet {f : World → α × World} (h : Blind f) :
    Agree I (MonadStateOf.modifyGet f : Run α) (MonadStateOf.modifyGet f) where
  follows := by
    intro w w' hw
    have hp : w.Peer w' := Lax.peer hw
    have hf := h.through w w'.slots w'.trail
    rw [← hp.rest] at hf
    refine ⟨(f w).1, (f w').2, ?_, rfl, ?_⟩
    · show EStateM.Result.ok (f w').1 (f w').2 = _
      rw [hf]
    · refine Lax.keep hw ⟨?_, (h.closures w).trans hp.closures⟩ (h.slots w) (h.slots w')
      rw [hf]

end Agree

end Resumable
