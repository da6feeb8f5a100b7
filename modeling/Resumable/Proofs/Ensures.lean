import Mathlib
import Resumable.Expr.Build

/-!
# `Proofs.Ensures`: what holds after every successful run

Splitting and lowering are computations that read a plan, change a state and may fail. `Ensures` says
what holds of the result and of the state when they do not fail, and follows the way they are put
together. `Yields` says besides that they do not fail.
-/

namespace Resumable

/-- Every successful run of `x` from `s` ends as `Q` says. -/
def Ensures {ρ σ : Type} (p : ρ) (s : σ) (x : ReaderT ρ (EStateM Fault σ) α) (Q : α → σ → Prop) :
    Prop :=
  ∀ a s', x p s = .ok a s' → Q a s'

namespace Ensures

variable {ρ σ : Type} {p : ρ} {s : σ} {x : ReaderT ρ (EStateM Fault σ) α} {Q R : α → σ → Prop}
  {Q' : β → σ → Prop}

theorem pure {a : α} (h : Q a s) : Ensures p s (pure a) Q := by
  intro b s' heq
  cases heq
  exact h

theorem throw (f : Fault) : Ensures p s (throw f) Q := by
  intro b s' heq
  cases heq

theorem bind {f : α → ReaderT ρ (EStateM Fault σ) β} (hx : Ensures p s x R)
    (hf : ∀ a s', R a s' → Ensures p s' (f a) Q') : Ensures p s (x >>= f) Q' := by
  intro b s' heq
  change EStateM.bind (x p) (fun a => f a p) s = _ at heq
  unfold EStateM.bind at heq
  split at heq
  · rename_i a s₁ hrun
    exact hf a s₁ (hx a s₁ hrun) b s' heq
  · cases heq

theorem mono (hx : Ensures p s x R) (h : ∀ a s', R a s' → Q a s') : Ensures p s x Q :=
  fun a s' heq => h a s' (hx a s' heq)

theorem and (hx : Ensures p s x Q) (hx' : Ensures p s x R) :
    Ensures p s x fun a s' => Q a s' ∧ R a s' :=
  fun a s' heq => ⟨hx a s' heq, hx' a s' heq⟩

theorem map {f : α → β} (hx : Ensures p s x fun a s' => Q' (f a) s') : Ensures p s (f <$> x) Q' := by
  intro b s' heq
  change EStateM.map f (x p) s = _ at heq
  unfold EStateM.map at heq
  split at heq
  · rename_i a s₁ hrun
    cases heq
    exact hx a _ hrun
  · cases heq

/-- A computation that is known to succeed. -/
theorem of_run {a : α} {s' : σ} (hrun : x p s = .ok a s') (h : Q a s') :
    Ensures p s x Q := by
  intro b s'' heq
  rw [hrun] at heq
  cases heq
  exact h

theorem read {f : ρ → ReaderT ρ (EStateM Fault σ) β} (h : Ensures p s (f p) Q') :
    Ensures p s (read >>= f) Q' := h

theorem get {f : σ → ReaderT ρ (EStateM Fault σ) β} (h : Ensures p s (f s) Q') :
    Ensures p s (get >>= f) Q' := h

theorem modify {f : σ → σ} {k : PUnit → ReaderT ρ (EStateM Fault σ) β}
    (h : Ensures p (f s) (k ⟨⟩) Q') :
    Ensures p s (MonadStateOf.modifyGet (fun s => (⟨⟩, f s)) >>= k) Q' := h

/-- A walk over a list, with an invariant over what is still ahead. -/
theorem forIn {xs : List γ} {f : γ → β → ReaderT ρ (EStateM Fault σ) (ForInStep β)} {b : β}
    {I : List γ → β → σ → Prop} (h0 : I xs b s)
    (hf : ∀ x rest b s, I (x :: rest) b s →
      Ensures p s (f x b) fun r s' => ∃ b', r = .yield b' ∧ I rest b' s') :
    Ensures p s (forIn xs b f) fun b s' => I [] b s' := by
  induction xs generalizing b s with
  | nil =>
    rw [List.forIn_nil]
    exact pure h0
  | cons x xs ih =>
    rw [List.forIn_cons]
    refine bind (hf x xs b s h0) fun r s' => ?_
    rintro ⟨b', rfl, h⟩
    exact ih h

/-- Work on every element of a list. -/
theorem mapM {f : γ → ReaderT ρ (EStateM Fault σ) α} {xs : List γ} {P : α → Prop} {I : σ → Prop}
    (h0 : I s)
    (hf : ∀ c ∈ xs, ∀ s, I s → Ensures p s (f c) fun a s' => P a ∧ I s') :
    Ensures p s (xs.mapM f) fun ys s' => (∀ y ∈ ys, P y) ∧ I s' := by
  induction xs generalizing s with
  | nil =>
    rw [List.mapM_nil]
    exact pure ⟨by simp, h0⟩
  | cons c cs ih =>
    rw [List.mapM_cons]
    refine bind (hf c List.mem_cons_self s h0) ?_
    rintro y s₁ ⟨hy, h1⟩
    refine bind (ih h1 fun c hc => hf c (List.mem_cons_of_mem _ hc)) ?_
    rintro ys s₂ ⟨hys, h2⟩
    refine pure ⟨fun z hz => ?_, h2⟩
    obtain rfl | hz := List.mem_cons.mp hz
    · exact hy
    · exact hys z hz

end Ensures

/-- The run of `x` from `s` succeeds and ends as `Q` says. -/
def Yields {ρ σ : Type} (p : ρ) (s : σ) (x : ReaderT ρ (EStateM Fault σ) α) (Q : α → σ → Prop) : Prop :=
  ∃ a s', x p s = .ok a s' ∧ Q a s'

namespace Yields

variable {ρ σ : Type} {p : ρ} {s : σ} {x : ReaderT ρ (EStateM Fault σ) α} {Q R : α → σ → Prop}
  {Q' : β → σ → Prop}

theorem of_run {a : α} {s' : σ} (hrun : x p s = .ok a s') (h : Q a s') : Yields p s x Q := ⟨a, s', hrun, h⟩

theorem pure {a : α} (h : Q a s) : Yields p s (pure a) Q := of_run rfl h

theorem bind {f : α → ReaderT ρ (EStateM Fault σ) β} (hx : Yields p s x R)
    (hf : ∀ a s', R a s' → Yields p s' (f a) Q') : Yields p s (x >>= f) Q' := by
  obtain ⟨a, s₁, hrun, ha⟩ := hx
  obtain ⟨b, s₂, hrun', hb⟩ := hf a s₁ ha
  refine ⟨b, s₂, ?_, hb⟩
  change EStateM.bind (x p) (fun a => f a p) s = _
  unfold EStateM.bind
  rw [hrun]
  exact hrun'

theorem mono (hx : Yields p s x R) (h : ∀ a s', R a s' → Q a s') : Yields p s x Q := by
  obtain ⟨a, s', hrun, ha⟩ := hx
  exact ⟨a, s', hrun, h a s' ha⟩

theorem read {f : ρ → ReaderT ρ (EStateM Fault σ) β} (h : Yields p s (f p) Q') : Yields p s (read >>= f) Q' := h

theorem get {f : σ → ReaderT ρ (EStateM Fault σ) β} (h : Yields p s (f s) Q') : Yields p s (get >>= f) Q' := h

end Yields

end Resumable
