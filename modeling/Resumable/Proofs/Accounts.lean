import Resumable.Proofs.Host

/-!
# `Proofs.Accounts`: what was done to a cell can be told from the trail

A program does one thing after the other with a cell, and so do the continuations that are called in between.
What is done leaves an event on the trail: an outcome is offered, a continuation is registered. The trail tells
which continuations were called, and the plan what each of them does. So the events of a run are accounted for
one by one: each belongs to something that was done, with what was handed over there.

**Contents**
* `gather`: the events of one kind, in the order in which they happened.
* `Tally`, `Tally.Balances`: which events deeds leave behind, and trails that hold these and no others.
* `Tally.Does`: a computation does some deeds, with a rule for each operation on a cell.
* `Tally.hosted`: whole runs.
-/

namespace Resumable

/-! ### Events -/

/-- The events of one kind on a trail, in the order in which they happened. -/
def gather (f : Footprint → Option α) (t : List Footprint) : List α := (t.filterMap f).reverse

@[simp] theorem gather_nil (f : Footprint → Option α) : gather f [] = [] := rfl

@[simp] theorem gather_cons (f : Footprint → Option α) (e : Footprint) (t : List Footprint) :
    gather f (e :: t) = gather f t ++ (f e).toList := by
  cases h : f e <;> simp [gather, h]

@[simp] theorem gather_append (f : Footprint → Option α) (t t' : List Footprint) :
    gather f (t ++ t') = gather f t' ++ gather f t := by
  simp [gather]

/-- The continuation that was called. -/
@[simp] def Footprint.entry? : Footprint → Option Nat
  | .entered k => some k
  | _ => none

open Footprint

/-! ### Accounts -/

/-- Which events deeds leave behind. Being resumed and being called happens to continuations; it is nobody's
deed. -/
structure Tally (δ : Type) where
  /-- The events that belong to deeds. -/
  marks : Footprint → Bool
  /-- The deeds that leave an event behind. -/
  counts : δ → Bool
  /-- The event may be the one that the deed leaves behind. -/
  leaves : δ → Footprint → Prop
  resumed : ∀ a k, marks (.resumed a k) = false
  entered : ∀ k, marks (.entered k) = false

namespace Tally

variable {δ : Type} {A : Tally δ} {plan : Nat → List δ} {ds ds' : List δ} {d : δ} {t t' : List Footprint}
  {e : Footprint} {k : Nat}

/-- The events on a trail belong to deeds that were done, in some order: those of the list, and what the plan
says of the continuations that were called. -/
def Balances (A : Tally δ) (plan : Nat → List δ) (ds : List δ) (t : List Footprint) : Prop :=
  ∃ done : List δ, done.Perm ((ds ++ (gather entry? t).flatMap plan).filter A.counts) ∧
    List.Forall₂ A.leaves done (t.filter A.marks).reverse

theorem Balances.nil : A.Balances plan [] [] := ⟨[], .refl _, .nil⟩

/-- What is done later leaves later events. -/
theorem Balances.append (h : A.Balances plan ds t) (h' : A.Balances plan ds' t') :
    A.Balances plan (ds ++ ds') (t' ++ t) := by
  obtain ⟨done, hperm, hleaves⟩ := h
  obtain ⟨done', hperm', hleaves'⟩ := h'
  refine ⟨done ++ done', ?_, ?_⟩
  · refine (hperm.append hperm').trans ?_
    rw [← List.filter_append, gather_append, List.flatMap_append, List.append_assoc, List.append_assoc]
    exact ((List.perm_append_comm_assoc _ _ _).append_left ds).filter _
  · rw [List.filter_append, List.reverse_append]
    exact List.rel_append hleaves hleaves'

/-- An event that belongs to no deed. -/
theorem Balances.aside (hm : A.marks e = false) (he : entry? e = none) : A.Balances plan [] [e] :=
  ⟨[], by rw [gather_cons, he]; exact .refl _, by simp [hm]⟩

/-- The event that a deed leaves behind. -/
theorem Balances.left (hd : A.counts d = true) (hm : A.marks e = true) (he : entry? e = none) (h : A.leaves d e) :
    A.Balances plan [d] [e] := by
  refine ⟨[d], ?_, by simp [hm, h]⟩
  rw [gather_cons, he]
  show [d].Perm ([d].filter A.counts)
  rw [List.filter_cons_of_pos hd]
  exact .refl _

/-- A deed that leaves no event behind. -/
theorem Balances.idle (hd : A.counts d = false) (h : A.Balances plan [] t) : A.Balances plan [d] t := by
  obtain ⟨done, hperm, hleaves⟩ := h
  refine ⟨done, ?_, hleaves⟩
  rwa [List.singleton_append, List.filter_cons_of_neg (by simp [hd])]

/-- What a continuation does is accounted for by its call. -/
theorem Balances.called (h : A.Balances plan (plan k) t) : A.Balances plan [] (t ++ [.entered k]) := by
  obtain ⟨done, hperm, hleaves⟩ := h
  refine ⟨done, ?_, ?_⟩
  · simpa using hperm
  · rw [List.filter_append, List.filter_cons_of_neg (by simp [A.entered])]
    simpa using hleaves

/-! ### Computations that do deeds -/

/-- When the computation returns, the events that it added belong to the deeds. -/
def Does (A : Tally δ) (plan : Nat → List δ) (a : Nat) (I : List Waker → View → Prop) (x : Run α)
    (ds : List δ) : Prop :=
  ∀ ⦃fly w r w'⦄, Holds a I fly w → x w = .ok r w' → ∃ t, w'.trail = t ++ w.trail ∧ A.Balances plan ds t

/-- When a continuation that is called returns, the events that were added are accounted for. -/
def Carries (A : Tally δ) (plan : Nat → List δ) (a : Nat) (I : List Waker → View → Prop) (c : Calls) : Prop :=
  ∀ ⦃k fly w w'⦄, Holds a I fly (w.add (.entered k)) → c.exec (continuation k) w = .ok () w' →
    ∃ t, w'.trail = t ++ w.trail ∧ A.Balances plan [] t

variable {a : Nat} {I : List Waker → View → Prop} {c : Calls} {fly : List Waker} {w w' : World}

theorem Does.discard {x : Run α} (h : A.Does plan a I x ds) : A.Does plan a I (discard x : Run Unit) ds := by
  intro fly w u w' hw hrun
  obtain ⟨r, hrun⟩ := Run.discard_eq_ok.mp hrun
  exact h hw hrun

theorem Does.idle {x : Run α} (hd : A.counts d = false) (h : A.Does plan a I x []) : A.Does plan a I x [d] := by
  intro fly w r w' hw hrun
  obtain ⟨t, ht, hbalances⟩ := h hw hrun
  exact ⟨t, ht, hbalances.idle hd⟩

/-- One deed after the other. -/
theorem Does.forM {f : δ → Run PUnit} (hu : ∀ d, Upholds a I (f d)) (h : ∀ d, A.Does plan a I (f d) [d])
    (ds : List δ) : A.Does plan a I (ds.forM f) ds := by
  induction ds with
  | nil =>
    intro fly w r w' _ hrun
    cases hrun
    exact ⟨[], rfl, .nil⟩
  | cons d ds ih =>
    intro fly w r w' hw hrun
    obtain ⟨_, v, hd, hds⟩ := Run.bind_eq_ok.mp hrun
    obtain ⟨t, ht, hbalances⟩ := h d hw hd
    obtain ⟨t', ht', hbalances'⟩ := ih (hu d hw hd) hds
    exact ⟨t' ++ t, by rw [ht', ht, List.append_assoc], hbalances.append hbalances'⟩

section
variable (hI : Stable a I) (hu : Resumable.Carries a I c) (hc : A.Carries plan a I c)

include hI hc

/-- Resuming a waker balances. -/
theorem resume {k : Waker} {r : Unit} (hw : Holds a I (k :: fly) w) (hrun : Run.resume c a k w = .ok r w') :
    ∃ t, w'.trail = t ++ w.trail ∧ A.Balances plan [] t := by
  obtain ⟨cell, hcell, h⟩ := hw
  obtain ⟨j, hj⟩ := hI.known h
  have hresumed : A.Balances plan [] [.resumed a k] := .aside (A.resumed a k) rfl
  rw [Run.resume_eq hcell] at hrun
  split at hrun
  · next hfree =>
    rw [hj] at hrun
    obtain ⟨t, ht, hbalances⟩ := hc (w := w.add (.resumed a k)) ⟨cell, hcell, hI.ran h hfree hj⟩ hrun
    refine ⟨t ++ [.resumed a k], by rw [ht, List.append_assoc]; rfl, ?_⟩
    exact hresumed.append hbalances
  · next hloop =>
    rw [hj] at hrun
    cases hrun
    exact ⟨[.resumed a k], rfl, hresumed⟩
  · next hnowhere => exact absurd hnowhere (hI.somewhere h)

include hu

theorem resumeAll {ks : List Waker} {r : PUnit} (hw : Holds a I (ks ++ fly) w)
    (hrun : ks.forM (Run.resume c a) w = .ok r w') : ∃ t, w'.trail = t ++ w.trail ∧ A.Balances plan [] t := by
  induction ks generalizing w with
  | nil =>
    cases hrun
    exact ⟨[], rfl, .nil⟩
  | cons k ks ih =>
    obtain ⟨_, v, hk, hks⟩ := Run.bind_eq_ok.mp hrun
    obtain ⟨t, ht, hbalances⟩ := resume hI hc hw hk
    obtain ⟨t', ht', hbalances'⟩ := ih (hI.resume hu hw hk) hks
    exact ⟨t' ++ t, by rw [ht', ht, List.append_assoc], hbalances.append hbalances'⟩

/-- Offering an outcome leaves the offer behind, and what the continuations do that it resumes. -/
theorem finish {err value : Option Value} (h : ∀ taken, A.Balances plan ds [.offered a err value taken]) :
    A.Does plan a I (Run.finish c a err value) ds := by
  intro fly w r w' hw hrun
  obtain ⟨cell, hcell, hcur⟩ := hw
  cases hd : cell.done with
  | true =>
    rw [Run.finish_of_done hcell hd] at hrun
    cases hrun
    exact ⟨_, rfl, h false⟩
  | false =>
    rw [Run.finish_of_pending hcell hd] at hrun
    obtain ⟨_, v, hwake, hrun⟩ := Run.bind_eq_ok.mp hrun
    cases hrun
    obtain ⟨t, ht, hbalances⟩ := resumeAll hI hu hc
      (Holds.setCell (w := w.add (.offered a err value true)) hcell (hI.taken hcur hd)) hwake
    refine ⟨t ++ [.offered a err value true], by rw [ht, List.append_assoc]; rfl, ?_⟩
    have hall := (h true).append hbalances
    rwa [List.append_nil] at hall

/-- What making a cell fail does is accounted for when the offer is. -/
theorem fail {e : Option Value}
    (h : ∀ p taken, A.Balances plan ds [.offered a (some (e.getD (.pointer (.pointer (.named .errorText)) p))) none taken]) :
    A.Does plan a I (Run.fail c a e) ds := by
  cases e with
  | some e => exact finish hI hu hc fun taken => h 0 taken
  | none =>
    intro fly w r w' hw hrun
    have hdoes := finish hI hu hc (h w.store.size)
    exact hdoes (w := { w with store := w.store.push _ }) (hw.alloc _) hrun

omit hu in
/-- Registering a continuation leaves the registration behind. -/
theorem onCompleted {j : Nat} {inline : Bool}
    (h : A.Balances plan ds [.registered a ⟨continuation j, inline⟩]) :
    A.Does plan a I (Run.onCompleted c a (continuation j) inline) ds := by
  intro fly w r w' hw hrun
  obtain ⟨cell, hcell, hcur⟩ := hw
  cases hd : cell.done with
  | true =>
    rw [Run.onCompleted_of_done hcell hd] at hrun
    obtain ⟨t, ht, hbalances⟩ := resume hI hc (w := w.add (.registered a ⟨continuation j, inline⟩))
      ⟨cell, hcell, hI.late hcur hd⟩ hrun
    refine ⟨t ++ [.registered a ⟨continuation j, inline⟩], by rw [ht, List.append_assoc]; rfl, ?_⟩
    have hall := h.append hbalances
    rwa [List.append_nil] at hall
  | false =>
    rw [Run.onCompleted_of_pending hcell hd] at hrun
    cases hrun
    exact ⟨_, rfl, h⟩

end

/-- A turn of the loop leaves behind what the continuation does that it calls. -/
theorem runOnce (hc : A.Carries plan a I c)
    (hturn : ∀ {fly v l l' k}, I fly v → v.loop = some l → l.next? = some (k, l') →
      ∃ j, k = continuation j ∧ I fly ({ v with loop := some l' }.add (.entered j))) :
    A.Does plan a I (Run.runOnce c) [] := by
  intro fly w r w' hw hrun
  obtain ⟨cell, hcell, h⟩ := hw
  rw [runOnce_eq] at hrun
  split at hrun
  · cases hrun
    exact ⟨[], rfl, .nil⟩
  · next k l' hnext =>
    obtain ⟨l, hl, hnext⟩ := Option.bind_eq_some_iff.mp hnext
    obtain ⟨j, rfl, hj⟩ := hturn h hl hnext
    split at hrun
    · next u v hexec =>
      cases hrun
      exact hc (w := { w with loop := some l' }) ⟨cell, hcell, hj⟩ hexec
    · cases hrun

/-! ### Runs -/

section
variable {perform : Calls → δ → Run Unit} (hu : ∀ c, Resumable.Carries a I c → ∀ d, Upholds a I (perform c d))
  (h : ∀ c, Resumable.Carries a I c → A.Carries plan a I c → ∀ d, A.Does plan a I (perform c d) [d])

include hu h

/-- Continuations leave behind what they do. -/
theorem carries_hosting : ∀ n, A.Carries plan a I (Calls.hosting (fun c k => (plan k).forM (perform c)) n)
  | 0, _, _, _, _, _, hrun => nomatch hrun
  | 1, _, _, _, _, _, hrun => nomatch hrun
  | n + 2, k, fly, w, w', hw, hrun => by
    rw [Run.exec_continuation] at hrun
    have hupholds := Resumable.carries_hosting (fun c hc k => Upholds.forM (hu c hc) (plan k)) n
    obtain ⟨t, ht, hbalances⟩ :=
      Does.forM (hu _ hupholds) (h _ hupholds (carries_hosting n)) (plan k) hw hrun
    exact ⟨t ++ [.entered k], by rw [ht, List.append_assoc]; rfl, hbalances.called⟩

/-- **All events are accounted for**, when deeds are done one after the other, together with what the
continuations do then. -/
theorem hosted (n : Nat) (ds : List δ) :
    A.Does plan a I (ds.forM (perform (Calls.hosting (fun c k => (plan k).forM (perform c)) n))) ds := by
  have hupholds := Resumable.carries_hosting (fun c hc k => Upholds.forM (hu c hc) (plan k)) n
  exact Does.forM (hu _ hupholds) (h _ hupholds (carries_hosting hu h n)) ds

end

end Tally

end Resumable
