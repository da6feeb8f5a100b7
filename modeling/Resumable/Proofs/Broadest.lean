import Mathlib
import Resumable.Ty.Set

/-!
# `Proofs.Broadest`: a set of types remembers what it covered

A set of types keeps the broadest ones only: an addition may be turned away, and it may throw out types that
were added before. Nothing is forgotten by that. Of every type that was ever added, a broader one is still in
the set, and when what takes a broader type takes the narrower one as well, the set covers exactly what the
types added to it cover.

**Contents**
* `TypeSet.addAll`: a run of additions, with the answer to each.
* `TypeSet.Remembers`: what one addition keeps (`Remembers.add`) and so all of them (`Remembers.addAll`).
* `TypeSet.addAll_remembers`: the set and the answers after any run.
-/

namespace Resumable

namespace TypeSet

variable {P : Ty → Prop} {s : TypeSet} {t u : Ty} {ts past : List Ty}

/-- A type is accepted where it can be assigned. -/
theorem covers_eq (broad narrow : Ty) : covers broad narrow = narrow.assignableTo broad := by
  unfold covers
  by_cases h : broad = narrow
  · subst h
    simp [Ty.assignableTo]
  · rw [beq_false_of_ne h, Bool.false_or]

theorem covers_self (t : Ty) : covers t t = true := by
  simp [covers]

theorem contains_iff : s.contains t = true ↔ ∃ u ∈ s.types, covers u t = true := List.any_eq_true

/-- Adds types in order and gives the answer to each. -/
def addAll (s : TypeSet) : List Ty → List Bool × TypeSet
  | [] => ([], s)
  | t :: ts =>
    let (fresh, s) := s.add t
    let (answers, s) := s.addAll ts
    (fresh :: answers, s)

/-- Among the types with `P`, what is accepted by a type is accepted by the types that this one is assignable
to. -/
def TransitiveOn (P : Ty → Prop) : Prop :=
  ∀ t u v, P t → P u → P v → t.assignableTo u = true → u.assignableTo v = true → t.assignableTo v = true

/-- Neither of the types accepts the other. -/
def Apart (t u : Ty) : Prop := covers t u = false ∧ covers u t = false

/-- The set stands for the types of the past: it holds some of them, none of which covers another, and every
other one is covered. -/
structure Remembers (past : List Ty) (s : TypeSet) : Prop where
  retained : ∀ u ∈ s.types, u ∈ past
  apart : s.types.Pairwise Apart
  broader : ∀ u ∈ past, s.contains u = true

theorem remembers_empty : Remembers [] {} where
  retained _ hu := hu
  apart := .nil
  broader _ hu := absurd hu List.not_mem_nil

/-- The set covers what some type of the past covers: a type that is gone was thrown out by a broader one. -/
theorem Remembers.contains_iff (hP : TransitiveOn P) (h : Remembers past s) (hpast : ∀ u ∈ past, P u)
    (ht : P t) : s.contains t = true ↔ ∃ u ∈ past, covers u t = true := by
  rw [TypeSet.contains_iff]
  constructor
  · rintro ⟨v, hv, hcovers⟩
    exact ⟨v, h.retained v hv, hcovers⟩
  · rintro ⟨u, hu, hcovers⟩
    obtain ⟨v, hv, hbroader⟩ := TypeSet.contains_iff.mp (h.broader u hu)
    refine ⟨v, hv, ?_⟩
    rw [covers_eq] at hcovers hbroader ⊢
    exact hP t u v ht (hpast u hu) (hpast v (h.retained v hv)) hcovers hbroader

theorem add_of_contains (h : s.contains t = true) : s.add t = (false, s) := if_pos h

theorem add_of_not_contains (h : s.contains t = false) :
    s.add t = (true, ⟨s.types.filter (fun u => !covers t u) ++ [t]⟩) :=
  if_neg (Bool.not_eq_true _ ▸ h)

theorem add_fst (s : TypeSet) (t : Ty) : (s.add t).1 = !s.contains t := by
  cases h : s.contains t with
  | true => rw [add_of_contains h]; rfl
  | false => rw [add_of_not_contains h]; rfl

/-- What was covered before an addition is covered after it: what covered it stays, or is covered by the type
that is added. -/
theorem Remembers.contains_add (hP : TransitiveOn P) (h : Remembers past s) (hpast : ∀ u ∈ past, P u)
    (ht : P t) (hu : u ∈ past) : (s.add t).2.contains u = true := by
  cases hcontains : s.contains t with
  | true =>
    rw [add_of_contains hcontains]
    exact h.broader u hu
  | false =>
    rw [add_of_not_contains hcontains, TypeSet.contains_iff]
    obtain ⟨v, hv, hcovers⟩ := TypeSet.contains_iff.mp (h.broader u hu)
    cases hout : covers t v with
    | false =>
      have hstays : v ∈ s.types.filter (fun u => !covers t u) :=
        List.mem_filter.mpr ⟨hv, by rw [hout]; rfl⟩
      exact ⟨v, List.mem_append_left _ hstays, hcovers⟩
    | true =>
      refine ⟨t, List.mem_append_right _ (List.mem_singleton_self t), ?_⟩
      rw [covers_eq] at hcovers hout ⊢
      exact hP u v t (hpast u hu) (hpast v (h.retained v hv)) ht hcovers hout

theorem length_addAll : (s.addAll ts).1.length = ts.length := by
  induction ts generalizing s with
  | nil => rfl
  | cons t ts ih => exact congrArg Nat.succ ih

/-- One addition. -/
theorem Remembers.add (hP : TransitiveOn P) (h : Remembers past s) (hpast : ∀ u ∈ past, P u) (ht : P t) :
    Remembers (past ++ [t]) (s.add t).2 := by
  have hbefore : ∀ u ∈ past, (s.add t).2.contains u = true := fun u hu => h.contains_add hP hpast ht hu
  cases hcontains : s.contains t with
  | true =>
    rw [add_of_contains hcontains] at hbefore ⊢
    refine ⟨fun u hu => List.mem_append_left _ (h.retained u hu), h.apart, ?_⟩
    intro u hu
    rcases List.mem_append.mp hu with hu | hu
    · exact hbefore u hu
    · rw [List.mem_singleton.mp hu]
      exact hcontains
  | false =>
    rw [add_of_not_contains hcontains] at hbefore ⊢
    refine ⟨?_, ?_, ?_⟩
    · intro u hu
      rcases List.mem_append.mp hu with hu | hu
      · exact List.mem_append_left _ (h.retained u (List.mem_of_mem_filter hu))
      · exact List.mem_append_right _ hu
    · refine List.pairwise_append.mpr ⟨h.apart.filter _, List.pairwise_singleton _ _, ?_⟩
      intro u hu v hv
      rw [List.mem_singleton.mp hv]
      obtain ⟨hu, hkept⟩ := List.mem_filter.mp hu
      -- what is kept is not covered by the new type, and does not cover it or it would not be new
      exact ⟨Bool.not_eq_true _ ▸ List.any_eq_false.mp hcontains u hu, (Bool.not_eq_true' _).mp hkept⟩
    · intro u hu
      rcases List.mem_append.mp hu with hu | hu
      · exact hbefore u hu
      · rw [List.mem_singleton.mp hu, TypeSet.contains_iff]
        exact ⟨t, List.mem_append_right _ (List.mem_singleton_self t), covers_self t⟩

/-- A run of additions. The answer to each says whether no type before it accepts it. -/
theorem Remembers.addAll (hP : TransitiveOn P) (h : Remembers past s) (hpast : ∀ u ∈ past, P u)
    (hts : ∀ t ∈ ts, P t) : Remembers (past ++ ts) (s.addAll ts).2 ∧
      ∀ before t after, ts = before ++ t :: after →
        (s.addAll ts).1[before.length]? = some (!(past ++ before).any (covers · t)) := by
  induction ts generalizing past s with
  | nil =>
    rw [List.append_nil]
    exact ⟨h, fun before t after heq => absurd heq (by simp)⟩
  | cons t ts ih =>
    obtain ⟨ht, hts⟩ := List.forall_mem_cons.mp hts
    have hnext : ∀ u ∈ past ++ [t], P u :=
      List.forall_mem_append.mpr ⟨hpast, List.forall_mem_singleton.mpr ht⟩
    obtain ⟨hrest, hanswers⟩ := ih (h.add hP hpast ht) hnext hts
    rw [List.append_assoc, List.singleton_append] at hrest
    refine ⟨hrest, ?_⟩
    intro before t' after heq
    cases before with
    | nil =>
      obtain ⟨rfl, -⟩ := List.cons.inj heq
      have hany : s.contains t = past.any (covers · t) := by
        rw [Bool.eq_iff_iff, h.contains_iff hP hpast ht, List.any_eq_true]
      show some (s.add t).1 = _
      rw [add_fst, hany, List.append_nil]
    | cons x before =>
      obtain ⟨rfl, htail⟩ := List.cons.inj heq
      have hanswer := hanswers before t' after htail
      rw [List.append_assoc, List.singleton_append] at hanswer
      exact hanswer

/-- **A set of types remembers what it covered.** After any run of additions of types among which assignability
is transitive, no type that is retained is assignable to another one; a type is covered exactly when it is
assignable to one of the types added, whether that was retained, turned away or thrown out since; and an
addition was answered with true exactly when the type was not assignable to any type added before it. -/
theorem addAll_remembers (hP : TransitiveOn P) (ts : List Ty) (hts : ∀ t ∈ ts, P t) :
    ((({} : TypeSet).addAll ts).2.types.Pairwise fun t u =>
      t.assignableTo u = false ∧ u.assignableTo t = false) ∧
    (∀ t, P t → ((({} : TypeSet).addAll ts).2.contains t = true ↔ ∃ u ∈ ts, t.assignableTo u = true)) ∧
    (({} : TypeSet).addAll ts).1.length = ts.length ∧
    ∀ before t after, ts = before ++ t :: after →
      ∃ fresh, (({} : TypeSet).addAll ts).1[before.length]? = some fresh ∧
        (fresh = true ↔ ∀ u ∈ before, t.assignableTo u = false) := by
  obtain ⟨h, hanswers⟩ := remembers_empty.addAll hP (fun u hu => absurd hu List.not_mem_nil) hts
  rw [List.nil_append] at h
  refine ⟨?_, ?_, ?_, ?_⟩
  · refine h.apart.imp fun {t u} hapart => ?_
    rw [Apart, covers_eq, covers_eq] at hapart
    exact hapart.symm
  · intro t ht
    rw [h.contains_iff hP hts ht]
    exact exists_congr fun u => and_congr_right fun _ => by rw [covers_eq]
  · exact length_addAll
  · intro before t after heq
    refine ⟨_, hanswers before t after heq, ?_⟩
    rw [List.nil_append, Bool.not_eq_true', List.any_eq_false]
    exact forall₂_congr fun u _ => by rw [covers_eq, Bool.not_eq_true]

/-- A narrow error is thrown out by the interface of all errors, which then turns another one away; a type of
another sort stands beside it. -/
theorem addAll_remembers_errors :
    TransitiveOn (· ∈ [Ty.named .valErr, .error, .named .sliceErr, .int]) ∧
    (({} : TypeSet).addAll [.named .valErr, .error, .named .sliceErr, .int]).2.types = [.error, .int] ∧
    (({} : TypeSet).addAll [.named .valErr, .error, .named .sliceErr, .int]).2.contains (.named .valErr) = true ∧
    ∃ fresh, (({} : TypeSet).addAll [.named .valErr, .error, .named .sliceErr, .int]).1[2]? = some fresh ∧
      (fresh = true ↔ ∀ u ∈ [Ty.named .valErr, .error], (Ty.named .sliceErr).assignableTo u = false) := by
  have hP : TransitiveOn (· ∈ [Ty.named .valErr, .error, .named .sliceErr, .int]) := by
    have hall : ∀ t ∈ [Ty.named .valErr, .error, .named .sliceErr, .int],
        ∀ u ∈ [Ty.named .valErr, .error, .named .sliceErr, .int],
        ∀ v ∈ [Ty.named .valErr, .error, .named .sliceErr, .int],
        t.assignableTo u = true → u.assignableTo v = true → t.assignableTo v = true := by decide
    exact fun t u v ht hu hv => hall t ht u hu v hv
  obtain ⟨-, hcontains, -, hanswers⟩ := addAll_remembers hP _ fun _ ht => ht
  refine ⟨hP, by decide, ?_, hanswers [.named .valErr, .error] (.named .sliceErr) [.int] rfl⟩
  exact (hcontains _ (by decide)).mpr ⟨.error, by decide, by decide⟩

end TypeSet

end Resumable
