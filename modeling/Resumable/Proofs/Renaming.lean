import Resumable.Lower.Emit
import Resumable.Proofs.Homing

/-!
# `Proofs.Renaming`: variables that give way to copies

An iterator has copies of its parameters for every enumeration, and every use of a parameter is redirected
to its copy. No machine relies on the parameters of a lambda outside it, so the tree with the copies may
stand where the one with the parameters stood.

**Contents**
* `read_renamed`, `store_renamed`: one use of a variable.
* `substitute_recasts`: the pass.
-/

namespace Resumable

open Resumable.Expr

section
variable {m₀ m m' : Watch} {i r r' j s j' s' : Nat} {t u u' : Ty} {v w : Var} {op : AssignOp}
  {target value e : Expr}

/-- A read of a variable that the machine does not rely on may read another one. -/
theorem read_renamed (hv : ¬ m.Marks v.id) (hw : m'.Plain w.id) :
    Replaces m m' (.node i r t (.var v)) (.node i r' t (.var w)) := by
  have hforeign : ∀ {hosts}, m'.Foreign hosts (.node i r' t (.var w)) :=
    .node (fun hne => absurd rfl hne) hw (by simp [operands])
  -- what is renamed is no variable of the machine
  have hraw : ¬ m.Raw (.node i r t (.var v)) := by
    intro h
    cases h with
    | moves h | enters h | aims h | ends h | returns h | resumes h => exact h
    | parks h =>
      obtain ⟨_, -, h⟩ := h
      exact h
    | peeks h =>
      obtain h | ⟨w, hw, h⟩ := h
      · exact hv (h.1 ▸ m.marks_resume)
      · exact hv (h.1 ▸ hw.marks)
  exact
    { still := fun h => absurd h hv
      reads := fun _ => rfl
      obeys := fun role h => by
        cases h with
        | node => exact hforeign
        | user => exact .user hforeign
        | raw h => exact absurd h hraw
        | failed => exact .failed hforeign
      plain := fun _ _ _ _ _ _ => (@hforeign false).not_special
      puts := fun _ _ _ h => absurd h id
      hands := fun h => absurd h id
      calls := fun _ h => absurd h id
      transfers := fun h => by cases h
      quits := fun h => absurd h.1 id
      settles := fun h => by
        obtain h | h | ⟨_, _, _, _, _, _, h, -⟩ := h
        · exact absurd h id
        · cases h
        · cases h
      closes := fun L h _ => by
        obtain ⟨_, _, _, _, _, _, h⟩ := h
        cases h
      starts := fun h => absurd h id
      simple := fun _ => trivial
      kinds := fun k hk h => by
        simp only [List.mem_cons, List.not_mem_nil, or_false] at hk
        obtain rfl | rfl | rfl := hk <;> cases h }

/-- So may a store store into another one. -/
theorem store_renamed (hmm : m.Onward m') (hv : ¬ m.Marks v.id) (hw : m'.Plain w.id) (hr : m'.Ground r') :
    Replaces m m' (.node i r t (.assign op (.node j s u (.var v)) value))
      (.node i r' t (.assign op (.node j' s' u' (.var w)) value)) := by
  have hforeign : ∀ {hosts}, m.Foreign hosts (.node i r t (.assign op (.node j s u (.var v)) value)) →
      m'.Foreign hosts (.node i r' t (.assign op (.node j' s' u' (.var w)) value)) := by
    intro hosts h
    have hvalue := (h.ordinary (by simp [Data.kind])).2 value (mem_operands_assign.mpr (.inr rfl))
    refine .node (fun _ => hr) (fun x hx => ?_) fun c hc => ?_
    · cases hx
      exact hw
    · obtain ⟨hf, -⟩ | rfl := mem_operands_assign.mp hc
      · cases hf
      · exact hvalue.later hmm.toLater (hmm.kept c)
  -- what is renamed is no variable of the machine
  have hraw : ¬ m.RawStore (.node j s u (.var v)) value := by
    intro h
    cases h with
    | number hown ht _ =>
      obtain ⟨_, _, _, heq⟩ := ht
      cases heq
      obtain rfl | rfl := hown
      · exact hv m.marks_state
      · exact hv m.marks_resume
    | returns ht | resumes ht =>
      obtain ⟨_, _, _, heq⟩ := ht
      cases heq
      exact hv m.marks_state
    | parks hparked ht _ =>
      obtain ⟨_, _, _, heq⟩ := ht
      cases heq
      exact hv hparked.marks
  exact
    { still := fun h => absurd h id
      reads := fun h => by cases h
      obeys := fun role h => by
        cases role with
        | outside => exact hforeign h
        | inside => exact .user (hforeign (h.inside_assign.resolve_right hraw))
        | failing =>
          cases h with
          | failed h => exact .failed (hforeign h)
        | _ => cases h
      plain := fun _ _ _ _ h _ => (hforeign (h.inside_assign.resolve_right hraw)).not_special
      puts := fun x P hx h => by
        have ht := h.assign.1
        obtain ⟨_, _, _, heq⟩ := ht
        cases heq
        obtain rfl | rfl := hx
        · exact absurd m.marks_state hv
        · exact absurd m.marks_resume hv
      hands := fun h => absurd h id
      calls := fun _ h => absurd h id
      transfers := fun h => by cases h
      quits := fun h => absurd h.1 id
      settles := fun h => by
        obtain h | h | ⟨_, _, _, _, _, _, h, -⟩ := h
        · exact absurd h id
        · cases h
        · cases h
      closes := fun L h _ => by
        obtain ⟨_, _, _, _, _, _, h⟩ := h
        cases h
        exact absurd (.inl (.inr (.inr (.inl rfl)))) hv
      starts := fun h => absurd h id
      simple := id
      kinds := fun k hk h => by
        simp only [List.mem_cons, List.not_mem_nil, or_false] at hk
        obtain rfl | rfl | rfl := hk <;> cases h }

theorem Watch.Bound.not_marks (h : m.Bound v) : ¬ m.Marks v.id := by
  rintro (ho | hp | hc)
  · exact h.plain.foreign ho
  · exact h.plain.loose hp
  · exact h.other hc

/-- **Redirecting the uses of variables** that no machine relies on. -/
theorem substitute_recasts {copies : List (Var × Var)}
    (hc : ∀ v w, copies.lookup v = some w → m₀.Bound v ∧ m₀.Plain w.id) (e : Expr) :
    Recasts m₀ (fun _ => False) (Split.substitute copies e) e := by
  unfold Split.substitute
  split
  · exact .pure e
  refine .rewrite (fun n m h0 hm => ?_) e
  split
  · -- a read of a parameter
    rename_i v hd
    split
    · rename_i w hw
      obtain ⟨hv, hplain⟩ := hc v w hw
      refine (withData_reworks m n (.var w)).mono ?_
      rintro m' _ hmm ⟨i, r, r', t, d, rfl, hr, rfl⟩
      cases hd
      rw [Watch.drop_none]
      exact read_renamed (hv.ages h0.ages).not_marks (hplain.ages (h0.trans hmm).ages)
    · exact Recasts.pure n m h0 hm
  · -- a store into a parameter
    rename_i op target value hd
    split
    · rename_i w hw
      obtain ⟨v, hvar, hw⟩ := Option.bind_eq_some_iff.mp hw
      obtain ⟨hv, hplain⟩ := hc v w hw
      refine (withData_reworks m target (.var w)).bind ?_
      rintro m₁ _ h01 ⟨j, s, s', u, d, rfl, -, rfl⟩
      refine (withData_reworks m₁ n _).mono ?_
      rintro m₂ _ h12 ⟨i, r, r', t, d', rfl, hr, rfl⟩
      cases hd
      cases d with
      | var x =>
        cases hvar
        rw [Watch.drop_none]
        exact store_renamed (h01.trans h12) (hv.ages h0.ages).not_marks (hplain.ages (h0.trans (h01.trans h12)).ages) hr
      | _ => cases hvar
    · exact Recasts.pure n m h0 hm
  · exact Recasts.pure n m h0 hm

end

end Resumable
