import Resumable.Lower.Optimize
import Resumable.Lower.Rescope
import Resumable.Proofs.Build

/-!
# `Proofs.Passes`: the passes after assembly keep a tree lowered

Neither moving variables nor the optimizer brings back a suspension point: whatever they put into a tree
was in it before, or is built from such parts.
-/

namespace Resumable

open Resumable.Expr Build

variable {x y : Expr} {t : Ty} {d : Data Expr}

/-! ### Moving variables -/

/-- Moving variables to their homes keeps a tree lowered. -/
theorem Scopes.Placement.apply_builds (p : Scopes.Placement) (x : Expr) (hx : IsLowered x) :
    Builds (p.apply x) IsLowered := by
  rw [Scopes.Placement.apply]
  refine (mapChildren_builds hx fun c hc hl => apply_builds p c hl).bind fun y hy => ?_
  split
  · rename_i vars xs hd
    dsimp only
    split
    · exact Builds.pure hy
    · exact withData_builds ⟨rfl, fun c hc => lowered_of_data? hy hd hc⟩
  · rename_i target value hd
    split
    · split
      · exact coerce_builds (lowered_of_data? hy hd (mem_operands_assign.mpr (Or.inr rfl)))
      · exact Builds.pure hy
    · exact Builds.pure hy
  · exact Builds.pure hy
  termination_by sizeOf x
  decreasing_by exact sizeOf_lt_of_mem_children hc

theorem rescope_builds (ignore : List Var) (hx : IsLowered x) : Builds (x.rescope ignore) IsLowered :=
  Scopes.Placement.apply_builds _ x hx

/-! ### Rules for blocks -/

namespace Expr

/-- All statements of a block are lowered. -/
def AllLowered (xs : List Expr) : Prop := ∀ x ∈ xs, IsLowered x

theorem allLowered_cons {xs : List Expr} : AllLowered (x :: xs) ↔ IsLowered x ∧ AllLowered xs :=
  List.forall_mem_cons

theorem allLowered_append {xs ys : List Expr} :
    AllLowered (xs ++ ys) ↔ AllLowered xs ∧ AllLowered ys :=
  List.forall_mem_append

theorem lowered_of_plainStore? {v : Var} (hx : IsLowered x) (h : x.plainStore? = some (v, y)) :
    IsLowered y := by
  unfold plainStore? at h
  split at h
  · split at h
    · cases h
    · cases h
      exact (lowered_node.mp hx).2 _ (mem_operands_assign.mpr (Or.inr rfl))
  · cases h

/-- Taking the statements out of a block in a block leaves them lowered. -/
theorem flatten_builds {xs : List Expr} (hxs : AllLowered xs) :
    Builds (flatten t xs) fun out => ∀ b ∈ out, AllLowered b.2 := by
  induction xs with
  | nil => exact Builds.pure (by simp)
  | cons x rest ih =>
    obtain ⟨hx, hrest⟩ := allLowered_cons.mp hxs
    unfold flatten
    extract_lets later
    have hlater : Builds later fun out => ∀ b ∈ out, AllLowered b.2 := by
      refine (ih hrest).bind fun out hout => Builds.pure fun b hb => ?_
      obtain ⟨c, hc, rfl⟩ := Option.map_eq_some_iff.mp hb
      exact allLowered_cons.mpr ⟨hx, hout c hc⟩
    refine (dataOf_builds x).bind fun d hd => ?_
    split
    · split
      · refine Builds.pure fun b hb => ?_
        cases hb
        exact allLowered_append.mpr ⟨fun c hc => lowered_of_data? hx hd hc, hrest⟩
      · exact hlater
    · exact hlater

/-- What is left of lowered statements is lowered. -/
theorem allLowered_dropInert {xs ys : List Expr} (hxs : AllLowered xs)
    (h : dropInert t xs = some ys) : AllLowered ys := by
  induction xs generalizing ys with
  | nil => cases h
  | cons x rest ih =>
    obtain ⟨hx, hrest⟩ := allLowered_cons.mp hxs
    unfold dropInert at h
    split at h
    · cases h
    · split at h
      · cases h
        exact hrest
      · obtain ⟨zs, hzs, rfl⟩ := Option.map_eq_some_iff.mp h
        exact allLowered_cons.mpr ⟨hx, ih hrest hzs⟩

/-- Dropping what is never reached leaves statements lowered. -/
theorem truncate_builds {xs : List Expr} (hxs : AllLowered xs) :
    Builds (truncate t xs) fun out => ∀ ys ∈ out, AllLowered ys := by
  induction xs with
  | nil => exact Builds.pure (by simp)
  | cons x rest ih =>
    obtain ⟨hx, hrest⟩ := allLowered_cons.mp hxs
    unfold truncate
    split
    · exact Builds.pure (by simp)
    · split
      · refine (ih hrest).bind fun out hout => Builds.pure fun ys hys => ?_
        obtain ⟨zs, hzs, rfl⟩ := Option.map_eq_some_iff.mp hys
        exact allLowered_cons.mpr ⟨hx, hout zs hzs⟩
      · split
        · exact Builds.pure (by simp)
        · split
          · refine (withType_builds hx).bind fun y hy => Builds.pure fun ys hys => ?_
            cases hys
            exact allLowered_cons.mpr ⟨hy, by simp [AllLowered]⟩
          · refine Builds.pure fun ys hys => ?_
            cases hys
            exact allLowered_cons.mpr ⟨hx, by simp [AllLowered]⟩

/-- Two stores of one variable in a row become one that is lowered. -/
theorem collapseStores_builds (vars : List Var) (all : List Expr) :
    ∀ xs, AllLowered xs → Builds (collapseStores vars all xs) fun out => ∀ b ∈ out, AllLowered b.2
  | [], _ => Builds.pure (by simp)
  | [a], _ => Builds.pure (by simp)
  | a :: b :: rest, hxs => by
    obtain ⟨ha, hxs⟩ := allLowered_cons.mp hxs
    obtain ⟨hb, hrest⟩ := allLowered_cons.mp hxs
    unfold collapseStores
    extract_lets later
    have hlater : Builds later fun out => ∀ b ∈ out, AllLowered b.2 := by
      refine (collapseStores_builds vars all (b :: rest) hxs).bind fun out hout =>
        Builds.pure fun c hc => ?_
      obtain ⟨d, hd, rfl⟩ := Option.map_eq_some_iff.mp hc
      exact allLowered_cons.mpr ⟨ha, hout d hd⟩
    split
    · rename_i x v target value hstore hd
      split
      · exact hlater
      · refine (dataOf_builds _).bind fun _ _ => ?_
        split
        · exact hlater
        · refine (coerce_builds (lowered_of_plainStore? ha hstore)).bind fun w hw => ?_
          refine Builds.bind (withData_builds (plain_assign (fun hf => ?_) hw)) fun merged hm => ?_
          · exact lowered_of_data? hb hd (mem_operands_assign.mpr (Or.inl ⟨hf, rfl⟩))
          · refine Builds.pure fun c hc => ?_
            cases hc
            exact allLowered_cons.mpr ⟨hm, hrest⟩
    · exact hlater

/-- Dropping a last store leaves statements lowered. -/
theorem dropTrailingStore_builds {vars : List Var} {xs : List Expr} (hxs : AllLowered xs) :
    Builds (dropTrailingStore t vars xs) fun out => ∀ ys ∈ out, AllLowered ys := by
  unfold dropTrailingStore
  split
  · exact Builds.pure (by simp)
  · rename_i x v hlast
    obtain ⟨last, hmem, hstore⟩ := Option.bind_eq_some_iff.mp hlast
    have hv : IsLowered v := lowered_of_plainStore? (hxs last (List.mem_of_getLast? hmem)) hstore
    have hall : ∀ w, IsLowered w → AllLowered (xs.dropLast ++ [w]) := fun w hw =>
      allLowered_append.mpr
        ⟨fun c hc => hxs c (List.dropLast_subset _ hc), by simpa [AllLowered] using hw⟩
    split
    · exact Builds.pure (by simp)
    · extract_lets tail
      split
      · refine Builds.pure fun ys hys => ?_
        cases hys
        exact hall v hv
      · refine (coerce_builds hv).bind fun w hw => Builds.pure fun ys hys => ?_
        cases hys
        exact hall w hw

/-- One simplification of a lowered block leaves it lowered. -/
theorem stepBlock_builds {b : BlockParts} (hb : AllLowered b.2) :
    Builds (stepBlock t b) fun out => ∀ c ∈ out, AllLowered c.2 := by
  obtain ⟨vars, xs⟩ := b
  unfold stepBlock
  have hsome : ∀ {vs ys}, AllLowered ys → Builds (pure (some (vs, ys)) : Build (Option BlockParts))
      fun out => ∀ c ∈ out, AllLowered c.2 := fun hys => Builds.pure fun c hc => by
    cases hc
    exact hys
  refine (flatten_builds hb).bind fun out hout => ?_
  split
  · exact hsome (hout _ rfl)
  · split
    · rename_i hdrop
      exact hsome (allLowered_dropInert hb hdrop)
    · refine (truncate_builds hb).bind fun out hout => ?_
      split
      · exact hsome (hout _ rfl)
      · refine (collapseStores_builds vars xs xs hb).bind fun out hout => ?_
        split
        · exact hsome (hout _ rfl)
        · refine (dropTrailingStore_builds hb).bind fun out hout => Builds.pure fun c hc => ?_
          obtain ⟨ys, hys, rfl⟩ := Option.map_eq_some_iff.mp hc
          exact hout ys hys

/-- Applying the rules until none fires keeps statements lowered. -/
theorem settleBlock_builds (fuel : Nat) {b : BlockParts} (hb : AllLowered b.2) :
    Builds (settleBlock t fuel b) fun c => AllLowered c.2 := by
  induction fuel generalizing b with
  | zero => exact Builds.pure hb
  | succ fuel ih =>
    unfold settleBlock
    refine (stepBlock_builds hb).bind fun out hout => ?_
    split
    · exact ih (hout _ rfl)
    · exact Builds.pure hb

/-- **What becomes of a lowered block** is lowered. -/
theorem optimizeBlock_builds {vars : List Var} {xs : List Expr} (hxs : AllLowered xs) :
    Builds (optimizeBlock x vars xs) IsLowered := by
  unfold optimizeBlock
  refine (settleBlock_builds _ (b := (vars, xs)) hxs).bind ?_
  rintro ⟨vars', ys⟩ hys
  have hblock : ∀ {vs}, Builds (Build.withData x (.block vs ys)) IsLowered :=
    withData_builds ⟨rfl, fun c hc => hys c hc⟩
  dsimp only
  split
  · split
    · exact Builds.pure (hys _ List.mem_cons_self)
    · exact hblock
  · split
    · exact empty_builds
    · exact hblock
  · exact hblock

/-! ### Rules for other nodes -/

theorem lowered_dropSelfStore (hx : IsLowered x) : IsLowered (dropSelfStore x) := by
  unfold dropSelfStore
  split
  · rename_i hstore
    split
    · exact lowered_of_plainStore? hx hstore
    · exact hx
  · exact hx

theorem lowered_single? (hx : IsLowered x) (h : x.single? = some y) : IsLowered y := by
  fun_induction single? x with
  | case1 => cases h
  | case2 i r t x ih => exact ih ((lowered_node.mp hx).2 x (by simp [operands])) h
  | case3 => cases h
  | case4 x =>
    cases h
    exact hx

/-- Making arms one that do the same leaves a tree lowered. -/
theorem mergeArms_builds {alike : Option Value → Option Value → Bool} {test a b : Expr}
    (hx : IsLowered x) (ha : IsLowered a) : Builds (mergeArms alike x test a b) IsLowered := by
  unfold mergeArms
  split
  · rename_i c d hc hd
    split
    · split
      · exact Builds.pure hx
      · split
        · exact Builds.throw _
        · split
          · exact Builds.pure hx
          · exact Builds.pure (lowered_single? ha hc)
    · exact Builds.pure hx
  · exact Builds.pure hx

/-- Optimizing keeps a tree lowered. -/
theorem optimize_builds (alike : Option Value → Option Value → Bool) (hx : IsLowered x) :
    Builds (x.optimize alike) IsLowered := by
  unfold optimize
  refine rewrite_builds (fun n hn => ?_) hx
  split
  · rename_i hd
    exact optimizeBlock_builds fun c hc => lowered_of_data? hn hd hc
  · exact Builds.pure (lowered_dropSelfStore hn)
  · rename_i test a b hd
    exact mergeArms_builds hn (lowered_of_data? hn hd (by simp [operands]))
  · exact Builds.pure hn

end Expr

end Resumable
