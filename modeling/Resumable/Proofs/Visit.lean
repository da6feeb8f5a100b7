import Resumable.Lower.Visit
import Resumable.Proofs.Steps

/-!
# `Proofs.Visit`: visiting a tree keeps the invariant

Each case of splitting is shown to keep the invariant under the assumption that visiting the operands
does; the whole visit follows by induction on the height. What a visit of `e` gives is a lowered tree,
and the labels placed at the nodes it looks at have been reached.

**Contents**
* `Body`, `Fits`: the trees that are visited.
* `Visits`: what visiting a tree ensures.
* One lemma for each case, and `visit_ensures` for all of them.
-/

namespace Resumable

namespace Expr

/-- The identity of a node; 0 for an empty slot. -/
def ref : Expr → Nat
  | .absent => 0
  | .node _ r _ _ => r

/-- A store of a value goes into a variable or a field. -/
def storesPlainly : Expr → Bool
  | .node _ _ _ (.assign _ target value) =>
    value.isAbsent || target.hasKind .variable || target.hasKind .field
  | _ => true

/-- A body whose nested lambdas are lowered: its stores go into variables and fields, and every node
stands at one place. -/
structure Body (e : Expr) : Prop where
  prepared : Prepared e
  stores : ∀ n ∈ e.ownNodes, n.storesPlainly = true
  once : (e.ownNodes.map ref).Nodup

theorem Body.operand {i r : Nat} {t : Ty} {d : Data Expr} {c : Expr} (h : Body (.node i r t d))
    (hd : d.kind ≠ .lambda) (hc : c ∈ operands d) : Body c := by
  have hsub : c.ownNodes.Sublist (Expr.node i r t d).ownNodes := by
    rw [ownNodes_node, if_neg hd]
    refine List.Sublist.cons _ ?_
    obtain ⟨xs, ys, heq⟩ := List.append_of_mem hc
    rw [heq, List.flatMap_append, List.flatMap_cons]
    exact (List.sublist_append_left _ _).trans (List.sublist_append_right _ _)
  exact ⟨(prepared_node hd).mp h.prepared c hc, fun n hn => h.stores n (hsub.subset hn),
    h.once.sublist (hsub.map ref)⟩

/-- Operands at two places are the same node only when both slots are empty. -/
theorem Body.distinct {i r : Nat} {t : Ty} {d : Data Expr} {a b : Expr} {xs ys : List Expr}
    (h : Body (.node i r t d)) (hd : d.kind ≠ .lambda) (hops : operands d = xs ++ ys) (ha : a ∈ xs)
    (hb : b ∈ ys) (hs : a.same b = true) : b.isAbsent = true := by
  cases b with
  | absent => rfl
  | node j q u c =>
    cases a with
    | absent => cases hs
    | node k m w e =>
      have honce := h.once
      rw [ownNodes_node, if_neg hd, hops, List.flatMap_append, List.map_cons, List.map_append,
        List.nodup_cons, List.nodup_append] at honce
      refine absurd (beq_iff_eq.mp hs) (honce.2.2.2 m ?_ q ?_)
      · exact List.mem_map.mpr ⟨_, List.mem_flatMap.mpr ⟨_, ha, self_mem_nodes⟩, rfl⟩
      · exact List.mem_map.mpr ⟨_, List.mem_flatMap.mpr ⟨_, hb, self_mem_nodes⟩, rfl⟩

end Expr

namespace Split

open Resumable.Expr Build

/-- A tree that can be visited: the labels it jumps to are among those that are reached. -/
structure Fits (p : Plan) (goals : List Label) (e : Expr) : Prop where
  body : Body e
  aims : ∀ l ∈ p.index.aims e, l ∈ goals

theorem not_lambda_of_needed {ix : JumpIndex} {i r : Nat} {t : Ty} {d : Data Expr}
    (h : ix.needed (.node i r t d) = true) : d.kind ≠ .lambda := by
  intro hd
  simp [JumpIndex.needed, hasKind, kind?, data?, hd] at h

theorem Fits.operand {p : Plan} {goals : List Label} {i r : Nat} {t : Ty} {d : Data Expr} {c : Expr}
    (h : Fits p goals (.node i r t d)) (hn : p.index.needed (.node i r t d) = true)
    (hc : c ∈ operands d) : Fits p goals c :=
  ⟨h.body.operand (not_lambda_of_needed hn) hc,
    fun l hl => h.aims l ((JumpIndex.mem_aims_node hn).mpr (Or.inr ⟨c, hc, hl⟩))⟩

/-- A tree was visited: its value is lowered, and the labels placed in it have been reached. -/
def Visited (p : Plan) (L : Ledger) (e v : Expr) (s : Splitter) : Prop :=
  IsLowered v ∧ Inv (L.enter (p.index.marks e)) s

/-- What visiting trees ensures. -/
def Visits (p : Plan) (visit : Expr → Split Expr) : Prop :=
  ∀ e L s, Inv L s → Fits p L.goals e → Ensures p s (visit e) (Visited p L e)

/-- A node that has to be split, at the moment it is visited. -/
structure Starts (p : Plan) (L : Ledger) (s : Splitter) (e : Expr) : Prop where
  needed : p.index.needed e = true
  fits : Fits p L.goals e
  inv : Inv L s

section
variable {p : Plan} {visit : Expr → Split Expr} {L : Ledger} {s : Splitter} {e x : Expr}
  {i r : Nat} {t : Ty} {d : Data Expr}

theorem Inv.enter_congr {ls ls' : List Label} (h : Inv (L.enter ls) s)
    (heq : ∀ l, l ∈ ls' ↔ l ∈ ls) : Inv (L.enter ls') s :=
  h.weaken rfl rfl rfl (fun l => by simp [Ledger.enter, heq]) (fun _ h => h) h.held fun _ h => h

/-- Reaching the labels of one tree after those of others. -/
theorem Inv.enter_append {ls ls' : List Label} (h : Inv ((L.enter ls).enter ls') s) :
    Inv (L.enter (ls ++ ls')) s :=
  h.weaken rfl rfl rfl (fun l => by simp only [Ledger.enter, List.mem_append]; grind)
    (fun _ h => h) h.held fun _ h => h

/-- A tree that is not split is its own value. -/
theorem lowered_of_not_needed (hb : Body e) (hn : p.index.needed e = false) : IsLowered e := by
  cases e with
  | absent => exact lowered_absent
  | node i r t d =>
    by_cases hd : d.kind = .lambda
    · exact (prepared_lambda hd).mp hb.prepared
    · refine hb.prepared.lowered ?_
      have : ((Expr.node i r t d).isAsync || p.index.escapes (.node i r t d)) = false := by
        simpa [JumpIndex.needed, isAbsent, hasKind, kind?, data?, hd] using hn
      exact (Bool.or_eq_false_iff.mp this).1

/-! ### Operators and blocks -/

/-- Visiting operands in order gives lowered values and reaches the labels of all of them. -/
theorem visitOperands_ensures (hv : Visits p visit) (xs : List Expr)
    (hfits : ∀ x ∈ xs, Fits p L.goals x) (h : Inv L s) :
    Ensures p s (visitOperands visit xs) fun rs s' =>
      rs.length = xs.length ∧ (∀ r ∈ rs, IsLowered r) ∧
        Inv (L.enter (xs.flatMap p.index.marks)) s' := by
  induction xs generalizing L s with
  | nil => exact Ensures.pure ⟨rfl, by simp, h⟩
  | cons x xs ih =>
    have hrest : ∀ v s₁, IsLowered v → Inv (L.enter (p.index.marks x)) s₁ →
        Ensures p s₁ (do return v :: (← visitOperands visit xs)) fun rs s' =>
          rs.length = (x :: xs).length ∧ (∀ r ∈ rs, IsLowered r) ∧
            Inv (L.enter ((x :: xs).flatMap p.index.marks)) s' := by
      intro v s₁ hval h1
      refine (ih (L := L.enter (p.index.marks x)) (fun y hy => hfits y (List.mem_cons_of_mem _ hy))
        h1).bind ?_
      rintro rs s₂ ⟨hlen, hrs, h2⟩
      refine Ensures.pure ⟨by simp [hlen], ?_, h2.enter_append⟩
      simpa [hval] using hrs
    unfold visitOperands
    refine (hv x L s h (hfits x List.mem_cons_self)).bind ?_
    rintro v s₁ ⟨hval, h1⟩
    refine .anyNeeds ?_
    extract_lets tail
    split
    · refine (spill_ensures h1 hval).bind ?_
      rintro w s₂ ⟨hw, h2⟩
      exact hrest w s₂ hw h2
    · exact hrest v s₁ hval h1

/-- The labels that are reached at a node which places none are those of its operands. -/
theorem Inv.enter_operands (h : Inv (L.enter ((operands d).flatMap p.index.marks)) s)
    (hn : p.index.needed (.node i r t d) = true) (hp : placedHere (.node i r t d) = []) :
    Inv (L.enter (p.index.marks (.node i r t d))) s := by
  refine h.enter_congr fun l => ?_
  rw [JumpIndex.mem_marks_node hn, hp, List.mem_flatMap]
  simp

/-- The statements of a block are split one after the other. -/
theorem visitBlock_ensures (hv : Visits p visit) {vars : List Var} {xs : List Expr}
    (h : Starts p L s (.node i r t (.block vars xs))) :
    Ensures p s (visitBlock visit (.node i r t (.block vars xs)) vars xs)
      (Visited p L (.node i r t (.block vars xs))) := by
  have hfits : ∀ x ∈ xs, Fits p L.goals x := fun x hx => h.fits.operand h.needed hx
  have h0 := h.inv.silent (Nat.le_refl _) s.moments s.context s.cleanups s.caught
    (s.vars ++ vars.toArray)
  unfold visitBlock
  refine Ensures.modify ?_
  cases hlast : xs.getLast? with
  | none =>
    cases List.getLast?_eq_none_iff.mp hlast
    refine (build_ensures (default_builds _) h0).mono ?_
    rintro v s₁ ⟨hval, h1, _⟩
    refine ⟨hval, ?_⟩
    exact Inv.enter_operands (d := .block vars []) h1 h.needed rfl
  | some last =>
    obtain ⟨front, rfl⟩ := List.getLast?_eq_some_iff.mp hlast
    rw [List.dropLast_concat]
    -- the statements before the last, with the marks of those that are done
    refine Ensures.bind (Ensures.forIn (I := fun rest _ s' => ∃ done : List Expr, front = done ++ rest ∧
      Inv (L.enter (done.flatMap p.index.marks)) s') ⟨[], rfl, h0⟩ ?_) ?_
    · rintro x rest _ s₁ ⟨done, rfl, h1⟩
      refine (hv x _ s₁ h1 (hfits x (by simp))).bind ?_
      rintro v s₂ ⟨hval, h2⟩
      refine (emit_ensures h2 hval).bind ?_
      rintro _ s₃ ⟨h3, _⟩
      refine Ensures.pure ⟨_, rfl, done ++ [x], by simp, ?_⟩
      rw [List.flatMap_append, List.flatMap_singleton]
      exact h3.enter_append
    · rintro _ s₁ ⟨done, heq, h1⟩
      rw [List.append_nil] at heq
      subst heq
      -- the last one is the value of the block
      refine (hv last _ s₁ h1 (hfits last (by simp))).bind ?_
      rintro v s₂ ⟨hval, h2⟩
      have hend : ∀ {s'}, Inv ((L.enter (front.flatMap p.index.marks)).enter (p.index.marks last)) s' →
          Inv (L.enter (p.index.marks (.node i r t (.block vars (front ++ [last]))))) s' := by
        intro s' h'
        refine Inv.enter_operands (d := .block vars (front ++ [last])) ?_ h.needed rfl
        rw [operands, List.flatMap_append, List.flatMap_singleton]
        exact h'.enter_append
      split
      · refine (emit_ensures h2 hval).bind ?_
        rintro _ s₃ ⟨h3, _⟩
        refine (build_ensures empty_builds h3).mono ?_
        rintro v s₄ ⟨hv4, h4, _⟩
        exact ⟨hv4, hend h4⟩
      · refine (build_ensures (coerce_builds hval) h2).mono ?_
        rintro v s₃ ⟨hv3, h3, _⟩
        exact ⟨hv3, hend h3⟩

/-- A node that is rebuilt around the value of its only operand. -/
theorem visitOne_ensures (hv : Visits p visit) (h : Starts p L s (.node i r t d))
    (hops : operands d = [x]) (hp : placedHere (.node i r t d) = []) {f : Expr → Data Expr}
    (hf : ∀ v, IsLowered v → Plain (f v)) :
    Ensures p s (do Build.withData (.node i r t d) (f (← visit x)))
      (Visited p L (.node i r t d)) := by
  have hx : x ∈ operands d := by simp [hops]
  refine (hv x L s h.inv (h.fits.operand h.needed hx)).bind ?_
  rintro v s₁ ⟨hval, h1⟩
  refine (build_ensures (withData_builds (hf v hval)) h1).mono ?_
  rintro w s₂ ⟨hw, h2, _⟩
  refine ⟨hw, ?_⟩
  refine Inv.enter_operands ?_ h.needed hp
  rw [hops, List.flatMap_singleton]
  exact h2

theorem isVariable_of_storesPlainly {op : AssignOp} {target value : Expr}
    (h : (Expr.node i r t (.assign op target value)).storesPlainly = true)
    (hv : value.isAbsent = false) (hf : target.hasKind .field = false) :
    target.hasKind .variable = true := by
  simpa [storesPlainly, hv, hf] using h

theorem lowered_of_variable (h : x.hasKind .variable = true) : IsLowered x := by
  cases x with
  | absent => exact lowered_absent
  | node i r t d =>
    cases d <;> cases h
    exact lowered_node.mpr ⟨rfl, by simp [operands]⟩

theorem not_absent_of_needed {ix : JumpIndex} (h : ix.needed e = true) : e.isAbsent = false := by
  cases e with
  | absent => cases h
  | node i r t d => rfl

/-- The object of a field that is assigned to is visited in place of the field. -/
theorem Fits.object {goals : List Label} {object : Expr} {name : String}
    (h : Fits p goals (.node i r t (.field object name))) :
    Fits p goals object ∧
      ∀ l, l ∈ p.index.marks (.node i r t (.field object name)) ↔ l ∈ p.index.marks object := by
  have hn : p.index.needed (.node i r t (.field object name)) = p.index.needed object :=
    JumpIndex.needed_wrap rfl (fun hd => by cases hd) rfl rfl rfl
  refine ⟨⟨h.body.operand (fun hd => by cases hd) List.mem_cons_self, fun l hl => ?_⟩, fun l => ?_⟩
  · exact h.aims l (JumpIndex.mem_aims_wrap rfl hn hl)
  · exact JumpIndex.mem_marks_wrap rfl rfl hn

/-- The labels in a store are those in its target, where that is a field, and in its value. -/
theorem mem_marks_assign {op : AssignOp} {target value : Expr}
    (hn : p.index.needed (.node i r t (.assign op target value)) = true) (l : Label) :
    l ∈ p.index.marks (.node i r t (.assign op target value)) ↔
      (target.hasKind .field = true ∧ l ∈ p.index.marks target) ∨ l ∈ p.index.marks value := by
  rw [JumpIndex.mem_marks_node hn]
  simp only [placedHere, List.not_mem_nil, false_or, mem_operands_assign]
  grind

/-- A store to a field is split with the object of the field evaluated before its value. -/
theorem visitField_ensures (hv : Visits p visit) {op : AssignOp} {object value : Expr} {name : String}
    {ti tr : Nat} {tt : Ty}
    (h : Starts p L s (.node i r t (.assign op (.node ti tr tt (.field object name)) value))) :
    Ensures p s (visitAssign visit (.node i r t (.assign op (.node ti tr tt (.field object name)) value)) op
        (.node ti tr tt (.field object name)) value)
      (Visited p L (.node i r t (.assign op (.node ti tr tt (.field object name)) value))) := by
  have hvalue : Fits p L.goals value :=
    h.fits.operand h.needed (mem_operands_assign.mpr (Or.inr rfl))
  obtain ⟨hobject, hsame⟩ := (h.fits.operand h.needed (mem_operands_assign.mpr
    (Or.inl ⟨rfl, rfl⟩))).object
  unfold visitAssign
  refine .needs ?_
  refine (hv object L s h.inv hobject).bind ?_
  rintro ob s₁ ⟨hob, h1⟩
  extract_lets tail
  -- the object is as it was, or it is kept in a variable
  have htail : ∀ ob s₂, IsLowered ob → Inv (L.enter (p.index.marks object)) s₂ →
      Ensures p s₂ (tail ob) (Visited p L (.node i r t (.assign op
        (.node ti tr tt (.field object name)) value))) := by
    intro ob s₂ hob h2
    refine (build_ensures (withData_builds ⟨rfl, by simpa [operands] using hob⟩) h2).bind ?_
    rintro target s₃ ⟨htarget, h3, _⟩
    cases hn : p.index.needed value with
    | false =>
      have hval := lowered_of_not_needed hvalue.body hn
      refine (build_ensures (withData_builds (plain_assign (fun _ => htarget) hval)) h3).mono ?_
      rintro w s₄ ⟨hw, h4, _⟩
      refine ⟨hw, h4.enter_congr fun l => ?_⟩
      rw [mem_marks_assign h.needed, hsame, JumpIndex.marks_of_not_needed hn]
      simp [hasKind, kind?, data?, Data.kind]
    | true =>
      have hend : ∀ {s'}, Inv ((L.enter (p.index.marks object)).enter (p.index.marks value)) s' →
          Inv (L.enter (p.index.marks (.node i r t (.assign op
            (.node ti tr tt (.field object name)) value)))) s' := by
        intro s' h'
        refine h'.enter_append.enter_congr fun l => ?_
        rw [mem_marks_assign h.needed, hsame, List.mem_append]
        simp [hasKind, kind?, data?, Data.kind]
      cases hop : op.binary? with
      | some b =>
        -- a compound store reads the field before its value is evaluated
        refine (spill_ensures h3 htarget).bind ?_
        rintro old s₄ ⟨hold, h4⟩
        refine (hv value _ s₄ h4 hvalue).bind ?_
        rintro v s₅ ⟨hval, h5⟩
        refine (build_ensures (binary_builds hold hval) h5).bind ?_
        rintro b s₆ ⟨hb, h6, _⟩
        refine (build_ensures (assign_builds htarget hb) h6).mono ?_
        rintro w s₇ ⟨hw, h7, _⟩
        exact ⟨hw, hend h7⟩
      | none =>
        refine (hv value _ s₃ h3 hvalue).bind ?_
        rintro v s₄ ⟨hval, h4⟩
        refine (build_ensures (withData_builds (plain_assign (fun _ => htarget) hval)) h4).mono ?_
        rintro w s₅ ⟨hw, h5, _⟩
        exact ⟨hw, hend h5⟩
  split
  · refine (spill_ensures h1 hob).bind ?_
    rintro ob s₂ ⟨hob, h2⟩
    exact htail ob s₂ hob h2
  · exact htail ob s₁ hob h1

/-- A store is split with its target evaluated before its value. -/
theorem visitAssign_ensures (hv : Visits p visit) {op : AssignOp} {target value : Expr}
    (h : Starts p L s (.node i r t (.assign op target value))) :
    Ensures p s (visitAssign visit (.node i r t (.assign op target value)) op target value)
      (Visited p L (.node i r t (.assign op target value))) := by
  by_cases hfield : target.hasKind .field = true
  · cases target with
    | absent => cases hfield
    | node ti tr tt td =>
      cases td with
      | field => exact visitField_ensures hv h
      | _ => cases hfield
  · rw [Bool.not_eq_true] at hfield
    have hvalue : Fits p L.goals value :=
      h.fits.operand h.needed (mem_operands_assign.mpr (Or.inr rfl))
    have hend : ∀ {s'}, Inv (L.enter (p.index.marks value)) s' →
        Inv (L.enter (p.index.marks (.node i r t (.assign op target value)))) s' := by
      intro s' h'
      refine h'.enter_congr fun l => ?_
      rw [mem_marks_assign h.needed, hfield]
      simp
    unfold visitAssign
    refine .needs ?_
    split
    · cases hfield
    · split
      · rename_i b hop hsplit
        have htarget := lowered_of_variable (isVariable_of_storesPlainly
          (h.fits.body.stores _ self_mem_nodes) (not_absent_of_needed hsplit) hfield)
        refine (spill_ensures h.inv htarget).bind ?_
        rintro old s₁ ⟨hold, h1⟩
        refine (hv value _ s₁ h1 hvalue).bind ?_
        rintro v s₂ ⟨hval, h2⟩
        refine (build_ensures (binary_builds hold hval) h2).bind ?_
        rintro b s₃ ⟨hb, h3, _⟩
        refine (build_ensures (assign_builds htarget hb) h3).mono ?_
        rintro w s₄ ⟨hw, h4, _⟩
        exact ⟨hw, hend h4⟩
      · refine (hv value _ s h.inv hvalue).bind ?_
        rintro v s₁ ⟨hval, h1⟩
        have hplain : target.hasKind .field = true → IsLowered target := by
          intro hf
          rw [hfield] at hf
          cases hf
        refine (build_ensures (withData_builds (plain_assign hplain hval)) h1).mono ?_
        rintro w s₂ ⟨hw, h2, _⟩
        exact ⟨hw, hend h2⟩

/-- Nothing comes after a throw. -/
theorem visitThrow_ensures (hv : Visits p visit) {value : Expr}
    (h : Starts p L s (.node i r t (.throw value))) :
    Ensures p s (visitThrow visit (.node i r t (.throw value)) value)
      (Visited p L (.node i r t (.throw value))) := by
  unfold visitThrow
  split
  · exact visitOne_ensures hv h rfl rfl fun v hval => ⟨rfl, by simpa [operands] using hval⟩
  · rename_i habs
    have hvalue : value = .absent := by
      cases value with
      | absent => rfl
      | node => simp [isAbsent] at habs
    subst hvalue
    have hinv : Inv (L.enter (p.index.marks (.node i r t (.throw .absent)))) s := by
      refine Inv.enter_operands (d := .throw .absent) ?_ h.needed rfl
      rw [operands, List.flatMap_singleton, JumpIndex.marks_of_not_needed rfl]
      exact h.inv
    refine .get ?_
    split
    · exact Ensures.pure ⟨lowered_node.mpr ⟨rfl, by simp [operands]⟩, hinv⟩
    · refine (build_ensures (ref_builds _) hinv).bind ?_
      rintro a s₁ ⟨ha, h1, _⟩
      refine (build_ensures (throwAs_builds ha) h1).mono ?_
      rintro b s₂ ⟨hb, h2, _⟩
      exact ⟨hb, h2⟩

/-! ### Arms that meet -/

variable {merge : StateRef}

/-- An arm of a branch is split and ends in the state where the arms meet. -/
theorem branch_ensures (hv : Visits p visit) (h : Inv L s) (hx : Fits p L.goals x)
    (hm : Fact.state merge ∈ L.known) :
    Ensures p s (branch visit x merge) (Visited p L x) := by
  unfold branch
  refine .get ?_
  refine (newInlined_ensures h).bind ?_
  rintro entry s₁ ⟨h1, p1⟩
  refine (goOnIn_hold_ensures h1 h1.recall).bind ?_
  rintro _ s₂ ⟨h2, _⟩
  rw [p1.current] at h2
  refine (hv x _ s₂ h2 hx).bind ?_
  rintro v s₃ ⟨hval, h3⟩
  refine (assignResult_ensures h3 hval).bind ?_
  rintro _ s₄ ⟨h4, _⟩
  refine (closeWith_ensures h4 (h4.known _ (List.mem_cons_of_mem _ hm))).bind ?_
  rintro _ s₅ ⟨h5, hc, p5⟩
  rw [← p5.current] at hc
  refine (goOnIn_ensures (L := (L.learn (.made entry)).enter (p.index.marks x)) h5 hc).bind
    fun _ s₆ h6 => ?_
  refine (inlineState_ensures h6 (h6.known _ List.mem_cons_self)).mono ?_
  rintro a s₇ ⟨ha, h7, _⟩
  exact ⟨ha, Inv.forget (L := L.enter (p.index.marks x)) h7⟩

/-- A state is made for a tree that ends in the state where the arms meet. -/
theorem standalone_ensures (hv : Visits p visit) (h : Inv L s) (hx : Fits p L.goals x)
    (hm : Fact.state merge ∈ L.known) (kind : StateKind) :
    Ensures p s (standalone visit kind x merge) fun entry s' =>
      Inv ((L.learn (.state entry)).enter (p.index.marks x)) s' := by
  unfold standalone
  refine .get ?_
  refine (newState_ensures kind x .void h).bind ?_
  rintro entry s₁ ⟨h1, p1, _⟩
  refine (goOnIn_swap_ensures (L := L.learn (.state entry)) h1.forget).bind ?_
  rintro _ s₂ ⟨h2, _⟩
  rw [p1.current] at h2
  refine (hv x _ s₂ h2 hx).bind ?_
  rintro v s₃ ⟨hval, h3⟩
  refine (assignResult_ensures h3 hval).bind ?_
  rintro _ s₄ ⟨h4, _⟩
  refine (closeWith_ensures h4 (h4.known _ (List.mem_cons_of_mem _ hm))).bind ?_
  rintro _ s₅ ⟨h5, hc, p5⟩
  rw [← p5.current] at hc
  refine (goOnIn_ensures (L := (L.learn (.state entry)).enter (p.index.marks x)) h5 hc).bind
    fun _ s₆ h6 => ?_
  exact Ensures.pure h6

/-- A conditional with an arm that needs splitting becomes a branch. -/
theorem visitConditional_ensures (hv : Visits p visit) {test a b : Expr}
    (h : Starts p L s (.node i r t (.conditional test a b))) :
    Ensures p s (visitConditional visit (.node i r t (.conditional test a b)) test a b)
      (Visited p L (.node i r t (.conditional test a b))) := by
  have hfits : ∀ x ∈ [test, a, b], Fits p L.goals x := fun x hx => h.fits.operand h.needed hx
  have hend : ∀ {s'}, Inv (((L.enter (p.index.marks test)).enter (p.index.marks a)).enter
        (p.index.marks b)) s' →
      Inv (L.enter (p.index.marks (.node i r t (.conditional test a b)))) s' := by
    intro s' h'
    refine Inv.enter_operands (d := .conditional test a b) ?_ h.needed rfl
    simpa [operands] using Inv.enter_append h'.enter_append
  unfold visitConditional
  refine (hv test _ s h.inv (hfits test (by simp))).bind ?_
  rintro test' s₁ ⟨htest, h1⟩
  refine .needs (.needs ?_)
  split
  · rename_i hno
    rw [Bool.and_eq_true, Bool.not_eq_true', Bool.not_eq_true'] at hno
    have ha := lowered_of_not_needed (hfits a (by simp)).body hno.1
    have hb := lowered_of_not_needed (hfits b (by simp)).body hno.2
    -- two whole arms stay under the test
    have hplain : Plain (.conditional test' a b) := ⟨rfl, by simp [operands, htest, ha, hb]⟩
    refine (build_ensures (withData_builds hplain) h1).mono ?_
    rintro w s₂ ⟨hw, h2, _⟩
    refine ⟨hw, hend ?_⟩
    rw [JumpIndex.marks_of_not_needed hno.1, JumpIndex.marks_of_not_needed hno.2]
    exact h2
  · refine (newState_ensures .merge _ _ h1).bind ?_
    rintro merge s₂ ⟨h2, _, _⟩
    refine (branch_ensures hv h2.forget (hfits a (by simp)) List.mem_cons_self).bind ?_
    rintro a' s₃ ⟨ha, h3⟩
    refine (branch_ensures hv h3 (hfits b (by simp)) List.mem_cons_self).bind ?_
    rintro b' s₄ ⟨hb, h4⟩
    refine (build_ensures (ifThenElse_builds htest ha hb) h4).bind ?_
    rintro x s₅ ⟨hx, h5, _⟩
    refine (splitAt_ensures (L := (((L.enter (p.index.marks test)).learn (.state merge)).enter
      (p.index.marks a)).enter (p.index.marks b)) h5 hx).bind fun _ s₆ h6 => ?_
    refine ((resultRef_makes merge _).ensures h6).mono ?_
    rintro v s₇ ⟨hval, h7, _⟩
    refine ⟨hval, hend ?_⟩
    exact Inv.forget (L := ((L.enter (p.index.marks test)).enter (p.index.marks a)).enter
      (p.index.marks b)) h7

/-- A logical operation whose right side needs splitting becomes a branch. -/
theorem visitLogical_ensures (hv : Visits p visit) {op : BinaryOp} {left right : Expr}
    {method : Option Native} (h : Starts p L s (.node i r t (.binary op left right method))) :
    Ensures p s (visitLogical visit (.node i r t (.binary op left right method)) op left right)
      (Visited p L (.node i r t (.binary op left right method))) := by
  have hfits : ∀ x ∈ [left, right], Fits p L.goals x := fun x hx => h.fits.operand h.needed hx
  -- the marks of both sides are those of the node
  have hend : ∀ {s'}, Inv ((L.enter (p.index.marks left)).enter (p.index.marks right)) s' →
      Inv (L.enter (p.index.marks (.node i r t (.binary op left right method)))) s' := by
    intro s' h'
    refine Inv.enter_operands (d := .binary op left right method) ?_ h.needed rfl
    simpa [operands] using h'.enter_append
  unfold visitLogical
  refine (hv left _ s h.inv (hfits left (by simp))).bind ?_
  rintro left' s₁ ⟨hleft, h1⟩
  refine .needs ?_
  cases hn : p.index.needed right with
  -- the right side stays whole, and so does the operator
  | false =>
    have hright := lowered_of_not_needed (hfits right (by simp)).body hn
    have hplain : Plain (.binary op left' right none) := ⟨rfl, by simp [operands, hleft, hright]⟩
    refine (build_ensures (withData_builds hplain) h1).mono ?_
    rintro w s₂ ⟨hw, h2, _⟩
    refine ⟨hw, hend ?_⟩
    rw [JumpIndex.marks_of_not_needed hn]
    exact h2
  | true =>
    show Ensures p s₁ (newState .merge _ .bool >>= _) _
    refine (newState_ensures .merge _ _ h1).bind ?_
    rintro merge s₂ ⟨h2, _, _⟩
    extract_lets absorbing
    refine ((resultRef_makes merge _).ensures h2.forget).bind ?_
    rintro a s₃ ⟨ha, h3, _⟩
    refine (build_ensures (constBool_builds _) h3).bind ?_
    rintro b s₄ ⟨hb, h4, _⟩
    refine (build_ensures (assign_builds ha hb) h4).bind ?_
    rintro c s₅ ⟨hc, h5, _⟩
    refine ((setState_makes merge).ensures h5).bind ?_
    rintro d s₆ ⟨hd, h6, _⟩
    refine (build_ensures (typedBlock_builds (by simp [hc, hd])) h6).bind ?_
    rintro short s₇ ⟨hshort, h7, _⟩
    refine (branch_ensures hv h7 (hfits right (by simp)) List.mem_cons_self).bind ?_
    rintro long s₈ ⟨hlong, h8⟩
    -- both arms meet in the merge state, whose result slot holds the value
    have hlast : ∀ {x s'}, IsLowered x →
        Inv ((((L.enter (p.index.marks left)).hold merge).learn (.state merge)).enter
          (p.index.marks right)) s' →
        Ensures p s' (do splitAt x merge; resultRef merge .bool)
          (Visited p L (.node i r t (.binary op left right method))) := by
      intro x s' hx h'
      refine (splitAt_ensures (L := ((L.enter (p.index.marks left)).learn (.state merge)).enter
        (p.index.marks right)) h' hx).bind fun _ s₁ h1 => ?_
      refine ((resultRef_makes merge _).ensures h1).mono ?_
      rintro v s₂ ⟨hval, h2, _⟩
      refine ⟨hval, hend ?_⟩
      exact Inv.forget (L := (L.enter (p.index.marks left)).enter (p.index.marks right)) h2
    split
    · refine (build_ensures (ifThenElse_builds hleft hshort hlong) h8).bind ?_
      rintro x s₉ ⟨hx, h9, _⟩
      exact hlast hx h9
    · refine (build_ensures (ifThenElse_builds hleft hlong hshort) h8).bind ?_
      rintro x s₉ ⟨hx, h9, _⟩
      exact hlast hx h9

/-- A node that is rebuilt around the values of its operands. -/
theorem visitOperands_visited (hv : Visits p visit) (h : Starts p L s (.node i r t d))
    (hp : placedHere (.node i r t d) = []) {k : List Expr → Split Expr}
    (hk : ∀ rs s', rs.length = (operands d).length → (∀ r ∈ rs, IsLowered r) →
      Inv (L.enter (p.index.marks (.node i r t d))) s' →
      Ensures p s' (k rs) (Visited p L (.node i r t d))) :
    Ensures p s (visitOperands visit (operands d) >>= k) (Visited p L (.node i r t d)) := by
  refine (visitOperands_ensures hv (operands d) (fun x hx => h.fits.operand h.needed hx) h.inv).bind ?_
  rintro rs s₁ ⟨hlen, hrs, h1⟩
  exact hk rs s₁ hlen hrs (h1.enter_operands h.needed hp)

/-- A binary operation is split as operands, unless it may skip the right one. -/
theorem visitBinary_ensures (hv : Visits p visit) {op : BinaryOp} {left right : Expr}
    {method : Option Native} (h : Starts p L s (.node i r t (.binary op left right method))) :
    Ensures p s (visitBinary visit (.node i r t (.binary op left right method)) op left right method)
      (Visited p L (.node i r t (.binary op left right method))) := by
  unfold visitBinary
  split
  · exact visitLogical_ensures hv h
  · refine visitOperands_visited hv h rfl fun rs s₁ hlen hrs h1 => ?_
    obtain ⟨a, as, rfl⟩ := List.exists_cons_of_length_eq_add_one hlen
    obtain ⟨b, bs, rfl⟩ := List.exists_cons_of_length_eq_add_one (Nat.succ.inj hlen)
    cases List.length_eq_zero_iff.mp (Nat.succ.inj (Nat.succ.inj hlen))
    have hplain : Plain (.binary op a b method) := ⟨rfl, by simpa [operands] using hrs⟩
    refine (build_ensures (withData_builds hplain) h1).mono ?_
    rintro w s₂ ⟨hw, h2, _⟩
    exact ⟨hw, h2⟩

/-- Calls, whose operands are visited in order. -/
theorem visitCall_ensures (hv : Visits p visit) {fn : Expr} {args : List Expr}
    (h : Starts p L s (.node i r t (.call fn args))) :
    Ensures p s (do
        match ← visitOperands visit (fn :: args) with
        | fn' :: args' => Build.withData (.node i r t (.call fn args)) (.call fn' args')
        | [] => return .node i r t (.call fn args))
      (Visited p L (.node i r t (.call fn args))) := by
  refine visitOperands_visited hv h rfl fun rs s₁ hlen hrs h1 => ?_
  obtain ⟨a, as, rfl⟩ := List.exists_cons_of_length_eq_add_one hlen
  have hplain : Plain (.call a as) := ⟨rfl, by simpa [operands] using hrs⟩
  refine (build_ensures (withData_builds hplain) h1).mono ?_
  rintro w s₂ ⟨hw, h2, _⟩
  exact ⟨hw, h2⟩

/-- A method call is split as operands, the receiver first. -/
theorem visitMethodCall_ensures (hv : Visits p visit) {receiver : Expr} {name : String}
    {args : List Expr} (h : Starts p L s (.node i r t (.methodCall receiver name args))) :
    Ensures p s (do
        match ← visitOperands visit (receiver :: args) with
        | receiver' :: args' =>
          Build.withData (.node i r t (.methodCall receiver name args))
            (.methodCall receiver' name args')
        | [] => return .node i r t (.methodCall receiver name args))
      (Visited p L (.node i r t (.methodCall receiver name args))) := by
  refine visitOperands_visited hv h rfl fun rs s₁ hlen hrs h1 => ?_
  obtain ⟨a, as, rfl⟩ := List.exists_cons_of_length_eq_add_one hlen
  have hplain : Plain (.methodCall a name as) := ⟨rfl, by simpa [operands] using hrs⟩
  refine (build_ensures (withData_builds hplain) h1).mono ?_
  rintro w s₂ ⟨hw, h2, _⟩
  exact ⟨hw, h2⟩

/-! ### Switches -/

theorem exists_mem_of_lookupSame {made : List (Expr × α)} {a : α} (h : lookupSame x made = some a) :
    ∃ q ∈ made, q.1.same x = true ∧ q.2 = a := by
  unfold lookupSame at h
  obtain ⟨q, hq, rfl⟩ := Option.map_eq_some_iff.mp h
  exact ⟨q, List.mem_of_find?_eq_some hq, List.find?_some (p := fun q : Expr × α => q.1.same x) hq, rfl⟩

section Switch
variable {L₀ : Ledger} {s₀ : Splitter} {value default : Expr} {cases : List (List Expr × Expr)}
  {comparer : Option Native}

/-- A body that is found among those of earlier cases is an empty slot. -/
theorem absent_of_same {done rest : List (List Expr × Expr)} {tests : List Expr} {body b : Expr}
    (h : Body (.node i r t (.switch value cases default comparer)))
    (hcases : cases = done ++ (tests, body) :: rest) (hb : b ∈ done.map (·.2))
    (hs : b.same body = true) : body.isAbsent = true := by
  have hops : operands (.switch value cases default comparer) =
      (value :: done.flatMap fun c => c.1 ++ [c.2]) ++
        (tests ++ [body] ++ (rest.flatMap fun c => c.1 ++ [c.2]) ++ [default]) := by
    simp [operands, hcases]
  refine h.distinct (fun hd => by cases hd) hops ?_ (by simp) hs
  obtain ⟨q, hq, rfl⟩ := List.mem_map.mp hb
  exact List.mem_cons_of_mem _ (List.mem_flatMap.mpr ⟨q, hq, by simp⟩)

/-- The zero value is a tree that needs no visit. -/
theorem fits_default (p : Plan) (goals : List Label) (i r : Nat) (t : Ty) :
    Fits p goals (.node i r t .default) ∧ p.index.marks (.node i r t .default) = [] := by
  have hown : (Expr.node i r t .default).ownNodes = [.node i r t .default] := by
    rw [ownNodes_node]
    rfl
  have hn : p.index.needed (.node i r t .default) = false := by
    have hesc : p.index.escapes (.node i r t .default) = false := by
      rw [JumpIndex.escapes_node (by simp [Data.kind])]
      simp [jumps, placed, hown, jumpTarget?, placedHere]
    have hasync : (Expr.node i r t .default).isAsync = false := by
      rw [isAsync_node]
      rfl
    simp [JumpIndex.needed, hesc, hasync]
  refine ⟨⟨⟨?_, ?_, by simp [hown]⟩, by simp [JumpIndex.aims_of_not_needed hn]⟩,
    JumpIndex.marks_of_not_needed hn⟩
  · exact (lowered_node.mpr ⟨rfl, by simp [operands]⟩ : IsLowered _).prepared
  · simp [hown, storesPlainly]

theorem default_shape (t : Ty) :
    Builds (Build.default t) fun e => ∃ i r, e = .node i r t .default := by
  intro q a q' heq
  cases heq
  exact ⟨⟨_, _, rfl⟩, Nat.le_succ _⟩

/-- The labels in a switch are those in its value, its tests and its bodies. -/
theorem mem_marks_switch (hn : p.index.needed (.node i r t (.switch value cases default comparer)) = true)
    (l : Label) : l ∈ p.index.marks (.node i r t (.switch value cases default comparer)) ↔
      l ∈ p.index.marks value ∨ (∃ c ∈ cases, (∃ x ∈ c.1, l ∈ p.index.marks x) ∨
        l ∈ p.index.marks c.2) ∨ l ∈ p.index.marks default := by
  rw [JumpIndex.mem_marks_node hn]
  simp only [placedHere, List.not_mem_nil, false_or, mem_operands_switch]
  constructor
  · rintro ⟨x, rfl | ⟨c, hc, hx | rfl⟩ | rfl, hl⟩
    · exact Or.inl hl
    · exact Or.inr (Or.inl ⟨c, hc, Or.inl ⟨x, hx, hl⟩⟩)
    · exact Or.inr (Or.inl ⟨c, hc, Or.inr hl⟩)
    · exact Or.inr (Or.inr hl)
  · rintro (hl | ⟨c, hc, ⟨x, hx, hl⟩ | hl⟩ | hl)
    · exact ⟨value, Or.inl rfl, hl⟩
    · exact ⟨x, Or.inr (Or.inl ⟨c, hc, Or.inl hx⟩), hl⟩
    · exact ⟨c.2, Or.inr (Or.inl ⟨c, hc, Or.inr rfl⟩), hl⟩
    · exact ⟨default, Or.inr (Or.inr rfl), hl⟩

/-- The labels that are placed in the bodies of cases. -/
def bodyMarks (p : Plan) (cases : List (List Expr × Expr)) : List Label :=
  cases.flatMap fun c => p.index.marks c.2

theorem bodyMarks_concat (done : List (List Expr × Expr)) (tests : List Expr) (body : Expr) :
    bodyMarks p (done ++ [(tests, body)]) = bodyMarks p done ++ p.index.marks body := by
  rw [bodyMarks, List.flatMap_append, List.flatMap_singleton]
  rfl

/-- Bodies of a switch that need splitting get states of their own, and the tests stay together. -/
theorem switchBodies_ensures (hv : Visits p visit) {value' : Expr}
    (h : Starts p L s (.node i r t (.switch value cases default comparer)))
    {s₁ : Splitter} (hvalue : IsLowered value') (h1 : Inv (L.enter (p.index.marks value)) s₁)
    (htests : ∀ c ∈ cases, ∀ x ∈ c.1, p.index.needed x = false) :
    Ensures p s₁ (switchBodies visit (.node i r t (.switch value cases default comparer)) value' cases
      default comparer) (Visited p L (.node i r t (.switch value cases default comparer))) := by
  have hfits : ∀ x, x ∈ operands (.switch value cases default comparer) → Fits p L.goals x :=
    fun x hx => h.fits.operand h.needed hx
  unfold switchBodies
  refine (newState_ensures .merge _ _ h1).bind ?_
  rintro merge s₂ ⟨h2, _, _⟩
  extract_lets arms out
  refine Ensures.bind (Ensures.forIn (I := fun rest st s' => ∃ done : List (List Expr × Expr),
    cases = done ++ rest ∧
    Inv ((((L.enter (p.index.marks value)).hold merge).learn (.state merge)).enter
      (bodyMarks p done)) s' ∧
    (∀ q ∈ st.1, q.1 ∈ done.map (·.2) ∧ IsLowered q.2) ∧ PlainCases st.2)
    ⟨[], rfl, h2.forget, by simp [arms], by simp [out, PlainCases]⟩ ?_) ?_
  · rintro ⟨tests, body⟩ rest ⟨arms, out⟩ s₃ ⟨done, hcases, h3, harms, hout⟩
    have hmem : (tests, body) ∈ cases := by simp [hcases]
    have hts : ∀ x ∈ tests, IsLowered x := fun x hx => lowered_of_not_needed
      (hfits x (mem_operands_switch.mpr (Or.inr (Or.inl ⟨_, hmem, Or.inl hx⟩)))).body
      (htests _ hmem x hx)
    dsimp only
    split
    · -- only empty slots are the same node
      rename_i arm hlook
      obtain ⟨q, hq, hsame, rfl⟩ := exists_mem_of_lookupSame hlook
      have habs := absent_of_same h.fits.body hcases (harms q hq).1 hsame
      refine Ensures.pure ⟨_, rfl, done ++ [(tests, body)], by simp [hcases], ?_, fun q hq => ?_,
        hout.concat hts (harms q hq).2⟩
      · rw [bodyMarks_concat, JumpIndex.marks_of_not_needed (e := body)
          (by simp [JumpIndex.needed, habs]), List.append_nil]
        exact h3
      · exact ⟨List.map_append ▸ List.mem_append_left _ (harms q hq).1, (harms q hq).2⟩
    · refine (branch_ensures hv h3 (hfits body (mem_operands_switch.mpr
        (Or.inr (Or.inl ⟨_, hmem, Or.inr rfl⟩)))) List.mem_cons_self).bind ?_
      rintro arm s₄ ⟨harm, h4⟩
      refine Ensures.pure ⟨_, rfl, done ++ [(tests, body)], by simp [hcases], ?_, fun q hq => ?_,
        hout.concat hts harm⟩
      · rw [bodyMarks_concat]
        exact h4.enter_append
      · obtain rfl | hq := List.mem_cons.mp hq
        · exact ⟨by simp, harm⟩
        · exact ⟨List.map_append ▸ List.mem_append_left _ (harms q hq).1, (harms q hq).2⟩
  · rintro ⟨arms, out⟩ s₃ ⟨done, hcases, h3, -, hout⟩
    rw [List.append_nil] at hcases
    subst hcases
    extract_lets out' tail
    have htail : ∀ x s₄, Fits p L.goals x → (∀ l, l ∈ p.index.marks x ↔ l ∈ p.index.marks default) →
        Inv ((((L.enter (p.index.marks value)).hold merge).learn (.state merge)).enter
          (bodyMarks p cases)) s₄ →
        Ensures p s₄ (tail x) (Visited p L (.node i r t (.switch value cases default comparer))) := by
      intro x s₄ hx hmarks h4
      refine (branch_ensures hv h4 hx List.mem_cons_self).bind ?_
      rintro fb s₅ ⟨hfb, h5⟩
      refine (build_ensures (switch_builds hvalue hout hfb) h5).bind ?_
      rintro sw s₆ ⟨hsw, h6, _⟩
      refine (splitAt_ensures (L := (((L.enter (p.index.marks value)).learn (.state merge)).enter
        (bodyMarks p cases)).enter (p.index.marks x)) h6 hsw).bind
        fun _ s₇ h7 => ?_
      refine ((resultRef_makes merge _).ensures h7).mono ?_
      rintro v s₈ ⟨hval, h8, _⟩
      refine ⟨hval, ?_⟩
      have h9 := Inv.forget (L := ((L.enter (p.index.marks value)).enter
        (bodyMarks p cases)).enter (p.index.marks x)) h8
      refine (Inv.enter_append h9.enter_append).enter_congr fun l => ?_
      rw [mem_marks_switch h.needed, List.mem_append, List.mem_append, bodyMarks,
        List.mem_flatMap, hmarks]
      refine or_congr_right (or_congr_left (exists_congr fun c => and_congr_right fun hc =>
        or_iff_right ?_))
      rintro ⟨x, hx, hl⟩
      rw [JumpIndex.marks_of_not_needed (htests c hc x hx)] at hl
      cases hl
    split
    · rename_i habs
      refine (build_ensures (default_shape _) h3).bind ?_
      rintro x s₄ ⟨⟨j, q, hx⟩, h4, _⟩
      subst hx
      obtain ⟨hfit, hnil⟩ := fits_default p L.goals j q t
      refine htail _ s₄ hfit (fun l => ?_) h4
      rw [JumpIndex.marks_of_not_needed (e := default) (by simp [JumpIndex.needed, habs])]
      exact iff_of_eq (congrArg (l ∈ ·) hnil)
    · exact htail default s₃ (hfits default (mem_operands_switch.mpr (Or.inr (Or.inr rfl))))
        (fun _ => Iff.rfl) h3

theorem jumpTo_makes (n : StateRef) : Makes p s (jumpTo n) IsLowered := by
  unfold jumpTo
  refine (setState_makes n).bind fun a q ha => continueDispatch_makes.bind fun b q hb => ?_
  exact .build (typedBlock_builds (by simp [ha, hb]))

theorem matchTest_builds {test : Expr} (hx : IsLowered x) (ht : IsLowered test) :
    Builds (matchTest comparer x test) IsLowered := by
  unfold matchTest
  split
  · exact callFunc_builds (by simp [hx, ht])
  · exact binary_builds hx ht

/-- The labels that are placed in tests. -/
def testMarks (p : Plan) (tests : List SwitchTest) : List Label :=
  tests.flatMap fun q => p.index.marks q.test

/-- A test that was collected from the cases. -/
structure Collected (p : Plan) (goals : List Label) (q : SwitchTest) : Prop where
  fits : Fits p goals q.test
  splits : q.splits = p.index.needed q.test

/-- The tests of a run that is split are compared one at a time. -/
theorem compareTests_ensures (hv : Visits p visit) {value' : Expr} (hvalue : IsLowered value')
    (run : List SwitchTest) (hrun : ∀ q ∈ run, Collected p L.goals q) (h : Inv L s) :
    Ensures p s (forIn run PUnit.unit fun q _ => do
        let r ← visit q.test
        emit (← Build.ifThen (← matchTest comparer value' r) (← jumpTo q.entry))
        pure (ForInStep.yield PUnit.unit))
      fun _ s' => Inv (L.enter (testMarks p run)) s' := by
  refine (Ensures.forIn (I := fun rest _ s' => ∃ done, run = done ++ rest ∧
    Inv (L.enter (testMarks p done)) s') ⟨[], rfl, h⟩ ?_).mono ?_
  · rintro q rest _ s₁ ⟨done, rfl, h1⟩
    refine (hv q.test _ s₁ h1 (hrun q (by simp)).fits).bind ?_
    rintro v s₂ ⟨hval, h2⟩
    refine (build_ensures (matchTest_builds hvalue hval) h2).bind ?_
    rintro a s₃ ⟨ha, h3, _⟩
    refine ((jumpTo_makes q.entry).ensures h3).bind ?_
    rintro b s₄ ⟨hb, h4, _⟩
    refine (build_ensures (ifThen_builds ha hb) h4).bind ?_
    rintro c s₅ ⟨hc, h5, _⟩
    refine (emit_ensures h5 hc).bind ?_
    rintro _ s₆ ⟨h6, _⟩
    refine Ensures.pure ⟨_, rfl, done ++ [q], by simp, ?_⟩
    rw [testMarks, List.flatMap_append, List.flatMap_singleton]
    exact h6.enter_append
  · rintro _ s₁ ⟨done, heq, h1⟩
    rw [List.append_nil] at heq
    exact heq ▸ h1

/-- The tests of a run that is not split become one switch. -/
theorem switchRun_ensures {value' : Expr} (hvalue : IsLowered value') (run : List SwitchTest)
    (hrun : ∀ q ∈ run, IsLowered q.test) (h : Inv L s) :
    Ensures p s (do
        let arms ← run.mapM fun q => return ([← passThrough q.test], ← jumpTo q.entry)
        emit (← Build.switch .void value' .absent comparer arms)
        pure (ForInStep.yield PUnit.unit))
      fun step s' => step = .yield PUnit.unit ∧ Inv L s' := by
  refine (Ensures.mapM (P := fun arm => (∀ x ∈ arm.1, IsLowered x) ∧ IsLowered arm.2) h ?_).bind ?_
  · intro q hq s₁ h1
    refine ((passThrough_makes (hrun q hq)).ensures h1).bind ?_
    rintro a s₂ ⟨ha, h2, _⟩
    refine ((jumpTo_makes q.entry).ensures h2).bind ?_
    rintro b s₃ ⟨hb, h3, _⟩
    exact Ensures.pure ⟨⟨by simpa using ha, hb⟩, h3⟩
  · rintro arms s₁ ⟨harms, h1⟩
    refine (build_ensures (switch_builds hvalue harms lowered_absent) h1).bind ?_
    rintro sw s₂ ⟨hsw, h2, _⟩
    refine (emit_ensures h2 hsw).bind ?_
    rintro _ s₃ ⟨h3, _⟩
    exact Ensures.pure ⟨rfl, h3⟩

/-- Walking the tests visits those that are split. -/
theorem walkTests_ensures (hv : Visits p visit) (h : Inv L s) {value' : Expr}
    (hvalue : IsLowered value') (tests : List SwitchTest)
    (htests : ∀ q ∈ tests, Collected p L.goals q) :
    Ensures p s (forIn (tests.splitBy fun a b => a.splits == b.splits) PUnit.unit fun run _ => do
        if run.any (·.splits) then
          for q in run do
            let r ← visit q.test
            emit (← Build.ifThen (← matchTest comparer value' r) (← jumpTo q.entry))
        else
          let arms ← run.mapM fun q => return ([← passThrough q.test], ← jumpTo q.entry)
          emit (← Build.switch .void value' .absent comparer arms)
        pure (ForInStep.yield PUnit.unit))
      fun _ s' => Inv (L.enter (testMarks p tests)) s' := by
  -- the runs are the tests, cut where splitting tests meet whole ones
  have hflat := List.flatten_splitBy (fun a b : SwitchTest => a.splits == b.splits) tests
  generalize tests.splitBy (fun a b => a.splits == b.splits) = runs at hflat
  refine (Ensures.forIn (I := fun rest _ s' => ∃ done : List (List SwitchTest), runs = done ++ rest ∧
    Inv (L.enter (testMarks p done.flatten)) s') ⟨[], rfl, h⟩ ?_).mono ?_
  · rintro run rest _ s₁ ⟨done, rfl, h1⟩
    have hrun : ∀ q ∈ run, Collected p L.goals q := fun q hq => htests q (by
      rw [← hflat]
      simp [hq])
    have hstep : ∀ {s'}, Inv ((L.enter (testMarks p done.flatten)).enter (testMarks p run)) s' →
        ∃ done', done ++ run :: rest = done' ++ rest ∧
          Inv (L.enter (testMarks p done'.flatten)) s' := by
      intro s' h'
      refine ⟨done ++ [run], by simp, ?_⟩
      rw [List.flatten_append, List.flatten_singleton, testMarks, List.flatMap_append]
      exact h'.enter_append
    split
    · exact (compareTests_ensures (L := L.enter (testMarks p done.flatten)) hv hvalue run hrun
        h1).bind fun _ s₂ h2 => Ensures.pure ⟨_, rfl, hstep h2⟩
    · rename_i hany
      have hno : ∀ q ∈ run, p.index.needed q.test = false := by
        intro q hq
        rw [← (hrun q hq).splits]
        simpa using fun hs => hany (List.any_eq_true.mpr ⟨q, hq, hs⟩)
      have hlow : ∀ q ∈ run, IsLowered q.test := fun q hq =>
        lowered_of_not_needed (hrun q hq).fits.body (hno q hq)
      refine Ensures.mono (switchRun_ensures hvalue run hlow h1) ?_
      rintro _ s₂ ⟨hr, h2⟩
      refine ⟨_, hr, hstep ?_⟩
      -- a run of whole tests has no marks to enter
      have hnil : testMarks p run = [] := by
        rw [testMarks, List.flatMap_eq_nil_iff]
        exact fun q hq => JumpIndex.marks_of_not_needed (hno q hq)
      rw [hnil]
      exact h2
  · rintro _ s₁ ⟨done, heq, h1⟩
    rw [List.append_nil] at heq
    rw [← hflat, heq]
    exact h1

/-- The tests of one case. -/
theorem caseTests_ensures (ts : List Expr) (entry : StateRef) (tests : List SwitchTest) :
    Ensures p s (forIn ts tests fun t tests => do
        let b ← needs t
        pure (ForInStep.yield (tests ++ [(⟨t, entry, b⟩ : SwitchTest)])))
      fun out s' => s = s' ∧ out = tests ++ ts.map fun t => ⟨t, entry, p.index.needed t⟩ := by
  refine (Ensures.forIn (I := fun rest out s' => s = s' ∧ ∃ done, ts = done ++ rest ∧
    out = tests ++ done.map fun t => ⟨t, entry, p.index.needed t⟩)
    ⟨rfl, [], rfl, by simp⟩ ?_).mono ?_
  · rintro t rest _ _ ⟨rfl, done, rfl, rfl⟩
    refine .needs (Ensures.pure ⟨_, rfl, rfl, done ++ [t], by simp, by simp⟩)
  · rintro _ _ ⟨rfl, done, heq, rfl⟩
    rw [List.append_nil] at heq
    exact ⟨rfl, by rw [heq]⟩

/-- Collecting the tests visits the bodies of the cases. -/
theorem collectTests_ensures (hv : Visits p visit) (h0 : Inv L s)
    (h : Starts p L₀ s₀ (.node i r t (.switch value cases default comparer)))
    (hgoals : L.goals = L₀.goals) (hm : Fact.state merge ∈ L.known) :
    Ensures p s (forIn cases (([] : List (Expr × StateRef)), ([] : List SwitchTest)) fun x st => do
        let entry ← match lookupSame x.2 st.1 with
          | some entry => pure entry
          | none => standalone visit .arm x.2 merge
        let tests ← forIn x.1 st.2 fun t tests => do
          let b ← needs t
          pure (ForInStep.yield (tests ++ [(⟨t, entry, b⟩ : SwitchTest)]))
        pure (ForInStep.yield ((x.2, entry) :: st.1, tests)))
      fun st s' => Inv (L.enter (bodyMarks p cases)) s' ∧ (∀ q ∈ st.2, Collected p L.goals q) ∧
        st.2.map (·.test) = cases.flatMap (·.1) := by
  refine (Ensures.forIn (I := fun rest st s' => ∃ done : List (List Expr × Expr),
    cases = done ++ rest ∧ Inv (L.enter (bodyMarks p done)) s' ∧
    (∀ q ∈ st.1, q.1 ∈ done.map (·.2)) ∧ (∀ q ∈ st.2, Collected p L.goals q) ∧
    st.2.map (·.test) = done.flatMap (·.1))
    ⟨[], rfl, h0, by simp, by simp, by simp⟩ ?_).mono ?_
  · rintro ⟨ts, body⟩ rest ⟨entries, tests⟩ s₁ ⟨done, hcases, h1, hentries, htests, hmap⟩
    have hmem : (ts, body) ∈ cases := by simp [hcases]
    have hfits : ∀ x, (x ∈ ts ∨ x = body) → Fits p L.goals x := fun x hx => hgoals ▸
      h.fits.operand h.needed (mem_operands_switch.mpr (Or.inr (Or.inl ⟨_, hmem, hx⟩)))
    have hrest : ∀ entry s₂, Inv (L.enter (bodyMarks p (done ++ [(ts, body)]))) s₂ →
        Ensures p s₂ (do
          let tests ← forIn ts tests fun t tests => do
            let b ← needs t
            pure (ForInStep.yield (tests ++ [(⟨t, entry, b⟩ : SwitchTest)]))
          pure (ForInStep.yield ((body, entry) :: entries, tests))) fun step s' =>
            ∃ st, step = .yield st ∧ ∃ done : List (List Expr × Expr), cases = done ++ rest ∧
              Inv (L.enter (bodyMarks p done)) s' ∧ (∀ q ∈ st.1, q.1 ∈ done.map (·.2)) ∧
              (∀ q ∈ st.2, Collected p L.goals q) ∧ st.2.map (·.test) = done.flatMap (·.1) := by
      intro entry s₂ h2
      refine (caseTests_ensures ts entry tests).bind ?_
      rintro _ _ ⟨rfl, rfl⟩
      refine Ensures.pure ⟨_, rfl, done ++ [(ts, body)], by simp [hcases], h2, ?_, ?_, ?_⟩
      · intro q hq
        rw [List.map_append]
        obtain rfl | hq := List.mem_cons.mp hq
        · exact List.mem_append_right _ List.mem_cons_self
        · exact List.mem_append_left _ (hentries q hq)
      · intro q hq
        obtain hq | hq := List.mem_append.mp hq
        · exact htests q hq
        · obtain ⟨x, hx, rfl⟩ := List.mem_map.mp hq
          exact ⟨hfits x (Or.inl hx), rfl⟩
      · have hmap : tests.map (·.test) = done.flatMap (·.1) := hmap
        simp [hmap, Function.comp_def]
    dsimp only
    split
    · -- only empty slots are the same node
      rename_i entry hlook
      obtain ⟨q, hq, hsame, rfl⟩ := exists_mem_of_lookupSame hlook
      have habs := absent_of_same h.fits.body hcases (hentries q hq) hsame
      refine hrest q.2 s₁ ?_
      rw [bodyMarks_concat, JumpIndex.marks_of_not_needed (e := body)
        (by simp [JumpIndex.needed, habs]), List.append_nil]
      exact h1
    · refine (standalone_ensures hv h1 (hfits body (Or.inr rfl)) hm .arm).bind fun entry s₂ h2 => ?_
      refine hrest entry s₂ ?_
      rw [bodyMarks_concat]
      exact Inv.enter_append (Inv.forget (L := (L.enter (bodyMarks p done)).enter
        (p.index.marks body)) h2)
  · rintro st s₁ ⟨done, heq, h1, -, htests, hmap⟩
    rw [List.append_nil] at heq
    subst heq
    exact ⟨h1, htests, hmap⟩

/-- The labels in the tests that were collected are those in the tests of the cases. -/
theorem mem_testMarks {tests : List SwitchTest} (hmap : tests.map (·.test) = cases.flatMap (·.1)) (l : Label) :
    l ∈ testMarks p tests ↔ ∃ c ∈ cases, ∃ x ∈ c.1, l ∈ p.index.marks x := by
  have hflat : testMarks p tests = (tests.map (·.test)).flatMap p.index.marks := by
    rw [List.flatMap_map]
    rfl
  rw [hflat, hmap, List.mem_flatMap]
  simp only [List.mem_flatMap]
  constructor
  · rintro ⟨x, ⟨c, hc, hx⟩, hl⟩
    exact ⟨c, hc, x, hx, hl⟩
  · rintro ⟨c, hc, x, hx, hl⟩
    exact ⟨x, ⟨c, hc, hx⟩, hl⟩

/-- The labels in a switch, in the order in which its parts are visited. -/
theorem mem_marks_walked {tests : List SwitchTest}
    (hn : p.index.needed (.node i r t (.switch value cases default comparer)) = true)
    (hmap : tests.map (·.test) = cases.flatMap (·.1)) (l : Label) :
    l ∈ p.index.marks (.node i r t (.switch value cases default comparer)) ↔
      l ∈ p.index.marks value ∨ l ∈ bodyMarks p cases ∨ l ∈ p.index.marks default ∨ l ∈ testMarks p tests := by
  simp only [mem_marks_switch hn, mem_testMarks hmap, bodyMarks, List.mem_flatMap]
  constructor
  · rintro (hl | ⟨c, hc, hl | hl⟩ | hl)
    · exact Or.inl hl
    · exact Or.inr (Or.inr (Or.inr ⟨c, hc, hl⟩))
    · exact Or.inr (Or.inl ⟨c, hc, hl⟩)
    · exact Or.inr (Or.inr (Or.inl hl))
  · rintro (hl | ⟨c, hc, hl⟩ | hl | ⟨c, hc, hl⟩)
    · exact Or.inl hl
    · exact Or.inr (Or.inl ⟨c, hc, Or.inr hl⟩)
    · exact Or.inr (Or.inr hl)
    · exact Or.inr (Or.inl ⟨c, hc, Or.inl hl⟩)

/-- After its tests a switch goes on to the fallback, and its value stands where the arms meet. -/
theorem leaveTests_ensures {walk : Split PUnit} {fb : StateRef} {tests : List SwitchTest} {s₁ : Splitter}
    (hn : p.index.needed (.node i r t (.switch value cases default comparer)) = true)
    (hmap : tests.map (·.test) = cases.flatMap (·.1))
    (hwalk : Ensures p s₁ walk fun _ s' => Inv ((((((L.enter (p.index.marks value)).hold merge).learn
      (.state merge)).learn (.state fb)).enter (bodyMarks p cases)).enter (p.index.marks default) |>.enter
        (testMarks p tests)) s') :
    Ensures p s₁ (do
        let _ ← walk
        setNext (← get).current fb
        goOnIn merge
        resultRef merge t) (Visited p L (.node i r t (.switch value cases default comparer))) := by
  refine hwalk.bind fun _ s₂ h2 => .get ?_
  refine (setNext_ensures h2 h2.current (h2.known (.state fb) List.mem_cons_self)).bind ?_
  rintro _ s₃ ⟨h3, hc, hp⟩
  rw [← hp.current] at hc
  refine (goOnIn_ensures (L := (((((L.enter (p.index.marks value)).learn (.state merge)).learn
    (.state fb)).enter (bodyMarks p cases)).enter (p.index.marks default)).enter
      (testMarks p tests)) h3 hc).bind fun _ s₄ h4 => ?_
  refine ((resultRef_makes merge _).ensures h4).mono ?_
  rintro v s' ⟨hval, h', _⟩
  refine ⟨hval, ?_⟩
  -- the two states of the switch are no longer needed, only the labels that it reached
  have hall := Inv.forget (L := (((L.enter (p.index.marks value)).enter
    (bodyMarks p cases)).enter (p.index.marks default)).enter (testMarks p tests))
    (Inv.forget (L := ((((L.enter (p.index.marks value)).learn (.state merge)).enter
      (bodyMarks p cases)).enter (p.index.marks default)).enter (testMarks p tests)) h')
  refine (Inv.enter_append (Inv.enter_append hall.enter_append)).enter_congr fun l => ?_
  simp only [mem_marks_walked hn hmap, List.mem_append]

/-- Tests of a switch that need splitting become a chain of states, one test after the other. -/
theorem switchTests_ensures (hv : Visits p visit) {value' : Expr}
    (h : Starts p L s (.node i r t (.switch value cases default comparer)))
    {s₁ : Splitter} (hvalue : IsLowered value') (h1 : Inv (L.enter (p.index.marks value)) s₁) :
    Ensures p s₁ (switchTests visit (.node i r t (.switch value cases default comparer)) value' cases
      default comparer) (Visited p L (.node i r t (.switch value cases default comparer))) := by
  unfold switchTests
  refine (newState_ensures .merge _ _ h1).bind ?_
  rintro merge s₂ ⟨h2, _, _⟩
  refine (build_ensures (dataOf_builds value') h2.forget).bind ?_
  rintro d s₃ ⟨_, h3, _⟩
  extract_lets kind entries tests tail
  -- the value that is tested is a constant, or it is kept in a variable
  have htail : ∀ x s₄, IsLowered x →
      Inv (((L.enter (p.index.marks value)).hold merge).learn (.state merge)) s₄ →
      Ensures p s₄ (tail x) (Visited p L (.node i r t (.switch value cases default comparer))) := by
    intro x s₄ hx h4
    refine (collectTests_ensures hv h4 h rfl List.mem_cons_self).bind ?_
    rintro ⟨entries, tests⟩ s₅ ⟨h5, htests, hmap⟩
    extract_lets entries' tests' last
    have hlast : ∀ fb s₆, Inv (((((L.enter (p.index.marks value)).hold merge).learn
          (.state merge)).learn (.state fb)).enter (bodyMarks p cases) |>.enter
            (p.index.marks default)) s₆ →
        Ensures p s₆ (last fb)
          (Visited p L (.node i r t (.switch value cases default comparer))) := fun fb s₆ h6 =>
      leaveTests_ensures h.needed hmap (walkTests_ensures hv h6 hx tests htests)
    split
    · exact (standalone_ensures hv h5 (h.fits.operand h.needed (mem_operands_switch.mpr
        (Or.inr (Or.inr rfl)))) List.mem_cons_self .fallback).bind fun fb s₆ h6 => hlast fb s₆ h6
    · -- without a default the fallback is where the arms meet
      rename_i habs
      have hnil : p.index.marks default = [] := by
        refine JumpIndex.marks_of_not_needed ?_
        simp [JumpIndex.needed, show default.isAbsent = true by simpa using habs]
      have hfb : ∀ {s₆}, Inv ((((L.enter (p.index.marks value)).hold merge).learn
          (.state merge)).enter (bodyMarks p cases)) s₆ → Ensures p s₆ (last merge)
            (Visited p L (.node i r t (.switch value cases default comparer))) := by
        intro s₆ h6
        refine hlast merge s₆ ?_
        rw [hnil]
        exact h6.learn (h6.known (.state merge) List.mem_cons_self)
      refine .state ?_
      split
      · refine (build_ensures (ref_builds _) h5).bind ?_
        rintro a s₆ ⟨ha, h6, _⟩
        refine (build_ensures (default_builds _) h6).bind ?_
        rintro b s₇ ⟨hb, h7, _⟩
        refine (build_ensures (assign_builds ha hb) h7).bind ?_
        rintro c s₈ ⟨hc, h8, _⟩
        refine (emit_ensures h8 hc).bind ?_
        rintro _ s₉ ⟨h9, _⟩
        exact hfb h9
      · exact hfb h5
  split
  · exact htail value' s₃ hvalue h3
  · refine (newLocal_ensures _ _ h3).bind ?_
    rintro tmp s₄ ⟨h4, _⟩
    refine (build_ensures (ref_builds tmp) h4).bind ?_
    rintro a s₅ ⟨ha, h5, _⟩
    refine (build_ensures (assign_builds ha hvalue) h5).bind ?_
    rintro b s₆ ⟨hb, h6, _⟩
    refine (emit_ensures h6 hb).bind ?_
    rintro _ s₇ ⟨h7, _⟩
    refine (build_ensures (ref_builds tmp) h7).bind ?_
    rintro c s₈ ⟨hc, h8, _⟩
    exact htail c s₈ hc h8

/-- A switch is split by its tests, by its bodies, or as operands only. -/
theorem visitSwitch_ensures (hv : Visits p visit)
    (h : Starts p L s (.node i r t (.switch value cases default comparer))) :
    Ensures p s (visitSwitch visit (.node i r t (.switch value cases default comparer)) value cases
      default comparer) (Visited p L (.node i r t (.switch value cases default comparer))) := by
  have hfits : ∀ x, x ∈ operands (.switch value cases default comparer) → Fits p L.goals x :=
    fun x hx => h.fits.operand h.needed hx
  unfold visitSwitch
  refine .anyNeeds (.anyNeeds ?_)
  refine (hv value L s h.inv (hfits value (mem_operands_switch.mpr (Or.inl rfl)))).bind ?_
  rintro value' s₁ ⟨hvalue, h1⟩
  split
  · exact switchTests_ensures hv h hvalue h1
  · rename_i hno
    -- no test splits, so the walk over the tests is not taken
    have htests : ∀ c ∈ cases, ∀ x ∈ c.1, p.index.needed x = false := by
      intro c hc x hx
      rw [Bool.not_eq_true, List.any_eq_false] at hno
      simpa using hno x (List.mem_flatMap.mpr ⟨c, hc, hx⟩)
    split
    · exact switchBodies_ensures hv h hvalue h1 htests
    · rename_i hnb
      rw [Bool.not_eq_true, List.any_eq_false] at hnb
      have hdefault : p.index.needed default = false := by simpa using hnb default List.mem_cons_self
      have hbodies : ∀ c ∈ cases, p.index.needed c.2 = false := fun c hc => by
        simpa using hnb c.2 (List.mem_cons_of_mem _ (List.mem_map_of_mem hc))
      -- nor does an arm: the switch is kept with its tests and arms as they are
      have hplain : Plain (.switch value' cases default comparer) := by
        refine plain_switch hvalue (fun c hc => ⟨fun x hx => ?_, ?_⟩) ?_
        · exact lowered_of_not_needed (hfits x (mem_operands_switch.mpr
            (Or.inr (Or.inl ⟨c, hc, Or.inl hx⟩)))).body (htests c hc x hx)
        · exact lowered_of_not_needed (hfits c.2 (mem_operands_switch.mpr
            (Or.inr (Or.inl ⟨c, hc, Or.inr rfl⟩)))).body (hbodies c hc)
        · exact lowered_of_not_needed (hfits default (mem_operands_switch.mpr
            (Or.inr (Or.inr rfl)))).body hdefault
      refine (build_ensures (withData_builds hplain) h1).mono ?_
      rintro w s₂ ⟨hw, h2, _⟩
      refine ⟨hw, h2.enter_congr fun l => ?_⟩
      rw [mem_marks_switch h.needed, JumpIndex.marks_of_not_needed hdefault]
      refine or_iff_left ?_
      rintro (⟨c, hc, ⟨x, hx, hl⟩ | hl⟩ | hl)
      · rw [JumpIndex.marks_of_not_needed (htests c hc x hx)] at hl
        cases hl
      · rw [JumpIndex.marks_of_not_needed (hbodies c hc)] at hl
        cases hl
      · cases hl

end Switch

end

end Split

end Resumable
