import Resumable.Proofs.Visit

/-!
# `Proofs.Jumps`: loops, labels and jumps

The cases of splitting that name each other's states: a label may have a state before its place is
reached, and a jump goes through the cleanup blocks of the regions that it leaves.
-/

namespace Resumable.Split

open Resumable.Expr Build

variable {p : Plan} {visit : Expr → Split Expr} {L : Ledger} {s : Splitter} {e x : Expr}
  {i r : Nat} {t : Ty} {d : Data Expr} {l : Label}

/-! ### Labels -/

theorem labelDepth_ensures (l : Label) : Ensures p s (labelDepth? l) fun _ s' => s = s' := by
  unfold labelDepth?
  refine .get (.read ?_)
  split
  · exact Ensures.pure rfl
  · exact Ensures.pure rfl

/-- The state of a label is an old one, or a new one that nobody has reached. -/
theorem labelState_cases (h : Inv L s) (l : Label) (origin : Expr) :
    Ensures p s (labelState l origin) fun r s' =>
      Inv ((L.learn (.state r)).learn (.label l r)) s' ∨
        (s.labels.lookup l = none ∧ s'.reporter = s.reporter ∧
          Inv (((L.hold r).learn (.state r)).learn (.label l r)) s') := by
  unfold labelState
  refine .get ?_
  split
  · rename_i r hlook
    exact Ensures.pure (Or.inl ((h.learn (h.labels l r hlook)).learn (f := .label l r) hlook))
  · rename_i hnone
    refine (labelDepth_ensures l).bind ?_
    rintro depth _ rfl
    extract_lets context
    refine (newStateIn_ensures context .label origin l.type h).bind ?_
    rintro r s₁ ⟨h1, p1, _⟩
    have h2 := h1.forget.modifyState (r := r) (f := fun st => { st with detail := l.name })
      ⟨rfl, rfl, rfl, fun h => h⟩ fun hr =>
        { stmts := (h1.wired r hr).stmts, next := (h1.wired r hr).next,
          resume := (h1.wired r hr).resume }
    refine Ensures.of_run rfl (Or.inr ⟨hnone, p1.reporter, ?_⟩)
    refine h2.addLabel h2.recall ?_
    show s₁.labels.lookup l = none
    rw [p1.labels]
    exact hnone

/-- The state of a label, for somebody who finishes it. -/
theorem labelState_ensures (h : Inv L s) (l : Label) (origin : Expr) :
    Ensures p s (labelState l origin) fun r s' =>
      Inv (((L.hold r).learn (.state r)).learn (.label l r)) s' := by
  refine (labelState_cases h l origin).mono fun r s' hcases => ?_
  obtain h' | ⟨-, -, h'⟩ := hcases
  · refine h'.weaken rfl rfl rfl (fun _ => Iff.rfl) (fun q hq => List.mem_cons_of_mem _ hq) ?_
      fun _ hf => hf
    intro q hq
    obtain rfl | hq := List.mem_cons.mp hq
    · exact (h'.known (.state q) (List.mem_cons_of_mem _ List.mem_cons_self)).1
    · exact h'.held q hq
  · exact h'

/-- The state of a label whose place is reached later, or has been reached. -/
theorem labelState_goal_ensures (h : Inv L s) (hl : l ∈ L.goals) (origin : Expr) :
    Ensures p s (labelState l origin) fun r s' => Inv (L.learn (.state r)) s' := by
  refine (labelState_cases h l origin).mono fun r s' hcases => ?_
  obtain h' | ⟨hnone, hrep, h'⟩ := hcases
  · exact h'.forget
  · refine Inv.release (L := L.learn (.state r)) h'.forget hl (fun hq hent => ?_) h'.recall
    have := h.placed (hrep ▸ hq) l hent
    rw [hnone] at this
    cases this

/-! ### Loops -/

theorem mem_marks_loop {body : Expr} {brk cont : Option Label}
    (hn : p.index.needed (.node i r t (.loop body brk cont)) = true) (l : Label) :
    l ∈ p.index.marks (.node i r t (.loop body brk cont)) ↔
      l ∈ brk.toList ++ cont.toList ++ p.index.marks body := by
  rw [JumpIndex.mem_marks_node hn]
  simp [placedHere, operands, or_assoc]

/-- The state behind a loop that can be left is known from then on. -/
theorem exitState_ensures (h : Inv L s) (brk : Option Label) (origin : Expr) :
    Ensures p s (brk.mapM fun l => labelState l origin) fun exit s' =>
      match brk, exit with
      | none, none => Inv L s'
      | some l, some r => Inv (((L.hold r).learn (.state r)).learn (.label l r)) s'
      | _, _ => False := by
  cases brk with
  | none => exact Ensures.pure h
  | some l => exact Ensures.map (labelState_ensures h l origin)

/-- A loop becomes a state that its end goes back to. -/
theorem visitLoop_ensures (hv : Visits p visit) {body : Expr} {brk cont : Option Label}
    (h : Starts p L s (.node i r t (.loop body brk cont))) :
    Ensures p s (visitLoop visit (.node i r t (.loop body brk cont)) body brk cont)
      (Visited p L (.node i r t (.loop body brk cont))) := by
  have hbody : Fits p L.goals body := h.fits.operand h.needed List.mem_cons_self
  unfold visitLoop
  extract_lets tail
  have htail : ∀ c s₁, (∀ l ∈ cont, l = c) → Inv L s₁ →
      Ensures p s₁ (tail c) (Visited p L (.node i r t (.loop body brk cont))) := by
    intro c s₁ hcont h1
    refine (labelState_ensures h1 c _).bind fun entry s₂ h2 => .get ?_
    refine (setNext_ensures h2 h2.current (h2.known (.state entry)
      (List.mem_cons_of_mem _ List.mem_cons_self))).bind ?_
    rintro _ s₃ ⟨h3, hc, p3⟩
    rw [← p3.current] at hc
    refine (goOnIn_enter_ensures (L := (L.learn (.state entry)).learn (.label c entry))
      cont.toList h3 hc fun l hl => ?_).bind fun _ s₄ h4 => ?_
    · rw [hcont l (Option.mem_toList.mp hl)]
      exact h3.recall
    refine (exitState_ensures h4 brk _).bind fun exit s₅ h5 => ?_
    -- the loop goes on at its entry; its exit, if there is one, is finished afterwards
    cases brk with
    | none =>
      cases exit with
      | some => exact absurd h5 id
      | none =>
        refine (hv body _ s₅ h5 hbody).bind ?_
        rintro v s₆ ⟨hval, h6⟩
        refine (emit_ensures h6 hval).bind ?_
        rintro _ s₇ ⟨h7, _⟩
        refine (closeWith_ensures h7 (h7.known (.state entry)
          (List.mem_cons_of_mem _ List.mem_cons_self))).bind ?_
        rintro _ s₈ ⟨h8, hc, p8⟩
        rw [← p8.current] at hc
        show Ensures p s₈ ((do goOnIn (← newDead)) >>= fun _ => liftM (Build.default t)) _
        refine (goOnDead_ensures h8 hc).bind fun _ s₉ h9 => ?_
        refine (build_ensures (default_builds _) h9.inv).mono ?_
        rintro w s' ⟨hw, h', _⟩
        refine ⟨hw, ?_⟩
        have hall := Inv.forget (L := (L.enter cont.toList).enter (p.index.marks body))
          (Inv.forget (L := ((L.learn (.state entry)).enter cont.toList).enter
            (p.index.marks body)) h')
        exact hall.enter_append.enter_congr fun l => by
          rw [mem_marks_loop h.needed]
          simp
    | some b =>
      cases exit with
      | none => exact absurd h5 id
      | some exit =>
        refine (hv body _ s₅ h5 hbody).bind ?_
        rintro v s₆ ⟨hval, h6⟩
        refine (emit_ensures h6 hval).bind ?_
        rintro _ s₇ ⟨h7, _⟩
        refine (closeWith_ensures h7 (h7.known (.state entry) (List.mem_cons_of_mem _
          (List.mem_cons_of_mem _ (List.mem_cons_of_mem _ List.mem_cons_self))))).bind ?_
        rintro _ s₈ ⟨h8, hc, p8⟩
        rw [← p8.current] at hc
        refine (goOnIn_enter_ensures (L := (((((L.learn (.state entry)).learn (.label c entry)).learn
          (.state exit)).learn (.label b exit)).enter cont.toList).enter (p.index.marks body))
          [b] h8 hc fun l hl => ?_).bind fun _ s₉ h9 => ?_
        · cases List.mem_singleton.mp hl
          exact h8.known (.label b exit) List.mem_cons_self
        refine ((resultRef_makes exit _).ensures h9).mono ?_
        rintro w s' ⟨hw, h', _⟩
        refine ⟨hw, ?_⟩
        have hall : Inv (((L.enter cont.toList).enter (p.index.marks body)).enter [b]) s' :=
          h'.weaken rfl rfl rfl (fun _ => Iff.rfl) (fun _ hq => hq) h'.held fun f hf =>
            List.mem_cons_of_mem _ (List.mem_cons_of_mem _ (List.mem_cons_of_mem _
              (List.mem_cons_of_mem _ hf)))
        exact (Inv.enter_append hall.enter_append).enter_congr fun l => by
          rw [mem_marks_loop h.needed]
          simp only [Option.toList_some, List.mem_append]
          grind
  split
  · exact htail _ s (fun l hl => (Option.mem_some.mp hl).symm) h.inv
  · refine (build_ensures (newLabel_builds _ _) h.inv).bind ?_
    rintro c s₁ ⟨_, h1, _⟩
    exact htail c s₁ (fun l hl => by cases hl) h1

theorem mem_marks_label {default : Expr}
    (hn : p.index.needed (.node i r t (.label l default)) = true) (m : Label) :
    m ∈ p.index.marks (.node i r t (.label l default)) ↔ m ∈ p.index.marks default ++ [l] := by
  rw [JumpIndex.mem_marks_node hn]
  simp [placedHere, operands, or_comm]

/-- A label begins a state. -/
theorem visitLabel_ensures (hv : Visits p visit) {default : Expr}
    (h : Starts p L s (.node i r t (.label l default))) :
    Ensures p s (visitLabel visit (.node i r t (.label l default)) l default)
      (Visited p L (.node i r t (.label l default))) := by
  unfold visitLabel
  refine (labelState_ensures h.inv l _).bind fun q s₁ h1 => ?_
  extract_lets tail
  -- from here on the label is known, and the current state leads to it
  have htail : ∀ u s₂, Inv ((((L.hold q).learn (.state q)).learn (.label l q)).enter
        (p.index.marks default)) s₂ →
      Ensures p s₂ (tail u) (Visited p L (.node i r t (.label l default))) := by
    intro u s₂ h2
    refine (closeWith_ensures h2 (h2.known (.state q)
      (List.mem_cons_of_mem _ List.mem_cons_self))).bind ?_
    rintro _ s₃ ⟨h3, hc, p3⟩
    rw [← p3.current] at hc
    refine (goOnIn_enter_ensures (L := ((L.learn (.state q)).learn (.label l q)).enter
      (p.index.marks default)) [l] h3 hc fun m hm => ?_).bind fun _ s₄ h4 => ?_
    · cases List.mem_singleton.mp hm
      exact h3.known (.label l q) List.mem_cons_self
    refine ((resultRef_makes q _).ensures h4).mono ?_
    rintro w s₅ ⟨hw, h5, _⟩
    refine ⟨hw, ?_⟩
    have hall := Inv.forget (L := (L.enter (p.index.marks default)).enter [l])
      (Inv.forget (L := ((L.learn (.state q)).enter (p.index.marks default)).enter [l]) h5)
    exact hall.enter_append.enter_congr (mem_marks_label h.needed)
  split
  · refine (hv default _ s₁ h1 (h.fits.operand h.needed List.mem_cons_self)).bind ?_
    rintro v s₂ ⟨hval, h2⟩
    refine (assignResult_ensures h2 hval).bind ?_
    rintro _ s₃ ⟨h3, _⟩
    exact htail ⟨⟩ s₃ h3
  · rename_i habs
    refine htail ⟨⟩ s₁ ?_
    rw [JumpIndex.marks_of_not_needed (e := default) (by
      simp [JumpIndex.needed, show default.isAbsent = true by simpa using habs])]
    exact h1

/-! ### Jumps -/

/-- The cleanup blocks on the way are states that later steps rely on. -/
def Entries (L : Ledger) (finals : List Guard) : Prop :=
  ∀ g ∈ finals, ∃ c, g.cleanup = some c ∧ Fact.entry c ∈ L.known

/-- The states between the cleanup blocks that a jump leaves are finished at once. -/
theorem leaveThrough_ensures (h : Inv L s) (origin : Expr) {target : StateRef} {finals : List Guard}
    (ht : (Fact.state target).Holds s) (hf : Entries L finals) :
    Ensures p s (leaveThrough origin target finals) fun _ s' => Inv L s' := by
  unfold leaveThrough
  have hpairs : ∀ q ∈ finals.zip (finals.drop 1), q.2 ∈ finals := fun q hq =>
    List.drop_subset _ _ (List.of_mem_zip hq).2
  generalize finals.zip (finals.drop 1) = pairs at hpairs
  refine Ensures.mono (R := fun next s' => Inv (L.learn (.state next)) s') ?_ fun _ _ h' => h'.forget
  induction pairs with
  | nil => exact Ensures.pure (h.learn ht)
  | cons q qs ih =>
    rw [List.foldrM_cons]
    refine (ih fun q hq => hpairs q (List.mem_cons_of_mem _ hq)).bind fun next s₁ h1 => ?_
    obtain ⟨inner, outer⟩ := q
    obtain ⟨c, hc, hentry⟩ := hf outer (hpairs (inner, outer) List.mem_cons_self)
    refine (newStateIn_ensures inner.outer .leave origin .void h1).bind ?_
    rintro r s₂ ⟨h2, _, _⟩
    dsimp only
    rw [hc]
    have h3 := h2.forget
    show Ensures p s₂ ((do
      modifyState r fun s => { s with resume := some next }
      setNext r c) >>= fun _ => Pure.pure r) _
    refine (setResume_setNext_ensures h3 h3.recall.1 (h3.known (.state next)
      (List.mem_cons_of_mem _ List.mem_cons_self)) (h3.known (.entry c)
      (List.mem_cons_of_mem _ (List.mem_cons_of_mem _ hentry)))).bind ?_
    rintro _ s₃ ⟨h4, hclosed, _⟩
    have h5 := Inv.unhold (L := (L.learn (.state next)).learn (.state r)) h4 hclosed
    exact Ensures.pure ((h5.forget.forget).learn h5.recall)

theorem mem_goals_of_goto {goals : List Label} {k : GotoKind} {value : Expr}
    (hn : p.index.needed (.node i r t (.goto k l value)) = true)
    (hf : Fits p goals (.node i r t (.goto k l value))) : l ∈ goals :=
  hf.aims l ((JumpIndex.mem_aims_node hn).mpr (Or.inl rfl))

/-- More facts than are needed. -/
theorem Inv.relyOn {known : List Fact} (h : Inv { L with known } s) (hsub : L.known ⊆ known) : Inv L s :=
  h.weaken rfl rfl rfl (fun _ => Iff.rfl) (fun _ hq => hq) h.held hsub

/-- The regions that a jump leaves keep their cleanup blocks, which are known from then on. -/
theorem mapM_guard_ensures {gs : List GuardRef} (h : Inv L s)
    (hgs : ∀ g ∈ gs, (Fact.cleanup g).Holds s) :
    Ensures p s (gs.mapM guard) fun finals s' => ∃ known, L.known ⊆ known ∧
      Entries { L with known } finals ∧ Inv { L with known } s' := by
  suffices hall : Ensures p s (gs.mapM guard) fun finals s' => s = s' ∧ ∃ known, L.known ⊆ known ∧
      Entries { L with known } finals ∧ Inv { L with known } s' from hall.mono fun _ _ h' => h'.2
  induction gs with
  | nil =>
    rw [List.mapM_nil]
    exact Ensures.pure ⟨rfl, L.known, fun _ hf => hf, by simp [Entries], h⟩
  | cons g gs ih =>
    rw [List.mapM_cons]
    refine .guard ((ih fun g hg => hgs g (List.mem_cons_of_mem _ hg)).bind ?_)
    rintro finals _ ⟨rfl, known, hsub, hent, h'⟩
    obtain ⟨hlt, hsome⟩ := hgs g List.mem_cons_self
    obtain ⟨c, hc⟩ := Option.isSome_iff_exists.mp hsome
    obtain ⟨hentry, -, -⟩ := (h'.guarded g hlt).cleanup c hc
    refine Ensures.pure ⟨rfl, .entry c :: known, fun f hf => List.mem_cons_of_mem _ (hsub hf),
      fun i hi => ?_, h'.learn hentry⟩
    obtain rfl | hi := List.mem_cons.mp hi
    · exact ⟨c, hc, List.mem_cons_self⟩
    · obtain ⟨c', hc', hmem⟩ := hent i hi
      exact ⟨c', hc', List.mem_cons_of_mem _ hmem⟩

theorem mem_marks_goto {k : GotoKind} {value : Expr}
    (hn : p.index.needed (.node i r t (.goto k l value)) = true) (m : Label) :
    m ∈ p.index.marks (.node i r t (.goto k l value)) ↔ m ∈ p.index.marks value := by
  rw [JumpIndex.mem_marks_node hn]
  simp [placedHere, operands]

/-- A jump goes to the state of its label, through the cleanup blocks between. -/
theorem visitGoto_ensures (hv : Visits p visit) {k : GotoKind} {value : Expr}
    (h : Starts p L s (.node i r t (.goto k l value))) :
    Ensures p s (visitGoto visit (.node i r t (.goto k l value)) l value)
      (Visited p L (.node i r t (.goto k l value))) := by
  unfold visitGoto
  refine (labelState_goal_ensures h.inv (mem_goals_of_goto h.needed h.fits) _).bind
    fun target s₁ h1 => ?_
  extract_lets tail dispatch jump
  -- nothing comes after the jump
  have htail : ∀ s₂, Inv (L.enter (p.index.marks value)) s₂ →
      Ensures p s₂ (tail ⟨⟩) (Visited p L (.node i r t (.goto k l value))) := by
    intro s₂ h2
    refine (endWithJump_ensures h2).bind fun _ s₃ h3 => ?_
    refine (build_ensures (default_builds _) h3.inv).mono ?_
    rintro w s₄ ⟨hw, h4, _⟩
    exact ⟨hw, h4.enter_congr (mem_marks_goto h.needed)⟩
  have hdispatch : ∀ s₂, Inv (L.enter (p.index.marks value)) s₂ →
      Ensures p s₂ (dispatch ⟨⟩) (Visited p L (.node i r t (.goto k l value))) := by
    intro s₂ h2
    refine (continueDispatch_makes.ensures h2).bind ?_
    rintro x s₃ ⟨hx, h3, _⟩
    refine (emit_ensures h3 hx).bind ?_
    rintro _ s₄ ⟨h4, _⟩
    exact htail s₄ h4
  -- with its value stored, the jump is refused, goes straight to its label, or through cleanup blocks
  have hjump : ∀ s₂, Inv ((L.enter (p.index.marks value)).learn (.state target)) s₂ →
      Ensures p s₂ (jump ⟨⟩) (Visited p L (.node i r t (.goto k l value))) := by
    intro s₂ h2
    refine .get ((labelDepth_ensures l).bind ?_)
    rintro depth _ rfl
    split
    · refine (report_ensures (by decide) _ _ h2.forget).bind ?_
      rintro _ s₃ ⟨h3, _⟩
      exact htail s₃ h3
    · rename_i depth
      extract_lets crossed
      split
      · refine (report_ensures (by decide) _ _ h2.forget).bind ?_
        rintro _ s₃ ⟨h3, _⟩
        exact htail s₃ h3
      · -- the cleanup blocks on the way are those of regions around the jump
        refine (mapM_guard_ensures h2 fun g hg => ?_).bind ?_
        · obtain ⟨f, hf, hfg⟩ := List.mem_filterMap.mp hg
          exact h2.frames f (List.drop_subset _ _ (List.mem_reverse.mp hf)) g hfg
        rintro finals s₃ ⟨known, hsub, hent, h3⟩
        split
        · refine ((setState_makes target).ensures h3).bind ?_
          rintro x s₄ ⟨hx, h4, _⟩
          refine (emit_ensures h4 hx).bind ?_
          rintro _ s₅ ⟨h5, _⟩
          exact hdispatch s₅ (h5.relyOn hsub).forget
        · -- the resume slot says where the innermost cleanup block goes on
          rename_i first _
          refine (leaveThrough_ensures h3 _ (h3.known _ (hsub List.mem_cons_self)) hent).bind
            fun next s₄ h4 => ?_
          refine ((setResume_makes next).ensures h4).bind ?_
          rintro x s₅ ⟨hx, h5, _⟩
          refine (emit_ensures h5 hx).bind ?_
          rintro _ s₆ ⟨h6, _⟩
          refine ((setState_makes first).ensures h6).bind ?_
          rintro y s₇ ⟨hy, h7, _⟩
          refine (emit_ensures h7 hy).bind ?_
          rintro _ s₈ ⟨h8, _⟩
          exact hdispatch s₈ (h8.relyOn hsub).forget
  split
  · refine (hv value _ s₁ h1 (h.fits.operand h.needed List.mem_cons_self)).bind ?_
    rintro v s₂ ⟨hval, h2⟩
    refine (assignResult_ensures h2 hval).bind ?_
    rintro _ s₃ ⟨h3, _⟩
    exact hjump s₃ h3
  · rename_i habs
    refine hjump s₁ ?_
    rw [JumpIndex.marks_of_not_needed (e := value) (by
      simp [JumpIndex.needed, show value.isAbsent = true by simpa using habs])]
    exact h1

end Resumable.Split
