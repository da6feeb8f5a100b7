import Resumable.Proofs.Passes
import Resumable.Proofs.Trimming

/-!
# `Proofs.Optimizing`: the optimizer keeps a machine in order

Every rule of the optimizer replaces a block by another one that may stand in its place, and so do the rules
for conditionals and for stores of a variable to itself. What the optimizer makes of a tree may therefore
stand where the tree stood.

**Contents**
* `Changes`: blocks whose variables and statements may be exchanged.
* `stepBlock_reworks`, `settleBlock_reworks`, `optimizeBlock_recasts`: blocks.
* `dropSelfStore_recasts`, `mergeArms_recasts`: other nodes.
* `optimize_recasts`: a whole tree.
-/

namespace Resumable

open Resumable.Expr

section
variable {m₀ m m' m'' : Watch} {x y z : Expr} {xs ys pre : List Expr} {t : Ty} {d : Data Expr} {v : Var}
  {α β : Type}

/-! ### Constructions that take no number, or one -/

/-- A step that leaves the supply as it is. -/
theorem Reworks.look {u : Build α} {f : α → Build β} {p : α → Prop} {R : Watch → β → Prop}
    (hu : ∀ q a q', u q = .ok a q' → q' = q ∧ p a) (hf : ∀ a, p a → Reworks m (f a) R) :
    Reworks m (u >>= f) R := by
  intro q c q' hm h
  obtain ⟨a, q₁, ha, hrun⟩ := Build.exists_of_bind h
  obtain ⟨rfl, hp⟩ := hu q a q₁ ha
  exact hf a hp q₁ c q' hm hrun

theorem Build.dataOf_run {q q' : Supply} (h : Build.dataOf x q = .ok d q') : q' = q ∧ x.data? = some d := by
  cases x with
  | absent => cases h
  | node i r t d₀ =>
    cases h
    exact ⟨rfl, rfl⟩

/-- A value that was stored into a variable is converted to the type of the variable. -/
theorem coerce_stored (m : Watch) (x : Expr) (t : Ty) :
    Reworks m (x.coerce t) fun m' y => Stored m m' t x y := by
  unfold coerce
  split
  · exact .pure ⟨fun _ h => h, fun _ => rfl, id⟩
  · rename_i hne
    refine (Reworks.node t (.unary .convert x none)).mono ?_
    rintro m' _ hmm ⟨i, r, hr, -, rfl⟩
    refine ⟨fun hosts h => .node (fun _ => hr) trivial fun c hc => ?_, fun heq => ?_, fun _ => trivial⟩
    · rw [List.mem_singleton.mp hc]
      exact h.later hmm.toLater (hmm.kept x)
    · simp [heq] at hne

theorem withData_reworks (m : Watch) (x : Expr) (d : Data Expr) : Reworks m (Build.withData x d) fun m' y =>
    ∃ i r r' t d₀, x = .node i r t d₀ ∧ m'.Ground r' ∧ y = .node i r' t d := by
  cases x with
  | absent => exact .throw _
  | node i r t d₀ => exact Reworks.freshRef.bind fun m' r' _ hr => .pure ⟨i, r, r', t, d₀, rfl, hr, rfl⟩

theorem withType_reworks (m : Watch) (x : Expr) (t : Ty) : Reworks m (Build.withType x t) fun m' y =>
    ∃ i r r' u d, x = .node i r u d ∧ m'.Ground r' ∧ y = .node i r' t d := by
  cases x with
  | absent => exact .throw _
  | node i r u d => exact Reworks.freshRef.bind fun m' r' _ hr => .pure ⟨i, r, r', u, d, rfl, hr, rfl⟩

/-! ### Blocks -/

/-- A block may have other variables and statements instead. -/
def Changes (m m' : Watch) (b b' : BlockParts) : Prop :=
  ∀ i r t, Replaces m m' (.node i r t (.block b.1 b.2)) (.node i r t (.block b'.1 b'.2))

theorem Changes.widen {n : Watch} {b b' : BlockParts} (h : Changes m m' b b') (hn : n.Onward m)
    (ha : m.Onward m') : Changes n m' b b' := fun i r t => (h i r t).widen hn ha.ages (.refl m')

/-- The statements of a block in a block are taken out of it. -/
theorem flatten_reworks (m : Watch) (t : Ty) (xs : List Expr) : Reworks m (flatten t xs) fun m' out =>
    ∀ b ∈ out, ∀ pre vs, Changes m m' (vs, pre ++ xs) (vs ++ b.1, pre ++ b.2) := by
  induction xs with
  | nil => exact .pure (by simp)
  | cons x rest ih =>
    unfold flatten
    extract_lets later
    have hlater : Reworks m later fun m' out =>
        ∀ b ∈ out, ∀ pre vs, Changes m m' (vs, pre ++ x :: rest) (vs ++ b.1, pre ++ b.2) := by
      refine ih.bind fun m₁ out h01 hout => .pure fun b hb pre vs => ?_
      obtain ⟨c, hc, rfl⟩ := Option.map_eq_some_iff.mp hb
      have := hout c hc (pre ++ [x]) vs
      rwa [List.append_assoc, List.append_assoc] at this
    refine Reworks.look (fun q d q' => Build.dataOf_run) fun d hd => ?_
    split
    · split
      · refine .pure fun b hb pre vs => ?_
        cases hb
        cases x with
        | absent => cases hd
        | node j s u d =>
          cases hd
          exact fun i r t => flatten_replaces m
      · exact hlater
    · exact hlater

/-- A statement that does nothing is dropped. -/
theorem dropInert_changes (m : Watch) {t : Ty} (h : dropInert t xs = some ys) (pre : List Expr) (vs : List Var) :
    Changes m m (vs, pre ++ xs) (vs, pre ++ ys) := by
  induction xs generalizing ys pre with
  | nil => cases h
  | cons x rest ih =>
    unfold dropInert at h
    split at h
    · cases h
    · split at h
      · rename_i hx
        cases h
        exact fun i r t => dropInert_replaces m hx
      · obtain ⟨zs, hzs, rfl⟩ := Option.map_eq_some_iff.mp h
        have := ih hzs (pre ++ [x])
        rwa [List.append_assoc, List.append_assoc] at this

/-- A transfer under another type. -/
theorem transfer_retyped (hmm : m.Onward m') (hx : x.transfers = true)
    (h : ∃ i r r' u d, x = .node i r u d ∧ m'.Ground r' ∧ y = .node i r' t d) :
    y.transfers = true ∧ (m.Leaves x → m.Leaves y) ∧ ∀ hosts, m.Foreign hosts x → m'.Foreign hosts y := by
  obtain ⟨i, r, r', u, d, rfl, hr, rfl⟩ := h
  refine ⟨hx, fun h => ?_, fun hosts h => ?_⟩
  · unfold Watch.Leaves at h
    split at h
    · rename_i heq
      cases heq
      exact h
    · cases h
  · have hkind : d.kind ≠ .lambda := by
      intro hk
      cases d with
      | lambda => cases hx
      | _ => cases hk
    obtain ⟨hord, hops⟩ := h.ordinary hkind
    refine .node (fun _ => hr) ?_ fun c hc => (hops c hc).later hmm.toLater (hmm.kept c)
    cases d with
    | goto | throw => trivial
    | _ => cases hx

/-- Statements after one that does not return are dropped. -/
theorem truncate_reworks (m : Watch) (t : Ty) (xs : List Expr) : Reworks m (truncate t xs) fun m' out =>
    ∀ ys ∈ out, ∀ pre vs, Changes m m' (vs, pre ++ xs) (vs, pre ++ ys) := by
  induction xs with
  | nil => exact .pure (by simp)
  | cons x rest ih =>
    unfold truncate
    split
    · exact .pure (by simp)
    · split
      · refine ih.bind fun m₁ out h01 hout => .pure fun ys hys pre vs => ?_
        obtain ⟨zs, hzs, rfl⟩ := Option.map_eq_some_iff.mp hys
        have := hout zs hzs (pre ++ [x]) vs
        rwa [List.append_assoc, List.append_assoc] at this
      · rename_i hx
        simp only [Bool.not_eq_true', Bool.not_eq_false] at hx
        split
        · exact .pure (by simp)
        · split
          · refine (withType_reworks m x t).bind fun m₁ y h01 hy => .pure fun ys hys pre vs => ?_
            cases hys
            obtain ⟨hy', hleaves, hforeign⟩ := transfer_retyped h01 hx hy
            exact fun i r u => truncate_replaces h01 hx hy' hleaves hforeign
          · refine .pure fun ys hys pre vs => ?_
            cases hys
            exact fun i r u => truncate_replaces (.refl m) hx hx id fun _ => id

theorem plainStore?_eq_some {value : Expr} (h : x.plainStore? = some (v, value)) : ∃ i r t j s u,
    x = .node i r t (.assign .plain (.node j s u (.var v)) value) := by
  unfold plainStore? at h
  split at h
  · split at h
    · cases h
    · cases h
      exact ⟨_, _, _, _, _, _, rfl⟩
  · cases h

theorem isRef_eq_true (h : x.isRef v = true) : ∃ i r t, x = .node i r t (.var v) := by
  have h := isRef_iff.mp h
  unfold asVar? at h
  split at h
  · cases h
    exact ⟨_, _, _, rfl⟩
  · cases h

/-- Two stores of one variable in a row become one. -/
theorem collapseStores_reworks (m : Watch) (vars : List Var) (all : List Expr) : ∀ xs : List Expr,
    Reworks m (collapseStores vars all xs) fun m' out =>
      ∀ b ∈ out, ∀ pre, Changes m m' (vars, pre ++ xs) (vars.filter (· != b.1), pre ++ b.2)
  | [] => .pure (by simp)
  | [a] => .pure (by simp)
  | a :: b :: rest => by
    unfold collapseStores
    extract_lets later
    -- a rule that fires later changes the same list behind one more statement
    have hlater : Reworks m later fun m' out => ∀ c ∈ out, ∀ pre,
        Changes m m' (vars, pre ++ a :: b :: rest) (vars.filter (· != c.1), pre ++ c.2) := by
      refine (collapseStores_reworks m vars all (b :: rest)).bind fun m₁ out h01 hout => .pure fun c hc pre => ?_
      obtain ⟨d, hd, rfl⟩ := Option.map_eq_some_iff.mp hc
      have := hout d hd (pre ++ [a])
      rwa [List.append_assoc, List.append_assoc] at this
    split
    · rename_i v value target value₂ hstore hd
      split
      · exact hlater
      · rename_i hv
        refine Reworks.look (fun q d q' => Build.dataOf_run) fun _ _ => ?_
        split
        · exact hlater
        · rename_i href
          simp only [Bool.or_eq_true, Bool.not_eq_true', not_or, Bool.not_eq_false] at hv href
          obtain ⟨j, s, u, j₁, s₁, u₁, rfl⟩ := plainStore?_eq_some hstore
          obtain ⟨j₃, s₃, u₃, rfl⟩ := isRef_eq_true href.1
          refine Reworks.fair fun hm => (coerce_stored m value v.type).bind fun m₁ w h01 hw => ?_
          refine (withData_reworks m₁ b _).bind fun m₂ merged h12 hmerged => .pure fun c hc pre => ?_
          cases hc
          obtain ⟨j₂, s₂, s', u₂, d, rfl, hs', rfl⟩ := hmerged
          cases hd
          have hw' : Stored m m₂ v.type value w :=
            ⟨fun hosts h => (hw.foreign hosts h).later h12.toLater (h12.kept w), hw.same, hw.simple⟩
          exact fun i r t => collapse_replaces hm (h01.trans h12) (List.contains_iff_mem.mp hv) hs' hw'
    · exact hlater

/-- A last store into a variable of the block is dropped. -/
theorem dropTrailingStore_reworks (m : Watch) (t : Ty) (vars : List Var) (xs : List Expr) :
    Reworks m (dropTrailingStore t vars xs) fun m' out => ∀ ys ∈ out, Changes m m' (vars, xs) (vars, ys) := by
  unfold dropTrailingStore
  split
  · exact .pure (by simp)
  · rename_i v value hlast
    obtain ⟨last, hmem, hstore⟩ := Option.bind_eq_some_iff.mp hlast
    obtain ⟨j, s, u, j₁, s₁, u₁, rfl⟩ := plainStore?_eq_some hstore
    obtain ⟨pre, rfl⟩ := List.getLast?_eq_some_iff.mp hmem
    split
    · exact .pure (by simp)
    · rename_i hv
      simp only [Bool.or_eq_true, Bool.not_eq_true', not_or, Bool.not_eq_false] at hv
      have hmemv : v ∈ vars := List.contains_iff_mem.mp hv.1.1
      extract_lets tail
      split
      · refine .pure fun ys hys => ?_
        cases hys
        rw [List.dropLast_concat]
        exact fun i r t => trailing_replaces (.refl m) hmemv ⟨fun _ h => h, fun _ => rfl, id⟩
      · refine (coerce_stored m value v.type).bind fun m₁ w h01 hw => .pure fun ys hys => ?_
        cases hys
        rw [List.dropLast_concat]
        exact fun i r t => trailing_replaces h01 hmemv hw

/-- One simplification of a block stands for it. -/
theorem stepBlock_reworks (m : Watch) (t : Ty) (b : BlockParts) :
    Reworks m (stepBlock t b) fun m' out => ∀ b' ∈ out, Changes m m' b b' := by
  obtain ⟨vars, xs⟩ := b
  unfold stepBlock
  refine (flatten_reworks m t xs).bind fun m₁ out h01 hout => ?_
  split
  · refine .pure fun b' hb' => ?_
    cases hb'
    exact hout _ rfl [] vars
  · split
    · rename_i hdrop
      refine .pure fun b' hb' => ?_
      cases hb'
      exact (dropInert_changes m₁ hdrop [] vars).widen h01 (.refl m₁)
    · refine (truncate_reworks m₁ t xs).bind fun m₂ out h12 hout => ?_
      split
      · refine .pure fun b' hb' => ?_
        cases hb'
        exact (hout _ rfl [] vars).widen h01 h12
      · refine (collapseStores_reworks m₂ vars xs xs).bind fun m₃ out h23 hout => ?_
        split
        · refine .pure fun b' hb' => ?_
          cases hb'
          exact (hout _ rfl []).widen (h01.trans h12) h23
        · refine (dropTrailingStore_reworks m₃ t vars xs).bind fun m₄ out h34 hout => .pure fun b' hb' => ?_
          obtain ⟨ys, hys, rfl⟩ := Option.map_eq_some_iff.mp hb'
          exact (hout ys hys).widen ((h01.trans h12).trans h23) h34

/-- Applying the rules until none fires reworks a block. -/
theorem settleBlock_reworks (m : Watch) (t : Ty) (fuel : Nat) (b : BlockParts) :
    Reworks m (settleBlock t fuel b) fun m' b' => Changes m m' b b' := by
  induction fuel generalizing m b with
  | zero => exact .pure fun i r t => .refl m _
  | succ fuel ih =>
    unfold settleBlock
    refine (stepBlock_reworks m t b).bind fun m₁ out h01 hout => ?_
    split
    · rename_i b₁
      refine (ih m₁ b₁).mono fun m₂ b₂ h12 hb₂ i r t => ?_
      exact (hout b₁ rfl i r t).trans (hb₂ i r t) h01.ages h12.ages
    · exact .pure fun i r t => .of_later h01.toLater (h01.kept _)

/-! ### What is left of a block -/

variable {i r : Nat} {u : Ty} {armed a b : Bool}

/-- The statement of a block of one statement may stand where the block stands. -/
theorem Obeys.single (h : Obeys m (.inside a b) (.node i r t (.block [] [x]))) : Obeys m (.inside a b) x := by
  cases h with
  | user hx => exact .user ((hx.ordinary (by simp [Data.kind])).2 x (List.mem_singleton.mpr rfl))
  | raw hx => obtain ⟨_, _, _, ⟨_, _, _, h⟩ | ⟨_, h⟩⟩ := hx.shape <;> cases h
  | block hg hv hx hs => exact (hx x (List.mem_singleton.mpr rfl)).anywhere a b

/-- It is not special, since it stands alone. -/
theorem Obeys.single_plain (h : Obeys m (.inside a b) (.node i r t (.block [] [x])))
    (ha : a = true → armed = true) : ¬ m.Special armed x := by
  cases h with
  | user hx => exact ((hx.ordinary (by simp [Data.kind])).2 x (List.mem_singleton.mpr rfl)).not_special
  | raw hx => obtain ⟨_, _, _, ⟨_, _, _, h⟩ | ⟨_, h⟩⟩ := hx.shape <;> cases h
  | block hg hv hx hs =>
    cases hs.1 with
    | any hplain => exact fun hspecial => hplain (hspecial.mono ha)
    | aimed hp _ => exact hp.elim

/-- A block of one statement opens no instance. -/
theorem Obeys.opening_length {vs : List Var} (h : Obeys m .opening (.node i r t (.block vs xs))) :
    2 ≤ xs.length := by
  generalize hy : Expr.node i r t (.block vs xs) = y at h
  cases h with
  | @opening _ _ _ _ before after loop c hr hn hv hb hbo hstate hresume hc hloop ha hao hstart =>
    cases hy
    obtain ⟨z, hz, -⟩ := hstart
    have := List.length_pos_of_mem hz
    simp only [List.length_append, List.length_cons]
    omega

/-- **A block of a single statement** is that statement. -/
theorem single_replaces (m : Watch) (x : Expr) : Replaces m m (.node i r t (.block [] [x])) x := by
  refine .of_compound (.inl rfl) (fun role h => ?_) (fun a b armed ha h => h.single_plain ha) fun h => ?_
  · have hforeign : ∀ {hosts}, m.Foreign hosts (.node i r t (.block [] [x])) → m.Foreign hosts x :=
      fun h => (h.ordinary (by simp [Data.kind])).2 x (List.mem_singleton.mpr rfl)
    cases role with
    | outside => exact hforeign h
    | inside a b => exact h.single
    | opening => exact absurd h.opening_length (by simp)
    | failing =>
      cases h with
      | failed h => exact .failed (hforeign h)
    | _ => cases h
  · obtain h | h | ⟨_, _, _, _, _, y, heq, hy, h⟩ := h
    · exact absurd h id
    · cases h
    · cases heq
      cases hy
      exact h.elim .inl fun h => .inr (.inl h)

/-- **A block of no statement** may give way to a value. -/
theorem empty_replaces (y : Expr) (hy : ∀ hosts, m'.Foreign hosts y) :
    Replaces m m' (.node i r t (.block [] [])) y := by
  refine .of_compound (.inl rfl) (fun role h => ?_) (fun _ _ _ _ _ => (hy false).not_special) fun h => ?_
  · cases role with
    | outside hosts => exact hy hosts
    | inside => exact .user (hy false)
    | opening => exact absurd h.opening_length (by simp)
    | failing => exact .failed (hy false)
    | _ => cases h
  · obtain h | h | ⟨_, _, _, _, _, y, heq, hy, h⟩ := h
    · exact absurd h id
    · cases h
    · cases heq
      cases hy

/-- A block under a new identity. -/
theorem copy_recasts {vs : List Var} : Recasts m₀ (fun _ => False)
    (Build.withData (.node i r t (.block vs xs)) (.block vs xs)) (.node i r t (.block vs xs)) := by
  intro m h0 hfair q y q' hm hrun
  cases hrun
  exact Replaces.rebuild hfair (.refl m) hm (.block (List.forall₂_same.mpr fun x _ => .self (.refl m) x)) id
    (.same m rfl)

/-- **What becomes of a block** stands for it. -/
theorem optimizeBlock_recasts {vars : List Var} : Recasts m₀ (fun _ => False)
    (optimizeBlock (.node i r t (.block vars xs)) vars xs) (.node i r t (.block vars xs)) := by
  intro m h0 hm
  unfold optimizeBlock
  refine (settleBlock_reworks m _ _ (vars, xs)).bind ?_
  rintro m₁ ⟨vars', ys⟩ h01 hchanges
  have hchanges := hchanges i r t
  dsimp only at hchanges ⊢
  have hcopy : Reworks m₁ (Build.withData (.node i r t (.block vars xs)) (.block vars' ys)) fun m' y =>
      Replaces m (m'.drop fun _ => False) (.node i r t (.block vars xs)) y := by
    have hcopied : Recasts m₀ (fun _ => False) (Build.withData (.node i r t (.block vars' ys)) (.block vars' ys))
        (.node i r t (.block vars' ys)) := copy_recasts
    refine (hcopied m₁ (h0.trans h01) (h01.fair hm)).mono fun m₂ y h12 hrep => ?_
    rw [Watch.drop_none] at hrep ⊢
    exact hchanges.trans hrep h01.ages h12.ages
  split
  · split
    · refine .pure ?_
      rw [Watch.drop_none]
      exact hchanges.trans (single_replaces m₁ _) h01.ages (.refl m₁)
    · exact hcopy
  · split
    · refine (Reworks.node .void .default).mono ?_
      rintro m₂ _ h12 ⟨j, s, hs, -, rfl⟩
      rw [Watch.drop_none]
      exact hchanges.trans (empty_replaces _ fun hosts => .node (fun _ => hs) trivial (by simp [operands]))
        h01.ages h12.ages
    · exact hcopy
  · exact hcopy

/-! ### Rules for other nodes -/

/-- A store of a variable to itself may give way to a read. -/
theorem selfStore_replaces {j s j₁ s₁ : Nat} {u₁ : Ty} (hm : m.Fair) :
    Replaces m m (.node i r t (.assign .plain (.node j s u (.var v)) (.node j₁ s₁ u₁ (.var v))))
      (.node j₁ s₁ u₁ (.var v)) := by
  have hforeign : ∀ {hosts},
      m.Foreign hosts (.node i r t (.assign .plain (.node j s u (.var v)) (.node j₁ s₁ u₁ (.var v)))) →
        m.Foreign hosts (.node j₁ s₁ u₁ (.var v)) := fun h =>
    (h.ordinary (by simp [Data.kind])).2 _ (mem_operands_assign.mpr (.inr rfl))
  -- no store of the machine stores a variable to itself
  have hraw : ¬ m.RawStore (.node j s u (.var v)) (.node j₁ s₁ u₁ (.var v)) := by
    intro h
    cases h with
    | number _ _ hx => exact hx
    | returns ht hparked hx =>
      obtain ⟨_, _, _, heq⟩ := ht
      cases heq
      exact hparked.ne_state hm hx.1.symm
    | resumes ht hx =>
      obtain ⟨_, _, _, heq⟩ := ht
      cases heq
      exact hm.ne hx.1
    | parks hparked ht hx =>
      obtain ⟨_, _, _, heq⟩ := ht
      cases heq
      exact hparked.ne_resume hm hx.1
  have hinside : ∀ {a b},
      Obeys m (.inside a b) (.node i r t (.assign .plain (.node j s u (.var v)) (.node j₁ s₁ u₁ (.var v)))) →
        m.Foreign false (.node j₁ s₁ u₁ (.var v)) := fun h => hforeign (h.inside_assign.resolve_right hraw)
  exact
    { still := fun h => absurd h id
      reads := fun h => by cases h
      obeys := fun role h => by
        cases role with
        | outside => exact hforeign h
        | inside => exact .user (hinside h)
        | failing =>
          cases h with
          | failed h => exact .failed (hforeign h)
        | _ => cases h
      plain := fun _ _ _ _ h _ => (hinside h).not_special
      puts := fun w P _ h => absurd h.2 id
      hands := fun h => absurd h id
      calls := fun _ h => absurd h id
      transfers := fun h => by cases h
      quits := fun h => absurd h.1 id
      settles := fun h => by
        obtain h | h | ⟨_, _, _, _, _, _, h, -⟩ := h
        · exact absurd h id
        · cases h
        · cases h
      closes := fun L h hL => by
        obtain ⟨_, _, _, _, _, _, h⟩ := h
        cases h
        cases hL
      starts := fun h => absurd h id
      simple := fun h => by obtain h | h | h := h <;> cases h
      kinds := fun k hk h => by
        simp only [List.mem_cons, List.not_mem_nil, or_false] at hk
        obtain rfl | rfl | rfl := hk <;> cases h }

/-- A store of a variable to itself may become the read of it. -/
theorem dropSelfStore_recasts (e : Expr) : Recasts m₀ (fun _ => False) (pure (dropSelfStore e)) e := by
  intro m h0 hm
  refine .pure ?_
  rw [Watch.drop_none]
  unfold dropSelfStore
  split
  · rename_i v value hstore
    split
    · rename_i href
      obtain ⟨i, r, t, j, s, u, rfl⟩ := plainStore?_eq_some hstore
      obtain ⟨j₁, s₁, u₁, rfl⟩ := isRef_eq_true href
      exact selfStore_replaces hm
    · exact .refl m e
  · exact .refl m e

/-- The only statement of nested blocks may stand for them. -/
theorem single?_replaces (m : Watch) (h : x.single? = some y) : Replaces m m x y := by
  fun_induction single? x with
  | case1 => cases h
  | case2 i r t x ih => exact (single_replaces m x).trans (ih h) (.refl m) (.refl m)
  | case3 => cases h
  | case4 x =>
    cases h
    exact .refl m _

/-- An arm of a conditional may stand for it. -/
theorem arm_replaces {test ifTrue ifFalse : Expr} (harm : Replaces m m ifTrue y) :
    Replaces m m (.node i r t (.conditional test ifTrue ifFalse)) y := by
  -- outside the machine every part is foreign
  have hforeign : ∀ {hosts}, m.Foreign hosts (.node i r t (.conditional test ifTrue ifFalse)) →
      m.Foreign hosts y := fun h =>
    harm.obeys _ ((h.ordinary (by simp [Data.kind])).2 ifTrue (by simp [operands]))
  -- inside it an arm is under the same rules as the conditional
  have harms : ∀ {a b}, Obeys m (.inside a b) (.node i r t (.conditional test ifTrue ifFalse)) →
      m.Foreign false y ∨ Obeys m (.inside false false) ifTrue ∧ ¬ m.Special false ifTrue := by
    intro a b h
    cases h with
    | user h => exact .inl (hforeign h)
    | raw h => obtain ⟨_, _, _, ⟨_, _, _, h⟩ | ⟨_, h⟩⟩ := h.shape <;> cases h
    | conditional _ ha hsa _ _ => exact .inr ⟨ha, hsa⟩
  refine .of_compound (.inr rfl) (fun role h => ?_) (fun a b armed _ h => ?_) fun h => ?_
  · cases role with
    | outside => exact hforeign h
    | inside a b =>
      obtain h | ⟨ha, -⟩ := harms h
      · exact .user h
      · exact (harm.obeys _ ha).anywhere a b
    | failing =>
      cases h with
      | failed h => exact .failed (hforeign h)
    | _ => cases h
  · obtain h | ⟨ha, hsa⟩ := harms h
    · exact h.not_special
    · exact fun hs => harm.plain false false false id ha hsa (hs.mono (by simp))
  · obtain h | h | ⟨_, _, _, _, _, _, h, -⟩ := h
    · exact absurd h id
    · cases h
    · cases h

/-- Arms that do the same become one. -/
theorem mergeArms_recasts (alike : Option Value → Option Value → Bool) {test ifTrue ifFalse : Expr} :
    Recasts m₀ (fun _ => False)
      (mergeArms alike (.node i r t (.conditional test ifTrue ifFalse)) test ifTrue ifFalse)
      (.node i r t (.conditional test ifTrue ifFalse)) := by
  intro m h0 hm
  have hself := Recasts.pure (.node i r t (.conditional test ifTrue ifFalse)) m h0 hm
  unfold mergeArms
  split
  · rename_i x y hx hy
    split
    · split
      · exact hself
      · split
        · exact .throw _
        · split
          · exact hself
          · refine .pure ?_
            rw [Watch.drop_none]
            exact arm_replaces (single?_replaces m hx)
    · exact hself
  · exact hself

/-- **The optimizer keeps every machine in order.** -/
theorem optimize_recasts (alike : Option Value → Option Value → Bool) (e : Expr) :
    Recasts m₀ (fun _ => False) (e.optimize alike) e := by
  unfold optimize
  refine Recasts.rewrite (fun n => ?_) e
  cases n with
  | absent => exact .pure _
  | node i r t d =>
    cases d with
    | block vars xs => exact optimizeBlock_recasts
    | assign op target value => exact dropSelfStore_recasts _
    | conditional test ifTrue ifFalse => exact mergeArms_recasts alike
    | _ => exact .pure _

end

end Resumable
