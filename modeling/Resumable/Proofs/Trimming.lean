import Resumable.Proofs.Recasting

/-!
# `Proofs.Trimming`: the optimizer and the statements of a machine

The optimizer takes statements out of blocks, splices blocks and merges stores. What it leaves of a block of
a machine is still in order: nothing is taken from between two statements that belong together.

**Contents**
* `Shape.change`: changing the end of a list of statements.
* `Replaces.block`: what it takes for a block to replace a block.
* `flatten_replaces`, `dropInert_replaces`, `truncate_replaces`, `collapse_replaces`, `trailing_replaces`: one lemma
  for each rule.
-/

namespace Resumable

open Resumable.Expr

section
variable {m m' m'' : Watch} {x y prev prev' : Expr} {xs ys rest rest' pre : List Expr} {a b armed bare : Bool}

/-! ### Lists of statements -/

namespace Watch

/-- What the statements before a list look for at its head. -/
structure Trails (m : Watch) (rest rest' : List Expr) : Prop where
  aims : ∀ y r, rest = y :: r → m.Aims y → ∃ y' r', rest' = y' :: r' ∧ m.Aims y'
  leaves : ∀ y r, rest = y :: r → m.Leaves y → ∃ y' r', rest' = y' :: r' ∧ m.Leaves y'
  quits : ∀ y z r, rest = y :: z :: r → m.Quits y → m.Leaves z →
    ∃ y' z' r', rest' = y' :: z' :: r' ∧ m.Quits y' ∧ m.Leaves z'

/-- A statement fits before what trails the rest. -/
theorem Fits.trails (h : m.Fits a b prev x rest) (ht : m.Trails rest rest') : m.Fits a b prev x rest' := by
  cases h with
  | any hx => exact .any hx
  | enter hx hy =>
    obtain ⟨y', r', rfl, hy'⟩ := ht.aims _ _ rfl hy
    exact .enter hx hy'
  | aimed hp hx => exact .aimed hp hx
  | complete hp hx hz =>
    obtain ⟨z', r', rfl, hz'⟩ := ht.leaves _ _ rfl hz
    exact .complete hp hx hz'
  | fail hb hx hy hz =>
    obtain ⟨y', z', r', rfl, hy', hz'⟩ := ht.quits _ _ _ rfl hy hz
    exact .fail hb hx hy' hz'
  | hand hx hy =>
    obtain ⟨y', r', rfl, hy'⟩ := ht.leaves _ _ rfl hy
    exact .hand hx hy'

theorem Trails.cons (h : m.Trails rest rest') (x : Expr) : m.Trails (x :: rest) (x :: rest') where
  aims y r heq hy := by
    cases heq
    exact ⟨_, _, rfl, hy⟩
  leaves y r heq hy := by
    cases heq
    exact ⟨_, _, rfl, hy⟩
  quits y z r heq hy hz := by
    cases heq
    obtain ⟨z', r', rfl, hz'⟩ := h.leaves _ _ rfl hz
    exact ⟨_, _, _, rfl, hy, hz'⟩

theorem Trails.append (h : m.Trails rest rest') (pre : List Expr) :
    m.Trails (pre ++ rest) (pre ++ rest') := by
  induction pre with
  | nil => exact h
  | cons x xs ih => exact ih.cons x

theorem Trails.nil (rest : List Expr) : m.Trails [] rest :=
  ⟨fun _ _ h => (by cases h), fun _ _ h => (by cases h), fun _ _ _ h => (by cases h)⟩

/-- A statement that no statement before it looks for. -/
structure Neutral (m : Watch) (x : Expr) : Prop where
  aims : ¬ m.Aims x
  leaves : ¬ m.Leaves x
  quits : ¬ m.Quits x

theorem Neutral.trails (h : m.Neutral x) (rest rest' : List Expr) : m.Trails (x :: rest) rest' where
  aims y r heq hy := by
    cases heq
    exact absurd hy h.aims
  leaves y r heq hy := by
    cases heq
    exact absurd hy h.leaves
  quits y z r heq hy _ := by
    cases heq
    exact absurd hy h.quits

/-- The end of a list that is in order is in order. -/
theorem Shape.suffix (h : m.Shape a b prev (pre ++ xs)) : m.Shape a b (pre.getLast?.getD prev) xs := by
  induction pre generalizing prev with
  | nil => exact h
  | cons x pre ih =>
    rw [List.getLast?_cons, Option.getD_some]
    exact ih h.2

/-- Changing the end of a list. -/
theorem Shape.change (h : m.Shape a b prev (pre ++ xs)) (ht : m.Trails xs ys)
    (hys : m.Shape a b (pre.getLast?.getD prev) ys) : m.Shape a b prev (pre ++ ys) := by
  induction pre generalizing prev with
  | nil => exact hys
  | cons x pre ih =>
    rw [List.getLast?_cons, Option.getD_some] at hys
    exact ⟨h.1.trails (ht.append pre), ih h.2 hys⟩

/-- What stands before a list may change. -/
theorem Shape.prior (h : m.Shape a b prev xs) (ha : m.Aims prev → m.Aims prev')
    (hs : m.Settles prev → m.Settles prev') : m.Shape a b prev' xs := by
  cases xs with
  | nil => trivial
  | cons x xs =>
    refine ⟨?_, h.2⟩
    cases h.1 with
    | any hx => exact .any hx
    | enter hx hy => exact .enter hx hy
    | aimed hp hx => exact .aimed (ha hp) hx
    | complete hp hx hz => exact .complete (hs hp) hx hz
    | fail hb hx hy hz => exact .fail hb hx hy hz
    | hand hx hy => exact .hand hx hy

/-- A list that is in order by itself is so anywhere. -/
theorem Shape.anywhere (h : m.Shape false false .absent xs) (a b : Bool) (prev : Expr) :
    m.Shape a b prev xs :=
  ((h.mono (by simp)).loosen (by simp)).of_absent

/-- A list of one statement that is not special. -/
theorem Shape.single (h : ¬ m.Special a x) : m.Shape a b prev [x] := ⟨.any h, trivial⟩

end Watch

/-- What holds anywhere in the dispatch loop holds in every part of it. -/
theorem Obeys.anywhere (h : Obeys m (.inside false false) x) (a b : Bool) : Obeys m (.inside a b) x := by
  generalize hrole : Role.inside false false = role at h
  induction h generalizing a b with
  | user hx => exact .user hx
  | raw hx => exact .raw hx
  | hand ha hk => exact .hand ha hk
  | block hg hv hx hs =>
    cases hrole
    exact .block hg hv hx (hs.anywhere a b _)
  | conditional ht ha hsa hb hsb => exact .conditional ht ha hsa hb hsb
  | switch hv ht ha hs ho hso => exact .switch hv ht ha hs ho hso
  | protect hb hsb hex hh hsh ih =>
    cases hrole
    exact .protect (ih a false rfl) (fun hs => hsb (hs.mono (by simp))) hex hh hsh
  | _ => cases hrole

/-! ### Blocks -/

/-- Statements that neither set up an instance nor fail it. -/
inductive Coarse : Expr → Prop
  | block {i r : Nat} {t : Ty} {vs : List Var} {xs : List Expr} : Coarse (.node i r t (.block vs xs))
  | transfer {x : Expr} (h : x.transfers = true) : Coarse x
  | copy {i r j s : Nat} {t u : Ty} {op : AssignOp} {target : Expr} {v : Var} :
    Coarse (.node i r t (.assign op target (.node j s u (.var v))))

/-- A store of a number is not coarse. -/
theorem Watch.Puts.not_coarse {v : Var} {P : Int → Prop} (h : Watch.Puts v (Watch.Number P) x) : ¬ Coarse x := by
  intro hc
  cases hc with
  | block => cases h
  | transfer ht =>
    unfold Watch.Puts at h
    split at h
    · cases ht
    · cases h
  | copy =>
    unfold Watch.Puts at h
    split at h
    · rename_i heq
      cases heq
      exact h.2
    · cases h

/-- A simple statement is not a coarse one. -/
theorem Watch.Simple.not_coarse (h : Watch.Simple x) : ¬ Coarse x := by
  intro hc
  cases hc with
  | block => exact h
  | transfer ht =>
    cases x with
    | absent => exact h
    | node i r t d =>
      cases d with
      | goto => exact h
      | throw => exact h
      | _ => cases ht
  | copy => obtain h | h | h := h <;> cases h

theorem Watch.Calls.not_coarse {b : Bool} (h : m.Calls b x) : ¬ Coarse x := by
  have hsimple : Watch.Simple x := by
    unfold Watch.Calls Watch.Settling at h
    split at h
    · trivial
    · trivial
    · cases h
  exact hsimple.not_coarse

/-- Nothing in the handler of what leaves the loop is taken apart. -/
theorem Coarse.not_failing {z : Expr} (hx : Coarse x) (hmem : x ∈ xs) (h : xs = [y, z]) (hy : m.Ends y)
    (hz : m.Calls false z) : False := by
  rw [h, List.mem_cons, List.mem_singleton] at hmem
  obtain rfl | rfl := hmem
  · exact hy.not_coarse hx
  · exact hz.not_coarse hx

variable {i r : Nat} {t : Ty} {vs vs' us : List Var} {xs' inner : List Expr}

/-- Nothing in the block that opens an instance is taken apart. -/
theorem Obeys.opening_fine (h : Obeys m .opening (.node i r t (.block vs xs))) (hy : y ∈ xs) : ¬ Coarse y := by
  generalize hx : Expr.node i r t (.block vs xs) = x at h
  cases h with
  | opening hr hn hv hb hbo hstate hresume hcloses hloop ha hao hstart =>
    cases hx
    rw [List.mem_append, List.mem_cons] at hy
    obtain hy | rfl | hy := hy
    · obtain (h | h) | h := hb y hy
      · exact h.not_coarse
      · exact h.not_coarse
      · exact h.not_coarse
    · obtain ⟨_, _, _, _, _, _, rfl⟩ := hcloses
      intro hc
      cases hc with
      | transfer ht => cases ht
      | copy => cases hloop
    · exact (ha y hy).not_coarse

/-- Blocks and conditionals are none of the statements that a machine is made of. -/
theorem Replaces.of_compound {d : Data Expr} (hd : d.kind = .block ∨ d.kind = .conditional)
    (hobeys : ∀ role, Obeys m role (.node i r t d) → Obeys m' role y)
    (hplain : ∀ a b armed, (a = true → armed = true) → Obeys m (.inside a b) (.node i r t d) →
      ¬ m'.Special armed y)
    (hsettles : m.Settles (.node i r t d) → m.Settles y) : Replaces m m' (.node i r t d) y := by
  have hcompound : (∃ vs xs, d = .block vs xs) ∨ ∃ a b c, d = .conditional a b c := by
    cases d with
    | block vs xs => exact .inl ⟨vs, xs, rfl⟩
    | conditional a b c => exact .inr ⟨a, b, c, rfl⟩
    | _ => obtain h | h := hd <;> cases h
  obtain ⟨vs, xs, rfl⟩ | ⟨a, b, c, rfl⟩ := hcompound
  all_goals
    exact
      { still := fun h => absurd h id
        reads := fun h => by cases h
        obeys := hobeys
        plain := fun a b armed hle h _ => hplain a b armed hle h
        puts := fun v P _ h => absurd h id
        hands := fun h => absurd h id
        calls := fun _ h => absurd h id
        transfers := fun h => by cases h
        quits := fun h => absurd h.1 id
        settles := hsettles
        closes := fun L h => by
          obtain ⟨_, _, _, _, _, _, h⟩ := h
          cases h
        starts := fun h => absurd h id
        simple := fun h => absurd h id
        kinds := fun k hk h => by
          simp only [List.mem_cons, List.not_mem_nil, or_false] at hk
          obtain rfl | rfl | rfl := hk <;> cases h }

/-- What it takes for a block to replace a block. -/
theorem Replaces.block (hl : m.Later m')
    (houtside : ∀ hosts, (∀ v ∈ vs, m.Declarable v) → (∀ x ∈ xs, m.Foreign hosts x) →
      (∀ v ∈ vs', m'.Declarable v) ∧ ∀ x ∈ xs', m'.Foreign hosts x)
    (hinside : ∀ a b, (∀ v ∈ vs, m.Declarable v) → (∀ x ∈ xs, Obeys m (.inside false false) x) →
      m.Shape a b .absent xs → (∀ v ∈ vs', m'.Declarable v) ∧ (∀ x ∈ xs', Obeys m' (.inside false false) x) ∧
        m'.Shape a b .absent xs')
    (hopening : Obeys m .opening (.node i r t (.block vs xs)) → Obeys m' .opening (.node i r t (.block vs' xs')))
    (hfailing : ∀ x y, xs = [x, y] → m.Ends x → m.Calls false y → False)
    (hlast : ∀ y, xs.getLast? = some y → m.Calls true y ∨ y.transfers = true →
      ∃ y', xs'.getLast? = some y' ∧ (m.Calls true y' ∨ y'.transfers = true)) :
    Replaces m m' (.node i r t (.block vs xs)) (.node i r t (.block vs' xs')) := by
  have hforeign : ∀ {hosts}, m.Foreign hosts (.node i r t (.block vs xs)) →
      m'.Foreign hosts (.node i r t (.block vs' xs')) := by
    intro hosts h
    obtain ⟨⟨hv, hg⟩, hx⟩ := h.ordinary (by simp [Data.kind])
    obtain ⟨hv', hx'⟩ := houtside hosts hv hx
    exact .node (fun _ => hg.later hl) ⟨hv', hg.later hl⟩ hx'
  have hshape : ∀ {a : Bool}, ¬ m'.Special a (.node i r t (.block vs' xs')) := by
    intro a h
    obtain ⟨_, _, _, ⟨_, _, _, h⟩ | ⟨_, _, _, h⟩⟩ := h.shape <;> cases h
  refine .of_compound (.inl rfl) (fun role h => ?_) (fun _ _ _ _ _ => hshape) fun h => ?_
  · -- the roles a block can have; two of them the old list cannot have, or the new one has by assumption
    generalize hx : Expr.node i r t (.block vs xs) = x at h
    cases h with
    | node hr hd hc =>
      cases hx
      exact hforeign (.node hr hd hc)
    | user h => exact .user (hforeign (hx ▸ h))
    | raw h => obtain ⟨_, _, _, ⟨_, _, _, rfl⟩ | ⟨_, rfl⟩⟩ := h.shape <;> cases hx
    | block hg hv hxs hs =>
      cases hx
      obtain ⟨hv', hxs', hs'⟩ := hinside _ _ hv hxs hs
      exact .block (hg.later hl) hv' hxs' hs'
    | opening hr hn hv hb hbo hstate hresume hcl hloop ha hao hstart =>
      cases hx
      exact hopening (.opening hr hn hv hb hbo hstate hresume hcl hloop ha hao hstart)
    | failing _ _ hends _ _ hcalls =>
      cases hx
      exact (hfailing _ _ rfl hends hcalls).elim
    | failed h => exact .failed (hforeign (hx ▸ h))
    | _ => cases hx
  · obtain h | h | ⟨_, _, _, _, _, y, heq, hy, h⟩ := h
    · exact absurd h id
    · cases h
    · cases heq
      obtain ⟨y', hy', h'⟩ := hlast y hy h
      exact .inr (.inr ⟨_, _, _, _, _, y', rfl, hy', h'⟩)

/-! ### Splicing blocks, and dropping statements without effect -/

theorem getLast?_of_ne {new : List Expr} (h : (pre ++ x :: rest).getLast? = some y) (hne : y ≠ x) :
    (new ++ rest).getLast? = some y := by
  obtain rfl | ⟨rest, z, rfl⟩ := rest.eq_nil_or_concat'
  · rw [List.getLast?_concat] at h
    cases h
    exact absurd rfl hne
  · rw [← List.append_assoc, List.getLast?_concat]
    rwa [← List.cons_append, ← List.append_assoc, List.getLast?_concat] at h

/-- A block of a machine, from within. -/
theorem Obeys.inside_block {j s : Nat} {u : Ty}
    (h : Obeys m (.inside false false) (.node j s u (.block us inner))) : (∀ v ∈ us, m.Declarable v) ∧
      (∀ y ∈ inner, Obeys m (.inside false false) y) ∧ m.Shape false false .absent inner := by
  cases h with
  | user hx =>
    obtain ⟨⟨hv, -⟩, hinner⟩ := hx.ordinary (by simp [Data.kind])
    exact ⟨hv, fun y hy => .user (hinner y hy), .of_plain fun y hy => (hinner y hy).not_special⟩
  | raw hx => obtain ⟨_, _, _, ⟨_, _, _, h⟩ | ⟨_, h⟩⟩ := hx.shape <;> cases h
  | block hg hv hx hs => exact ⟨hv, hx, hs⟩

/-- A list without one statement that nothing leans on, with others in its place. -/
theorem Watch.Shape.splice (h : m.Shape a b prev (pre ++ x :: rest)) (hx : m.Neutral x)
    (hinner : m.Shape false false .absent inner)
    (hlast : m.Settles x → ∃ y, inner.getLast? = some y ∧ m.Settles y) :
    m.Shape a b prev (pre ++ (inner ++ rest)) := by
  refine h.change (hx.trails _ _) ((hinner.anywhere a b _).append ?_)
  refine h.suffix.2.prior (fun ha => absurd ha hx.aims) fun hs => ?_
  obtain ⟨y, hy, hs⟩ := hlast hs
  rwa [hy]

/-- **Splicing an inner block.** -/
theorem flatten_replaces {j s : Nat} {u : Ty} (m : Watch) :
    Replaces m m (.node i r t (.block vs (pre ++ .node j s u (.block us inner) :: rest)))
      (.node i r t (.block (vs ++ us) (pre ++ (inner ++ rest)))) := by
  have hmem : Expr.node j s u (.block us inner) ∈ pre ++ .node j s u (.block us inner) :: rest :=
    List.mem_append_right _ List.mem_cons_self
  have hneutral : m.Neutral (.node j s u (.block us inner)) := ⟨id, id, fun h => h.1⟩
  refine .block (.refl m) (fun hosts hv hx => ?_) (fun a b hv hx hs => ?_)
    (fun ho => absurd .block (ho.opening_fine hmem)) (fun x y heq hends hcalls => ?_) fun y hy h => ?_
  · obtain ⟨⟨hus, -⟩, hinner⟩ := (hx _ hmem).ordinary (by simp [Data.kind])
    refine ⟨fun v hmem => (List.mem_append.mp hmem).elim (hv v) (hus v), fun y hy => ?_⟩
    simp only [List.mem_append] at hy
    obtain hy | hy | hy := hy
    · exact hx y (by simp [hy])
    · exact hinner y hy
    · exact hx y (by simp [hy])
  · obtain ⟨hus, hinner, hshape⟩ := (hx _ hmem).inside_block
    refine ⟨fun v hmem => (List.mem_append.mp hmem).elim (hv v) (hus v), fun y hy => ?_,
      hs.splice hneutral hshape fun hsettles => ?_⟩
    · simp only [List.mem_append] at hy
      obtain hy | hy | hy := hy
      · exact hx y (by simp [hy])
      · exact hinner y hy
      · exact hx y (by simp [hy])
    · obtain h | h | ⟨_, _, _, _, _, y, heq, hy, h⟩ := hsettles
      · exact h.elim
      · cases h
      · cases heq
        exact ⟨y, hy, h.elim .inl fun h => .inr (.inl h)⟩
  · exact Coarse.block.not_failing hmem heq hends hcalls
  · refine ⟨y, ?_, h⟩
    rw [← List.append_assoc]
    refine getLast?_of_ne hy ?_
    rintro rfl
    exact h.elim id fun h => by cases h

/-- A statement without effect is none that a machine needs. -/
theorem inert_cases (h : x.isInert = true) : ∃ i r t, (∃ v, x = .node i r t (.constant v)) ∨
    x = .node i r t .default ∨ (∃ v, x = .node i r t (.var v)) ∨ x = .node i r t (.block [] []) := by
  unfold isInert at h
  split at h
  · exact ⟨_, _, _, .inl ⟨_, rfl⟩⟩
  · exact ⟨_, _, _, .inr (.inl rfl)⟩
  · exact ⟨_, _, _, .inr (.inr (.inl ⟨_, rfl⟩))⟩
  · exact ⟨_, _, _, .inr (.inr (.inr rfl))⟩
  · cases h

/-- What is inert has no part in the machine. -/
theorem inert_neutral (h : x.isInert = true) : m.Neutral x ∧ ¬ m.Settles x ∧ (∀ b, ¬ m.Calls b x) ∧
    x.transfers = false ∧ (∀ v P, ¬ Watch.Puts v P x) ∧ (∀ L, ¬ m.Closes L x) ∧ ¬ m.Starts x := by
  obtain ⟨i, r, t, ⟨v, rfl⟩ | rfl | ⟨v, rfl⟩ | rfl⟩ := inert_cases h
  all_goals
    refine ⟨⟨id, id, fun h => h.1⟩, ?_, fun _ => id, rfl, fun _ _ => id, ?_, id⟩
    · rintro (h | h | ⟨_, _, _, _, _, _, heq, hy, -⟩)
      · exact h
      · cases h
      · cases heq
        try cases hy
    · rintro L ⟨_, _, _, _, _, _, heq⟩
      cases heq

/-- A block that opens an instance does not need a statement without effect. -/
theorem Obeys.opening_without (h : Obeys m .opening (.node i r t (.block vs (pre ++ x :: rest))))
    (hx : x.isInert = true) : Obeys m .opening (.node i r t (.block vs (pre ++ rest))) := by
  obtain ⟨-, -, -, -, hputs, hclosed, hstarts⟩ := inert_neutral (m := m) hx
  generalize hy : Expr.node i r t (.block vs (pre ++ x :: rest)) = y at h
  cases h with
  | @opening _ _ _ _ before after loop c hr hn hv hb hbo hstate hresume hc hloop ha hao hstart =>
    simp only [Expr.node.injEq, Data.block.injEq] at hy
    obtain ⟨rfl, rfl, rfl, rfl, hlist⟩ := hy
    -- the inert statement stands before the store of the function that runs the dispatch loop, or behind it
    obtain ⟨k, hbefore, hrest⟩ | ⟨k, hpre, hafter⟩ := List.append_eq_append_iff.mp hlist
    · cases k with
      | nil =>
        rw [List.nil_append, List.cons.injEq] at hrest
        exact absurd (hrest.1 ▸ hc) (hclosed loop)
      | cons z k =>
        rw [List.cons_append, List.cons.injEq] at hrest
        obtain ⟨rfl, rfl⟩ := hrest
        subst hbefore
        have hsub : ∀ {y}, y ∈ pre ++ k → y ∈ pre ++ x :: k := fun {y} hy =>
          List.mem_append.mpr ((List.mem_append.mp hy).imp_right (List.mem_cons_of_mem _))
        have hkept : ∀ {v P}, (∃ y ∈ pre ++ x :: k, Watch.Puts v P y) → ∃ y ∈ pre ++ k, Watch.Puts v P y := by
          rintro v P ⟨y, hy, hp⟩
          refine ⟨y, ?_, hp⟩
          simp only [List.mem_append, List.mem_cons] at hy ⊢
          obtain hy | rfl | hy := hy
          · exact .inl hy
          · exact absurd hp (hputs v P)
          · exact .inr hy
        rw [← List.append_assoc]
        exact .opening hr hn hv (fun y hy => hb y (hsub hy)) (fun y hy => hbo y (hsub hy))
          (fun hg => hkept (hstate hg)) (fun hg => hkept (hresume hg)) hc hloop ha hao hstart
    · cases k with
      | nil =>
        rw [List.nil_append, List.cons.injEq] at hafter
        exact absurd (hafter.1 ▸ hc) (hclosed loop)
      | cons z k =>
        rw [List.cons_append, List.cons.injEq] at hafter
        obtain ⟨rfl, rfl⟩ := hafter
        subst hpre
        have hsub : ∀ {y}, y ∈ k ++ rest → y ∈ k ++ x :: rest := fun {y} hy =>
          List.mem_append.mpr ((List.mem_append.mp hy).imp_right (List.mem_cons_of_mem _))
        rw [List.append_assoc, List.cons_append]
        refine .opening hr hn hv hb hbo hstate hresume hc hloop (fun y hy => ha y (hsub hy))
          (fun y hy => hao y (hsub hy)) ?_
        obtain ⟨y, hy, hs⟩ := hstart
        refine ⟨y, ?_, hs⟩
        simp only [List.mem_append, List.mem_cons] at hy ⊢
        obtain hy | rfl | hy := hy
        · exact .inl hy
        · exact absurd hs hstarts
        · exact .inr hy

/-- **Dropping a statement without effect.** -/
theorem dropInert_replaces (m : Watch) (hx : x.isInert = true) :
    Replaces m m (.node i r t (.block vs (pre ++ x :: rest))) (.node i r t (.block vs (pre ++ rest))) := by
  obtain ⟨hneutral, hsettles, hcalls, htransfers, hputs, -, -⟩ := inert_neutral (m := m) hx
  have hsub : ∀ {y}, y ∈ pre ++ rest → y ∈ pre ++ x :: rest := fun {y} hy =>
    List.mem_append.mpr ((List.mem_append.mp hy).imp_right (List.mem_cons_of_mem _))
  refine .block (.refl m) (fun hosts hv hx => ⟨hv, fun y hy => hx y (hsub hy)⟩) (fun a b hv hx hs => ?_)
    (fun ho => ho.opening_without hx) (fun y z heq hends hc => ?_) fun y hy h => ?_
  · have hnil : m.Shape false false .absent [] := trivial
    exact ⟨hv, fun y hy => hx y (hsub hy), hs.splice hneutral hnil fun h => absurd h hsettles⟩
  · have hmem : x ∈ [y, z] := heq ▸ List.mem_append_right _ List.mem_cons_self
    simp only [List.mem_cons, List.not_mem_nil, or_false] at hmem
    obtain rfl | rfl := hmem
    · exact hputs _ _ hends
    · exact hcalls _ hc
  · refine ⟨y, getLast?_of_ne hy ?_, h⟩
    rintro rfl
    exact h.elim (hcalls _) fun h => by simp [htransfers] at h

/-! ### Code after a transfer -/

theorem Coarse.not_special (h : x.transfers = true) : ¬ m.Special armed x := by
  intro hs
  obtain ⟨_, _, _, ⟨_, _, _, rfl⟩ | ⟨_, _, _, rfl⟩⟩ := hs.shape <;> cases h

/-- A transfer has nothing to do with the machine. -/
theorem Obeys.inside_transfer (h : Obeys m (.inside a b) x) (ht : x.transfers = true) : m.Foreign false x := by
  cases h with
  | user hx => exact hx
  | raw hx => obtain ⟨_, _, _, ⟨_, _, _, rfl⟩ | ⟨_, rfl⟩⟩ := hx.shape <;> cases ht
  | _ => cases ht

/-- **Dropping what comes after a transfer.** -/
theorem truncate_replaces {x' : Expr} (hmm : m.Onward m') (hx : x.transfers = true) (hx' : x'.transfers = true)
    (hleaves : m.Leaves x → m.Leaves x') (hforeign : ∀ hosts, m.Foreign hosts x → m'.Foreign hosts x') :
    Replaces m m' (.node i r t (.block vs (pre ++ x :: rest))) (.node i r t (.block vs (pre ++ [x']))) := by
  have hmem : x ∈ pre ++ x :: rest := List.mem_append_right _ List.mem_cons_self
  have hlater : ∀ {role y}, Obeys m role y → Obeys m' role y := fun h => h.later hmm.toLater (hmm.kept _)
  refine .block hmm.toLater (fun hosts hv hold => ?_) (fun a b hv hold hs => ?_)
    (fun ho => absurd (.transfer hx) (ho.opening_fine hmem))
    (fun y z => (Coarse.transfer hx).not_failing hmem) fun y hy h => ?_
  · refine ⟨fun v hmem => (hv v hmem).ages hmm.ages, fun y hy => ?_⟩
    obtain hy | hy := List.mem_append.mp hy
    · exact hlater (hold y (List.mem_append_left _ hy))
    · exact List.mem_singleton.mp hy ▸ hforeign hosts (hold x hmem)
  · refine ⟨fun v hmem => (hv v hmem).ages hmm.ages, fun y hy => ?_, ?_⟩
    · obtain hy | hy := List.mem_append.mp hy
      · exact hlater (hold y (List.mem_append_left _ hy))
      · exact List.mem_singleton.mp hy ▸ .user (hforeign false ((hold x hmem).inside_transfer hx))
    · refine (hs.change ⟨fun y r heq hy => ?_, fun y r heq hy => ?_, fun y z r heq hy _ => ?_⟩
        (.single (Coarse.not_special hx'))).later hmm.ages
      · cases heq
        exact absurd (.transfer hx) hy.not_coarse
      · cases heq
        exact ⟨x', [], rfl, hleaves hy⟩
      · cases heq
        exact absurd (.transfer hx) hy.1.not_coarse
  · exact ⟨x', List.getLast?_concat, .inr hx'⟩

/-! ### Merging stores -/

/-- What is left of a value that was stored into a place of type `t`. -/
structure Stored (m m' : Watch) (t : Ty) (x y : Expr) : Prop where
  foreign : ∀ hosts, m.Foreign hosts x → m'.Foreign hosts y
  same : x.type = t → y = x
  simple : Watch.Simple x → Watch.Simple y

namespace Watch

theorem Parked.ne_state (hm : m.Fair) {v : Var} (h : m.Parked v) : v ≠ m.state := by
  rintro rfl
  exact hm.parked _ h.parked (.inl rfl)

theorem Parked.ne_resume (hm : m.Fair) {v : Var} (h : m.Parked v) : v ≠ m.resume := by
  rintro rfl
  exact hm.parked _ h.parked (.inr (.inl rfl))

theorem Fair.ne (hm : m.Fair) : m.state ≠ m.resume := by
  intro h
  have := hm.apart
  simp [h] at this

/-- A store of the machine that is written as an assignment. -/
theorem Puts.assign {i r : Nat} {t : Ty} {op : AssignOp} {target value : Expr} {v : Var} {P : Expr → Prop}
    (h : Puts v P (.node i r t (.assign op target value))) :
    (∃ j s u, target = .node j s u (.var v)) ∧ P value := by
  unfold Puts at h
  split at h
  · rename_i heq
    cases heq
    exact ⟨⟨_, _, _, by rw [h.1]⟩, h.2⟩
  · cases h

/-- What a store of the machine stores into its variables. -/
inductive RawStore (m : Watch) (target value : Expr) : Prop
  | number {v : Var} {P : Int → Prop} (hv : v = m.state ∨ v = m.resume)
    (ht : ∃ j s u, target = .node j s u (.var v)) (hx : Number P value)
  | returns {v : Var} (ht : ∃ j s u, target = .node j s u (.var m.state)) (hv : m.Parked v) (hx : Reads v value)
  | resumes (ht : ∃ j s u, target = .node j s u (.var m.state)) (hx : Reads m.resume value)
  | parks {v : Var} (hv : m.Parked v) (ht : ∃ j s u, target = .node j s u (.var v)) (hx : Reads m.resume value)

/-- What a store of the machine stores. -/
theorem Raw.assign {i r : Nat} {t : Ty} {op : AssignOp} {target value : Expr}
    (h : m.Raw (.node i r t (.assign op target value))) : m.RawStore target value := by
  cases h with
  | moves h | enters h | ends h =>
    obtain ⟨ht, hx⟩ := h.assign
    exact .number (.inl rfl) ht hx
  | aims h =>
    obtain ⟨ht, hx⟩ := h.assign
    exact .number (.inr rfl) ht hx
  | returns h =>
    obtain ⟨ht, v, hv, hx⟩ := h.assign
    exact .returns ht hv hx
  | resumes h =>
    obtain ⟨ht, hx⟩ := h.assign
    exact .resumes ht hx
  | parks h =>
    obtain ⟨v, hv, h⟩ := h
    obtain ⟨ht, hx⟩ := h.assign
    exact .parks hv ht hx
  | peeks h => obtain h | ⟨_, _, h⟩ := h <;> exact absurd h id

end Watch

/-- A store of the machine, or one by code outside it. -/
theorem Obeys.inside_assign {op : AssignOp} {target value : Expr}
    (h : Obeys m (.inside a b) (.node i r t (.assign op target value))) :
    m.Foreign false (.node i r t (.assign op target value)) ∨ m.RawStore target value := by
  cases h with
  | user h => exact .inl h
  | raw h => exact .inr h.assign

variable {v : Var} {value target : Expr} {j s j₁ s₁ j₂ s₂ j₃ s₃ : Nat} {u u₁ u₂ u₃ : Ty}

/-- A machine stores into a variable that any block may declare only to park the resume slot there. -/
theorem Watch.RawStore.parked (h : m.RawStore (.node j s u (.var v)) value) (hv : m.Declarable v) :
    m.Parked v ∧ Watch.Reads m.resume value := by
  cases h with
  | number hown ht hx =>
    obtain ⟨_, _, _, heq⟩ := ht
    cases heq
    exact absurd (hown.elim (fun h => .inl (h ▸ rfl)) fun h => .inr (.inl (h ▸ rfl))) hv.foreign
  | returns ht | resumes ht =>
    obtain ⟨_, _, _, heq⟩ := ht
    cases heq
    exact absurd (.inl rfl) hv.foreign
  | parks hparked ht hx =>
    obtain ⟨_, _, _, heq⟩ := ht
    cases heq
    exact ⟨hparked, hx⟩

/-- A machine stores such a variable only to go on where the resume slot that is parked there says. -/
theorem Watch.RawStore.returned (h : m.RawStore target (.node j s u (.var v))) (hv : m.Declarable v) :
    m.Parked v ∧ ∃ j s u, target = .node j s u (.var m.state) := by
  cases h with
  | number _ _ hx => exact hx.elim
  | returns ht hparked hx => exact ⟨hx.1 ▸ hparked, ht⟩
  | resumes _ hx | parks _ _ hx => exact absurd (.inr (.inl (congrArg Var.id hx.1))) hv.foreign

/-- A store into a variable that any block may declare, and another store of its value: both belong to code
outside the machine, or a cleanup block parks the resume slot and goes on where it says. -/
theorem collapse_cases (hv : m.Declarable v)
    (ha : Obeys m (.inside false false) (.node j s u (.assign .plain (.node j₁ s₁ u₁ (.var v)) value)))
    (hb : Obeys m (.inside false false) (.node j₂ s₂ u₂ (.assign .plain target (.node j₃ s₃ u₃ (.var v))))) :
    m.Foreign false (.node j s u (.assign .plain (.node j₁ s₁ u₁ (.var v)) value)) ∧
        m.Foreign false (.node j₂ s₂ u₂ (.assign .plain target (.node j₃ s₃ u₃ (.var v)))) ∨
      m.Parked v ∧ Watch.Reads m.resume value ∧ ∃ j s u, target = .node j s u (.var m.state) := by
  obtain ha | ha := ha.inside_assign
  · refine .inl ⟨ha, hb.inside_assign.resolve_right fun hb => ?_⟩
    have hplain : m.Plain v.id := (ha.ordinary (by simp [Data.kind])).1 v rfl
    exact hplain.loose (hb.returned hv).1.parked
  · obtain ⟨hparked, hreads⟩ := ha.parked hv
    obtain hb | hb := hb.inside_assign
    · have hread := (hb.ordinary (by simp [Data.kind])).2 _ (mem_operands_assign.mpr (.inr rfl))
      exact absurd hparked.parked (Build.Foreign.plain_of_asVar? hread rfl).loose
    · exact .inr ⟨hparked, hreads, (hb.returned hv).2⟩

namespace Watch

/-- The resume slot is parked where it is known to hold a state. -/
theorem Fits.is_armed (hm : m.Fair) (h : m.Fits a b prev x rest) (hx : m.Parks x) : a = true := by
  obtain ⟨w, hw, hputs⟩ := hx
  have hstate : ∀ {P}, ¬ Puts m.state P x := fun h => hw.ne_state hm (hputs.both h).1
  cases h with
  | any hs => exact eq_true_of_ne_false fun ha => hs (.parks ⟨w, hw, hputs⟩ ha)
  | enter hx _ => exact absurd hx hstate
  | aimed _ hx => exact absurd hx hstate
  | complete _ hx _ => exact absurd hx hstate
  | fail _ hx _ _ => exact absurd hx hstate
  | hand hx _ =>
    unfold Hands at hx
    split at hx
    · exact hputs.elim
    · exact hx.elim

/-- Where the resume slot is known to hold a state, going on there is not special. -/
theorem Resumes.not_special (h : m.Resumes x) : ¬ m.Special true x := by
  intro hs
  cases hs with
  | enters hx | ends hx =>
    obtain ⟨-, value, hreads, hnumber⟩ := h.both hx
    exact hnumber.not_reads hreads
  | hands hx =>
    unfold Hands at hx
    split at hx
    · exact h.elim
    · exact hx.elim
  | resumes _ ha | parks _ ha => cases ha

end Watch

/-- What is left of two merged stores of code outside the machine belongs to such code. -/
theorem merged_foreign {value' : Expr} {s' : Nat} {hosts : Bool} (hmm : m.Onward m') (hs' : m'.Ground s')
    (hvalue : Stored m m' v.type value value')
    (ha : m.Foreign hosts (.node j s u (.assign .plain (.node j₁ s₁ u₁ (.var v)) value)))
    (hb : m.Foreign hosts (.node j₂ s₂ u₂ (.assign .plain target (.node j₃ s₃ u₃ (.var v))))) :
    m'.Foreign hosts (.node j₂ s' u₂ (.assign .plain target value')) := by
  have hvalue' := (ha.ordinary (by simp [Data.kind])).2 value (mem_operands_assign.mpr (.inr rfl))
  obtain ⟨hord, hops⟩ := hb.ordinary (by simp [Data.kind])
  refine .node (fun _ => hs') (fun w hw => (hord w hw).ages hmm.ages) fun c hc => ?_
  obtain ⟨hfield, rfl⟩ | rfl := mem_operands_assign.mp hc
  · exact (hops c (mem_operands_assign.mpr (.inl ⟨hfield, rfl⟩))).later hmm.toLater (hmm.kept _)
  · exact hvalue.foreign hosts hvalue'

/-- What is left of two merged stores among the statements of the machine is nothing special there, and says
nothing about where a cleanup block goes on. -/
theorem merged_inside {value' : Expr} {s' : Nat} (hm : m.Fair) (hmm : m.Onward m') (hv : m.Declarable v)
    (hs' : m'.Ground s') (hvalue : Stored m m' v.type value value')
    (hshape : m'.Shape a b prev (.node j s u (.assign .plain (.node j₁ s₁ u₁ (.var v)) value) :: rest))
    (ha : Obeys m (.inside false false) (.node j s u (.assign .plain (.node j₁ s₁ u₁ (.var v)) value)))
    (hb : Obeys m (.inside false false) (.node j₂ s₂ u₂ (.assign .plain target (.node j₃ s₃ u₃ (.var v))))) :
    Obeys m' (.inside false false) (.node j₂ s' u₂ (.assign .plain target value')) ∧
      ¬ m'.Special a (.node j₂ s' u₂ (.assign .plain target value')) ∧
        ∀ w, target.asVar? = some w → w ≠ m'.resume := by
  have hm' := hmm.fair hm
  obtain ⟨ha, hb⟩ | ⟨hparked, hreads, j₄, s₄, u₄, rfl⟩ := collapse_cases hv ha hb
  · have hfor := merged_foreign hmm hs' hvalue ha hb
    refine ⟨.user hfor, hfor.not_special, ?_⟩
    rintro w hw rfl
    exact ((hfor.ordinary (by simp [Data.kind])).1 _ hw).foreign (.inr (.inl rfl))
  · -- a cleanup block parks the resume slot and goes on where it says: it may go on there at once
    have hsame : value' = value := hvalue.same (by
      unfold Watch.Reads at hreads
      split at hreads
      · exact hreads.2.trans hparked.type.symm
      · exact hreads.elim)
    have hstate : m'.state = m.state ∧ m'.resume = m.resume := by
      obtain ⟨_, _, _, rfl, -, -⟩ := hmm.ages
      exact ⟨rfl, rfl⟩
    have hresumes : m'.Resumes (.node j₂ s' u₂ (.assign .plain (.node j₄ s₄ u₄ (.var m.state)) value')) :=
      ⟨hstate.1.symm, hstate.2 ▸ hsame ▸ hreads⟩
    have hparks : m'.Parks (.node j s u (.assign .plain (.node j₁ s₁ u₁ (.var v)) value)) :=
      ⟨v, hparked.ages hmm.ages, rfl, hstate.2 ▸ hreads⟩
    have harmed : a = true := hshape.1.is_armed hm' hparks
    subst harmed
    refine ⟨.raw (.resumes hresumes), hresumes.not_special, ?_⟩
    rintro w hw rfl
    exact hm'.ne (hstate.1.trans (Option.some.inj hw))

/-- **Merging two stores.** -/
theorem collapse_replaces {value' : Expr} {s' : Nat} (hm : m.Fair) (hmm : m.Onward m') (hv : v ∈ vs)
    (hs' : m'.Ground s') (hvalue : Stored m m' v.type value value') :
    Replaces m m'
      (.node i r t (.block vs (pre ++ .node j s u (.assign .plain (.node j₁ s₁ u₁ (.var v)) value) ::
        .node j₂ s₂ u₂ (.assign .plain target (.node j₃ s₃ u₃ (.var v))) :: rest)))
      (.node i r t (.block (vs.filter (· != v)) (pre ++ .node j₂ s' u₂ (.assign .plain target value') :: rest))) := by
  have hmem : ∀ {y}, y ∈ pre ++ .node j₂ s' u₂ (.assign .plain target value') :: rest →
      y = .node j₂ s' u₂ (.assign .plain target value') ∨
        y ∈ pre ++ .node j s u (.assign .plain (.node j₁ s₁ u₁ (.var v)) value) ::
          .node j₂ s₂ u₂ (.assign .plain target (.node j₃ s₃ u₃ (.var v))) :: rest := by
    intro y hy
    simp only [List.mem_append, List.mem_cons] at hy ⊢
    obtain hy | hy | hy := hy
    · exact .inr (.inl hy)
    · exact .inl hy
    · exact .inr (.inr (.inr (.inr hy)))
  have hlater : ∀ {role y}, Obeys m role y → Obeys m' role y := fun h => h.later hmm.toLater (hmm.kept _)
  have hvars : (∀ w ∈ vs, m.Declarable w) → ∀ w ∈ vs.filter (· != v), m'.Declarable w := fun h w hw =>
    (h w (List.mem_of_mem_filter hw)).ages hmm.ages
  generalize hA : Expr.node j s u (.assign .plain (.node j₁ s₁ u₁ (.var v)) value) = A at hmem ⊢
  generalize hB : Expr.node j₂ s₂ u₂ (.assign .plain target (.node j₃ s₃ u₃ (.var v))) = B at hmem ⊢
  have hA' : A ∈ pre ++ A :: B :: rest := by simp
  have hB' : B ∈ pre ++ A :: B :: rest := by simp
  have hcoarse : Coarse B := hB ▸ .copy
  refine .block hmm.toLater (fun hosts hvs hold => ⟨hvars hvs, fun y hy => ?_⟩) (fun a b hvs hold hs => ?_)
    (fun ho => absurd hcoarse (ho.opening_fine hB')) (fun y z => hcoarse.not_failing hB') fun y hy h => ?_
  · obtain rfl | hy := hmem hy
    · have hfirst := hold A hA'
      have hsecond := hold B hB'
      rw [← hA] at hfirst
      rw [← hB] at hsecond
      exact merged_foreign hmm hs' hvalue hfirst hsecond
    · exact hlater (hold y hy)
  · -- seen from later, the first store is of no use to what stands before it, nor the second to what follows
    have hdecl : m'.Declarable v := (hvs v hv).ages hmm.ages
    have hshape := hs.later hmm.ages
    have hneutral : m'.Neutral A := by
      rw [← hA]
      refine ⟨fun h => ?_, id, fun h => h.1⟩
      obtain ⟨⟨_, _, _, heq⟩, -⟩ := h.assign
      cases heq
      exact hdecl.foreign (.inr (.inl rfl))
    have hafter : (∀ w, target.asVar? = some w → w ≠ m'.resume) → m'.Shape a b (.node j₂ s' u₂ (.assign .plain target value')) rest := by
      intro hne
      refine hshape.suffix.2.2.prior (fun h => ?_) fun h => ?_
      · rw [← hB] at h
        obtain ⟨⟨_, _, _, rfl⟩, -⟩ := h.assign
        exact absurd rfl (hne _ rfl)
      · rw [← hB] at h
        obtain h | h | ⟨_, _, _, _, _, _, h, -⟩ := h
        · exact h.elim
        · cases h
        · cases h
    have hsuffix := hshape.suffix
    rw [← hA] at hsuffix
    obtain ⟨hobeys, hplain, hne⟩ :=
      merged_inside hm hmm (hvs v hv) hs' hvalue hsuffix (hA ▸ hold A hA') (hB ▸ hold B hB')
    refine ⟨hvars hvs, fun y hy => ?_, hshape.change (hneutral.trails _ _) ⟨.any hplain, hafter hne⟩⟩
    obtain rfl | hy := hmem hy
    · exact hobeys
    · exact hlater (hold y hy)
  · refine ⟨y, ?_, h.imp_left fun h => ?_⟩
    · have hne : y ≠ B := by
        rintro rfl
        rw [← hB] at h
        exact h.elim id fun h => by cases h
      rw [show pre ++ A :: B :: rest = (pre ++ [A]) ++ B :: rest by simp] at hy
      rw [show ∀ C, pre ++ C :: rest = (pre ++ [C]) ++ rest by simp]
      exact getLast?_of_ne hy hne
    · exact h

/-! ### The last store -/

theorem Watch.Simple.stored {op : AssignOp} (h : Watch.Simple (.node i r t (.assign op target value))) :
    Watch.Simple value := by
  cases value with
  | absent => obtain h | h | h := h <;> cases h
  | node j s u d =>
    cases d with
    | call | methodCall | unary => trivial
    | _ => obtain h | h | h := h <;> cases h

/-- The handle at the end of a block that opens an instance may be stored, and need not be. -/
theorem Obeys.opening_last {w : Expr} (h : Obeys m .opening (.node i r t (.block vs (pre ++
      [.node j s u (.assign .plain (.node j₁ s₁ u₁ (.var v)) value)])))) :
    m.Foreign false value ∧ Watch.Simple value ∧
      (m.Foreign false w → Watch.Simple w → Obeys m .opening (.node i r t (.block vs (pre ++ [w])))) := by
  generalize hy : Expr.node i r t (.block vs (pre ++ _)) = y at h
  cases h with
  | @opening _ _ _ _ before after loop c hr hn hv hb hbo hstate hresume hc hloop ha hao hstart =>
    obtain ⟨z, hz, hstarts⟩ := hstart
    obtain rfl | ⟨after, last, rfl⟩ := after.eq_nil_or_concat'
    · cases hz
    · simp only [Expr.node.injEq, Data.block.injEq] at hy
      obtain ⟨rfl, rfl, rfl, rfl, hlist⟩ := hy
      rw [← List.cons_append, ← List.append_assoc] at hlist
      obtain ⟨rfl, hlast⟩ := List.append_inj' hlist rfl
      cases hlast
      have hlastmem : ∀ {x : Expr}, x ∈ after ++ [x] := by simp
      have hmem : ∀ {x y : Expr}, x ∈ after → x ∈ after ++ [y] := fun hx => List.mem_append_left _ hx
      have hvalue : m.Foreign false value := ((hao _ hlastmem id).ordinary (by simp [Data.kind])).2 _
        (mem_operands_assign.mpr (.inr rfl))
      refine ⟨hvalue, Watch.Simple.stored (ha _ hlastmem), fun hw hsimple => ?_⟩
      rw [List.append_assoc, List.cons_append]
      refine .opening hr hn hv hb hbo hstate hresume hc hloop (fun x hx => ?_) (fun x hx hs => ?_) ⟨z, ?_, hstarts⟩
      · obtain hx | hx := List.mem_append.mp hx
        · exact ha x (hmem hx)
        · exact List.mem_singleton.mp hx ▸ hsimple
      · obtain hx | hx := List.mem_append.mp hx
        · exact hao x (hmem hx) hs
        · exact List.mem_singleton.mp hx ▸ hw
      · obtain hz | hz := List.mem_append.mp hz
        · exact hmem hz
        · cases List.mem_singleton.mp hz
          exact hstarts.elim

/-- **Leaving out the last store.** -/
theorem trailing_replaces {w : Expr} (hmm : m.Onward m') (hv : v ∈ vs) (hw : Stored m m' v.type value w) :
    Replaces m m' (.node i r t (.block vs (pre ++ [.node j s u (.assign .plain (.node j₁ s₁ u₁ (.var v)) value)])))
      (.node i r t (.block vs (pre ++ [w]))) := by
  have hlater : ∀ {role y}, Obeys m role y → Obeys m' role y := fun h => h.later hmm.toLater (hmm.kept _)
  have hvars : (∀ w ∈ vs, m.Declarable w) → ∀ w ∈ vs, m'.Declarable w := fun h w hw => (h w hw).ages hmm.ages
  have hvalue : ∀ {hosts}, m.Foreign hosts (.node j s u (.assign .plain (.node j₁ s₁ u₁ (.var v)) value)) →
      m'.Foreign hosts w := fun h =>
    hw.foreign _ ((h.ordinary (by simp [Data.kind])).2 value (mem_operands_assign.mpr (.inr rfl)))
  have hlast : ∀ {x : Expr}, x ∈ pre ++ [x] := by simp
  refine .block hmm.toLater (fun hosts hvs hold => ⟨hvars hvs, fun y hy => ?_⟩) (fun a b hvs hold hs => ?_)
    (fun ho => ?_) (fun y z heq _ hcalls => ?_) fun y hy h => ?_
  · obtain hy | hy := List.mem_append.mp hy
    · exact hlater (hold y (List.mem_append_left _ hy))
    · exact List.mem_singleton.mp hy ▸ hvalue (hold _ hlast)
  · have hdecl : m.Declarable v := hvs v hv
    -- a last store of the machine parks the resume slot: the read that is left looks at it for no purpose
    have hkept : Obeys m' (.inside false false) w ∧ ¬ m'.Special a w := by
      obtain h | h := (hold _ hlast).inside_assign
      · exact ⟨.user (hvalue h), (hvalue h).not_special⟩
      · obtain ⟨hparked, hreads⟩ := h.parked hdecl
        have hsame : w = value := hw.same (by
          unfold Watch.Reads at hreads
          split at hreads
          · exact hreads.2.trans hparked.type.symm
          · exact hreads.elim)
        subst hsame
        exact ⟨.raw ((Watch.Raw.peeks (.inl hreads)).ages hmm.ages), Watch.still_not_special ((Watch.still_reads m.marks_resume hreads).ages hmm.ages)⟩
    refine ⟨hvars hvs, fun y hy => ?_, (hs.later hmm.ages).change (Watch.Neutral.trails ?_ _ _) (.single hkept.2)⟩
    · obtain hy | hy := List.mem_append.mp hy
      · exact hlater (hold y (List.mem_append_left _ hy))
      · exact List.mem_singleton.mp hy ▸ hkept.1
    · refine ⟨fun h => ?_, id, fun h => h.1⟩
      obtain ⟨⟨_, _, _, heq⟩, -⟩ := h.assign
      cases heq
      exact (hdecl.ages hmm.ages).foreign (.inr (.inl rfl))
  · obtain ⟨hvalue, hsimple, -⟩ := ho.opening_last (w := w)
    exact (hlater ho).opening_last.2.2 (hw.foreign false hvalue) (hw.simple hsimple)
  · have hz := congrArg List.getLast? heq
    rw [List.getLast?_concat] at hz
    cases hz
    exact hcalls
  · rw [List.getLast?_concat] at hy
    cases hy
    exact h.elim (fun h => h.elim) fun h => by cases h

end

end Resumable
