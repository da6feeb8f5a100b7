import Resumable.Proofs.Hosting
import Resumable.Proofs.Optimizing

/-!
# `Proofs.Homing`: moving variables keeps a machine in order

What comes of moving variables and of dropping the stores into those that are never read may stand where the
tree stood: the slots of a machine stay in the blocks that open an instance, and a dropped store of the
machine leaves a number or a look at a slot behind. A node that was not rebuilt declares nothing that was
dropped.

**Contents**
* `Replaces.young`, `Replaces.keep`: trees and nodes that stay as they are.
* `unstore_replaces`: the value of a store in place of the store.
* `Rehomes`, `apply_reworks`: a placement applied to a tree.
* `rescope_reworks`: the pass.
-/

namespace Resumable

open Resumable.Expr Scopes

section
variable {m₀ m m' n n' : Watch} {role : Role} {e x y c : Expr} {i r : Nat} {t : Ty} {d d' : Data Expr}
  {v : Var} {g : Var → Prop} {p : Placement} {q q' : Supply} {k : Nat}

/-! ### What stays as it is -/

/-- A tree with a new identity declares no slot of the machine. -/
theorem Obeys.kept_of_young (h : Obeys m role e) (hr : m.limit.refs < e.ref) : m.Kept m' e := by
  intro b hb v hv hs
  have hplain : role.hosting = true := by
    by_contra hn
    exact hs.not_declarable ((h.ground_blocks (by simpa using hn) hb (isBlock_of_mem_blockVars hv)).declarable v hv)
  cases h with
  | absent => simp at hb
  | @node _ _ _ _ d hground hord _ =>
    by_cases hne : operands d = []
    · obtain rfl | ⟨c, hc, -⟩ := mem_allNodes_node.mp hb
      · cases d with
        | block => exact absurd (hord.1 v hv) hs.not_declarable
        | _ => cases hv
      · rw [hne] at hc
        cases hc
    · exact absurd hr (Nat.not_lt.mpr (hground hne).within)
  | host hground => exact absurd hr (Nat.not_lt.mpr hground.within)
  | opening hle => exact absurd hr (Nat.not_lt.mpr hle)
  | _ => cases hplain

theorem Obeys.kept_of_unhosted (h : Obeys m role e) (hr : role.hosting = false) : m.Kept m' e := fun _ hb v hv hs =>
  absurd ((h.ground_blocks hr hb (isBlock_of_mem_blockVars hv)).declarable v hv) hs.not_declarable

/-- A tree with a new identity may stay as it is. -/
theorem Replaces.young (hl : m.Later m') (hr : m.limit.refs < x.ref) : Replaces m m' x x :=
  .of_obeys hl (fun _ h => h.kept_of_young hr) fun _ _ hL => hL.kept_of_unhosted rfl

/-- A node of which the parts may stay may stay itself. -/
theorem Replaces.keep (hm : m.Fair) (hmm : m.Onward m') (hd : d.Alike (Replaces m (m'.drop g)) d)
    (hv : Redeclares m g (.node i r t d) (.node i r t d)) :
    Replaces m (m'.drop g) (.node i r t d) (.node i r t d) := by
  have hl := hmm.toLater.trans (Watch.later_drop m' g)
  refine .node hm ⟨hl.ages, fun _ h => h.later hl, fun hn hg hold v hmem => ?_, fun ho => ?_, fun ho v hmem => ?_⟩ hd
    fun _ => rfl
  · exact (hv.plain hn hg hold v hmem).drop hmm g
  · cases ho with
    | opening hr hn => exact ⟨Nat.le_trans hr hl.refs, hl.copies r hn⟩
  · obtain h | h := hv.slots ho v hmem
    · exact .inl (h.drop hmm g)
    · refine .inr (h.ages (hmm.ages.drop g) ?_)
      rw [(hmm.drop g).gone]
      exact h.kept

/-! ### Dropped stores -/

/-- A coerced value is the value, or a conversion of it with an identity above `k`. -/
inductive Coerces (m : Watch) (k : Nat) (t : Ty) (x : Expr) : Expr → Prop
  | same : Coerces m k t x x
  | convert {i r : Nat} (ht : x.type ≠ t) (hr : m.Ground r) (hk : k < r) :
    Coerces m k t x (.node i r t (.unary .convert x none))

/-- A coercion is the tree itself or a new conversion of it. -/
theorem coerce_reworks (m : Watch) (x : Expr) (t : Ty) :
    Reworks m (x.coerce t) fun m' y => Coerces m' m.limit.refs t x y := by
  unfold coerce
  split
  · exact .pure .same
  · rename_i hne
    refine (Reworks.node t (.unary .convert x none)).mono ?_
    rintro m' _ - ⟨i, r, hr, hk, rfl⟩
    exact .convert (fun heq => by simp [heq] at hne) hr hk

theorem Coerces.foreign {hosts : Bool} (h : Coerces m k t x y) (hx : m.Foreign hosts x) : m.Foreign hosts y := by
  cases h with
  | same => exact hx
  | convert _ hr => exact .node (fun _ => hr) trivial (by simpa [operands] using hx)

theorem Coerces.eq (h : Coerces m k t x y) (ht : x.type = t) : y = x := by
  cases h with
  | same => rfl
  | convert hne => exact absurd ht hne

theorem Watch.Number.type {P : Int → Prop} (h : Watch.Number P x) : x.type = .int := by
  unfold Watch.Number at h
  split at h
  · exact h.1
  · cases h

theorem Watch.Reads.type (h : Watch.Reads v x) : x.type = .int := by
  unfold Watch.Reads at h
  split at h
  · exact h.2
  · cases h

/-- **The value of a store in place of the store.** -/
theorem unstore_replaces {j s : Nat} {u : Ty} {value value' : Expr} (hm : m.Fair) (ha : m.Ages m')
    (hcont : v ≠ m.continuation) (hgone : v = m.state ∨ v = m.resume → m'.gone v.id)
    (hval : Replaces m m' value value') (hy : Coerces m' k v.type value' y) :
    Replaces m m' (.node i r t (.assign .plain (.node j s u (.var v)) value)) y := by
  have hforeign : ∀ {hosts}, m.Foreign hosts (.node i r t (.assign .plain (.node j s u (.var v)) value)) →
      m'.Foreign hosts y := fun h =>
    hy.foreign (hval.obeys _ ((h.ordinary (by simp [Data.kind])).2 _ (mem_operands_assign.mpr (.inr rfl))))
  have hnumber : ∀ {P : Int → Prop}, v = m.state ∨ v = m.resume → Watch.Number P value → Watch.Number P y := by
    intro P hv hx
    have heq := hval.still (Watch.still_number hx)
    rw [hy.eq (by rw [heq, hx.type]; obtain rfl | rfl := hv; exacts [hm.types.1.symm, hm.types.2.symm]), heq]
    exact hx
  have hreads : ∀ {w : Var}, m.Marks w.id → v.type = .int → Watch.Reads w value → Watch.Reads w y := by
    intro w hw hv hx
    have heq := hval.still (Watch.still_reads hw hx)
    rw [hy.eq (by rw [heq, hx.type, hv]), heq]
    exact hx
  -- a store of the machine leaves a number or a look at a slot
  have hraw : m.RawStore (.node j s u (.var v)) value → m'.Foreign false y ∨ m'.Peeks y := by
    intro h
    have hresume : m'.resume = m.resume := by
      obtain ⟨_, _, _, rfl, -, -⟩ := ha
      rfl
    cases h with
    | number hown ht hx =>
      obtain ⟨_, _, _, heq⟩ := ht
      cases heq
      exact .inl (hnumber hown hx).foreign
    | returns ht hparked hx =>
      obtain ⟨_, _, _, heq⟩ := ht
      cases heq
      exact .inr (.inr ⟨_, hparked.ages ha, hreads hparked.marks hm.types.1 hx⟩)
    | resumes ht hx =>
      obtain ⟨_, _, _, heq⟩ := ht
      cases heq
      exact .inr (.inl (hresume ▸ hreads m.marks_resume hm.types.1 hx))
    | parks hparked ht hx =>
      obtain ⟨_, _, _, heq⟩ := ht
      cases heq
      exact .inr (.inl (hresume ▸ hreads m.marks_resume hparked.type hx))
  have hpeeks : m'.Peeks y → m'.Still y := fun h =>
    h.elim (Watch.still_reads m'.marks_resume) fun h => h.elim fun _ h => Watch.still_reads h.1.marks h.2
  have hinside : ∀ {a b}, Obeys m (.inside a b) (.node i r t (.assign .plain (.node j s u (.var v)) value)) →
      m'.Foreign false y ∨ m'.Peeks y := fun h => h.inside_assign.elim (fun h => .inl (hforeign h)) hraw
  exact
    { still := fun h => absurd h id
      reads := fun h => by cases h
      obeys := fun role h => by
        cases role with
        | outside => exact hforeign h
        | inside => exact (hinside h).elim .user fun h => .raw (.peeks h)
        | failing =>
          cases h with
          | failed h => exact .failed (hforeign h)
        | _ => cases h
      plain := fun _ _ _ _ h _ => (hinside h).elim (fun h => h.not_special) fun h => Watch.still_not_special (hpeeks h)
      puts := fun w P hw h => by
        obtain ⟨rfl, hx⟩ := h
        exact .inr ⟨hgone hw, hnumber hw hx⟩
      hands := fun h => absurd h id
      calls := fun _ h => absurd h id
      transfers := fun h => by cases h
      quits := fun h => absurd h.1 id
      settles := fun h => by
        obtain h | h | ⟨_, _, _, _, _, _, h, -⟩ := h
        · exact absurd h id
        · cases h
        · cases h
      closes := fun L h _ => by
        obtain ⟨_, _, _, _, _, _, h⟩ := h
        cases h
        exact absurd rfl hcont
      starts := fun h => absurd h id
      simple := fun h => by
        have hvalue : Watch.Simple (.node i r t (.assign .plain (.node j s u (.var v)) value')) :=
          Or.imp (hval.kinds _ (by simp)) (Or.imp (hval.kinds _ (by simp)) (hval.kinds _ (by simp))) h
        cases hy with
        | same => exact hvalue.stored
        | convert => trivial
      kinds := fun k hk h => by
        simp only [List.mem_cons, List.not_mem_nil, or_false] at hk
        obtain rfl | rfl | rfl := hk <;> cases h }

/-! ### Placements -/

theorem Places.onward (h : Places m p) (hmm : m.Onward m') : Places m' p where
  moved b v hv := (h.moved b v hv).imp (fun h => h.ages hmm.ages) fun ⟨hs, hc⟩ =>
    ⟨hs.ages hmm.ages (hmm.gone ▸ hs.kept), hmm.copies _ hc⟩
  state := by
    obtain ⟨_, _, _, rfl, -, -⟩ := hmm.ages
    exact h.state
  kept := by
    obtain ⟨_, _, _, rfl, -, -⟩ := hmm.ages
    exact h.kept
  apart := h.apart

/-- The number of a slot tells which one it is. -/
theorem Watch.Slot.eq {w : Var} (hw : m.Slot w) (hm : m.Fair) (hv : m.Slot v) (hid : w.id = v.id) : w = v := by
  have hapart := hm.apart
  simp only [List.nodup_cons, List.mem_cons, not_or, List.not_mem_nil, not_false_eq_true] at hapart
  obtain rfl | rfl | rfl := hw <;> obtain rfl | rfl | rfl := hv <;> simp_all

/-- A slot that is not dropped is not gone. -/
theorem Watch.Fair.gone_of_drop (hm : m.Fair) (hv : m.Slot v) (hg : ¬ g v) (h : (m.drop g).gone v.id) : m.gone v.id := by
  refine h.resolve_right ?_
  rintro ⟨w, hw, hid, hg'⟩
  exact hg (hw.eq hm hv hid ▸ hg')

/-- A slot that is not dropped is still declared. -/
theorem Watch.Slotted.drop (hm : m.Fair) (h : m.Slotted v) (hg : ¬ g v) : (m.drop g).Slotted v :=
  ⟨h.own, fun hk => h.kept (hm.gone_of_drop h.own hg hk)⟩

/-- A block declares what stays in it and what moves to it. -/
theorem Places.declares (h : Places m p) (hm : m.Fair)
    (hv : y.blockVars = x.blockVars.filter p.leaves ++ p.movedTo x) : Redeclares m (· ∈ p.dropped) x y where
  plain _ hg hold v hmem := by
    rw [hv] at hmem
    obtain hmem | hmem := List.mem_append.mp hmem
    · exact hold v (List.mem_of_mem_filter hmem)
    · exact (h.moved x v hmem).resolve_right fun ⟨_, hc⟩ => hg.other hc
  slots ho v hmem := by
    rw [hv] at hmem
    obtain hmem | hmem := List.mem_append.mp hmem
    · obtain ⟨hmem, hl⟩ := List.mem_filter.mp hmem
      exact (ho.opening_vars v hmem).imp_right fun hs => hs.drop hm (leaves_iff.mp hl).2
    · exact (h.moved x v hmem).imp_right fun ⟨hs, _⟩ => hs.drop hm (h.apart x v hmem)

theorem Redeclares.none (m : Watch) (g : Var → Prop) (h : y.blockVars = []) : Redeclares m g x y where
  plain _ _ _ v hv := by simp [h] at hv
  slots _ v hv := by simp [h] at hv

/-- What applying a placement to a node does: the operands first, then the variables of a block, or a dropped
store. -/
theorem apply_run (h : p.apply e q = .ok y q') : ∃ e' q₁, e.mapChildren (fun c _ => p.apply c) q = .ok e' q₁ ∧
    (y = e' ∧ q' = q₁ ∧
        (∀ (i r : Nat) (t : Ty) (vs : List Var) (xs : List Expr), e' = Expr.node i r t (.block vs xs) → vs.filter p.leaves ++ p.movedTo e = vs) ∨
      (∃ i r t vs xs, e' = Expr.node i r t (.block vs xs) ∧ q' = { q₁ with refs := q₁.refs + 1 } ∧
        y = .node i (q₁.refs + 1) t (.block (vs.filter p.leaves ++ p.movedTo e) xs)) ∨
      ∃ i r t target value v, e' = Expr.node i r t (.assign .plain target value) ∧ target.asVar? = some v ∧
        v ∈ p.dropped ∧ value.coerce v.type q₁ = .ok y q') := by
  rw [Placement.apply] at h
  obtain ⟨e', q₁, hmap, h⟩ := Build.exists_of_bind h
  refine ⟨e', q₁, hmap, ?_⟩
  cases e' with
  | absent =>
    cases h
    exact .inl ⟨rfl, rfl, by simp⟩
  | node i r t d =>
    -- a node that declares and stores nothing stays as its operands left it
    have hother : d.kind ≠ .block → (pure (.node i r t d) : Build Expr) q₁ = .ok y q' →
        y = .node i r t d ∧ q' = q₁ ∧ ∀ i' r' t' vs xs, Expr.node i r t d = .node i' r' t' (.block vs xs) →
          vs.filter p.leaves ++ p.movedTo e = vs := by
      intro hd h
      cases h
      refine ⟨rfl, rfl, fun _ _ _ _ _ heq => ?_⟩
      cases heq
      exact absurd rfl hd
    cases d with
    | block vs xs =>
      dsimp only [data?] at h
      split at h
      · rename_i hvs
        cases h
        refine .inl ⟨rfl, rfl, fun _ _ _ _ _ heq => ?_⟩
        cases heq
        exact hvs
      · cases h
        exact .inr (.inl ⟨_, _, _, _, _, rfl, rfl, rfl⟩)
    | assign op target value =>
      cases op with
      | plain =>
        dsimp only [data?] at h
        cases hv : target.asVar? with
        | none =>
          rw [hv] at h
          exact .inl (hother (by simp [Data.kind]) h)
        | some v =>
          rw [hv] at h
          dsimp only at h
          split at h
          · rename_i hmem
            exact .inr (.inr ⟨_, _, _, _, _, _, rfl, hv, by simpa using hmem, h⟩)
          · exact .inl (hother (by simp [Data.kind]) h)
      | _ => exact .inl (hother (by simp [Data.kind]) h)
    | _ => exact .inl (hother (by simp [Data.kind]) h)

/-- What becomes of a tree may stand where the tree stood; unless it has a new identity, so may the tree. -/
structure Rehomes (m m' : Watch) (g : Var → Prop) (c y : Expr) : Prop where
  replaces : Replaces m (m'.drop g) c y
  keeps : y.ref ≤ m.limit.refs → Replaces m (m'.drop g) c c
  field : c.hasKind .field = true → y.hasKind .field = true

theorem Rehomes.widen (h : Rehomes m m' g c y) (hn : n.Onward m) (hmm : m.Onward m') (hn' : m'.Onward n') :
    Rehomes n n' g c y where
  replaces := h.replaces.widen hn (hmm.ages_drop g) (hn'.drop g)
  keeps hr := (h.keeps (Nat.le_trans hr hn.refs)).widen hn (hmm.ages_drop g) (hn'.drop g)
  field := h.field

/-- What kept its identity may be left as it was. -/
theorem Rehomes.same (h : Rehomes m m' g c y) (hmm : m.Onward m') (hs : c.same y = true) :
    Replaces m (m'.drop g) c c := by
  by_cases hr : y.ref ≤ m.limit.refs
  · exact h.keeps hr
  · exact .young (hmm.toLater.trans (Watch.later_drop m' g)) (by rw [ref_eq_of_same hs]; omega)

theorem Rehomes.all_same {cs ys : List Expr} (h : List.Forall₂ (Rehomes m m' g) cs ys) (hmm : m.Onward m')
    (hs : ((cs.zip ys).all fun (x, y) => x.same y) = true) : List.Forall₂ (Replaces m (m'.drop g)) cs cs := by
  induction h with
  | nil => exact .nil
  | cons hy _ ih =>
    rw [List.zip_cons_cons, List.all_cons, Bool.and_eq_true] at hs
    exact .cons (hy.same hmm hs.1) (ih hs.2)

theorem Rehomes.absent (g : Var → Prop) (hmm : m.Onward m') : Rehomes m m' g .absent .absent :=
  have h := Replaces.absent m (m'.drop g) (hmm.toLater.trans (Watch.later_drop m' g))
  ⟨h, fun _ => h, id⟩

/-- A node with a new identity. -/
theorem Rehomes.rebuild (hm : m.Fair) (hmm : m.Onward m') (h : m'.Ready q)
    (hd : d.Alike (Replaces m (m'.drop g)) d') (hs : ¬ m.Still (.node i r t d))
    (hv : Redeclares m g (.node i r t d) (.node i (q.refs + 1) t d')) :
    ∃ m₂, m.Onward m₂ ∧ m₂.Ready { q with refs := q.refs + 1 } ∧
      Rehomes m m₂ g (.node i r t d) (.node i (q.refs + 1) t d') := by
  obtain ⟨m₂, h02, h2, hrep⟩ := Replaces.rebuild hm hmm h hd hs hv
  refine ⟨m₂, h02, h2, hrep, fun hr => absurd hr (Nat.not_le.mpr (Nat.lt_succ_of_le ?_)), fun hk => ?_⟩
  · exact h.limit ▸ hmm.refs
  · rw [← hk]
    cases hd <;> rfl

/-- A block with the variables that the placement puts there. -/
theorem Places.rehome {vs ws : List Var} {xs ys : List Expr} (hp : Places m p) (hm : m.Fair) (hmm : m.Onward m')
    (h : m'.Ready q) (hd : Data.Alike (Replaces m (m'.drop (· ∈ p.dropped))) (.block vs xs) (.block ws ys)) :
    ∃ m₂, m.Onward m₂ ∧ m₂.Ready { q with refs := q.refs + 1 } ∧
      Rehomes m m₂ (· ∈ p.dropped) (.node i r t (.block vs xs)) (.node i (q.refs + 1) t
        (.block (vs.filter p.leaves ++ p.movedTo (.node i r t (.block vs xs))) ys)) := by
  refine Rehomes.rebuild hm hmm h ?_ id (hp.declares hm rfl)
  cases hd with
  | block body => exact .block body

/-- The value of a dropped store. -/
theorem Places.unstore {target value value' : Expr} (hp : Places m p) (hm : m.Fair) (hmm : m.Onward m')
    (h : m'.Ready q) (hval : Replaces m (m'.drop (· ∈ p.dropped)) value value')
    (hkeep : value'.ref ≤ m.limit.refs → Replaces m (m'.drop (· ∈ p.dropped))
      (.node i r t (.assign .plain target value)) (.node i r t (.assign .plain target value)))
    (hv : target.asVar? = some v) (hmem : v ∈ p.dropped) (hrun : value'.coerce v.type q = .ok y q') :
    ∃ m₂, m.Onward m₂ ∧ m₂.Ready q' ∧
      Rehomes m m₂ (· ∈ p.dropped) (.node i r t (.assign .plain target value)) y := by
  obtain ⟨m₂, h12, h2, hco⟩ := coerce_reworks m' value' v.type q y q' h hrun
  have h02 := hmm.trans h12
  have hco' : Coerces (m₂.drop (· ∈ p.dropped)) m'.limit.refs v.type value' y := by
    cases hco with
    | same => exact .same
    | convert ht hr hk => exact .convert ht (hr.later (Watch.later_drop m₂ _)) hk
  have hgone : v = m.state ∨ v = m.resume → (m₂.drop (· ∈ p.dropped)).gone v.id := by
    intro hs
    refine .inr ⟨v, ?_, rfl, hmem⟩
    obtain ⟨_, _, _, rfl, -, -⟩ := h02.ages
    exact hs.imp_right .inl
  refine ⟨m₂, h02, h2, ?_, fun hr => ?_, fun hk => by cases hk⟩
  · cases target with
    | absent => cases hv
    | node _ _ _ d =>
      cases d with
      | var w =>
        cases hv
        refine unstore_replaces hm (h02.ages_drop _) ?_ hgone (hval.widen (.refl m) (hmm.ages_drop _) (h12.drop _)) hco'
        rintro rfl
        exact hp.kept hmem
      | _ => cases hv
  · cases hco with
    | same => exact (hkeep hr).widen (.refl m) (hmm.ages_drop _) (h12.drop _)
    | convert _ _ hk => exact absurd hr (Nat.not_le.mpr (Nat.lt_of_le_of_lt hmm.refs hk))

/-- **A placement applied to a tree.** -/
theorem apply_reworks (hp : Places m₀ p) (e : Expr) : ∀ m, m₀.Onward m → m.Fair →
    Reworks m (p.apply e) fun m' y => Rehomes m m' (· ∈ p.dropped) e y := by
  induction e using operandInduction with
  | absent =>
    intro m _ _ q y q' hm h
    obtain ⟨e', q₁, hmap, h⟩ := apply_run h
    obtain ⟨cs, q₂, hcs, ⟨-, rfl, rfl⟩ | ⟨-, _, _, _, _, heq, -⟩⟩ := mapChildren_run hmap
    · cases hcs
      obtain ⟨rfl, rfl, -⟩ | ⟨_, _, _, _, _, heq, -⟩ | ⟨_, _, _, _, _, _, heq, -⟩ := h
      · exact ⟨m, .refl m, hm, .absent _ (.refl m)⟩
      · cases heq
      · cases heq
    · cases heq
  | node i r t d ih =>
    intro m h0 hfair q y q' hm h
    have hpm := hp.onward h0
    obtain ⟨e', q₁, hmap, h⟩ := apply_run h
    obtain ⟨cs, q₂, hcs, hcase⟩ := mapChildren_run hmap
    have hwork : Reworks m ((Expr.node i r t d).children.mapM p.apply) fun m' ys =>
        List.Forall₂ (fun c y => Rehomes m m' (· ∈ p.dropped) c y) (Expr.node i r t d).children ys :=
      Reworks.mapM (S := fun m m' c y => Rehomes m m' (· ∈ p.dropped) c y)
        (fun hn hmm hn' h => h.widen hn hmm hn') h0 hfair fun c hc => ih c (List.mem_filter.mp hc).1
    obtain ⟨m₁, h01, h1, hreps⟩ := hwork q cs q₂ hm hcs
    have halike : d.Alike (Rehomes m m₁ (· ∈ p.dropped)) (refill d cs) := refill_alike (.absent _ h01) hreps
    -- a node that was not rebuilt may stay, with the variables that it has
    have hkeep : d.Alike (Replaces m (m₁.drop (· ∈ p.dropped))) d →
        (∀ vs xs, d = .block vs xs → vs.filter p.leaves ++ p.movedTo (.node i r t d) = vs) →
        Replaces m (m₁.drop (· ∈ p.dropped)) (.node i r t d) (.node i r t d) := by
      intro hd hvs
      refine .keep hfair h01 hd ?_
      cases d with
      | block vs xs => exact hpm.declares hfair (hvs vs xs rfl).symm
      | _ => exact .none m _ rfl
    obtain ⟨hsame, rfl, rfl⟩ | ⟨hsame, i', r', t', d', heq, rfl, rfl⟩ := hcase
    · have hd : d.Alike (Replaces m (m₁.drop (· ∈ p.dropped))) d := by
        have := refill_alike (d := d) (.absent _ _ (h01.toLater.trans (Watch.later_drop m₁ _)))
          (Rehomes.all_same hreps h01 hsame)
        rwa [refill_present] at this
      obtain ⟨rfl, rfl, hvs⟩ | ⟨_, _, _, vs, xs, heq, rfl, rfl⟩ | ⟨_, _, _, target, value, v, heq, hv, hmem, hrun⟩ := h
      · have hstay := hkeep hd fun vs xs heq => hvs _ _ _ _ _ (by rw [heq])
        exact ⟨m₁, h01, h1, hstay, fun _ => hstay, id⟩
      · cases heq
        exact hpm.rehome hfair h01 h1 hd
      · cases heq
        have hvalue : Replaces m (m₁.drop (· ∈ p.dropped)) value value := by cases hd; assumption
        exact hpm.unstore hfair h01 h1 hvalue (fun _ => hkeep hd (by simp)) hv hmem hrun
    · cases heq
      obtain ⟨h12, h2⟩ := h1.extend (Onward.below (x := Build.freshRef) q₂ _ _ rfl)
      have hd : d.Alike (Replaces m (m₁.drop (· ∈ p.dropped))) (refill d cs) := halike.imp fun _ _ _ h => h.replaces
      have hvars : (Expr.node i r t (refill d cs)).blockVars = (Expr.node i r t d).blockVars :=
        blockVars_refill _ _ _ _ _ _ _
      have hstill : ¬ m.Still (.node i r t d) := fun hs => by
        rw [hs.children_eq] at hsame
        cases hsame
      generalize refill d cs = d' at *
      obtain ⟨rfl, rfl, hvs⟩ | ⟨_, _, _, vs, xs, heq, rfl, rfl⟩ | ⟨_, _, _, target, value, v, heq, hv, hmem, hrun⟩ := h
      · refine Rehomes.rebuild hfair h01 h1 hd hstill ?_
        cases hd with
        | block body => exact hpm.declares hfair (hvars ▸ (hvs _ _ _ _ _ rfl).symm)
        | _ => exact .none m _ rfl
      · cases heq
        have hd' := hd.imp fun x _ y hr => hr.widen (.refl m) (h01.ages_drop _) (h12.drop _)
        cases hd with
        | block =>
          cases hvars
          exact hpm.rehome hfair (h01.trans h12) h2 hd'
      · cases heq
        cases halike with
        | @assign _ target₀ _ value₀ _ field other hvalue =>
          have htarget : target₀.hasKind .field = false := Bool.eq_false_iff.mpr fun hf => by
            have hk := (field hf).field hf
            cases target with
            | absent => cases hk
            | node _ _ _ d =>
              cases d with
              | var => cases hk
              | _ => cases hv
          cases other htarget
          have hvalue' := hvalue.widen (.refl m) h01 h12
          refine hpm.unstore hfair (h01.trans h12) h2 hvalue'.replaces (fun hr => ?_) hv hmem hrun
          exact .keep hfair (h01.trans h12) (.assign (fun hf => absurd hf (by simp [htarget])) (fun _ => rfl)
            (hvalue'.keeps hr)) (.none m _ rfl)

/-- **Rescoping** makes a tree that may stand in the place of the one before. -/
theorem rescope_reworks (hm : m.Hosted e) (ignore : List Var) : Reworks m (e.rescope ignore) fun m' y =>
    Replaces m (m'.drop (· ∈ ((scopes ignore e).placement ignore).dropped)) e y :=
  .fair fun hfair => (apply_reworks (placement_places hm ignore) e m (.refl m) hfair).mono fun _ _ _ h => h.replaces

end

end Resumable
