import Resumable.Proofs.Optimizing
import Resumable.Proofs.Steering

/-!
# `Proofs.SteeringPasses`: the passes after assembly heed a helm

Moving variables and optimizing leave a tree in its place that does to the variables that steer no more than
the tree did. `Abides` says so of a tree and its replacement, under every licence of a class; to merge a store
with the next one, a licence has to treat all variables alike. The leaves that stand where a number is
expected stay as they are.

**Contents**
* `Abides`: a tree that may stand where another one stood.
* `mapChildren_abides`, `rewrite_abides`: new operands, and a pass over a tree.
* `rescope_abides`, `optimize_abides`, `substitute_abides`: the passes.
-/

namespace Resumable

open Resumable.Expr Build

/-- Storing is allowed into all variables alike. -/
def Licence.Even (z : Licence) : Prop := ∀ v w n, z.stores v n → z.stores w n

/-- Leaves that a store into a variable that steers, or a switch over it, may be made of. -/
def Helm.Firm (h : Helm) : Expr → Prop
  | .node _ _ _ (.constant _) => True
  | .node _ _ _ (.var v) => h.steers v.id
  | _ => False

/-- Functions and arms have licences of the class. -/
class Helm.Suits (h : Helm) (K : Licence → Prop) : Prop where
  body : K h.body
  arm : ∀ n, K (h.arm n)

instance (h : Helm) : h.Suits fun _ => True := ⟨trivial, fun _ => trivial⟩

instance (h : Helm) : h.Suits Licence.Even := ⟨fun _ _ _ hn => hn, fun _ _ _ _ hn => hn⟩

/-- The second tree may stand where the first one stood, under a licence of the class. -/
structure Abides (h : Helm) (K : Licence → Prop) (x y : Expr) : Prop where
  heeds : ∀ z, K z → Heeds h z x → Heeds h z y
  firm : h.Firm x → y = x
  field : x.hasKind .field = true → y.hasKind .field = true

section
variable {h : Helm} {K : Licence → Prop} {z : Licence} {x y : Expr} {xs ys : List Expr} {i r r' : Nat} {t : Ty}
  {d d' : Data Expr} {v : Var}

theorem Helm.Sets.even {w : Var} (hx : h.Sets z v x) (hz : z.Even) : h.Sets z w x :=
  hx.imp_left (·.mono fun n => hz v w n)

theorem Helm.Sets.firm (hx : h.Sets z v x) : h.Firm x := by
  obtain hx | ⟨-, u, hu, -, hx⟩ := hx
  · unfold Watch.Number at hx
    split at hx
    · trivial
    · cases hx
  · unfold Watch.Reads at hx
    split at hx
    · exact hx.1 ▸ hu
    · cases hx

theorem Watch.Number.firm {P : Int → Prop} (hx : Watch.Number P x) : h.Firm x := by
  unfold Watch.Number at hx
  split at hx
  · trivial
  · cases hx

/-! ### New operands -/

namespace Abides

theorem refl (x : Expr) : Abides h K x x := ⟨fun _ _ h => h, fun _ => rfl, id⟩

theorem trans {w : Expr} (hxy : Abides h K x y) (hyw : Abides h K y w) : Abides h K x w where
  heeds z hz hx := hyw.heeds z hz (hxy.heeds z hz hx)
  firm hx := by
    have hy := hxy.firm hx
    exact (hyw.firm (hy ▸ hx)).trans hy
  field hx := hyw.field (hxy.field hx)

/-- The payload does no more than it did. -/
theorem plain (hd : d.Alike (Abides h K) d') (hv : ∀ v ∈ (Expr.node i r' t d').blockVars, h.Typed v)
    (hp : h.Plain z d) : h.Plain z d' := by
  cases hd with
  | var => exact hp
  | block => exact hv
  | @assign op target target' v v' field other value =>
    intro w hw
    cases hf : target.hasKind .field with
    | true =>
      have hkind := (field hf).field hf
      unfold asVar? at hw
      split at hw
      · cases hkind
      · cases hw
    | false => exact hp w (other hf ▸ hw)
  | protect body handlers fin fault =>
    intro k hk w hw
    obtain ⟨_, hmem, ⟨filter, body⟩⟩ := exists_of_mem_right handlers hk
    exact hp _ hmem w hw
  | lambda => exact hp
  | _ => trivial

/-- The number of an arm stays as it is. -/
theorem abides_arm {arm arm' : List Expr × Expr} {P : Int → Prop} (hrel : ArmAlike (Abides h K) arm arm')
    (hn : ∃ test, arm.1 = [test] ∧ Watch.Number P test) : arm'.1 = arm.1 ∧ Abides h K arm.2 arm'.2 := by
  obtain ⟨tests, body⟩ := hrel
  obtain ⟨test, heq, htest⟩ := hn
  cases heq
  cases tests with
  | cons head tail =>
    cases tail
    exact ⟨congrArg (fun x => [x]) (head.firm htest.firm), body⟩

/-- A node with new operands. -/
theorem rebuild [hK : h.Suits K] (hd : d.Alike (Abides h K) d') (hfirm : ¬ h.Firm (.node i r t d))
    (hvars : ∀ z, Heeds h z (.node i r t d) → ∀ v ∈ (Expr.node i r' t d').blockVars, h.Typed v) :
    Abides h K (.node i r t d) (.node i r' t d') where
  firm hf := absurd hf hfirm
  field hf := by cases hd <;> exact hf
  heeds z hz hx := by
    have hv := hvars z hx
    cases hx with
    | node hp hk hc =>
      refine .node (plain hd hv hp) (by cases hd <;> exact hk) fun c' hc' => ?_
      obtain ⟨c, hmem, habides⟩ := hd.operands hc'
      exact habides.heeds z hz (hc c hmem)
    | lambda hp hb =>
      cases hd with
      | lambda body => exact .lambda hp (body.heeds _ hK.body hb)
    | store hs ht hx =>
      cases hd with
      | assign field other value =>
        cases other rfl
        cases value.firm hx.firm
        exact .store hs ht hx
    | @turn _ _ _ _ _ _ _ _ _ _ number ht hs hi hn ha ho =>
      cases hd with
      | switch value cases default =>
        cases value.firm hs
        refine @Heeds.turn _ _ _ _ _ _ _ _ _ _ _ number ht hs hi (fun arm' hmem => ?_) (fun arm' hmem => ?_) (default.heeds z hz ho)
        · obtain ⟨arm, hm, hrel⟩ := exists_of_mem_right cases hmem
          rw [(abides_arm hrel (hn arm hm)).1]
          exact hn arm hm
        · obtain ⟨arm, hm, hrel⟩ := exists_of_mem_right cases hmem
          obtain ⟨heq, hbody⟩ := abides_arm hrel (hn arm hm)
          rw [heq]
          exact hbody.heeds _ (hK.arm _) (ha arm hm)

end Abides

/-- Work on every element of a list. -/
theorem Builds.forall₂ {α γ : Type} {f : γ → Build α} {S : γ → α → Prop} {cs : List γ}
    (hf : ∀ c ∈ cs, Builds (f c) (S c)) : Builds (cs.mapM f) fun ys => List.Forall₂ S cs ys := by
  induction cs with
  | nil =>
    rw [List.mapM_nil]
    exact .pure .nil
  | cons c cs ih =>
    rw [List.mapM_cons]
    refine (hf c List.mem_cons_self).bind fun y hy => ?_
    exact (ih fun c hc => hf c (List.mem_cons_of_mem _ hc)).bind fun ys hys => .pure (.cons hy hys)

/-- Rewriting the operands of a node. -/
theorem mapChildren_abides [h.Suits K] {f : Expr → Build Expr}
    (hf : ∀ c ∈ x.children, Builds (f c) (Abides h K c)) :
    Builds (x.mapChildren fun c _ => f c) (Abides h K x) := by
  intro q y q' hrun
  obtain ⟨cs, q₁, hcs, hy⟩ := mapChildren_run hrun
  obtain ⟨hall, hle⟩ := Builds.forall₂ hf q cs q₁ hcs
  obtain ⟨-, rfl, rfl⟩ | ⟨hsame, i, r, t, d, rfl, rfl, rfl⟩ := hy
  · exact ⟨.refl _, hle⟩
  · refine ⟨?_, Nat.le_succ_of_le hle⟩
    refine .rebuild (refill_alike (.refl _) hall) (fun hf => ?_) fun z hx v hv => ?_
    · cases d with
      | constant => cases hsame
      | var => cases hsame
      | _ => cases hf
    · rw [blockVars_refill i _ i r] at hv
      cases d with
      | block vs xs =>
        cases hx with
        | node hp => exact hp v hv
      | _ => cases hv

/-- A pass that works on every node. -/
theorem rewrite_abides [h.Suits K] {f : Expr → Build Expr} (hf : ∀ n, Builds (f n) (Abides h K n)) (x : Expr) :
    Builds (x.rewrite f) (Abides h K x) := by
  rw [rewrite]
  split
  · exact .pure (.refl x)
  · refine (mapChildren_abides fun c hc => rewrite_abides hf c).bind fun n hn => ?_
    exact fun q y q' hrun => ⟨hn.trans (hf n q y q' hrun).1, (hf n q y q' hrun).2⟩
  termination_by sizeOf x
  decreasing_by exact sizeOf_lt_of_mem_children hc

/-! ### Moving variables -/

theorem Helm.Firm.declarations_eq (hx : h.Firm x) : x.declarations = [] := by
  cases x with
  | absent => cases hx
  | node i r t d =>
    rw [declarations_node]
    cases d with
    | constant => rfl
    | var => rfl
    | _ => cases hx

/-- The blocks of the tree declare the variables as what they are. -/
theorem Heeds.typed (hx : Heeds h z x) : ∀ v ∈ x.declarations, h.Typed v := by
  have hoperand : ∀ {i r : Nat} {t : Ty} {d : Data Expr}, (∀ v ∈ (Expr.node i r t d).blockVars, h.Typed v) →
      (∀ c ∈ operands d, ∀ v ∈ c.declarations, h.Typed v) → ∀ v ∈ (Expr.node i r t d).declarations, h.Typed v := by
    intro i r t d hd hc v hv
    rw [declarations_node] at hv
    obtain hv | hv := List.mem_append.mp hv
    · exact hd v hv
    · obtain ⟨c, hmem, hv⟩ := List.mem_flatMap.mp hv
      exact hc c hmem v hv
  induction hx with
  | absent => simp [declarations]
  | @node z i r t d hp _ _ ih =>
    refine hoperand (fun v hv => ?_) ih
    cases d with
    | block vs xs => exact hp v hv
    | _ => cases hv
  | lambda _ _ ih => exact hoperand (fun v hv => by cases hv) (by simpa [operands] using ih)
  | store _ _ hx =>
    refine hoperand (fun v hv => by cases hv) fun c hc v hv => ?_
    obtain ⟨hf, -⟩ | rfl := mem_operands_assign.mp hc
    · cases hf
    · simp [hx.firm.declarations_eq] at hv
  | turn _ _ _ hn _ _ iha iho =>
    refine hoperand (fun v hv => by cases hv) fun c hc v hv => ?_
    obtain rfl | ⟨arm, hm, hc | rfl⟩ | rfl := mem_operands_switch.mp hc
    · simp [declarations_node, blockVars, operands] at hv
    · obtain ⟨test, heq, htest⟩ := hn arm hm
      cases List.mem_singleton.mp (heq ▸ hc)
      simp [(htest.firm (h := h)).declarations_eq] at hv
    · exact iha arm hm v hv
    · exact iho v hv

/-- A value that takes the place of a store into a variable. -/
theorem coerce_heeds (x : Expr) (t : Ty) :
    Builds (x.coerce t) fun y => (x.type = t → y = x) ∧ ∀ z, Heeds h z x → Heeds h z y := by
  unfold coerce
  split
  · exact .pure ⟨fun _ => rfl, fun _ h => h⟩
  · rename_i hne
    intro q y q' hrun
    cases hrun
    refine ⟨⟨fun heq => ?_, fun z hx => ?_⟩, Nat.le_succ _⟩
    · simp [heq] at hne
    · exact .node trivial (by simp [Data.kind]) (by simpa [operands] using hx)

/-- What a plain store stores. -/
theorem Heeds.stored (hx : Heeds h z x) (hs : x.plainStore? = some (v, y)) :
    Heeds h z y ∧ (h.steers v.id → h.Sets z v y) := by
  obtain ⟨i, r, t, j, s, u, rfl⟩ := plainStore?_eq_some hs
  cases hx with
  | node hp _ hc =>
    exact ⟨hc y (mem_operands_assign.mpr (.inr rfl)), fun hsteers => absurd hsteers (hp v rfl)⟩
  | store _ _ hx => exact ⟨hx.heeds.1, fun _ => hx⟩

/-- **Moving variables** keeps a tree heeded. -/
theorem apply_abides [h.Suits K] {p : Scopes.Placement} (hp : ∀ b, ∀ v ∈ p.movedTo b, h.Typed v) (x : Expr) :
    Builds (p.apply x) (Abides h K x) := by
  intro q y q' hrun
  obtain ⟨e, q₁, hmap, hy⟩ := apply_run hrun
  obtain ⟨he, hle⟩ := mapChildren_abides (fun c hc => apply_abides hp c) q e q₁ hmap
  obtain ⟨rfl, rfl, -⟩ | ⟨i, r, t, vs, xs, rfl, rfl, rfl⟩ | ⟨i, r, t, target, value, v, rfl, ht, hv, hcoerce⟩ := hy
  · exact ⟨he, hle⟩
  · refine ⟨he.trans ⟨fun z hz hx => ?_, (fun h => by cases h), id⟩, Nat.le_succ_of_le hle⟩
    cases hx with
    | node hvars hk hc =>
      refine .node (fun v hv => ?_) hk hc
      obtain hv | hv := List.mem_append.mp hv
      · exact hvars v (List.mem_filter.mp hv).1
      · exact hp x v hv
  · obtain ⟨⟨-, hcoerced⟩, hle'⟩ := coerce_heeds (h := h) value v.type q₁ y q' hcoerce
    refine ⟨he.trans ⟨fun z hz hx => hcoerced z ?_, (fun h => by cases h), (fun h => by cases h)⟩,
      Nat.le_trans hle hle'⟩
    cases hx with
    | node _ _ hc => exact hc value (mem_operands_assign.mpr (.inr rfl))
    | store _ _ hx => exact hx.heeds.1
  termination_by sizeOf x
  decreasing_by exact sizeOf_lt_of_mem_children hc

/-- Moving variables: a block gets only what the tree declares already. -/
theorem rescope_abides [h.Suits K] (hx : Heeds h z x) (ignore : List Var) : Builds (x.rescope ignore) (Abides h K x) := by
  refine apply_abides (fun b v hv => ?_) x
  have hs := Scopes.orderly_scopes ignore x
  obtain ⟨u, hu, -⟩ := Scopes.exists_use_of_mem_movedTo hv
  obtain ⟨⟨w, c⟩, hc, rfl⟩ := List.mem_map.mp (hs.known v u hu).1
  obtain ⟨hmem, hvc⟩ := hs.declared w c hc
  exact hx.typed w (Scopes.mem_declarations_of_mem hmem hvc)

/-! ### Rules for blocks -/

/-- What a block is made of does no more than the licence says. -/
def Helm.Allows (h : Helm) (z : Licence) (b : BlockParts) : Prop := (∀ v ∈ b.1, h.Typed v) ∧ ∀ x ∈ b.2, Heeds h z x

theorem Helm.Allows.block {b : BlockParts} (hb : h.Allows z b) : Heeds h z (.node i r t (.block b.1 b.2)) :=
  .node hb.1 (by simp [Data.kind]) hb.2

theorem Heeds.block_parts {vs : List Var} (hx : Heeds h z x) (hd : x.data? = some (.block vs xs)) :
    h.Allows z (vs, xs) := by
  cases x with
  | absent => cases hd
  | node i r t d =>
    cases hd
    cases hx with
    | node hp _ hc => exact ⟨hp, hc⟩

/-- Taking the statements out of a block in a block. -/
theorem flatten_allows (hxs : ∀ x ∈ xs, Heeds h z x) : Builds (flatten t xs) fun out => ∀ b ∈ out, h.Allows z b := by
  induction xs with
  | nil => exact .pure (by simp)
  | cons x rest ih =>
    obtain ⟨hx, hrest⟩ := List.forall_mem_cons.mp hxs
    unfold flatten
    extract_lets later
    have hlater : Builds later fun out => ∀ b ∈ out, h.Allows z b := by
      refine (ih hrest).bind fun out hout => .pure fun b hb => ?_
      obtain ⟨c, hc, rfl⟩ := Option.map_eq_some_iff.mp hb
      exact ⟨(hout c hc).1, List.forall_mem_cons.mpr ⟨hx, (hout c hc).2⟩⟩
    refine (dataOf_builds x).bind fun d hd => ?_
    split
    · split
      · refine .pure fun b hb => ?_
        cases hb
        obtain ⟨hvs, hinner⟩ := hx.block_parts hd
        exact ⟨hvs, List.forall_mem_append.mpr ⟨hinner, hrest⟩⟩
      · exact hlater
    · exact hlater

/-- Dropping what has no effect keeps the rest as it was. -/
theorem dropInert_heeds (hxs : ∀ x ∈ xs, Heeds h z x) (heq : dropInert t xs = some ys) : ∀ y ∈ ys, Heeds h z y := by
  induction xs generalizing ys with
  | nil => cases heq
  | cons x rest ih =>
    obtain ⟨hx, hrest⟩ := List.forall_mem_cons.mp hxs
    unfold dropInert at heq
    split at heq
    · cases heq
    · split at heq
      · cases heq
        exact hrest
      · obtain ⟨zs, hzs, rfl⟩ := Option.map_eq_some_iff.mp heq
        exact List.forall_mem_cons.mpr ⟨hx, ih hrest hzs⟩

theorem withType_heeds (hx : Heeds h z x) : Builds (withType x t) (Heeds h z) := by
  cases x with
  | absent => exact .throw _
  | node i r u d => exact freshRef_builds.bind fun r' _ => .pure hx.retag

theorem withData_builds_eq (x : Expr) (d : Data Expr) : Builds (withData x d) fun y => ∃ i r t, y = .node i r t d := by
  cases x with
  | absent => exact .throw _
  | node i r t d₀ => exact freshRef_builds.bind fun r' _ => .pure ⟨i, r', t, rfl⟩

/-- Dropping what is never reached. -/
theorem truncate_heeds (hxs : ∀ x ∈ xs, Heeds h z x) :
    Builds (truncate t xs) fun out => ∀ ys ∈ out, ∀ y ∈ ys, Heeds h z y := by
  induction xs with
  | nil => exact .pure (by simp)
  | cons x rest ih =>
    obtain ⟨hx, hrest⟩ := List.forall_mem_cons.mp hxs
    unfold truncate
    split
    · exact .pure (by simp)
    · split
      · refine (ih hrest).bind fun out hout => .pure fun ys hys => ?_
        obtain ⟨zs, hzs, rfl⟩ := Option.map_eq_some_iff.mp hys
        exact List.forall_mem_cons.mpr ⟨hx, hout zs hzs⟩
      · split
        · exact .pure (by simp)
        · split
          · refine (withType_heeds hx).bind fun y hy => .pure fun ys hys => ?_
            cases hys
            simpa using hy
          · refine .pure fun ys hys => ?_
            cases hys
            simpa using hx

/-- Two stores that become one. -/
theorem Heeds.merge {b value target w : Expr} (hz : z.Even) (ha : Heeds h z x) (hs : x.plainStore? = some (v, y))
    (hb : Heeds h z b) (hd : b.data? = some (.assign .plain target value)) (hv : value.isRef v = true)
    (hw : (y.type = v.type → w = y) ∧ ∀ z, Heeds h z y → Heeds h z w) :
    Heeds h z (.node i r t (.assign .plain target w)) := by
  obtain ⟨hy, hsets⟩ := ha.stored hs
  obtain ⟨vi, vr, vt, rfl⟩ := isRef_eq_true hv
  cases b with
  | absent => cases hd
  | node i' r' t' d =>
    cases hd
    cases hb with
    | node hp _ hc =>
      refine .node hp (by simp [Data.kind]) fun c hmem => ?_
      obtain ⟨hf, rfl⟩ | rfl := mem_operands_assign.mp hmem
      · exact hc _ (mem_operands_assign.mpr (.inl ⟨hf, rfl⟩))
      · exact hw.2 z hy
    | store hs ht hx =>
      -- the value that is passed on is a number or comes from a variable that steers, and needs no conversion
      obtain hx | ⟨-, u, hu, hut, hread, -⟩ := hx
      · cases hx
      · cases hread
        have hx := hsets hu
        rw [hw.1 (hx.heeds.2.trans hut.symm)]
        exact .store hs ht (hx.even hz)

/-- Two stores of one variable in a row become one. -/
theorem collapseStores_heeds (hz : z.Even) (vars : List Var) (all : List Expr) : ∀ xs : List Expr,
    (∀ x ∈ xs, Heeds h z x) → Builds (collapseStores vars all xs) fun out => ∀ b ∈ out, ∀ x ∈ b.2, Heeds h z x
  | [], _ => .pure (by simp)
  | [a], _ => .pure (by simp)
  | a :: b :: rest, hxs => by
    obtain ⟨ha, hxs⟩ := List.forall_mem_cons.mp hxs
    obtain ⟨hb, hrest⟩ := List.forall_mem_cons.mp hxs
    unfold collapseStores
    extract_lets later
    have hlater : Builds later fun out => ∀ b ∈ out, ∀ x ∈ b.2, Heeds h z x := by
      refine (collapseStores_heeds hz vars all (b :: rest) hxs).bind fun out hout => .pure fun c hc => ?_
      obtain ⟨d, hd, rfl⟩ := Option.map_eq_some_iff.mp hc
      exact List.forall_mem_cons.mpr ⟨ha, hout d hd⟩
    split
    · rename_i x v target value hstore hd
      split
      · exact hlater
      · refine (dataOf_builds _).bind fun _ _ => ?_
        split
        · exact hlater
        · rename_i hcond
          -- the second store only moves the variable of the first
          have hv : value.isRef x = true := by
            by_contra hv
            simp [hv] at hcond
          refine (coerce_heeds (h := h) v x.type).bind fun w hw => ?_
          refine (withData_builds_eq b _).bind fun merged hm => .pure fun c hc => ?_
          cases hc
          obtain ⟨i, r, t, rfl⟩ := hm
          exact List.forall_mem_cons.mpr ⟨ha.merge hz hstore hb hd hv hw, hrest⟩
    · exact hlater

/-- Dropping a last store. -/
theorem dropTrailingStore_heeds {vars : List Var} (hxs : ∀ x ∈ xs, Heeds h z x) :
    Builds (dropTrailingStore t vars xs) fun out => ∀ ys ∈ out, ∀ y ∈ ys, Heeds h z y := by
  unfold dropTrailingStore
  split
  · exact .pure (by simp)
  · rename_i x v hlast
    obtain ⟨last, hmem, hstore⟩ := Option.bind_eq_some_iff.mp hlast
    have hv := ((hxs last (List.mem_of_getLast? hmem)).stored hstore).1
    have hall : ∀ w, Heeds h z w → ∀ y ∈ xs.dropLast ++ [w], Heeds h z y := fun w hw =>
      List.forall_mem_append.mpr ⟨fun c hc => hxs c (List.dropLast_subset _ hc), by simpa using hw⟩
    split
    · exact .pure (by simp)
    · extract_lets tail
      split
      · refine .pure fun ys hys => ?_
        cases hys
        exact hall v hv
      · refine (coerce_heeds (h := h) v x.type).bind fun w hw => .pure fun ys hys => ?_
        cases hys
        exact hall w (hw.2 z hv)

/-- One simplification of a block. -/
theorem stepBlock_allows (hz : z.Even) {b : BlockParts} (hb : h.Allows z b) :
    Builds (stepBlock t b) fun out => ∀ c ∈ out, h.Allows z c := by
  obtain ⟨vars, xs⟩ := b
  obtain ⟨hvars, hxs⟩ := hb
  unfold stepBlock
  have hsome : ∀ {c : BlockParts}, h.Allows z c → Builds (pure (some c) : Build (Option BlockParts))
      fun out => ∀ c ∈ out, h.Allows z c := fun hc => .pure fun c heq => by
    cases heq
    exact hc
  refine (flatten_allows hxs).bind fun out hout => ?_
  split
  · obtain ⟨hvs, hys⟩ := hout _ rfl
    exact hsome ⟨List.forall_mem_append.mpr ⟨hvars, hvs⟩, hys⟩
  · split
    · rename_i hdrop
      exact hsome ⟨hvars, dropInert_heeds hxs hdrop⟩
    · refine (truncate_heeds hxs).bind fun out hout => ?_
      split
      · exact hsome ⟨hvars, hout _ rfl⟩
      · refine (collapseStores_heeds hz vars xs xs hxs).bind fun out hout => ?_
        split
        · exact hsome ⟨fun v hv => hvars v (List.mem_filter.mp hv).1, hout _ rfl⟩
        · refine (dropTrailingStore_heeds hxs).bind fun out hout => .pure fun c hc => ?_
          obtain ⟨ys, hys, rfl⟩ := Option.map_eq_some_iff.mp hc
          exact ⟨hvars, hout ys hys⟩

/-- Applying the rules until none fires keeps a block allowed. -/
theorem settleBlock_allows (hz : z.Even) (fuel : Nat) {b : BlockParts} (hb : h.Allows z b) :
    Builds (settleBlock t fuel b) (h.Allows z) := by
  induction fuel generalizing b with
  | zero => exact .pure hb
  | succ fuel ih =>
    unfold settleBlock
    refine (stepBlock_allows hz hb).bind fun out hout => ?_
    split
    · exact ih (hout _ rfl)
    · exact .pure hb

/-- **What becomes of a block** is heeded. -/
theorem optimizeBlock_heeds (hz : z.Even) {vars : List Var} (hb : h.Allows z (vars, xs)) :
    Builds (optimizeBlock x vars xs) (Heeds h z) := by
  unfold optimizeBlock
  refine (settleBlock_allows hz _ hb).bind ?_
  rintro ⟨vars', ys⟩ hys
  have hblock : Builds (withData x (.block vars' ys)) (Heeds h z) := by
    intro q y q' hrun
    obtain ⟨⟨i, r, t, rfl⟩, hle⟩ := withData_builds_eq x _ q y q' hrun
    exact ⟨hys.block, hle⟩
  dsimp only
  split
  · split
    · exact .pure (hys.2 _ List.mem_cons_self)
    · exact hblock
  · split
    · intro q y q' hrun
      cases hrun
      exact ⟨.node trivial (by simp [Data.kind]) (by simp [operands]), Nat.le_succ _⟩
    · exact hblock
  · exact hblock

/-! ### Rules for other nodes -/

theorem Heeds.dropSelfStore (hx : Heeds h z x) : Heeds h z x.dropSelfStore := by
  unfold Expr.dropSelfStore
  split
  · rename_i hstore
    split
    · exact (hx.stored hstore).1
    · exact hx
  · exact hx

theorem Heeds.single (hx : Heeds h z x) (hs : x.single? = some y) : Heeds h z y := by
  fun_induction single? x with
  | case1 => cases hs
  | case2 i r t x ih => exact ih ((hx.block_parts rfl).2 x List.mem_cons_self) hs
  | case3 => cases hs
  | case4 x =>
    cases hs
    exact hx

/-- Making arms one that do the same. -/
theorem mergeArms_heeds {alike : Option Value → Option Value → Bool} {test a b : Expr} (hx : Heeds h z x)
    (ha : Heeds h z a) : Builds (mergeArms alike x test a b) (Heeds h z) := by
  unfold mergeArms
  split
  · rename_i c d hc hd
    split
    · split
      · exact .pure hx
      · split
        · exact .throw _
        · split
          · exact .pure hx
          · exact .pure (ha.single hc)
    · exact .pure hx
  · exact .pure hx

/-- A pass that does something else than looking at leaves and fields. -/
theorem Builds.abides {f : Build Expr} [Onward f] (hf : ∀ z, K z → Heeds h z x → Builds f (Heeds h z))
    (hfirm : ¬ h.Firm x) (hfield : x.hasKind .field = false) : Builds f (Abides h K x) := fun q y q' hrun =>
  ⟨⟨fun z hz hx => (hf z hz hx q y q' hrun).1, fun hx => absurd hx hfirm, fun hx => by simp [hfield] at hx⟩,
    (Onward.below q y q' hrun).refs⟩

/-- **The optimizer** does to the variables that steer no more than the tree did. -/
theorem optimize_abides (alike : Option Value → Option Value → Bool) (x : Expr) :
    Builds (x.optimize alike) (Abides h Licence.Even x) := by
  unfold optimize
  refine rewrite_abides (fun n => ?_) x
  cases n with
  | absent => exact .pure (.refl _)
  | node i r t d =>
    cases d with
    | block vs xs =>
      dsimp only [data?]
      exact .abides (fun z hz hn => optimizeBlock_heeds hz (hn.block_parts rfl)) id rfl
    | assign op target value =>
      dsimp only [data?]
      exact .abides (fun z _ hn => .pure hn.dropSelfStore) id rfl
    | conditional test a b =>
      dsimp only [data?]
      refine .abides (fun z _ hn => mergeArms_heeds hn ?_) id rfl
      cases hn with
      | node _ _ hc => exact hc a (by simp [operands])
    | _ => exact .pure (.refl _)

/-! ### Copies of parameters -/

/-- Using copies of variables that do not steer. -/
theorem substitute_abides [h.Suits K] {copies : List (Var × Var)} (hc : ∀ v w, copies.lookup v = some w →
    ¬ h.steers v.id ∧ ¬ h.steers w.id) (x : Expr) : Builds (Split.substitute copies x) (Abides h K x) := by
  unfold Split.substitute
  split
  · exact .pure (.refl x)
  refine rewrite_abides (fun n => ?_) x
  cases n with
  | absent => exact .pure (.refl _)
  | node i r t d =>
    cases d with
    | var v =>
      dsimp only [data?]
      split
      · -- a read of a parameter becomes a read of its copy, which does not steer either
        rename_i w hw
        obtain ⟨hv, hw⟩ := hc v w hw
        refine .abides (fun z _ _ => ?_) hv rfl
        intro q y q' hrun
        cases hrun
        exact ⟨.node (fun hs => absurd hs hw) (by simp [Data.kind]) (by simp [operands]), Nat.le_succ _⟩
      · exact .pure (.refl _)
    | assign op target value =>
      dsimp only [data?]
      split
      · rename_i w hw
        obtain ⟨v, htarget, hw⟩ := Option.bind_eq_some_iff.mp hw
        obtain ⟨hv, hw⟩ := hc v w hw
        refine .abides (fun z _ hn => (withData_builds_eq target _).bind fun target' ht => ?_) id rfl
        obtain ⟨i', r', t', rfl⟩ := ht
        intro q y q' hrun
        cases hrun
        refine ⟨?_, Nat.le_succ _⟩
        cases hn with
        | node hp _ hops =>
          refine .node (fun u hu => ?_) (by simp [Data.kind]) fun c hmem => ?_
          · cases hu
            exact hw
          · obtain ⟨hf, -⟩ | rfl := mem_operands_assign.mp hmem
            · cases hf
            · exact hops c (mem_operands_assign.mpr (.inr rfl))
        -- the target of a store that steers is no parameter
        | store hs =>
          cases htarget
          exact absurd hs hv
      · exact .pure (.refl _)
    | _ => exact .pure (.refl _)

end

end Resumable
