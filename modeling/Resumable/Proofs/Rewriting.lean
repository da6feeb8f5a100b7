import Resumable.Proofs.Visit

/-!
# `Proofs.Rewriting`: what bottom-up rewriting leaves of a tree

Lowering rewrites a tree from the inside out and copies a node only when one of its operands became
another node. So the nodes of the outcome stand where those of the tree stood: each is one of them, or a
copy with an identity that was handed out on the way. Since identities are handed out in order, copies
made one after the other never collide, and **a tree with every node at one place stays one**.

**Contents**
* `Proper`: trees as construction leaves them.
* `Renewed`: the nodes of a tree and of its rewritten form.
* `Rewritten`, `Chain`: rewriting one tree, and several in order.
-/

namespace Resumable.Expr

variable {x y : Expr} {xs ys ns ms : List Expr} {d d' : Data Expr} {i r r' q q₁ q' : Nat} {t : Ty}

/-! ### Trees with every node at one place -/

/-- A tree whose nodes stand at one place each, with identities up to `q`; its stores go into variables
and fields. -/
structure Proper (q : Nat) (e : Expr) : Prop where
  once : (e.allNodes.map ref).Nodup
  refs : ∀ n ∈ e.allNodes, n.ref ≤ q
  stores : ∀ n ∈ e.allNodes, n.storesPlainly = true

theorem Proper.mono (h : Proper q x) (hle : q ≤ q') : Proper q' x :=
  ⟨h.once, fun n hn => Nat.le_trans (h.refs n hn) hle, h.stores⟩

theorem flatMap_sublist_of_mem {f : Expr → List Expr} (hx : x ∈ xs) :
    (f x).Sublist (xs.flatMap f) := by
  obtain ⟨as, bs, rfl⟩ := List.append_of_mem hx
  rw [List.flatMap_append, List.flatMap_cons]
  exact (List.sublist_append_left _ _).trans (List.sublist_append_right _ _)

theorem Proper.operand (h : Proper q (.node i r t d)) (hx : x ∈ operands d) : Proper q x := by
  have hsub : x.allNodes.Sublist (Expr.node i r t d).allNodes := by
    rw [allNodes_node]
    exact (flatMap_sublist_of_mem hx).cons _
  exact ⟨h.once.sublist (hsub.map ref), fun n hn => h.refs n (hsub.subset hn),
    fun n hn => h.stores n (hsub.subset hn)⟩

theorem flatMap_sublist_flatMap {f g : Expr → List Expr} (h : ∀ x ∈ xs, (f x).Sublist (g x)) :
    (xs.flatMap f).Sublist (xs.flatMap g) := by
  induction xs with
  | nil => exact List.Sublist.slnil
  | cons x xs ih =>
    rw [List.flatMap_cons, List.flatMap_cons]
    exact (h x List.mem_cons_self).append (ih fun y hy => h y (List.mem_cons_of_mem _ hy))

/-- The nodes outside of lambdas are among all nodes. -/
theorem ownNodes_sublist_allNodes (e : Expr) : e.ownNodes.Sublist e.allNodes := by
  induction e using operandInduction with
  | absent => simp
  | node i r t d ih =>
    rw [ownNodes_node, allNodes_node]
    refine List.Sublist.cons_cons _ ?_
    split
    · exact List.nil_sublist _
    · exact flatMap_sublist_flatMap ih

theorem Proper.own_once (h : Proper q x) : (x.ownNodes.map ref).Nodup :=
  h.once.sublist ((ownNodes_sublist_allNodes x).map ref)

theorem Proper.own_refs (h : Proper q x) {n : Expr} (hn : n ∈ x.ownNodes) : n.ref ≤ q :=
  h.refs n ((ownNodes_sublist_allNodes x).subset hn)

theorem Proper.own_stores (h : Proper q x) {n : Expr} (hn : n ∈ x.ownNodes) :
    n.storesPlainly = true :=
  h.stores n ((ownNodes_sublist_allNodes x).subset hn)

/-! ### Nodes that take the place of others -/

/-- The nodes `ms` stand where the nodes `ns` stood: each is one of these, or a copy whose identity was
handed out after `q` and up to `q'`. -/
structure Renewed (q q' : Nat) (ns ms : List Expr) : Prop where
  le : q ≤ q'
  kinds : ms.map kind? = ns.map kind?
  refs : ∀ k ∈ ms.map ref, k ∈ ns.map ref ∨ q < k ∧ k ≤ q'
  once : (ns.map ref).Nodup → (∀ k ∈ ns.map ref, k ≤ q) → (ms.map ref).Nodup

theorem Renewed.refl (hle : q ≤ q') (ns : List Expr) : Renewed q q' ns ns :=
  ⟨hle, rfl, fun _ hk => Or.inl hk, fun h _ => h⟩

/-- Copies that are made later have other identities than those made before. -/
theorem Renewed.append {ns' ms' : List Expr} (h : Renewed q q₁ ns ms) (h' : Renewed q₁ q' ns' ms') :
    Renewed q q' (ns ++ ns') (ms ++ ms') where
  le := Nat.le_trans h.le h'.le
  kinds := by rw [List.map_append, List.map_append, h.kinds, h'.kinds]
  refs k hk := by
    have := h.le
    have := h'.le
    rw [List.map_append, List.mem_append] at hk ⊢
    obtain hk | hk := hk
    · obtain hk | hk := h.refs k hk
      · exact Or.inl (Or.inl hk)
      · exact Or.inr (by omega)
    · obtain hk | hk := h'.refs k hk
      · exact Or.inl (Or.inr hk)
      · exact Or.inr (by omega)
  once hnodup hle := by
    rw [List.map_append, List.nodup_append] at hnodup
    rw [List.map_append] at hle ⊢
    obtain ⟨hn, hn', hdisjoint⟩ := hnodup
    have hold : ∀ k ∈ ns.map ref, k ≤ q := fun k hk => hle k (List.mem_append_left _ hk)
    have hold' : ∀ k ∈ ns'.map ref, k ≤ q := fun k hk => hle k (List.mem_append_right _ hk)
    refine List.nodup_append.mpr
      ⟨h.once hn hold, h'.once hn' fun k hk => Nat.le_trans (hold' k hk) h.le, ?_⟩
    intro a ha b hb
    have hq := h.le
    obtain ha | ha := h.refs a ha
    · obtain hb | hb := h'.refs b hb
      · exact hdisjoint a ha b hb
      · have := hold a ha
        omega
    · obtain hb | hb := h'.refs b hb
      · have := hold' b hb
        omega
      · omega

/-- The copy of a node is made after those of its operands. -/
theorem Renewed.cons (h : Renewed q q₁ ns ms) (hkind : y.kind? = x.kind?) (hlt : q₁ < y.ref)
    (hle : y.ref ≤ q') : Renewed q q' (x :: ns) (y :: ms) where
  le := Nat.le_trans h.le (Nat.le_trans (Nat.le_of_lt hlt) hle)
  kinds := by rw [List.map_cons, List.map_cons, h.kinds, hkind]
  refs k hk := by
    have hq := h.le
    rw [List.map_cons, List.mem_cons] at hk ⊢
    obtain rfl | hk := hk
    · exact Or.inr (by omega)
    · obtain hk | hk := h.refs k hk
      · exact Or.inl (Or.inr hk)
      · exact Or.inr (by omega)
  once hnodup hold := by
    rw [List.map_cons, List.nodup_cons] at hnodup
    rw [List.map_cons, List.forall_mem_cons] at hold
    rw [List.map_cons, List.nodup_cons]
    refine ⟨fun hmem => ?_, h.once hnodup.2 hold.2⟩
    have hq := h.le
    obtain hk | hk := h.refs _ hmem
    · have := hold.2 _ hk
      omega
    · omega

/-! ### Rewriting trees -/

/-- The tree `y` is what rewriting makes of `x`: it is `x` itself or a copy, and its lambdas are
lowered. -/
structure Rewritten (q q' : Nat) (x y : Expr) : Prop where
  same : y = x ∨ q < y.ref ∧ y.ref ≤ q'
  own : Renewed q q' x.ownNodes y.ownNodes
  stores : ∀ n ∈ y.ownNodes, n.storesPlainly = true
  prepared : Prepared y

theorem rewritten_absent (q : Nat) : Rewritten q q .absent .absent :=
  ⟨Or.inl rfl, .refl (Nat.le_refl q) _, by simp, prepared_absent⟩

/-- A rewritten node is of the same kind. -/
theorem Rewritten.kind?_eq (h : Rewritten q q' x y) : y.kind? = x.kind? := by
  have hkinds := h.own.kinds
  cases x with
  | absent =>
    cases y with
    | absent => rfl
    | node => simp [ownNodes_node] at hkinds
  | node =>
    cases y with
    | absent => simp [ownNodes_node] at hkinds
    | node =>
      simp only [ownNodes_node, List.map_cons, List.cons.injEq] at hkinds
      exact hkinds.1

/-- A rewritten body is a body: nothing stands at two places. -/
theorem Rewritten.body (h : Rewritten q q' x y) (hx : Proper q x) : Body y where
  prepared := h.prepared
  stores := h.stores
  once := h.own.once hx.own_once fun k hk => by
    obtain ⟨n, hn, rfl⟩ := List.mem_map.mp hk
    exact hx.own_refs hn

theorem any_suspends_eq (ns : List Expr) : ns.any suspends =
    (ns.map kind?).any fun k => k == some .await || k == some .yield := by
  rw [List.any_map]
  rfl

theorem Rewritten.any_suspends (h : Rewritten q q' x y) :
    y.ownNodes.any suspends = x.ownNodes.any suspends := by
  rw [any_suspends_eq, any_suspends_eq, h.own.kinds]

/-- Trees that are rewritten in order. -/
inductive Chain : Nat → Nat → List Expr → List Expr → Prop
  | nil (q : Nat) : Chain q q [] []
  | cons {q q₁ q' : Nat} {x y : Expr} {xs ys : List Expr} :
    Rewritten q q₁ x y → Chain q₁ q' xs ys → Chain q q' (x :: xs) (y :: ys)

theorem Chain.own (h : Chain q q' xs ys) :
    Renewed q q' (xs.flatMap ownNodes) (ys.flatMap ownNodes) := by
  induction h with
  | nil q => exact .refl (Nat.le_refl q) _
  | cons hx _ ih =>
    rw [List.flatMap_cons, List.flatMap_cons]
    exact hx.own.append ih

theorem Chain.stores (h : Chain q q' xs ys) (hy : y ∈ ys) :
    ∀ n ∈ y.ownNodes, n.storesPlainly = true := by
  induction h with
  | nil => cases hy
  | cons hx _ ih =>
    obtain rfl | hy := List.mem_cons.mp hy
    · exact hx.stores
    · exact ih hy

theorem Chain.prepared (h : Chain q q' xs ys) (hy : y ∈ ys) : Prepared y := by
  induction h with
  | nil => cases hy
  | cons hx _ ih =>
    obtain rfl | hy := List.mem_cons.mp hy
    · exact hx.prepared
    · exact ih hy

/-- Empty slots stay empty. -/
theorem Chain.fill (h : Chain q q' (present xs) ys) : Chain q q' xs (fillAll xs ys).1 := by
  induction xs generalizing q ys with
  | nil =>
    cases h
    exact .nil _
  | cons x xs ih =>
    rw [fillAll_cons]
    cases x with
    | absent => exact .cons (rewritten_absent q) (ih h)
    | node i r t d =>
      cases h with
      | cons hx hxs => exact .cons hx (ih hxs)

theorem ref_eq_of_same (h : x.same y = true) : x.ref = y.ref := by
  cases x with
  | absent =>
    cases y with
    | absent => rfl
    | node => cases h
  | node =>
    cases y with
    | absent => cases h
    | node => exact beq_iff_eq.mp h

/-- When all trees keep their identity, all of them are what they were: a copy would have a later
one. -/
theorem Chain.eq_of_same (h : Chain q q' xs ys) (hold : ∀ x ∈ xs, x.ref ≤ q)
    (hsame : ((xs.zip ys).all fun (x, y) => x.same y) = true) : ys = xs := by
  induction h with
  | nil => rfl
  | @cons q q₁ q' x y xs ys hx _ ih =>
    rw [List.zip_cons_cons, List.all_cons, Bool.and_eq_true] at hsame
    rw [List.forall_mem_cons] at hold
    have hxy : y = x := by
      refine hx.same.resolve_right fun hnew => ?_
      have href : x.ref = y.ref := ref_eq_of_same hsame.1
      omega
    rw [hxy, ih (fun z hz => Nat.le_trans (hold.2 z hz) hx.own.le) hsame.2]

/-! ### Rewriting one node -/

theorem fillAll_present (xs : List Expr) : (fillAll xs (present xs)).1 = xs := by
  induction xs with
  | nil => rfl
  | cons x xs ih =>
    rw [fillAll_cons]
    cases x with
    | absent => exact congrArg (Expr.absent :: ·) ih
    | node i r t d => exact congrArg (Expr.node i r t d :: ·) ih

/-- A store keeps a field as its target. -/
theorem Chain.keepsField (h : Chain q q' (present (operands d)) ys) : KeepsField d ys := by
  rintro op t v rfl ht
  cases t with
  | absent => cases ht
  | node i r u b =>
    rw [operands, if_pos ht] at h
    cases h with
    | @cons _ _ _ _ y _ _ hx _ =>
      show y.hasKind .field = true
      unfold hasKind at ht ⊢
      rw [hx.kind?_eq]
      exact ht

/-- A plain store is one of other operands as well. -/
theorem storesPlainly_refill (h : KeepsField d ys) (hd : (Expr.node i r t d).storesPlainly = true) :
    (Expr.node i r' t (refill d ys)).storesPlainly = true := by
  cases d with
  | assign op target value =>
    simp only [storesPlainly, refill, Bool.or_eq_true] at hd ⊢
    by_cases hf : target.hasKind .field = true
    · rw [if_pos hf]
      exact Or.inr (h op target value rfl hf)
    · rw [if_neg hf]
      refine (hd.resolve_right hf).elim (fun ha => Or.inl (Or.inl ?_)) fun hv => Or.inl (Or.inr hv)
      cases value with
      | absent => rfl
      | node => cases ha
  | _ => rfl

/-- The operand slots of a tree. -/
def slots : Expr → List Expr
  | .absent => []
  | .node _ _ _ d => operands d

/-- A tree of which the operands were rewritten until `q₁`, and which was then copied if it had to be. -/
structure Renovated (q q₁ q' : Nat) (x y : Expr) : Prop where
  same : y = x ∨ q₁ < y.ref ∧ y.ref ≤ q'
  le : q₁ ≤ q'
  kind : y.kind? = x.kind?
  slots : Chain q q₁ x.slots y.slots
  stores : y.storesPlainly = true

/-- A tree whose operands keep their identity is left alone. -/
theorem Renovated.of_same (h : Chain q q' (present (operands d)) ys) (hx : Proper q (.node i r t d))
    (hsame : (((present (operands d)).zip ys).all fun (x, y) => x.same y) = true) :
    Renovated q q' q' (.node i r t d) (.node i r t d) := by
  have heq : ys = present (operands d) := by
    refine h.eq_of_same (fun x hmem => ?_) hsame
    cases x with
    | absent => exact Nat.zero_le q
    | node => exact (hx.operand (List.mem_filter.mp hmem).1).refs _ self_mem_nodes
  rw [heq] at h
  have hfill := h.fill
  rw [fillAll_present] at hfill
  exact ⟨Or.inl rfl, Nat.le_refl _, rfl, hfill, hx.stores _ self_mem_nodes⟩

/-- The copy of a node with other operands. -/
theorem Renovated.of_copy (h : Chain q q' (present (operands d)) ys) (hx : Proper q (.node i r t d)) :
    Renovated q q' (q' + 1) (.node i r t d) (.node i (q' + 1) t (refill d ys)) where
  same := Or.inr ⟨Nat.lt_succ_self q', Nat.le_refl _⟩
  le := Nat.le_succ q'
  kind := congrArg some (refill_kind d ys)
  slots := by
    show Chain q q' (operands d) (operands (refill d ys))
    rw [operands_refill h.keepsField]
    exact h.fill
  stores := storesPlainly_refill h.keepsField (hx.stores _ self_mem_nodes)

/-- Outside of lambdas nothing else happens to a node. -/
theorem Renovated.rewritten (h : Renovated q q₁ q' x y) (hx : Proper q x)
    (hlambda : x.kind? ≠ some .lambda) : Rewritten q q' x y := by
  have hprepared : Prepared y := by
    cases y with
    | absent => exact prepared_absent
    | node j r' u d' =>
      refine (prepared_node fun hd => hlambda ?_).mpr fun c hc => h.slots.prepared hc
      rw [← h.kind]
      exact congrArg some hd
  obtain rfl | ⟨hlt, hle⟩ := h.same
  · exact ⟨Or.inl rfl, .refl (Nat.le_trans h.slots.own.le h.le) _, fun n hn => hx.own_stores hn,
      hprepared⟩
  · cases y with
    | absent => exact absurd hlt (Nat.not_lt_zero q₁)
    | node j r' u d' =>
      cases x with
      | absent => cases h.kind
      | node i r t d =>
        have hd : d.kind ≠ .lambda := fun hd => hlambda (congrArg some hd)
        have hd' : d'.kind ≠ .lambda := fun hd' => hd ((Option.some.inj h.kind).symm.trans hd')
        refine ⟨Or.inr ⟨Nat.lt_of_le_of_lt h.slots.own.le hlt, hle⟩, ?_, ?_, hprepared⟩
        · rw [ownNodes_node, ownNodes_node, if_neg hd, if_neg hd']
          exact h.slots.own.cons h.kind hlt hle
        · rw [ownNodes_node, if_neg hd', List.forall_mem_cons]
          refine ⟨h.stores, fun n hn => ?_⟩
          obtain ⟨c, hc, hn⟩ := List.mem_flatMap.mp hn
          exact h.slots.stores hc n hn

/-- The body of a lambda that was reached is one that can be split. -/
theorem Renovated.body {name : String} {params : List Var} {body : Expr} {kind : LambdaKind}
    {fallible : Bool} (h : Renovated q q₁ q' x y) (hx : Proper q x)
    (hy : y.data? = some (.lambda name params body kind fallible)) : Body body := by
  have hslots := h.slots
  cases y with
  | absent => cases hy
  | node j r' u d' =>
    cases hy
    cases x with
    | absent => cases h.kind
    | node i r t d =>
      change Chain q q₁ (operands d) [body] at hslots
      generalize hops : operands d = ops at hslots
      cases hslots with
      | cons hbody hnil =>
        cases hnil
        exact hbody.body (hx.operand (hops ▸ List.mem_cons_self))

/-- What is made of a lambda is a lowered lambda. -/
theorem Renovated.lambda {z : Expr} {q'' : Nat} (h : Renovated q q₁ q' x y)
    (hlambda : x.kind? = some .lambda) (hle : q' ≤ q'') (hz : z = y ∨ q' < z.ref ∧ z.ref ≤ q'')
    (hkind : z.kind? = some .lambda) (hlow : IsLowered z) : Rewritten q q'' x z := by
  have hq : q ≤ q' := Nat.le_trans h.slots.own.le h.le
  have hown : ∀ {e : Expr}, e.kind? = some .lambda → e.ownNodes = [e] := by
    intro e he
    cases e with
    | absent => cases he
    | node i r t d => rw [ownNodes_node, if_pos (Option.some.inj he)]
  have hsame : z = x ∨ q < z.ref ∧ z.ref ≤ q'' := by
    obtain rfl | hz := hz
    · obtain heq | hy := h.same
      · exact Or.inl heq
      · have := h.slots.own.le
        exact Or.inr (by omega)
    · exact Or.inr (by omega)
  refine ⟨hsame, ?_, ?_, hlow.prepared⟩
  · rw [hown hlambda, hown hkind]
    obtain rfl | hz := hsame
    · exact .refl (Nat.le_trans hq hle) _
    · exact Renewed.cons (.refl (Nat.le_refl q) []) (hkind.trans hlambda.symm) hz.1 hz.2
  · rw [hown hkind]
    intro n hn
    cases List.mem_singleton.mp hn
    cases z with
    | absent => rfl
    | node i r t d =>
      cases d <;> first | rfl | cases hkind

end Resumable.Expr
