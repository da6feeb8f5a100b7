import Resumable.Proofs.Recasting
import Resumable.Proofs.Refilling

/-!
# `Proofs.Operands`: listing operands and putting others in their places

Two functions know where the operands of a node stand. One lists them in evaluation order, and every walk over
a tree goes by that list; the other puts new operands in their places, and every pass that rebuilds a tree goes
by that. They have to agree on every kind of node, or a pass would leave out code that a walk sees.

**Contents**
* `Refitted`: a node with other operands, everything else as it was.
* `Fitting`, `mapChildren_of_ok`, `mapChildren_of_error`: one node.
* `noting`, `Tells`: constructions that note what they are applied to, with a rule for each way of putting
  them together.
* `operands_agree`: what applying a function to the operands gives, and which nodes rewriting applies one to.
-/

namespace Resumable

/-! ### Running constructions -/

namespace Build

variable {α β : Type} {u : Build α} {k : α → Build β} {s s' : Supply}

theorem bind_of_ok {a : α} (h : u s = .ok a s') : (u >>= k) s = k a s' := by
  change EStateM.bind u k s = _
  unfold EStateM.bind
  rw [h]

theorem bind_of_error {x : Fault} (h : u s = .error x s') : (u >>= k) s = .error x s' := by
  change EStateM.bind u k s = _
  unfold EStateM.bind
  rw [h]

end Build

namespace Expr

variable {f : Expr → Build Expr} {e x y : Expr} {d : Data Expr} {xs cs : List Expr} {i r r' : Nat} {t : Ty}

/-! ### Operands in the places of others -/

/-- The same node but for its identity and its operands: as many of them stand in the same slots. A variable
that is assigned to is no operand. -/
inductive Refitted : Expr → Expr → Prop
  | absent : Refitted .absent .absent
  | node {i r r' : Nat} {t : Ty} {d d' : Data Expr} (alike : d.Alike (fun x y => y.isAbsent = x.isAbsent) d')
    (vars : (Expr.node i r' t d').blockVars = (Expr.node i r t d).blockVars) :
    Refitted (.node i r t d) (.node i r' t d')

theorem refitted_refill (hlen : cs.length = (present (operands d)).length)
    (hcs : ∀ c ∈ cs, c.isAbsent = false) : Refitted (.node i r t d) (.node i r' t (refill d cs)) := by
  refine .node (refill_alike rfl ?_) (blockVars_refill _ _ _ _ _ _ _)
  refine List.forall₂_iff_zip.mpr ⟨hlen.symm, fun {x c} hmem => ?_⟩
  have hx := (List.mem_filter.mp (List.of_mem_zip hmem).1).2
  rw [hcs c (List.of_mem_zip hmem).2]
  exact ((Bool.not_eq_true' _).mp hx).symm

theorem Refitted.refl (e : Expr) : Refitted e e := by
  cases e with
  | absent => exact .absent
  | node i r t d =>
    have h : Refitted (.node i r t d) (.node i r t (refill d (present (operands d)))) :=
      refitted_refill rfl fun c hc => (Bool.not_eq_true' _).mp (List.mem_filter.mp hc).2
    rwa [refill_present] at h

theorem Refitted.isAbsent_eq (h : Refitted x y) : y.isAbsent = x.isAbsent := by
  cases h <;> rfl

/-- As many trees as there are slots that hold one are all found again in these slots. -/
theorem present_fillAll (hlen : cs.length = (present xs).length) (hcs : ∀ c ∈ cs, c.isAbsent = false) :
    present (fillAll xs cs).1 = cs := by
  induction xs generalizing cs with
  | nil =>
    rw [List.eq_nil_of_length_eq_zero hlen]
    rfl
  | cons x xs ih =>
    rw [fillAll_cons]
    cases x with
    | absent => exact ih hlen hcs
    | node i r t d =>
      cases cs with
      | nil => cases hlen
      | cons c cs =>
        obtain ⟨hc, hcs⟩ := List.forall_mem_cons.mp hcs
        have hrest := ih (Nat.succ.inj hlen) hcs
        show present (c :: (fillAll xs cs).1) = c :: cs
        unfold present at hrest ⊢
        rw [List.filter_cons_of_pos (by rw [hc]; rfl), hrest]

theorem children_refill (hfield : KeepsField d cs) (hlen : cs.length = (present (operands d)).length)
    (hcs : ∀ c ∈ cs, c.isAbsent = false) : (Expr.node i r t (refill d cs)).children = cs := by
  show Expr.present (operands (refill d cs)) = cs
  rw [operands_refill hfield]
  exact present_fillAll hlen hcs

/-! ### A function on the operands of a node -/

/-- The trees can stand where the operands of the node stand: none of them is an empty slot, and the one for a
field that is assigned to is a field. What has the identity of an operand is that operand. -/
structure Fitting (e : Expr) (cs : List Expr) : Prop where
  present : ∀ c ∈ cs, c.isAbsent = false
  field : ∀ op target value, e.data? = some (.assign op target value) → target.hasKind .field = true →
    ∀ y, cs.head? = some y → y.hasKind .field = true
  same : ∀ c y, (c, y) ∈ e.children.zip cs → c.same y = true → y = c

/-- Operands that fit a node keep a field target a field. -/
theorem Fitting.keepsField (h : Fitting (.node i r t d) cs)
    (hlen : cs.length = (Expr.node i r t d).children.length) : KeepsField d cs := by
  rintro op target value rfl ht
  cases target with
  | absent => cases ht
  | node j q u b =>
    cases cs with
    | nil =>
      rw [children, operands, if_pos ht] at hlen
      cases hlen
    | cons y ys => exact h.field op _ value rfl ht y rfl

/-- When all of them keep their identities, the operands are what they were. -/
theorem Fitting.eq_of_same (h : Fitting e cs) (hlen : cs.length = e.children.length)
    (hsame : ((e.children.zip cs).all fun (x, y) => x.same y) = true) : cs = e.children := by
  have hall : List.Forall₂ (· = ·) e.children cs := by
    refine List.forall₂_iff_zip.mpr ⟨hlen.symm, fun {x y} hmem => ?_⟩
    exact (h.same x y hmem (List.all_eq_true.mp hsame _ hmem)).symm
  rw [List.forall₂_eq_eq_eq] at hall
  exact hall.symm

theorem length_of_mapM {s s' : Supply} (h : xs.mapM f s = .ok cs s') : cs.length = xs.length := by
  induction xs generalizing cs s with
  | nil =>
    cases h
    rfl
  | cons x xs ih =>
    rw [List.mapM_cons] at h
    obtain ⟨y, s₁, -, h⟩ := Build.exists_of_bind h
    obtain ⟨ys, s₂, hys, h⟩ := Build.exists_of_bind h
    cases h
    exact congrArg Nat.succ (ih hys)

/-- The node made of what `f` gave has these as its operands, and is otherwise the node that it was. -/
theorem mapChildren_of_ok {s s₁ : Supply} (hcs : e.children.mapM f s = .ok cs s₁) (h : Fitting e cs) :
    ∃ e' s₂, e.mapChildren (fun c _ => f c) s = .ok e' s₂ ∧ e'.children = cs ∧ Refitted e e' := by
  have hlen := length_of_mapM hcs
  cases hsame : (e.children.zip cs).all fun (x, y) => x.same y with
  | true =>
    refine ⟨e, s₁, ?_, (h.eq_of_same hlen hsame).symm, .refl e⟩
    rw [mapChildren_eq]
    refine (Build.bind_of_ok hcs).trans ?_
    rw [if_pos hsame]
    rfl
  | false =>
    cases e with
    | absent => exact absurd hsame (by simp [children])
    | node i r t d =>
      refine ⟨.node i (s₁.refs + 1) t (refill d cs), { s₁ with refs := s₁.refs + 1 }, ?_,
        children_refill (h.keepsField hlen) hlen h.present, refitted_refill hlen h.present⟩
      rw [mapChildren_eq]
      refine (Build.bind_of_ok hcs).trans ?_
      rw [if_neg (Bool.eq_false_iff.mp hsame)]
      rfl

theorem mapChildren_of_error {s s₁ : Supply} {x : Fault} (hcs : e.children.mapM f s = .error x s₁) :
    e.mapChildren (fun c _ => f c) s = .error x s₁ := by
  rw [mapChildren_eq]
  exact Build.bind_of_error hcs

/-! ### The nodes that rewriting applies a function to -/

theorem not_absent_of_mem_children {c : Expr} (hc : c ∈ e.children) : c.isAbsent = false := by
  cases e with
  | absent => cases hc
  | node i r t d => exact (Bool.not_eq_true' _).mp (List.mem_filter.mp hc).2

/-- The nodes below a node and then the node are those that a walk meets. -/
theorem allNodes_perm (h : e.isAbsent = false) : (e.children.flatMap allNodes ++ [e]).Perm e.allNodes := by
  cases e with
  | absent => cases h
  | node i r t d =>
    rw [allNodes_node, children, flatMap_present allNodes_absent]
    exact List.perm_append_singleton _ _

/-- The construction `f`, noting what it is applied to. -/
def noting (f : Expr → Build Expr) (n : Expr) : StateT (List Expr) Build Expr := do
  modify (· ++ [n])
  f n

/-- The construction `u` gives something with `Q`. The noting construction `v` gives the same, and notes the
nodes `ns` in some order, each with what has become of its operands. -/
def Tells (v : StateT (List Expr) Build α) (u : Build α) (ns : List Expr) (Q : α → Prop) : Prop :=
  ∀ s, ∃ a s', u s = .ok a s' ∧ Q a ∧ ∃ visited seen, visited.Perm ns ∧ List.Forall₂ Refitted visited seen ∧
    ∀ log, v log s = .ok (a, log ++ seen) s'

namespace Tells

variable {α β : Type} {u : Build α} {v : StateT (List Expr) Build α} {ns ms : List Expr} {Q : α → Prop}
  {R : β → Prop}

theorem pure {a : α} (h : Q a) : Tells (pure a) (pure a) [] Q := fun s =>
  ⟨a, s, rfl, h, [], [], .nil, .nil, fun log => by rw [List.append_nil]; rfl⟩

theorem lift (h : ∀ s, ∃ a s', u s = .ok a s' ∧ Q a) : Tells (liftM u) u [] Q := by
  intro s
  obtain ⟨a, s', hu, ha⟩ := h s
  refine ⟨a, s', hu, ha, [], [], .nil, .nil, fun log => ?_⟩
  rw [List.append_nil]
  exact Build.bind_of_ok hu

theorem bind {k : α → Build β} {g : α → StateT (List Expr) Build β} (hu : Tells v u ns Q)
    (hk : ∀ a, Q a → Tells (g a) (k a) ms R) : Tells (v >>= g) (u >>= k) (ns ++ ms) R := by
  intro s
  obtain ⟨a, s₁, hu, ha, visited, seen, hperm, hseen, hv⟩ := hu s
  obtain ⟨b, s₂, hk, hb, visited', seen', hperm', hseen', hg⟩ := hk a ha s₁
  refine ⟨b, s₂, (Build.bind_of_ok hu).trans hk, hb, visited ++ visited', seen ++ seen', hperm.append hperm',
    List.rel_append hseen hseen', fun log => ?_⟩
  rw [← List.append_assoc]
  exact (Build.bind_of_ok (hv log)).trans (hg (log ++ seen))

theorem of_perm (h : Tells v u ns Q) (hperm : ns.Perm ms) : Tells v u ms Q := by
  intro s
  obtain ⟨a, s', hu, ha, visited, seen, hns, hseen, hv⟩ := h s
  exact ⟨a, s', hu, ha, visited, seen, hns.trans hperm, hseen, hv⟩

/-- One list of operands after the other. -/
theorem mapM {γ : Type} {k : γ → Build α} {g : γ → StateT (List Expr) Build α} {nodes : γ → List Expr}
    {zs : List γ} (h : ∀ z ∈ zs, Tells (g z) (k z) (nodes z) Q) :
    Tells (zs.mapM g) (zs.mapM k) (zs.flatMap nodes) fun ys => ys.length = zs.length ∧ ∀ y ∈ ys, Q y := by
  induction zs with
  | nil =>
    rw [List.mapM_nil, List.mapM_nil]
    exact pure ⟨rfl, fun _ hy => absurd hy List.not_mem_nil⟩
  | cons z zs ih =>
    obtain ⟨hz, hzs⟩ := List.forall_mem_cons.mp h
    rw [List.mapM_cons, List.mapM_cons, List.flatMap_cons]
    refine hz.bind fun y hy => ?_
    have hrest : Tells _ _ (zs.flatMap nodes ++ []) _ := (ih hzs).bind fun ys hys =>
      pure (Q := fun ys => ys.length = zs.length + 1 ∧ ∀ y ∈ ys, Q y)
        ⟨congrArg Nat.succ hys.1, List.forall_mem_cons.mpr ⟨hy, hys.2⟩⟩
    rwa [List.append_nil] at hrest

/-- One node, whatever is done to its operands. -/
theorem mapChildren {k : Expr → Build Expr} {g : Expr → StateT (List Expr) Build Expr}
    (h : ∀ c ∈ e.children, Tells (g c) (k c) c.allNodes fun y => y.isAbsent = false) :
    Tells (e.mapChildren fun c _ => g c) (e.mapChildren fun c _ => k c) (e.children.flatMap allNodes)
      (Refitted e) := by
  have hall : Tells (e.mapChildren fun c _ => g c) (e.mapChildren fun c _ => k c)
      (e.children.flatMap allNodes ++ []) (Refitted e) := by
    rw [mapChildren_eq, mapChildren_eq]
    refine (mapM h).bind fun cs hcs => ?_
    split
    · exact pure (.refl e)
    · cases e with
      | absent => exact pure .absent
      | node i r t d =>
        have hfresh : Tells (liftM Build.freshRef) Build.freshRef [] fun _ => True :=
          lift fun s => ⟨s.refs + 1, { s with refs := s.refs + 1 }, rfl, trivial⟩
        exact hfresh.bind fun r' _ => pure (refitted_refill hcs.1 hcs.2)
  rwa [List.append_nil] at hall

/-- The function is applied to a node. -/
theorem noting {n n' : Expr} (hf : ∀ s, ∃ y s', f n' s = .ok y s' ∧ y.isAbsent = false)
    (hn : Refitted n n') : Tells (noting f n') (f n') [n] fun y => y.isAbsent = false := by
  intro s
  obtain ⟨y, s', hy, hpresent⟩ := hf s
  refine ⟨y, s', hy, hpresent, [n], [n'], .refl _, .cons hn .nil, fun log => ?_⟩
  exact Build.bind_of_ok hy

/-- Rewriting applies the function to every node once, after the nodes below it. -/
theorem rewrite (hf : ∀ n, n.isAbsent = false → ∀ s, ∃ y s', f n s = .ok y s' ∧ y.isAbsent = false) (e : Expr) :
    Tells (e.rewrite (Expr.noting f)) (e.rewrite f) e.allNodes fun y => y.isAbsent = e.isAbsent := by
  rw [Expr.rewrite, Expr.rewrite]
  split
  next habsent =>
    cases e with
    | absent =>
      rw [allNodes_absent]
      exact pure rfl
    | node => cases habsent
  next hpresent =>
    rw [Bool.not_eq_true] at hpresent
    have hchildren : Tells (e.mapChildren fun c _ => c.rewrite (Expr.noting f))
        (e.mapChildren fun c _ => c.rewrite f) (e.children.flatMap allNodes) (Refitted e) := by
      refine mapChildren fun c hc => ?_
      have hc' := rewrite hf c
      rwa [not_absent_of_mem_children hc] at hc'
    rw [hpresent]
    refine (hchildren.bind fun e' he' => ?_).of_perm (allNodes_perm hpresent)
    exact noting (hf e' (he'.isAbsent_eq.trans hpresent)) he'
  termination_by sizeOf e
  decreasing_by exact sizeOf_lt_of_mem_children hc

end Tells

/-- **Listing operands and replacing them agree.** Where a function has been applied to the operands of a node
one after the other and what it gave can stand in their places, the node made of that has exactly these as its
operands, in this order, and keeps its id, its type and everything else of its payload; where the function
failed, so does making the node. So a rewriting of a tree applies a function to just the nodes that a walk
meets, each of them once, with what has become of the operands in their places. -/
theorem operands_agree (f : Expr → Build Expr) :
    (∀ (e : Expr) (s : Supply),
      (∀ cs s₁, e.children.mapM f s = .ok cs s₁ → Fitting e cs →
        ∃ e' s₂, e.mapChildren (fun c _ => f c) s = .ok e' s₂ ∧ e'.children = cs ∧ Refitted e e') ∧
      ∀ x s₁, e.children.mapM f s = .error x s₁ → e.mapChildren (fun c _ => f c) s = .error x s₁) ∧
    ((∀ n, n.isAbsent = false → ∀ s, ∃ y s', f n s = .ok y s' ∧ y.isAbsent = false) →
      ∀ (e : Expr) (s : Supply), ∃ e' s' visited seen, e.rewrite f s = .ok e' s' ∧
        e.rewrite (noting f) [] s = .ok (e', seen) s' ∧
        visited.Perm e.allNodes ∧ List.Forall₂ Refitted visited seen) := by
  refine ⟨fun e s => ⟨fun cs s₁ => mapChildren_of_ok, fun x s₁ => mapChildren_of_error⟩, ?_⟩
  intro hf e s
  obtain ⟨e', s', hrun, -, visited, seen, hperm, hseen, hnoting⟩ := Tells.rewrite hf e s
  exact ⟨e', s', visited, seen, hrun, hnoting [], hperm, hseen⟩

/-- A constant made anew; any other node stays. -/
def renewed (n : Expr) : Build Expr :=
  match n with
  | .node _ _ t (.constant v) => Build.node t (.constant v)
  | n => pure n

/-- The store of a constant into a field. -/
def storesField : Expr :=
  .node 4 4 .int (.assign .plain
    (.node 2 2 .int (.field (.node 1 1 (.named .point) (.var ⟨1, "p", .named .point⟩)) "X"))
    (.node 3 3 .int (.constant (some (.ofInt 7)))))

theorem operands_agree_storesField :
    (∃ e' s₂, storesField.mapChildren (fun c _ => renewed c) ⟨4, 1, 4⟩ = .ok e' s₂ ∧
      e'.children = [.node 2 2 .int (.field (.node 1 1 (.named .point) (.var ⟨1, "p", .named .point⟩)) "X"),
        .node 5 5 .int (.constant (some (.ofInt 7)))] ∧ Refitted storesField e') ∧
    ∃ e' s' visited seen, storesField.rewrite renewed ⟨4, 1, 4⟩ = .ok e' s' ∧
      storesField.rewrite (noting renewed) [] ⟨4, 1, 4⟩ = .ok (e', seen) s' ∧
      visited.Perm storesField.allNodes ∧ List.Forall₂ Refitted visited seen := by
  constructor
  · refine ((operands_agree renewed).1 storesField ⟨4, 1, 4⟩).1 _ ⟨5, 1, 5⟩ rfl ⟨?_, ?_, ?_⟩
    · simp [isAbsent]
    · rintro op target value - - y hy
      cases hy
      rfl
    · intro c y hmem hsame
      rcases List.mem_cons.mp hmem with h | h
      · cases h
        rfl
      · cases List.mem_singleton.mp h
        exact absurd hsame (by decide)
  · refine (operands_agree renewed).2 (fun n hn s => ?_) storesField ⟨4, 1, 4⟩
    cases n with
    | absent => cases hn
    | node i r t d => cases d <;> exact ⟨_, _, rfl, rfl⟩

end Expr

end Resumable
