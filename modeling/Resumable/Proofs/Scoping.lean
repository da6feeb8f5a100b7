import Resumable.Lower.Rescope
import Resumable.Proofs.Tree

/-!
# `Proofs.Scoping`: where the variables of a tree belong

The survey of a tree sees every use of a variable together with the blocks around it. Here its result is
turned into what a proof about moved variables needs to know: in a closed tree in which every variable is
declared once, **the place a variable is given encloses all its uses**, and a block that it is moved into
stores it before anything else touches it (`placement_plan`).

**Contents**
* `Expr.touches`, `Expr.declarations`, `Expr.ClosedIn`: uses, declarations and closed trees.
* `Scopes.walk`: the nodes of a tree with the blocks around each, in the order of the survey.
* `Scopes.survey_records`: the survey misses no use.
* `Scopes.home_cases`: how a block becomes the home of a variable.
* `Scopes.Plan`: what makes a placement sound, and `placement_plan`: the survey's placement is.
-/

namespace Resumable

open Resumable.Expr

namespace Expr

variable {v : Var} {e n c : Expr} {d : Data Expr} {i r : Nat} {t : Ty}

/-! ### Uses and declarations -/

/-- Whether a node itself reads the variable or stores into it. -/
def touches (n : Expr) (v : Var) : Bool := n.isRef v || n.storesTo v

/-- Whether a node is a plain store into the variable. -/
def plainlyStores (n : Expr) (v : Var) : Bool :=
  match n with
  | .node _ _ _ (.assign .plain target _) => target.isRef v
  | _ => false

/-- The variables that a node declares as a block. -/
def blockVars : Expr → List Var
  | .node _ _ _ (.block vs _) => vs
  | _ => []

/-- The variables that the handlers of a node bind. -/
def handlerVars : Expr → List Var
  | .node _ _ _ (.protect _ hs _ _) => hs.filterMap (·.var)
  | _ => []

/-- The variables that blocks declare, once for each place. -/
def declarations (e : Expr) : List Var := e.allNodes.flatMap blockVars

/-- The variables that handlers bind. -/
def caughtVars (e : Expr) : List Var := e.allNodes.flatMap handlerVars

/-- Every read of a variable and every store into one lies inside a block, lambda or handler that declares
it, or the variable is one of `Γ`. -/
inductive ClosedIn : List Var → Expr → Prop
  | absent {Γ : List Var} : ClosedIn Γ .absent
  | block {Γ : List Var} {i r : Nat} {t : Ty} {vs : List Var} {xs : List Expr}
    (statements : ∀ x ∈ xs, ClosedIn (vs ++ Γ) x) : ClosedIn Γ (.node i r t (.block vs xs))
  | protect {Γ : List Var} {i r : Nat} {t : Ty} {body fin fault : Expr} {hs : List (Handler Expr)}
    (inBody : ClosedIn Γ body) (inFilters : ∀ h ∈ hs, ClosedIn (h.var.toList ++ Γ) h.filter)
    (inHandlers : ∀ h ∈ hs, ClosedIn (h.var.toList ++ Γ) h.body) (inFin : ClosedIn Γ fin)
    (inFault : ClosedIn Γ fault) : ClosedIn Γ (.node i r t (.protect body hs fin fault))
  | lambda {Γ : List Var} {i r : Nat} {t : Ty} {name : String} {params : List Var} {body : Expr}
    {kind : LambdaKind} {fallible : Bool} (inBody : ClosedIn (params ++ Γ) body) :
    ClosedIn Γ (.node i r t (.lambda name params body kind fallible))
  | plain {Γ : List Var} {i r : Nat} {t : Ty} {d : Data Expr}
    (kind : d.kind ≠ .block ∧ d.kind ≠ .try ∧ d.kind ≠ .lambda)
    (uses : ∀ v, (Expr.node i r t d).touches v = true → v ∈ Γ)
    (operands : ∀ c ∈ operands d, ClosedIn Γ c) : ClosedIn Γ (.node i r t d)

theorem isRef_iff {e : Expr} {v : Var} : e.isRef v = true ↔ e.asVar? = some v := by
  unfold isRef
  exact beq_iff_eq

theorem countRefs_eq_zero : e.countRefs v = 0 ↔ ∀ n ∈ e.allNodes, n.touches v = false := by
  unfold countRefs touches
  rw [List.countP_eq_zero]
  simp

theorem declarations_node (i r : Nat) (t : Ty) (d : Data Expr) :
    declarations (.node i r t d) = blockVars (.node i r t d) ++ (operands d).flatMap declarations := by
  unfold declarations
  rw [allNodes_node, List.flatMap_cons, List.flatMap_assoc]

theorem mem_allNodes_of_operand (hc : c ∈ operands d) (hn : n ∈ c.allNodes) :
    n ∈ (Expr.node i r t d).allNodes := by
  rw [allNodes_node]
  exact List.mem_cons_of_mem _ (List.mem_flatMap.mpr ⟨c, hc, hn⟩)

theorem mem_caughtVars_of_operand (hc : c ∈ operands d) (hv : v ∈ c.caughtVars) :
    v ∈ (Expr.node i r t d).caughtVars := by
  obtain ⟨n, hn, hv⟩ := List.mem_flatMap.mp hv
  exact List.mem_flatMap.mpr ⟨n, mem_allNodes_of_operand hc hn, hv⟩

theorem mem_caughtVars_of_handler {body fin fault : Expr} {hs : List (Handler Expr)}
    {h : Handler Expr} (hh : h ∈ hs) (hv : v ∈ h.var.toList) :
    v ∈ (Expr.node i r t (.protect body hs fin fault)).caughtVars :=
  List.mem_flatMap.mpr ⟨_, self_mem_nodes, List.mem_filterMap.mpr ⟨h, hh, Option.mem_toList.mp hv⟩⟩

/-- A variable declared once is declared by one node. -/
theorem eq_of_mem_blockVars {a b : Expr} (h : e.declarations.Nodup) (ha : a ∈ e.allNodes)
    (hb : b ∈ e.allNodes) (hva : v ∈ a.blockVars) (hvb : v ∈ b.blockVars) : a = b :=
  eq_of_mem_flatMap h ha hb hva hvb

/-- A node under an operand is smaller than the node that holds the operand. -/
theorem sizeOf_lt_of_mem_allNodes (hc : c ∈ operands d) (hn : n ∈ c.allNodes) :
    sizeOf n < sizeOf (Expr.node i r t d) := by
  induction c using operandInduction generalizing i r t d with
  | absent => simp at hn
  | node j q u b ih =>
    have hlt := sizeOf_lt_of_mem_operands hc
    rw [allNodes_node] at hn
    simp only [Expr.node.sizeOf_spec] at hlt ⊢
    obtain rfl | hn := List.mem_cons.mp hn
    · simp only [Expr.node.sizeOf_spec]
      omega
    · obtain ⟨x, hx, hn⟩ := List.mem_flatMap.mp hn
      have := ih x hx hx hn (i := j) (r := q) (t := u)
      simp only [Expr.node.sizeOf_spec] at this
      omega

/-- One identity belongs to one node. -/
def Coherent (e : Expr) : Prop := ∀ a ∈ e.allNodes, ∀ b ∈ e.allNodes, a.same b = true → a = b

theorem same_refl (e : Expr) : e.same e = true := by
  cases e <;> simp [same]

end Expr

/-! ### The nodes of a tree in the order of the survey -/

namespace Scopes

variable {v : Var} {e n c : Expr} {d : Data Expr} {i r : Nat} {t : Ty} {ignore : List Var}
  {path around : List Expr} {s s' s'' : Scopes}

/-- The nodes of a tree that stands in `path`, each with the blocks and lambdas around it. -/
def walk (path : List Expr) (e : Expr) : List (List Expr × Expr) :=
  if e.isAbsent then []
  else (path, e) :: e.children.attach.flatMap fun c => walk (inside path e) c.1
  termination_by sizeOf e
  decreasing_by exact Expr.sizeOf_lt_of_mem_children c.2

@[simp] theorem walk_absent (path : List Expr) : walk path .absent = [] := by
  rw [walk]
  rfl

theorem walk_node (path : List Expr) (i r : Nat) (t : Ty) (d : Data Expr) :
    walk path (.node i r t d) = (path, .node i r t d) ::
      (operands d).flatMap (walk (inside path (.node i r t d))) := by
  have hattach : (Expr.children (.node i r t d)).attach.flatMap
      (fun c => walk (inside path (.node i r t d)) c.1) =
      (operands d).flatMap (walk (inside path (.node i r t d))) := by
    rw [List.flatMap_subtype fun x h => rfl, List.unattach_attach]
    exact flatMap_present (walk_absent _) (operands d)
  rw [walk, hattach]
  rfl

theorem self_mem_walk : (path, Expr.node i r t d) ∈ walk path (.node i r t d) := by
  rw [walk_node]
  exact List.mem_cons_self

theorem walk_operand (hc : c ∈ operands d) :
    walk (inside path (.node i r t d)) c ⊆ walk path (.node i r t d) := by
  rw [walk_node]
  intro x hx
  exact List.mem_cons_of_mem _ (List.mem_flatMap.mpr ⟨c, hc, hx⟩)

theorem map_walk (path : List Expr) (e : Expr) : (walk path e).map Prod.snd = e.allNodes := by
  induction e using operandInduction generalizing path with
  | absent => simp
  | node i r t d ih =>
    rw [walk_node, allNodes_node, List.map_cons, List.map_flatMap]
    exact congrArg _ (List.flatMap_congr fun c hc => ih c hc _)

theorem mem_allNodes_of_mem_walk (h : (around, n) ∈ walk path e) : n ∈ e.allNodes := by
  rw [← map_walk path e]
  exact List.mem_map.mpr ⟨_, h, rfl⟩

/-- What is under a node of a tree is under the tree. -/
theorem walk_subset (h : (around, n) ∈ walk path e) : walk around n ⊆ walk path e := by
  induction e using operandInduction generalizing path with
  | absent => simp at h
  | node i r t d ih =>
    rw [walk_node] at h
    obtain h | h := List.mem_cons.mp h
    · cases h
      exact List.Subset.refl _
    · obtain ⟨c, hc, h⟩ := List.mem_flatMap.mp h
      exact List.Subset.trans (ih c hc h) (walk_operand hc)

/-- The path of a node begins with the path of the tree. -/
theorem prefix_of_mem_walk (h : (around, n) ∈ walk path e) : path <+: around := by
  induction e using operandInduction generalizing path with
  | absent => simp at h
  | node i r t d ih =>
    rw [walk_node] at h
    obtain h | h := List.mem_cons.mp h
    · cases h
      exact List.prefix_refl _
    · obtain ⟨c, hc, h⟩ := List.mem_flatMap.mp h
      refine List.IsPrefix.trans ?_ (ih c hc h)
      unfold inside
      split
      · exact List.prefix_append _ _
      · exact List.prefix_refl _

/-- The path of a node consists of nodes of the tree. -/
theorem mem_allNodes_of_mem_path (h : (around, n) ∈ walk path e) {b : Expr} (hb : b ∈ around) :
    b ∈ path ∨ b ∈ e.allNodes := by
  induction e using operandInduction generalizing path with
  | absent => simp at h
  | node i r t d ih =>
    rw [walk_node] at h
    obtain h | h := List.mem_cons.mp h
    · cases h
      exact Or.inl hb
    · obtain ⟨c, hc, h⟩ := List.mem_flatMap.mp h
      rw [allNodes_node]
      obtain hin | hin := ih c hc h
      · unfold inside at hin
        split at hin
        · obtain hin | hin := List.mem_append.mp hin
          · exact Or.inl hin
          · exact Or.inr (List.mem_singleton.mp hin ▸ List.mem_cons_self)
        · exact Or.inl hin
      · exact Or.inr (List.mem_cons_of_mem _ (List.mem_flatMap.mpr ⟨c, hc, hin⟩))

/-- What is around a node was walked through, and is larger than the node. -/
theorem around_of_mem_walk (h : (around, n) ∈ walk path e) {b : Expr} (hb : b ∈ around) :
    b ∈ path ∨ sizeOf n < sizeOf b ∧ ∃ outer, (outer, b) ∈ walk path e := by
  induction e using operandInduction generalizing path with
  | absent => simp at h
  | node i r t d ih =>
    have hself : (path, .node i r t d) ∈ walk path (.node i r t d) := self_mem_walk
    rw [walk_node] at h
    obtain h | h := List.mem_cons.mp h
    · cases h
      exact Or.inl hb
    · obtain ⟨c, hc, h⟩ := List.mem_flatMap.mp h
      obtain hin | ⟨hlt, outer, hout⟩ := ih c hc h
      · unfold inside at hin
        split at hin
        · obtain hin | hin := List.mem_append.mp hin
          · exact Or.inl hin
          · cases List.mem_singleton.mp hin
            exact Or.inr ⟨sizeOf_lt_of_mem_allNodes hc (mem_allNodes_of_mem_walk h), _, hself⟩
        · exact Or.inl hin
      · exact Or.inr ⟨hlt, outer, walk_operand hc hout⟩

theorem inside_of_not (hd : d.kind ≠ .block ∧ d.kind ≠ .lambda) :
    inside path (.node i r t d) = path := by
  unfold inside
  rw [if_neg]
  simp [hasKind, kind?, data?, hd]

@[simp] theorem inside_block {vs : List Var} {xs : List Expr} :
    inside path (.node i r t (.block vs xs)) = path ++ [.node i r t (.block vs xs)] := rfl

/-! ### Closed trees -/

/-- In a closed tree without lambdas a variable is used under a block that declares it, unless a handler
binds it. -/
theorem declared_around {Γ : List Var} (h : e.ClosedIn Γ)
    (hl : ∀ n ∈ e.allNodes, n.hasKind .lambda = false) (hn : (around, n) ∈ walk path e)
    (hv : n.touches v = true) : v ∈ Γ ∨ v ∈ e.caughtVars ∨ ∃ b ∈ around, v ∈ b.blockVars := by
  -- what an operand says of the node, when it stands in the scope `Γ' ++ Γ`
  have lift {i r : Nat} {t : Ty} {d : Data Expr} {c : Expr} {Γ : List Var} (Γ' : List Var)
      (hc : c ∈ operands d)
      (hΓ' : ∀ v ∈ Γ', v ∈ (Expr.node i r t d).caughtVars ∨ ∃ b ∈ around, v ∈ b.blockVars)
      (h : v ∈ Γ' ++ Γ ∨ v ∈ c.caughtVars ∨ ∃ b ∈ around, v ∈ b.blockVars) :
      v ∈ Γ ∨ v ∈ (Expr.node i r t d).caughtVars ∨ ∃ b ∈ around, v ∈ b.blockVars := by
    obtain h | h | h := h
    · obtain h | h := List.mem_append.mp h
      · exact Or.inr (hΓ' v h)
      · exact Or.inl h
    · exact Or.inr (Or.inl (mem_caughtVars_of_operand hc h))
    · exact Or.inr (Or.inr h)
  induction h generalizing path with
  | absent => simp at hn
  | @block Γ i r t vs xs _ ih =>
    rw [walk_node, inside_block] at hn
    obtain hn | hn := List.mem_cons.mp hn
    · cases hn
      simp [touches, isRef, storesTo, asVar?] at hv
    obtain ⟨x, hx, hn⟩ := List.mem_flatMap.mp hn
    refine lift vs hx (fun w hw => Or.inr ⟨.node i r t (.block vs xs), ?_, hw⟩) ?_
    · exact (prefix_of_mem_walk hn).subset (by simp)
    exact ih x hx (fun m hm => hl m (mem_allNodes_of_operand hx hm)) hn
  | @protect Γ i r t body fin fault hs _ _ _ _ _ ihb ihf ihh ihn ihg =>
    rw [walk_node, inside_of_not (by simp [Data.kind])] at hn
    obtain hn | hn := List.mem_cons.mp hn
    · cases hn
      simp [touches, isRef, storesTo, asVar?] at hv
    obtain ⟨x, hx, hin⟩ := List.mem_flatMap.mp hn
    have hl' : ∀ m ∈ x.allNodes, m.hasKind .lambda = false := fun m hm =>
      hl m (mem_allNodes_of_operand hx hm)
    obtain rfl | ⟨h, hh, rfl | rfl⟩ | rfl | rfl := mem_operands_protect.mp hx
    · exact lift [] hx (by simp) (ihb hl' hin)
    · exact lift h.var.toList hx (fun w hw => Or.inl (mem_caughtVars_of_handler hh hw)) (ihf h hh hl' hin)
    · exact lift h.var.toList hx (fun w hw => Or.inl (mem_caughtVars_of_handler hh hw)) (ihh h hh hl' hin)
    · exact lift [] hx (by simp) (ihn hl' hin)
    · exact lift [] hx (by simp) (ihg hl' hin)
  | lambda => exact absurd (hl _ self_mem_nodes) (by simp [hasKind, kind?, data?, Data.kind])
  | @plain Γ i r t d kind uses _ ih =>
    rw [walk_node, inside_of_not ⟨kind.1, kind.2.2⟩] at hn
    obtain hn | hn := List.mem_cons.mp hn
    · cases hn
      exact Or.inl (uses v hv)
    obtain ⟨x, hx, hn⟩ := List.mem_flatMap.mp hn
    exact lift [] hx (by simp) (ih x hx (fun m hm => hl m (mem_allNodes_of_operand hx hm)) hn)

/-! ### The survey -/

@[simp] theorem survey_absent : survey ignore path s .absent = s := by
  rw [survey]
  rfl

/-- The survey of a node is that of its operands after a look at the node itself. -/
theorem survey_node : survey ignore path s (.node i r t d) =
    (operands d).foldl (survey ignore (inside path (.node i r t d)))
      (s.note ignore path (.node i r t d)) := by
  have hpresent : ∀ (xs : List Expr) (s : Scopes) (path : List Expr),
      (present xs).foldl (survey ignore path) s = xs.foldl (survey ignore path) s := by
    intro xs
    induction xs with
    | nil => exact fun _ _ => rfl
    | cons x xs ih =>
      intro s path
      cases x with
      | absent =>
        rw [List.foldl_cons, survey_absent, ← ih]
        rfl
      | node => exact ih _ _
  rw [survey, List.foldl_subtype fun _ _ _ => rfl, List.unattach_attach]
  exact hpresent _ _ _

/-- Nothing that a survey has seen is forgotten. -/
structure Grows (s s' : Scopes) : Prop where
  declared : ∀ v ∈ s.declared.map Prod.fst, v ∈ s'.declared.map Prod.fst
  uses : ∀ v u, (v, u) ∈ s.uses → ∃ u', (v, u') ∈ s'.uses ∧ u.paths ⊆ u'.paths ∧
    (u.isRead = true → u'.isRead = true)

theorem Grows.refl (s : Scopes) : Grows s s :=
  ⟨fun _ h => h, fun _ u h => ⟨u, h, List.Subset.refl _, id⟩⟩

theorem Grows.trans (h : Grows s s') (h' : Grows s' s'') : Grows s s'' where
  declared v hv := h'.declared v (h.declared v hv)
  uses v u hu := by
    obtain ⟨u', hu', hp, hr⟩ := h.uses v u hu
    obtain ⟨u'', hu'', hp', hr'⟩ := h'.uses v u' hu'
    exact ⟨u'', hu'', List.Subset.trans hp hp', hr' ∘ hr⟩

/-- The survey knows of the use of `v` by the node `n`, which stands in `around`. -/
def Recorded (s : Scopes) (around : List Expr) (n : Expr) (v : Var) : Prop :=
  ∃ u, (v, u) ∈ s.uses ∧ around ∈ u.paths ∧ (n.plainlyStores v = false → u.isRead = true)

theorem Recorded.grows (h : Recorded s around n v) (hs : Grows s s') : Recorded s' around n v := by
  obtain ⟨u, hu, hp, hr⟩ := h
  obtain ⟨u', hu', hp', hr'⟩ := hs.uses v u hu
  exact ⟨u', hu', hp' hp, hr' ∘ hr⟩

theorem lookup_isNone_iff {β : Type} {l : List (Var × β)} :
    (l.lookup v).isNone = true ↔ v ∉ l.map Prod.fst := by
  rw [← Option.not_isSome_iff_eq_none.trans Option.isNone_iff_eq_none.symm, List.lookup_isSome_iff]
  simp

theorem lookup_isNone_eq_false {β : Type} {l : List (Var × β)} (h : v ∈ l.map Prod.fst) :
    (l.lookup v).isNone = false := by
  cases hn : (l.lookup v).isNone with
  | false => rfl
  | true => exact absurd h (lookup_isNone_iff.mp hn)

/-- Noting a use forgets nothing. -/
theorem use_grows (w : Var) (isRead : Bool) : Grows s (s.use ignore path w isRead) := by
  unfold use
  split
  · exact .refl s
  dsimp only
  split
  · exact ⟨fun _ h => h, fun v u h => ⟨u, List.mem_append_left _ h, List.Subset.refl _, id⟩⟩
  · refine ⟨fun _ h => h, fun v u h => ?_⟩
    by_cases hv : v = w
    · exact ⟨⟨u.paths ++ [path], u.isRead || isRead⟩, List.mem_map.mpr ⟨(v, u), h, by simp [hv]⟩,
        List.subset_append_left _ _, fun hr => by simp [hr]⟩
    · exact ⟨u, List.mem_map.mpr ⟨(v, u), h, by simp [hv]⟩, List.Subset.refl _, id⟩

/-- A use of a variable that is declared is recorded. -/
theorem use_records (path : List Expr) (isRead : Bool) (hv : v ∈ s.declared.map Prod.fst) (hi : v ∉ ignore) :
    ∃ u, (v, u) ∈ (s.use ignore path v isRead).uses ∧ path ∈ u.paths ∧
      (isRead = true → u.isRead = true) := by
  unfold use
  rw [if_neg (by simp [lookup_isNone_eq_false hv, hi])]
  dsimp only
  split
  · exact ⟨⟨[path], isRead⟩, by simp, by simp, id⟩
  · rename_i h
    have hmem : v ∈ s.uses.map Prod.fst := by
      by_contra hmem
      exact h (lookup_isNone_iff.mpr hmem)
    obtain ⟨⟨w, u⟩, hu, rfl⟩ := List.mem_map.mp hmem
    exact ⟨⟨u.paths ++ [path], u.isRead || isRead⟩, List.mem_map.mpr ⟨(w, u), hu, by simp⟩, by simp,
      fun hr => by simp [hr]⟩

/-- A look at a node notes its use of a variable. -/
theorem note_of_touches (h : n.touches v = true) :
    s.note ignore path n = s.use ignore path v (!n.plainlyStores v) := by
  cases n with
  | absent => simp [touches, isRef, storesTo, asVar?] at h
  | node i r t d =>
    cases d with
    | var w =>
      have hw : w = v := by simpa [touches, isRef, storesTo, asVar?] using h
      subst hw
      rfl
    | assign op target value =>
      have ht : target.asVar? = some v := by
        simpa [touches, storesTo, isRef, asVar?] using h
      have href : target.isRef v = true := isRef_iff.mpr ht
      cases target with
      | absent => cases ht
      | node j q u b =>
        cases b with
        | var w =>
          cases ht
          cases op <;> simp [note, plainlyStores, href] <;> rfl
        | _ => cases ht
    | _ => simp [touches, isRef, storesTo, asVar?] at h

/-- A look at a node does at most one of two things: note declarations or note a use. -/
theorem note_cases (s : Scopes) (ignore : List Var) (path : List Expr) (n : Expr) :
    s.note ignore path n = { s with declared := (n.blockVars.map (·, n)).reverse ++ s.declared } ∨
      ∃ w isRead, s.note ignore path n = s.use ignore path w isRead := by
  unfold note
  split
  · exact Or.inl rfl
  · exact Or.inr ⟨_, _, rfl⟩
  · exact Or.inr ⟨_, _, rfl⟩
  · rename_i hblock _ _
    refine Or.inl ?_
    have : n.blockVars = [] := by
      unfold blockVars
      split
      · exact absurd rfl (hblock _ _ _ _ _)
      · rfl
    simp [this]

theorem note_grows (n : Expr) : Grows s (s.note ignore path n) := by
  obtain h | ⟨w, isRead, h⟩ := note_cases s ignore path n
  · rw [h]
    exact ⟨fun v hv => by simp only [List.map_append, List.mem_append, hv, or_true],
      fun _ u hu => ⟨u, hu, List.Subset.refl _, id⟩⟩
  · rw [h]
    exact use_grows w isRead

theorem note_declares (hv : v ∈ n.blockVars) :
    v ∈ (s.note ignore path n).declared.map Prod.fst := by
  cases n with
  | absent => cases hv
  | node i r t d =>
    cases d with
    | block vs xs =>
      have hv : v ∈ vs := hv
      simp [note, hv]
    | _ => cases hv

/-- The blocks of a path have been surveyed. -/
def Declares (s : Scopes) (path : List Expr) : Prop :=
  ∀ b ∈ path, ∀ v ∈ b.blockVars, v ∈ s.declared.map Prod.fst

theorem Declares.grows (h : Declares s path) (hs : Grows s s') : Declares s' path :=
  fun b hb v hv => hs.declared v (h b hb v hv)

theorem Declares.inside (h : Declares s path) :
    Declares (s.note ignore path n) (Scopes.inside path n) := by
  unfold Scopes.inside
  split
  · intro b hb v hv
    obtain hb | hb := List.mem_append.mp hb
    · exact (h.grows (note_grows n)) b hb v hv
    · cases List.mem_singleton.mp hb
      exact note_declares hv
  · exact h.grows (note_grows n)

/-- **The survey misses no use** of a variable under a block that declares it. -/
theorem survey_records (h : Declares s path) (e : Expr) : Grows s (survey ignore path s e) ∧
    ∀ around n v, (around, n) ∈ walk path e → n.touches v = true → v ∉ ignore →
      (∃ b ∈ around, v ∈ b.blockVars) → Recorded (survey ignore path s e) around n v := by
  induction e using operandInduction generalizing path s with
  | absent => simp [Grows.refl]
  | node i r t d ih =>
    -- one operand after the other, each on what the ones before have left
    have hall : ∀ (xs : List Expr) (s : Scopes) (path : List Expr), Declares s path →
        (∀ c ∈ xs, c ∈ operands d) → Grows s (xs.foldl (survey ignore path) s) ∧
        ∀ around n v, (around, n) ∈ xs.flatMap (walk path) → n.touches v = true → v ∉ ignore →
          (∃ b ∈ around, v ∈ b.blockVars) →
          Recorded (xs.foldl (survey ignore path) s) around n v := by
      intro xs
      induction xs with
      | nil => exact fun s path _ _ => ⟨.refl s, by simp⟩
      | cons x xs ihxs =>
        intro s path hs hxs
        obtain ⟨hgrow, hx⟩ := ih x (hxs x List.mem_cons_self) hs
        obtain ⟨hgrows, hrest⟩ := ihxs (survey ignore path s x) path (hs.grows hgrow)
          fun c hc => hxs c (List.mem_cons_of_mem _ hc)
        refine ⟨hgrow.trans hgrows, fun around n v hn hv hi hb => ?_⟩
        rw [List.flatMap_cons, List.mem_append] at hn
        obtain hn | hn := hn
        · exact (hx around n v hn hv hi hb).grows hgrows
        · exact hrest around n v hn hv hi hb
    have hinside : Declares (s.note ignore path (.node i r t d)) (inside path (.node i r t d)) := h.inside
    obtain ⟨hgrows, hrest⟩ := hall (operands d) _ _ hinside fun _ hc => hc
    rw [survey_node]
    refine ⟨(note_grows _).trans hgrows, fun around n v hn hv hi hb => ?_⟩
    rw [walk_node] at hn
    obtain hn | hn := List.mem_cons.mp hn
    · cases hn
      obtain ⟨b, hb, hvb⟩ := hb
      obtain ⟨u, hu, hp, hr⟩ := use_records path (!(Expr.node i r t d).plainlyStores v) (h b hb v hvb) hi
      rw [← note_of_touches hv] at hu
      exact Recorded.grows ⟨u, hu, hp, fun hp => hr (by simp [hp])⟩ hgrows
    · exact hrest around n v hn hv hi hb

/-- What a survey of a tree with the nodes `ns` knows is about these nodes. -/
structure Orderly (ignore : List Var) (ns : List Expr) (s : Scopes) : Prop where
  declared : ∀ v b, (v, b) ∈ s.declared → b ∈ ns ∧ v ∈ b.blockVars
  known : ∀ v u, (v, u) ∈ s.uses → v ∈ s.declared.map Prod.fst ∧ v ∉ ignore
  once : (s.uses.map Prod.fst).Nodup
  paths : ∀ v u, (v, u) ∈ s.uses → ∀ π ∈ u.paths, ∀ b ∈ π, b ∈ ns

theorem orderly_empty (ignore : List Var) (ns : List Expr) : Orderly ignore ns {} :=
  ⟨by simp, by simp, by simp, by simp⟩

/-- One more use of a variable. -/
theorem Orderly.use {ns : List Expr} (h : Orderly ignore ns s) (hpath : ∀ b ∈ path, b ∈ ns) (w : Var)
    (isRead : Bool) : Orderly ignore ns (s.use ignore path w isRead) := by
  unfold Scopes.use
  split
  · exact h
  rename_i hw
  have hw : w ∈ s.declared.map Prod.fst ∧ w ∉ ignore := by
    rw [Bool.or_eq_true, not_or, lookup_isNone_iff] at hw
    simpa using hw
  have hpaths (u : VarUses) (hu : ∀ π ∈ u.paths, ∀ b ∈ π, b ∈ ns) :
      ∀ π ∈ u.paths ++ [path], ∀ b ∈ π, b ∈ ns := by
    intro π hπ
    obtain hπ | hπ := List.mem_append.mp hπ
    · exact hu π hπ
    · cases List.mem_singleton.mp hπ
      exact hpath
  dsimp only
  split
  · -- the first use of the variable
    rename_i hnone
    refine ⟨h.declared, fun v u hu => ?_, ?_, fun v u hu => ?_⟩
    · obtain hu | hu := List.mem_append.mp hu
      · exact h.known v u hu
      · cases List.mem_singleton.mp hu
        exact hw
    · rw [List.map_append, List.nodup_append]
      refine ⟨h.once, by simp, ?_⟩
      rintro v hv _ hv' rfl
      rw [List.map_cons, List.map_nil, List.mem_singleton] at hv'
      subst hv'
      exact lookup_isNone_iff.mp hnone hv
    · obtain hu | hu := List.mem_append.mp hu
      · exact h.paths v u hu
      · cases List.mem_singleton.mp hu
        exact hpaths {} (by simp)
  · -- the use is added to those of the variable, and the others stay
    have hmem : ∀ v u, (v, u) ∈ (s.uses.map fun p =>
        if p.1 = w then (p.1, (⟨p.2.paths ++ [path], p.2.isRead || isRead⟩ : VarUses)) else p) →
        ∃ u', (v, u') ∈ s.uses ∧ (u.paths = u'.paths ∨ u.paths = u'.paths ++ [path]) := by
      intro v u hu
      obtain ⟨⟨v', u'⟩, hp, heq⟩ := List.mem_map.mp hu
      refine ⟨u', ?_⟩
      split at heq
      · cases heq
        exact ⟨hp, Or.inr rfl⟩
      · cases heq
        exact ⟨hp, Or.inl rfl⟩
    refine ⟨h.declared, fun v u hu => ?_, ?_, fun v u hu => ?_⟩
    · obtain ⟨u', hu', _⟩ := hmem v u hu
      exact h.known v u' hu'
    · have hkeys : (s.uses.map fun p => if p.1 = w then
          (p.1, (⟨p.2.paths ++ [path], p.2.isRead || isRead⟩ : VarUses)) else p).map Prod.fst =
          s.uses.map Prod.fst := by
        rw [List.map_map]
        refine List.map_congr_left fun p _ => ?_
        dsimp only [Function.comp]
        split <;> rfl
      exact hkeys ▸ h.once
    · obtain ⟨u', hu', hp | hp⟩ := hmem v u hu
      · rw [hp]
        exact h.paths v u' hu'
      · rw [hp]
        exact hpaths u' (h.paths v u' hu')

/-- The survey stays orderly from one node to the next. -/
theorem Orderly.note {ns : List Expr} (h : Orderly ignore ns s) (hpath : ∀ b ∈ path, b ∈ ns)
    (hn : n ∈ ns) : Orderly ignore ns (s.note ignore path n) := by
  obtain heq | ⟨w, isRead, heq⟩ := note_cases s ignore path n
  · rw [heq]
    refine ⟨fun v b hv => ?_, fun v u hu => ⟨?_, (h.known v u hu).2⟩, h.once, h.paths⟩
    · obtain hv | hv := List.mem_append.mp hv
      · obtain ⟨w, hw, heq⟩ := List.mem_map.mp (List.mem_reverse.mp hv)
        cases heq
        exact ⟨hn, hw⟩
      · exact h.declared v b hv
    · simp only [List.map_append, List.mem_append, (h.known v u hu).1, or_true]
  · rw [heq]
    exact h.use hpath w isRead

/-- The survey of a tree keeps the scopes orderly. -/
theorem Orderly.survey {ns : List Expr} (h : Orderly ignore ns s) (hpath : ∀ b ∈ path, b ∈ ns) (e : Expr)
    (he : ∀ n ∈ e.allNodes, n ∈ ns) : Orderly ignore ns (Scopes.survey ignore path s e) := by
  induction e using operandInduction generalizing path s with
  | absent => rwa [survey_absent]
  | node i r t d ih =>
    have hinside : ∀ b ∈ inside path (.node i r t d), b ∈ ns := by
      unfold inside
      split
      · intro b hb
        obtain hb | hb := List.mem_append.mp hb
        · exact hpath b hb
        · cases List.mem_singleton.mp hb
          exact he _ self_mem_nodes
      · exact hpath
    rw [survey_node]
    refine List.foldlRecOn (operands d) _ (h.note hpath (he _ self_mem_nodes)) fun s' hs' c hc => ?_
    exact ih c hc hs' hinside fun n hn => he n (mem_allNodes_of_operand hc hn)

/-! ### Homes -/

/-- What two paths have in common stands in both. -/
theorem mem_commonPath {x : Expr} : ∀ {p q : List Expr}, x ∈ commonPath p q →
    x ∈ p ∧ ∃ y ∈ q, x.same y = true
  | [], _, h => by simp [commonPath] at h
  | _ :: _, [], h => by simp [commonPath] at h
  | a :: as, b :: bs, h => by
    rw [commonPath] at h
    split at h
    · rename_i hab
      obtain rfl | h := List.mem_cons.mp h
      · exact ⟨List.mem_cons_self, b, List.mem_cons_self, hab⟩
      · obtain ⟨hp, y, hy, hxy⟩ := mem_commonPath h
        exact ⟨List.mem_cons_of_mem _ hp, y, List.mem_cons_of_mem _ hy, hxy⟩
    · cases h

/-- What all paths have in common is on each of them. -/
theorem mem_foldl_commonPath {x : Expr} {ps : List (List Expr)} {p : List Expr}
    (h : x ∈ ps.foldl commonPath p) : x ∈ p ∧ ∀ q ∈ ps, ∃ y ∈ q, x.same y = true := by
  induction ps generalizing p with
  | nil => exact ⟨h, by simp⟩
  | cons q ps ih =>
    obtain ⟨hx, hps⟩ := ih h
    obtain ⟨hp, y, hy, hxy⟩ := mem_commonPath hx
    refine ⟨hp, fun q' hq' => ?_⟩
    obtain rfl | hq' := List.mem_cons.mp hq'
    · exact ⟨y, hy, hxy⟩
    · exact hps q' hq'

/-- A variable stays where it is declared, or goes to a block that is on every path to a use of it and
stores it first. -/
theorem home_cases (decl : Expr) (v : Var) (u : VarUses) : home decl v u = decl ∨
    (home decl v u).hasKind .block = true ∧ (home decl v u).same decl = false ∧
      (∃ π ∈ u.paths, home decl v u ∈ π) ∧
      (∀ π ∈ u.paths, ∃ b ∈ π, (home decl v u).same b = true) ∧
      definesFirst v (statements (home decl v u)) = true := by
  obtain ⟨paths, isRead⟩ := u
  cases paths with
  | nil => exact Or.inl rfl
  | cons p ps =>
    unfold home
    dsimp only
    split
    · exact Or.inl rfl
    rename_i block around hcommon
    split
    · rename_i hmovable
      simp only [Bool.and_eq_true, Bool.not_eq_true'] at hmovable
      obtain ⟨⟨⟨hdecl, _⟩, _⟩, hfirst⟩ := hmovable
      have hkind := List.head?_dropWhile_not (fun e : Expr => !e.hasKind .block)
        (ps.foldl commonPath p).reverse
      rw [hcommon] at hkind
      -- what is left of the common path after the scopes that are no blocks
      have hmem : block ∈ ps.foldl commonPath p := by
        have hin : block ∈ (ps.foldl commonPath p).reverse.dropWhile fun e => !e.hasKind .block := by
          rw [hcommon]
          exact List.mem_cons_self
        exact List.mem_reverse.mp ((List.dropWhile_sublist _).subset hin)
      obtain ⟨hp, hps⟩ := mem_foldl_commonPath hmem
      refine Or.inr ⟨by simpa using hkind, hdecl, ⟨p, List.mem_cons_self, hp⟩, ?_, hfirst⟩
      intro π hπ
      obtain rfl | hπ := List.mem_cons.mp hπ
      · exact ⟨block, hp, same_refl block⟩
      · exact hps π hπ
    · exact Or.inl rfl

/-- A variable that is defined first has a store. -/
theorem definesFirst_store {xs : List Expr} (h : definesFirst v xs = true) :
    ∃ x ∈ xs, ∃ value, x.plainStore? = some (v, value) := by
  induction xs with
  | nil => cases h
  | cons x xs ih =>
    rw [definesFirst] at h
    split at h
    · cases h
    split at h
    · obtain ⟨y, hy, h⟩ := ih h
      exact ⟨y, List.mem_cons_of_mem _ hy, h⟩
    · split at h
      · rename_i w value hx
        rw [Bool.and_eq_true, decide_eq_true_iff] at h
        exact ⟨x, List.mem_cons_self, value, h.1 ▸ hx⟩
      · cases h

theorem walk_statement {vs : List Var} {xs : List Expr} {x value : Expr} (hx : x ∈ xs)
    (hstore : x.plainStore? = some (v, value))
    (h : (around, .node i r t (.block vs xs)) ∈ walk path e) :
    (around ++ [.node i r t (.block vs xs)], x) ∈ walk path e := by
  cases x with
  | absent => cases hstore
  | node => exact walk_subset h (walk_operand hx self_mem_walk)

theorem touches_of_plainStore? {x value : Expr} (h : x.plainStore? = some (v, value)) :
    x.touches v = true := by
  unfold plainStore? at h
  split at h
  · split at h
    · cases h
    · cases h
      simp [touches, storesTo, isRef, asVar?]
  · cases h

/-! ### Sound placements -/

/-- The variables that a block declares afterwards. -/
def Placement.placed (p : Placement) (b : Expr) : List Var :=
  match b with
  | .node _ _ _ (.block vs _) => vs.filter p.leaves ++ p.movedTo b
  | _ => []

/-- What makes a placement of the variables of a tree sound. -/
structure Plan (p : Placement) (e : Expr) : Prop where
  /-- A variable that is kept is declared around each of its uses. -/
  around : ∀ {around n v}, (around, n) ∈ walk [] e → n.touches v = true → v ∈ e.declarations →
    (n.plainlyStores v = true → v ∉ p.dropped) → ∃ b ∈ around, v ∈ p.placed b
  /-- A variable that a block did not declare itself was declared further out, and the block stores it
  before anything else touches it. -/
  moved : ∀ {around b v}, (around, b) ∈ walk [] e → v ∈ p.placed b → v ∉ b.blockVars →
    definesFirst v (statements b) = true ∧ ∃ c ∈ around, v ∈ c.blockVars
  /-- A variable is placed in one block. -/
  unique : ∀ {b c v}, b ∈ e.allNodes → c ∈ e.allNodes → v ∈ p.placed b → v ∈ p.placed c → b = c
  once : ∀ {b}, b ∈ e.allNodes → (p.placed b).Nodup
  known : ∀ {b v}, b ∈ e.allNodes → v ∈ p.placed b → v ∈ e.declarations
  dropped : ∀ {b v}, v ∈ p.dropped → b ∈ e.allNodes → v ∉ p.placed b
  /-- What is dropped was declared. -/
  unread : ∀ {v}, v ∈ p.dropped → v ∈ e.declarations

/-- Trees in which moving variables is a sound thing to do: closed and without lambdas, with every variable
declared at one place and none bound by a handler too. -/
structure Scoped (e : Expr) : Prop where
  closed : e.ClosedIn []
  plain : ∀ n ∈ e.allNodes, n.hasKind .lambda = false
  once : e.declarations.Nodup
  apart : ∀ v ∈ e.caughtVars, v ∉ e.declarations
  coherent : e.Coherent

theorem Scoped.declared (h : Scoped e) (hn : (around, n) ∈ walk [] e) (hv : n.touches v = true)
    (hd : v ∈ e.declarations) : ∃ b ∈ around, v ∈ b.blockVars := by
  obtain hv | hv | hv := declared_around h.closed h.plain hn hv
  · cases hv
  · exact absurd hd (h.apart v hv)
  · exact hv

theorem Placement.placed_of_mem {p : Placement} {b : Expr} (hv : v ∈ b.blockVars)
    (h : p.leaves v = true) : v ∈ p.placed b := by
  cases b with
  | absent => cases hv
  | node i r t d =>
    cases d with
    | block vs xs => exact List.mem_append_left _ (List.mem_filter.mpr ⟨hv, h⟩)
    | _ => cases hv

theorem Placement.mem_placed {p : Placement} {b : Expr} (h : v ∈ p.placed b) :
    (v ∈ b.blockVars ∧ p.leaves v = true) ∨ (b.hasKind .block = true ∧ v ∈ p.movedTo b) := by
  unfold placed at h
  split at h
  · obtain h | h := List.mem_append.mp h
    · exact Or.inl (List.mem_filter.mp h)
    · exact Or.inr ⟨rfl, h⟩
  · cases h

/-- Leaving everything where it is. -/
def Placement.stay : Placement := ⟨[], []⟩

@[simp] theorem Placement.placed_stay (b : Expr) : stay.placed b = b.blockVars := by
  unfold placed
  split
  · simp [stay, leaves, movedTo, blockVars]
  · rename_i h
    unfold blockVars
    split
    · exact absurd rfl (h _ _ _ _ _)
    · rfl

theorem mem_declarations_of_mem {b : Expr} (hb : b ∈ e.allNodes) (hv : v ∈ b.blockVars) :
    v ∈ e.declarations :=
  List.mem_flatMap.mpr ⟨b, hb, hv⟩

/-- Leaving every variable where it is is a plan. -/
theorem stay_plan (h : Scoped e) : Plan .stay e where
  around hn hv hd _ := by
    obtain ⟨b, hb, hvb⟩ := h.declared hn hv hd
    exact ⟨b, hb, by rwa [Placement.placed_stay]⟩
  moved _ hv hn := absurd (by rwa [Placement.placed_stay] at hv) hn
  unique hb hc hvb hvc := by
    rw [Placement.placed_stay] at hvb hvc
    exact eq_of_mem_blockVars h.once hb hc hvb hvc
  once hb := by
    rw [Placement.placed_stay]
    exact (List.nodup_flatMap.mp h.once).1 _ hb
  known hb hv := by
    rw [Placement.placed_stay] at hv
    exact mem_declarations_of_mem hb hv
  dropped hv := by cases hv
  unread hv := by cases hv

/-! ### The survey's placement -/

/-- The whole survey of a tree. -/
def scopes (ignore : List Var) (e : Expr) : Scopes := survey ignore [] {} e

theorem orderly_scopes (ignore : List Var) (e : Expr) : Orderly ignore e.allNodes (scopes ignore e) :=
  (orderly_empty ignore _).survey (by simp) e fun _ hn => hn

theorem scopes_records (h : (around, n) ∈ walk [] e) (hv : n.touches v = true) (hi : v ∉ ignore)
    (hb : ∃ b ∈ around, v ∈ b.blockVars) : Recorded (scopes ignore e) around n v := by
  have hstart : Declares {} [] := by simp [Declares]
  exact (survey_records hstart e).2 around n v h hv hi hb

section
variable {p : Placement} {u : VarUses} {b h : Expr}

/-- The variables with a home are those that are read; the home is where their uses meet. -/
theorem mem_homes : (v, h) ∈ (s.placement ignore).homes ↔ ∃ u, (v, u) ∈ s.uses ∧ u.isRead = true ∧
    h = home ((s.declared.lookup v).getD .absent) v u := by
  unfold placement
  rw [List.mem_filterMap]
  constructor
  · rintro ⟨⟨w, u⟩, hu, heq⟩
    dsimp only at heq
    split at heq
    · rename_i hr
      cases heq
      exact ⟨u, hu, hr, rfl⟩
    · cases heq
  · rintro ⟨u, hu, hr, rfl⟩
    exact ⟨(v, u), hu, by simp [hr]⟩

/-- A variable that is moved was used. -/
theorem homes_keys (s : Scopes) (ignore : List Var) :
    ((s.placement ignore).homes.map Prod.fst).Sublist (s.uses.map Prod.fst) := by
  unfold placement
  dsimp only
  induction s.uses with
  | nil => exact List.Sublist.slnil
  | cons p us ih =>
    obtain ⟨w, u⟩ := p
    rw [List.filterMap_cons]
    dsimp only
    split
    · exact ih.cons _
    · rename_i heq
      split at heq
      · cases heq
        exact ih.cons_cons _
      · cases heq

/-- A variable is dropped when it is never read, or not used at all. -/
theorem mem_dropped : v ∈ (s.placement ignore).dropped ↔ (∃ u, (v, u) ∈ s.uses ∧ u.isRead = false) ∨
    (v ∈ s.declared.map Prod.fst ∧ v ∉ s.uses.map Prod.fst ∧ v ∉ ignore) := by
  unfold placement
  simp only [List.mem_append, List.mem_map, List.mem_filter, Bool.not_eq_true', Bool.and_eq_true,
    lookup_isNone_iff, List.contains_eq_mem, decide_eq_false_iff_not]
  constructor
  · rintro (⟨⟨w, u⟩, ⟨hu, hr⟩, rfl⟩ | ⟨⟨⟨w, b⟩, hb, rfl⟩, hn, hi⟩)
    · exact Or.inl ⟨u, hu, hr⟩
    · exact Or.inr ⟨⟨_, hb, rfl⟩, hn, hi⟩
  · rintro (⟨u, hu, hr⟩ | ⟨hb, hn, hi⟩)
    · exact Or.inl ⟨(v, u), ⟨hu, hr⟩, rfl⟩
    · exact Or.inr ⟨hb, hn, hi⟩

theorem leaves_iff : p.leaves v = true ↔ v ∉ p.homes.map Prod.fst ∧ v ∉ p.dropped := by
  unfold Placement.leaves
  rw [Bool.and_eq_true, lookup_isNone_iff]
  simp

theorem mem_movedTo : v ∈ p.movedTo b ↔ ∃ h, (v, h) ∈ p.homes ∧ h.same b = true := by
  unfold Placement.movedTo
  simp only [List.mem_map, List.mem_filter]
  constructor
  · rintro ⟨⟨w, h⟩, ⟨hh, hs⟩, rfl⟩
    exact ⟨h, hh, hs⟩
  · rintro ⟨h, hh, hs⟩
    exact ⟨(v, h), ⟨hh, hs⟩, rfl⟩

/-- A variable that is kept is declared in its home. -/
theorem exists_use_of_mem_movedTo (hv : v ∈ (s.placement ignore).movedTo b) :
    ∃ u, (v, u) ∈ s.uses ∧ u.isRead = true ∧
      (home ((s.declared.lookup v).getD .absent) v u).same b = true := by
  obtain ⟨h, hh, hsame⟩ := mem_movedTo.mp hv
  obtain ⟨u, hu, hr, rfl⟩ := mem_homes.mp hh
  exact ⟨u, hu, hr, hsame⟩

/-- A variable that is ignored is left where it is. -/
theorem Orderly.ignored {ns : List Expr} (hs : Orderly ignore ns s) (hv : v ∈ ignore) :
    (s.placement ignore).leaves v = true := by
  have hkey : v ∉ s.uses.map Prod.fst := fun hk => by
    obtain ⟨⟨w, u⟩, hu, rfl⟩ := List.mem_map.mp hk
    exact (hs.known _ u hu).2 hv
  refine leaves_iff.mpr ⟨fun hk => hkey ((homes_keys s ignore).subset hk), fun hd => ?_⟩
  obtain ⟨u, hu, _⟩ | ⟨_, _, hi⟩ := mem_dropped.mp hd
  · exact hkey (List.mem_map.mpr ⟨_, hu, rfl⟩)
  · exact hi hv

theorem Orderly.unread {ns : List Expr} (hs : Orderly ignore ns s) {u' : VarUses} (hu : (v, u) ∈ s.uses)
    (hu' : (v, u') ∈ s.uses) : u = u' := by
  have := List.inj_on_of_nodup_map hs.once hu hu' rfl
  exact congrArg Prod.snd this

/-- The survey finds the block that declares a variable. -/
theorem Scoped.lookup (he : Scoped e) (hb : b ∈ e.allNodes) (hv : v ∈ b.blockVars)
    (hk : v ∈ (scopes ignore e).declared.map Prod.fst) :
    ((scopes ignore e).declared.lookup v).getD .absent = b := by
  cases hl : (scopes ignore e).declared.lookup v with
  | none =>
    have hk' := lookup_isNone_eq_false hk
    rw [hl] at hk'
    cases hk'
  | some c =>
    obtain ⟨as, bs, heq, _⟩ := List.lookup_eq_some_iff.mp hl
    obtain ⟨hc, hvc⟩ := (orderly_scopes ignore e).declared v c (by rw [heq]; simp)
    exact eq_of_mem_blockVars he.once hc hb hvc hv

/-- The home of a variable, in a tree where it is declared once. -/
theorem Scoped.home_cases (he : Scoped e) (hu : (v, u) ∈ (scopes ignore e).uses) :
    (home (((scopes ignore e).declared.lookup v).getD .absent) v u ∈ e.allNodes ∧
      v ∈ (home (((scopes ignore e).declared.lookup v).getD .absent) v u).blockVars) ∨
    (home (((scopes ignore e).declared.lookup v).getD .absent) v u ∈ e.allNodes ∧
      (home (((scopes ignore e).declared.lookup v).getD .absent) v u).hasKind .block = true ∧
      (∀ π ∈ u.paths, home (((scopes ignore e).declared.lookup v).getD .absent) v u ∈ π) ∧
      definesFirst v (statements (home (((scopes ignore e).declared.lookup v).getD .absent) v u)) = true) := by
  have hs := orderly_scopes ignore e
  obtain ⟨⟨w, c⟩, hc, rfl⟩ := List.mem_map.mp (hs.known v u hu).1
  obtain ⟨hmem, hvc⟩ := hs.declared w c hc
  have hlookup := he.lookup hmem hvc (hs.known w u hu).1
  rw [hlookup]
  obtain heq | ⟨hkind, _, ⟨π, hπ, hin⟩, hall, hfirst⟩ := Scopes.home_cases c w u
  · rw [heq]
    exact Or.inl ⟨hmem, hvc⟩
  · have hnode := hs.paths w u hu π hπ _ hin
    refine Or.inr ⟨hnode, hkind, fun π' hπ' => ?_, hfirst⟩
    obtain ⟨y, hy, hsame⟩ := hall π' hπ'
    rwa [he.coherent _ hnode y (hs.paths w u hu π' hπ' y hy) hsame]

theorem Scoped.home_mem (he : Scoped e) (hu : (v, u) ∈ (scopes ignore e).uses) :
    home (((scopes ignore e).declared.lookup v).getD .absent) v u ∈ e.allNodes := by
  obtain ⟨h, _⟩ | ⟨h, _⟩ := he.home_cases hu <;> exact h

theorem isBlock_of_mem_blockVars (hv : v ∈ b.blockVars) : b.hasKind .block = true := by
  unfold blockVars at hv
  split at hv
  · rfl
  · cases hv

theorem Placement.placed_of_movedTo (hb : b.hasKind .block = true) (hv : v ∈ p.movedTo b) :
    v ∈ p.placed b := by
  cases b with
  | absent => cases hb
  | node i r t d =>
    cases d with
    | block vs xs => exact List.mem_append_right _ hv
    | _ => cases hb

/-- Only variables of the tree are placed in its blocks. -/
theorem placed_known (hb : b ∈ e.allNodes)
    (hv : v ∈ ((scopes ignore e).placement ignore).placed b) : v ∈ e.declarations := by
  obtain ⟨hvb, _⟩ | ⟨_, hvb⟩ := Placement.mem_placed hv
  · exact mem_declarations_of_mem hb hvb
  · have hs := orderly_scopes ignore e
    obtain ⟨u, hu, _⟩ := exists_use_of_mem_movedTo hvb
    obtain ⟨⟨w, c⟩, hc, rfl⟩ := List.mem_map.mp (hs.known v u hu).1
    obtain ⟨hmem, hvc⟩ := hs.declared w c hc
    exact mem_declarations_of_mem hmem hvc

/-- **The survey of a tree leads to a sound placement.** -/
theorem placement_plan (he : Scoped e) (ignore : List Var) :
    Plan ((scopes ignore e).placement ignore) e where
  around {around n v} hn hv hd hplain := by
    have hs := orderly_scopes ignore e
    obtain ⟨c, hc, hvc⟩ := he.declared hn hv hd
    have hcn : c ∈ e.allNodes := (mem_allNodes_of_mem_path hn hc).resolve_left (by simp)
    by_cases hi : v ∈ ignore
    · exact ⟨c, hc, Placement.placed_of_mem hvc (hs.ignored hi)⟩
    obtain ⟨u, hu, hπ, hr⟩ := scopes_records hn hv hi ⟨c, hc, hvc⟩
    have hread : u.isRead = true := by
      cases hp : n.plainlyStores v with
      | false => exact hr hp
      | true =>
        by_contra hr'
        exact hplain hp (mem_dropped.mpr (Or.inl ⟨u, hu, by simpa using hr'⟩))
    have hhome : (v, home (((scopes ignore e).declared.lookup v).getD .absent) v u) ∈
        ((scopes ignore e).placement ignore).homes := mem_homes.mpr ⟨u, hu, hread, rfl⟩
    have hlookup := he.lookup hcn hvc (hs.known v u hu).1
    obtain ⟨hmem, hvh⟩ | ⟨_, hkind, hall, _⟩ := he.home_cases hu
    · rw [hlookup] at hmem hvh hhome
      have heq := eq_of_mem_blockVars he.once hmem hcn hvh hvc
      refine ⟨c, hc, Placement.placed_of_movedTo (isBlock_of_mem_blockVars hvc) (mem_movedTo.mpr ⟨_, hhome, ?_⟩)⟩
      rw [heq]
      exact same_refl c
    · exact ⟨_, hall _ hπ, Placement.placed_of_movedTo hkind (mem_movedTo.mpr ⟨_, hhome, same_refl _⟩)⟩
  moved {around b v} hb hv hn := by
    have hbn := mem_allNodes_of_mem_walk hb
    obtain ⟨hvb, _⟩ | ⟨_, hvb⟩ := Placement.mem_placed hv
    · exact absurd hvb hn
    obtain ⟨u, hu, _, hsame⟩ := exists_use_of_mem_movedTo hvb
    have heq := he.coherent _ (he.home_mem hu) b hbn hsame
    obtain ⟨_, hvh⟩ | ⟨_, _, _, hfirst⟩ := he.home_cases hu
    · rw [heq] at hvh
      exact absurd hvh hn
    rw [heq] at hfirst
    refine ⟨hfirst, ?_⟩
    -- the store that comes first is closed, so the variable is declared around the block
    obtain ⟨x, hx, value, hstore⟩ := definesFirst_store hfirst
    cases b with
    | absent => cases hx
    | node i r t d =>
      cases d with
      | block vs xs =>
        obtain ⟨c, hc, hvc⟩ := he.declared (walk_statement hx hstore hb) (touches_of_plainStore? hstore)
          (placed_known hbn hv)
        obtain hc | hc := List.mem_append.mp hc
        · exact ⟨c, hc, hvc⟩
        · cases List.mem_singleton.mp hc
          exact absurd hvc hn
      | _ => cases hx
  unique {b c v} hb hc hvb hvc := by
    have hs := orderly_scopes ignore e
    obtain ⟨hvb, hl⟩ | ⟨_, hvb⟩ := Placement.mem_placed hvb
    · obtain ⟨hvc, _⟩ | ⟨_, hvc⟩ := Placement.mem_placed hvc
      · exact eq_of_mem_blockVars he.once hb hc hvb hvc
      · obtain ⟨h, hh, _⟩ := mem_movedTo.mp hvc
        exact absurd (List.mem_map.mpr ⟨_, hh, rfl⟩) (leaves_iff.mp hl).1
    · obtain ⟨_, hl⟩ | ⟨_, hvc⟩ := Placement.mem_placed hvc
      · obtain ⟨h, hh, _⟩ := mem_movedTo.mp hvb
        exact absurd (List.mem_map.mpr ⟨_, hh, rfl⟩) (leaves_iff.mp hl).1
      · obtain ⟨u, hu, _, hsame⟩ := exists_use_of_mem_movedTo hvb
        obtain ⟨u', hu', _, hsame'⟩ := exists_use_of_mem_movedTo hvc
        cases hs.unread hu hu'
        rw [← he.coherent _ (he.home_mem hu) b hb hsame, ← he.coherent _ (he.home_mem hu) c hc hsame']
  once {b} hb := by
    unfold Placement.placed
    split
    · rw [List.nodup_append]
      refine ⟨((List.nodup_flatMap.mp he.once).1 _ hb).filter _, ?_, ?_⟩
      · have hkeys := (orderly_scopes ignore e).once.sublist (homes_keys _ ignore)
        exact hkeys.sublist (List.filter_sublist.map _)
      · rintro v hv _ hv' rfl
        obtain ⟨h, hh, _⟩ := mem_movedTo.mp hv'
        exact (leaves_iff.mp (List.mem_filter.mp hv).2).1 (List.mem_map.mpr ⟨_, hh, rfl⟩)
    · exact List.nodup_nil
  known := placed_known
  dropped {b v} hd hb hv := by
    have hs := orderly_scopes ignore e
    obtain ⟨_, hl⟩ | ⟨_, hvb⟩ := Placement.mem_placed hv
    · exact (leaves_iff.mp hl).2 hd
    · obtain ⟨u, hu, hr, _⟩ := exists_use_of_mem_movedTo hvb
      obtain ⟨u', hu', hr'⟩ | ⟨_, hn, _⟩ := mem_dropped.mp hd
      · cases hs.unread hu hu'
        rw [hr] at hr'
        cases hr'
      · exact hn (List.mem_map.mpr ⟨_, hu, rfl⟩)
  unread {v} hd := by
    have hs := orderly_scopes ignore e
    have hk : v ∈ (scopes ignore e).declared.map Prod.fst := by
      obtain ⟨u, hu, _⟩ | ⟨hk, _⟩ := mem_dropped.mp hd
      · exact (hs.known v u hu).1
      · exact hk
    obtain ⟨⟨w, c⟩, hc, rfl⟩ := List.mem_map.mp hk
    obtain ⟨hmem, hvc⟩ := hs.declared w c hc
    exact mem_declarations_of_mem hmem hvc

end

end Scopes

end Resumable
