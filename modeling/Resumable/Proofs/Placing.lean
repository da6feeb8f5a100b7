import Resumable.Proofs.Rewriting
import Resumable.Proofs.Scoping

/-!
# `Proofs.Placing`: what a placement makes of a tree

Declaring the variables of a tree where a placement says changes three things: which variables a block
declares, the stores into dropped variables, of which the value is left, and the identities of the nodes
above these. `Image` says so node by node, and `apply_image` that the pass never fails and gives such an
image.

**Contents**
* `Data.Alike`: payloads that differ in their operands and in the variables of a block only.
* `Placement.drops?`, `Coerced`, `Image`: stores that are dropped, what is left of them, and trees.
* `refill_alike`: new operands in a payload.
* `Makes`, `apply_image`: constructing the image.
-/

namespace Resumable

open Resumable.Expr

/-! ### Payloads -/

/-- Arms of a switch with related operands. -/
inductive ArmAlike (R : Expr → Expr → Prop) : List Expr × Expr → List Expr × Expr → Prop
  | mk {ts ts' : List Expr} {b b' : Expr} (tests : List.Forall₂ R ts ts') (body : R b b') :
    ArmAlike R (ts, b) (ts', b')

/-- Handlers with related operands. -/
inductive HandlerAlike (R : Expr → Expr → Prop) : Handler Expr → Handler Expr → Prop
  | mk {t : Ty} {v : Option Var} {f f' b b' : Expr} (filter : R f f') (body : R b b') :
    HandlerAlike R ⟨t, v, f, b⟩ ⟨t, v, f', b'⟩

/-- Payloads that differ in their operands, which are related, and in the variables of a block. A store
keeps the variable that it is into. -/
inductive Data.Alike (R : Expr → Expr → Prop) : Data Expr → Data Expr → Prop
  | constant (value : Option Value) : Alike R (.constant value) (.constant value)
  | default : Alike R .default .default
  | var (v : Var) : Alike R (.var v) (.var v)
  | block {vs vs' : List Var} {xs xs' : List Expr} (body : List.Forall₂ R xs xs') :
    Alike R (.block vs xs) (.block vs' xs')
  | assign {op : AssignOp} {t t' v v' : Expr} (field : t.hasKind .field = true → R t t')
    (other : t.hasKind .field = false → t' = t) (value : R v v') :
    Alike R (.assign op t v) (.assign op t' v')
  | binary {op : BinaryOp} {l l' r r' : Expr} {method : Option Native} (left : R l l') (right : R r r') :
    Alike R (.binary op l r method) (.binary op l' r' method)
  | unary {op : UnaryOp} {x x' : Expr} {method : Option Native} (operand : R x x') :
    Alike R (.unary op x method) (.unary op x' method)
  | throw {x x' : Expr} (value : R x x') : Alike R (.throw x) (.throw x')
  | typeIs {x x' : Expr} {test : Ty} (operand : R x x') : Alike R (.typeIs x test) (.typeIs x' test)
  | conditional {c c' a a' b b' : Expr} (test : R c c') (ifTrue : R a a') (ifFalse : R b b') :
    Alike R (.conditional c a b) (.conditional c' a' b')
  | switch {v v' x x' : Expr} {arms arms' : List (List Expr × Expr)} {comparer : Option Native}
    (value : R v v') (cases : List.Forall₂ (ArmAlike R) arms arms') (default : R x x') :
    Alike R (.switch v arms x comparer) (.switch v' arms' x' comparer)
  | loop {x x' : Expr} {brk cont : Option Label} (body : R x x') :
    Alike R (.loop x brk cont) (.loop x' brk cont)
  | protect {x x' f f' g g' : Expr} {hs hs' : List (Handler Expr)} (body : R x x')
    (handlers : List.Forall₂ (HandlerAlike R) hs hs') (fin : R f f') (fault : R g g') :
    Alike R (.protect x hs f g) (.protect x' hs' f' g')
  | goto {kind : GotoKind} {l : Label} {x x' : Expr} (value : R x x') :
    Alike R (.goto kind l x) (.goto kind l x')
  | label {l : Label} {x x' : Expr} (default : R x x') : Alike R (.label l x) (.label l x')
  | call {f f' : Expr} {xs xs' : List Expr} (fn : R f f') (args : List.Forall₂ R xs xs') :
    Alike R (.call f xs) (.call f' xs')
  | methodCall {o o' : Expr} {name : String} {xs xs' : List Expr} (receiver : R o o')
    (args : List.Forall₂ R xs xs') : Alike R (.methodCall o name xs) (.methodCall o' name xs')
  | field {o o' : Expr} {name : String} (object : R o o') : Alike R (.field o name) (.field o' name)
  | lambda {name : String} {params : List Var} {x x' : Expr} {kind : LambdaKind} {fallible : Bool}
    (body : R x x') : Alike R (.lambda name params x kind fallible) (.lambda name params x' kind fallible)
  | await {x x' : Expr} {configured : Option Bool} (operand : R x x') :
    Alike R (.await x configured) (.await x' configured)
  | yield {x x' : Expr} (value : R x x') : Alike R (.yield x) (.yield x')

namespace Scopes

/-- The variable and the value of a store that a placement drops. -/
def Placement.drops? (p : Placement) (e : Expr) : Option (Var × Expr) :=
  match e with
  | .node _ _ _ (.assign .plain target value) =>
    match target.asVar? with
    | some x => if p.dropped.contains x then some (x, value) else none
    | none => none
  | _ => none

/-- What is left of a value that was stored into a place of type `t`: the value, or a conversion. -/
inductive Coerced (t : Ty) (e : Expr) : Expr → Prop
  | keep (h : e.isAbsent = true ∨ t.isVoid = true ∨ e.type = t) : Coerced t e e
  | convert (present : e.isAbsent = false) (value : t.isVoid = false) (other : e.type ≠ t) (i r : Nat) :
    Coerced t e (.node i r t (.unary .convert e none))

/-- What a placement makes of a tree. -/
inductive Image (p : Placement) : Expr → Expr → Prop
  | absent : Image p .absent .absent
  | node {i r r' : Nat} {t : Ty} {d d' : Data Expr} (stays : p.drops? (.node i r t d) = none)
    (alike : d.Alike (Image p) d')
    (vars : (Expr.node i r' t d').blockVars = p.placed (.node i r t d)) :
    Image p (.node i r t d) (.node i r' t d')
  | drop {e v v' e' : Expr} {x : Var} (drops : p.drops? e = some (x, v)) (value : Image p v v')
    (coerced : Coerced x.type v' e') : Image p e e'

end Scopes

/-! ### Refilling -/

variable {R : Expr → Expr → Prop} {d : Data Expr} {x : Expr} {xs ys cs : List Expr}

theorem present_cons_node {i r : Nat} {t : Ty} : present (.node i r t d :: xs) = .node i r t d :: present xs :=
  rfl

theorem fillOne_alike (h0 : R .absent .absent) (h : List.Forall₂ R (present (x :: xs)) cs) :
    R x (fillOne x cs).1 ∧ List.Forall₂ R (present xs) (fillOne x cs).2 := by
  cases x with
  | absent => exact ⟨h0, h⟩
  | node i r t d =>
    rw [present_cons_node] at h
    cases h with
    | cons hx hxs => exact ⟨hx, hxs⟩

theorem fillAll_alike (h0 : R .absent .absent) (h : List.Forall₂ R (present (xs ++ ys)) cs) :
    List.Forall₂ R xs (fillAll xs cs).1 ∧ List.Forall₂ R (present ys) (fillAll xs cs).2 := by
  induction xs generalizing cs with
  | nil => exact ⟨.nil, h⟩
  | cons x xs ih =>
    obtain ⟨hx, hxs⟩ := fillOne_alike h0 h
    obtain ⟨hall, hys⟩ := ih hxs
    exact ⟨.cons hx hall, hys⟩

/-- Arms that are filled with alike operands are alike. -/
theorem fillCases_alike {arms : List (List Expr × Expr)} (h0 : R .absent .absent)
    (h : List.Forall₂ R (present ((arms.flatMap fun c => c.1 ++ [c.2]) ++ ys)) cs) :
    List.Forall₂ (ArmAlike R) arms (fillCases arms cs).1 ∧
      List.Forall₂ R (present ys) (fillCases arms cs).2 := by
  induction arms generalizing cs with
  | nil => exact ⟨.nil, h⟩
  | cons arm arms ih =>
    obtain ⟨ts, b⟩ := arm
    rw [List.flatMap_cons, List.append_assoc, List.append_assoc] at h
    obtain ⟨hts, h⟩ := fillAll_alike h0 h
    obtain ⟨hb, h⟩ := fillOne_alike h0 h
    obtain ⟨harms, h⟩ := ih h
    exact ⟨.cons ⟨hts, hb⟩ harms, h⟩

/-- Handlers that are filled with alike operands are alike. -/
theorem fillHandlers_alike {hs : List (Handler Expr)} (h0 : R .absent .absent)
    (h : List.Forall₂ R (present ((hs.flatMap fun h => [h.filter, h.body]) ++ ys)) cs) :
    List.Forall₂ (HandlerAlike R) hs (fillHandlers hs cs).1 ∧
      List.Forall₂ R (present ys) (fillHandlers hs cs).2 := by
  induction hs generalizing cs with
  | nil => exact ⟨.nil, h⟩
  | cons g hs ih =>
    obtain ⟨hf, h⟩ := fillOne_alike h0 h
    obtain ⟨hb, h⟩ := fillOne_alike h0 h
    obtain ⟨hhs, h⟩ := ih h
    exact ⟨.cons ⟨hf, hb⟩ hhs, h⟩

theorem forall₂_imp_of_mem {α : Type} {R S : α → α → Prop} {as bs : List α}
    (hRS : ∀ a ∈ as, ∀ b, R a b → S a b) (h : List.Forall₂ R as bs) : List.Forall₂ S as bs := by
  induction h with
  | nil => exact .nil
  | cons hab _ ih =>
    exact .cons (hRS _ List.mem_cons_self _ hab) (ih fun a ha => hRS a (List.mem_cons_of_mem _ ha))

/-- The relation between the operands may be weakened. -/
theorem Data.Alike.imp {S : Expr → Expr → Prop} {d' : Data Expr}
    (hRS : ∀ x ∈ operands d, ∀ y, R x y → S x y) (h : d.Alike R d') : d.Alike S d' := by
  cases h with
  | constant value => exact .constant value
  | default => exact .default
  | var v => exact .var v
  | block body => exact .block (forall₂_imp_of_mem hRS body)
  | assign field other value =>
    refine .assign (fun ht => hRS _ ?_ _ (field ht)) other (hRS _ ?_ _ value)
    · exact mem_operands_assign.mpr (Or.inl ⟨ht, rfl⟩)
    · exact mem_operands_assign.mpr (Or.inr rfl)
  | switch value cases default =>
    refine .switch (hRS _ (mem_operands_switch.mpr (by simp)) _ value) (forall₂_imp_of_mem ?_ cases)
      (hRS _ (mem_operands_switch.mpr (by simp)) _ default)
    rintro ⟨ts, b⟩ harm _ ⟨tests, body⟩
    have harm : ∀ x, x ∈ ts ∨ x = b → ∀ y, R x y → S x y := fun x hx =>
      hRS x (mem_operands_switch.mpr (Or.inr (Or.inl ⟨_, harm, hx⟩)))
    exact ⟨forall₂_imp_of_mem (fun x hx => harm x (Or.inl hx)) tests, harm b (Or.inr rfl) _ body⟩
  | protect body handlers fin fault =>
    refine .protect (hRS _ (mem_operands_protect.mpr (by simp)) _ body) (forall₂_imp_of_mem ?_ handlers)
      (hRS _ (mem_operands_protect.mpr (by simp)) _ fin) (hRS _ (mem_operands_protect.mpr (by simp)) _ fault)
    rintro ⟨test, v, f, b⟩ hg _ ⟨filter, body⟩
    have hg : ∀ x, x = f ∨ x = b → ∀ y, R x y → S x y := fun x hx =>
      hRS x (mem_operands_protect.mpr (Or.inr (Or.inl ⟨_, hg, hx⟩)))
    exact ⟨hg _ (Or.inl rfl) _ filter, hg _ (Or.inr rfl) _ body⟩
  | call fn args =>
    exact .call (hRS _ List.mem_cons_self _ fn)
      (forall₂_imp_of_mem (fun x hx => hRS x (List.mem_cons_of_mem _ hx)) args)
  | methodCall receiver args =>
    exact .methodCall (hRS _ List.mem_cons_self _ receiver)
      (forall₂_imp_of_mem (fun x hx => hRS x (List.mem_cons_of_mem _ hx)) args)
  | _ => constructor <;> exact hRS _ (by simp [operands]) _ ‹_›

/-- New operands in the place of related ones. -/
theorem refill_alike (h0 : R .absent .absent) (h : List.Forall₂ R (present (operands d)) cs) :
    d.Alike R (refill d cs) := by
  -- refilling takes the operands from the front of the list, in the order in which a node names them
  cases d with
  | constant value => exact .constant value
  | default => exact .default
  | var v => exact .var v
  | block vs xs =>
    rw [operands, ← List.append_nil xs] at h
    exact .block (fillAll_alike h0 h).1
  | assign op target value =>
    by_cases ht : target.hasKind .field = true
    · rw [operands, if_pos ht] at h
      obtain ⟨hfield, h⟩ := fillOne_alike h0 h
      rw [refill, if_pos ht]
      exact .assign (fun _ => hfield) (fun hn => by simp [ht] at hn) (fillOne_alike h0 h).1
    · rw [operands, if_neg ht] at h
      rw [refill, if_neg ht]
      exact .assign (fun hf => absurd hf ht) (fun _ => rfl) (fillOne_alike h0 h).1
  | binary op l r m =>
    obtain ⟨hl, h⟩ := fillOne_alike h0 h
    exact .binary hl (fillOne_alike h0 h).1
  | unary op x m => exact .unary (fillOne_alike h0 h).1
  | throw x => exact .throw (fillOne_alike h0 h).1
  | typeIs x t => exact .typeIs (fillOne_alike h0 h).1
  | conditional a b c =>
    obtain ⟨ha, h⟩ := fillOne_alike h0 h
    obtain ⟨hb, h⟩ := fillOne_alike h0 h
    exact .conditional ha hb (fillOne_alike h0 h).1
  | switch v arms other m =>
    rw [operands, List.cons_append] at h
    obtain ⟨hv, h⟩ := fillOne_alike h0 h
    obtain ⟨harms, h⟩ := fillCases_alike h0 h
    exact .switch hv harms (fillOne_alike h0 h).1
  | loop b k c => exact .loop (fillOne_alike h0 h).1
  | protect b hs f g =>
    rw [operands, List.cons_append] at h
    obtain ⟨hb, h⟩ := fillOne_alike h0 h
    obtain ⟨hhs, h⟩ := fillHandlers_alike h0 h
    obtain ⟨hf, h⟩ := fillOne_alike h0 h
    exact .protect hb hhs hf (fillOne_alike h0 h).1
  | goto k l v => exact .goto (fillOne_alike h0 h).1
  | label l x => exact .label (fillOne_alike h0 h).1
  | call f args =>
    obtain ⟨hf, h⟩ := fillOne_alike h0 h
    rw [← List.append_nil args] at h
    exact .call hf (fillAll_alike h0 h).1
  | methodCall o name args =>
    obtain ⟨ho, h⟩ := fillOne_alike h0 h
    rw [← List.append_nil args] at h
    exact .methodCall ho (fillAll_alike h0 h).1
  | field o name => exact .field (fillOne_alike h0 h).1
  | lambda name ps b k f => exact .lambda (fillOne_alike h0 h).1
  | await x c => exact .await (fillOne_alike h0 h).1
  | yield x => exact .yield (fillOne_alike h0 h).1

theorem eq_of_forall₂ {α : Type} {S : α → α → Prop} (hS : ∀ a b, S a b → a = b) {as bs : List α}
    (h : List.Forall₂ S as bs) : as = bs := by
  induction h with
  | nil => rfl
  | cons hab _ ih => rw [hS _ _ hab, ih]

theorem ArmAlike.eq {a b : List Expr × Expr} (h : ArmAlike (· = ·) a b) : a = b := by
  obtain ⟨tests, body⟩ := h
  rw [eq_of_forall₂ (fun _ _ => id) tests, body]

theorem HandlerAlike.eq {a b : Handler Expr} (h : HandlerAlike (· = ·) a b) : a = b := by
  obtain ⟨filter, body⟩ := h
  rw [filter, body]

/-- Putting the operands of a payload into it changes nothing. -/
theorem refill_present (d : Data Expr) : refill d (present (operands d)) = d := by
  have h : d.Alike (· = ·) (refill d (present (operands d))) :=
    refill_alike rfl (List.forall₂_refl _)
  generalize hd : refill d (present (operands d)) = d' at h ⊢
  cases h with
  | block body =>
    cases hd
    rw [← eq_of_forall₂ (fun _ _ => id) body]
  | @assign op t t' v v' field other value =>
    cases ht : t.hasKind .field with
    | true => rw [field ht, value]
    | false => rw [other ht, value]
  | switch value cases default =>
    rw [value, default, eq_of_forall₂ (fun _ _ => ArmAlike.eq) cases]
  | protect body handlers fin fault =>
    rw [body, fin, fault, eq_of_forall₂ (fun _ _ => HandlerAlike.eq) handlers]
  | call fn args => rw [fn, eq_of_forall₂ (fun _ _ => id) args]
  | methodCall receiver args => rw [receiver, eq_of_forall₂ (fun _ _ => id) args]
  | binary left right => rw [left, right]
  | conditional test ifTrue ifFalse => rw [test, ifTrue, ifFalse]
  | constant | default | var => rfl
  | unary h | throw h | typeIs h | loop h | goto h | label h | field h | lambda h | await h | yield h =>
    rw [h]

/-! ### Constructing the image -/

/-- From a supply that has handed out the identities up to `q`, the construction succeeds, and `P` holds
of its result. -/
def Makes (q : Nat) (x : Build α) (P : α → Prop) : Prop :=
  ∀ s : Supply, q ≤ s.refs → ∃ a s', x s = .ok a s' ∧ q ≤ s'.refs ∧ P a

namespace Makes

variable {q : Nat} {x : Build α} {P Q : α → Prop} {R : β → Prop}

theorem pure {a : α} (h : P a) : Makes q (pure a) P := fun s hs => ⟨a, s, rfl, hs, h⟩

theorem mono (h : Makes q x P) (hPQ : ∀ a, P a → Q a) : Makes q x Q := fun s hs => by
  obtain ⟨a, s', hrun, hle, ha⟩ := h s hs
  exact ⟨a, s', hrun, hle, hPQ a ha⟩

theorem bind {f : α → Build β} (hx : Makes q x P) (hf : ∀ a, P a → Makes q (f a) R) :
    Makes q (x >>= f) R := by
  intro s hs
  obtain ⟨a, s₁, hrun, hle, ha⟩ := hx s hs
  obtain ⟨b, s₂, hrun', hle', hb⟩ := hf a ha s₁ hle
  refine ⟨b, s₂, ?_, hle', hb⟩
  change EStateM.bind x f s = _
  unfold EStateM.bind
  rw [hrun]
  exact hrun'

theorem freshRef : Makes q Build.freshRef fun r => q < r := fun s hs =>
  ⟨s.refs + 1, { s with refs := s.refs + 1 }, rfl, Nat.le_succ_of_le hs, Nat.lt_succ_of_le hs⟩

theorem node (t : Ty) (d : Data Expr) : Makes q (Build.node t d) fun e => ∃ i r, q < r ∧ e = .node i r t d :=
  fun s hs => ⟨_, { s with nodes := s.nodes + 1, refs := s.refs + 1 }, rfl, Nat.le_succ_of_le hs,
    s.nodes + 1, s.refs + 1, Nat.lt_succ_of_le hs, rfl⟩

theorem mapM {f : γ → Build α} {S : γ → α → Prop} {cs : List γ} (hf : ∀ c ∈ cs, Makes q (f c) (S c)) :
    Makes q (cs.mapM f) fun ys => List.Forall₂ S cs ys := by
  induction cs with
  | nil =>
    rw [List.mapM_nil]
    exact pure .nil
  | cons c cs ih =>
    rw [List.mapM_cons]
    refine bind (hf c List.mem_cons_self) fun y hy => ?_
    refine bind (ih fun c hc => hf c (List.mem_cons_of_mem _ hc)) fun ys hys => ?_
    exact pure (.cons hy hys)

end Makes

namespace Scopes

variable {p : Placement} {root e y : Expr} {q i r : Nat} {t : Ty}

/-- The tree is empty, a node of the tree `root`, or was made after the identity `q`. -/
def Traced (q : Nat) (root y : Expr) : Prop := y.isAbsent = true ∨ y ∈ root.allNodes ∨ q < y.ref

/-- A node that keeps its identity is the node it was. -/
theorem Traced.eq_of_same (h : Traced q root y) (hroot : root.Coherent) (he : e ∈ root.allNodes)
    (hq : ∀ n ∈ root.allNodes, n.ref ≤ q) (hsame : e.same y = true) : y = e := by
  obtain h | h | h := h
  · cases y with
    | node => cases h
    | absent =>
      cases e with
      | absent => rfl
      | node => cases hsame
  · exact (hroot e he y h hsame).symm
  · have := hq e he
    rw [ref_eq_of_same hsame] at this
    omega

/-- Traced operands of which every one has kept its identity are what they were. -/
theorem eq_of_all_same {cs ys : List Expr} (hroot : root.Coherent) (hq : ∀ n ∈ root.allNodes, n.ref ≤ q)
    (h : List.Forall₂ (fun _ y => Traced q root y) cs ys) (hcs : ∀ c ∈ cs, c ∈ root.allNodes)
    (hsame : ((cs.zip ys).all fun (x, y) => x.same y) = true) : ys = cs := by
  induction h with
  | nil => rfl
  | cons hy _ ih =>
    rw [List.zip_cons_cons, List.all_cons, Bool.and_eq_true] at hsame
    rw [hy.eq_of_same hroot (hcs _ List.mem_cons_self) hq hsame.1,
      ih (fun c hc => hcs c (List.mem_cons_of_mem _ hc)) hsame.2]

theorem drops?_of_field (h : e.hasKind .field = true) : p.drops? e = none := by
  cases e with
  | absent => rfl
  | node i r t d => cases d <;> first | rfl | cases h

/-- Nothing that is no dropped store becomes a variable, or stops being one. -/
theorem Image.asVar?_eq (h : Image p e y) (hp : p.drops? e = none) : y.asVar? = e.asVar? := by
  cases h with
  | absent => rfl
  | node _ halike _ => cases halike <;> rfl
  | drop hdrops => exact absurd (hp.symm.trans hdrops) (by simp)

/-- What becomes of a node when its operands become their images. -/
def Renewed (p : Placement) (q : Nat) (root : Expr) (i : Nat) (t : Ty) (d : Data Expr) (y : Expr) : Prop :=
  ∃ r cs, y = .node i r t (refill d cs) ∧
    d.Alike (fun c y => Image p c y ∧ Traced q root y) (refill d cs) ∧ Traced q root y

/-- The image of a node is made of the images of its operands. -/
theorem mapChildren_image {f : Expr → Build Expr} (hroot : root.Coherent) (hq : ∀ n ∈ root.allNodes, n.ref ≤ q)
    (he : ∀ n ∈ (Expr.node i r t d).allNodes, n ∈ root.allNodes)
    (hf : ∀ c ∈ (Expr.node i r t d).children, Makes q (f c) fun y => Image p c y ∧ Traced q root y) :
    Makes q ((Expr.node i r t d).mapChildren fun c _ => f c) (Renewed p q root i t d) := by
  rw [mapChildren_eq]
  refine (Makes.mapM hf).bind fun cs hcs => ?_
  have halike : d.Alike (fun c y => Image p c y ∧ Traced q root y) (refill d cs) :=
    refill_alike ⟨.absent, Or.inl rfl⟩ hcs
  split
  · rename_i hsame
    have heq : cs = (Expr.node i r t d).children := by
      refine eq_of_all_same hroot hq (hcs.imp fun _ _ h => h.2) (fun c hc => ?_) hsame
      obtain ⟨hc, hpresent⟩ := List.mem_filter.mp hc
      cases c with
      | absent => cases hpresent
      | node => exact he _ (mem_allNodes_of_operand hc self_mem_nodes)
    refine Makes.pure ⟨r, cs, ?_, halike, Or.inr (Or.inl (he _ self_mem_nodes))⟩
    rw [heq]
    exact congrArg (Expr.node i r t) (refill_present d).symm
  · exact Makes.freshRef.bind fun r' hr' => Makes.pure ⟨r', cs, rfl, halike, Or.inr (Or.inr hr')⟩

/-- A coercion keeps track of what its operand was. -/
theorem Makes.coerce {v : Expr} (hv : Traced q root v) :
    Makes q (v.coerce t) fun z => Coerced t v z ∧ Traced q root z := by
  unfold Expr.coerce
  split
  · rename_i h
    simp only [Bool.or_eq_true, beq_iff_eq] at h
    exact Makes.pure ⟨.keep (or_assoc.mp h), hv⟩
  · rename_i h
    simp only [Bool.or_eq_true, beq_iff_eq, not_or, Bool.not_eq_true] at h
    refine (Makes.node _ _).mono ?_
    rintro _ ⟨i, r, hr, rfl⟩
    exact ⟨.convert h.1.1 h.1.2 h.2 i r, Or.inr (Or.inr hr)⟩

/-- **A placement makes an image of a tree**, and never fails. -/
theorem apply_image (hroot : root.Coherent) (hq : ∀ n ∈ root.allNodes, n.ref ≤ q) (e : Expr)
    (he : ∀ n ∈ e.allNodes, n ∈ root.allNodes) :
    Makes q (p.apply e) fun y => Image p e y ∧ Traced q root y := by
  induction e using operandInduction with
  | absent =>
    rw [Placement.apply]
    exact Makes.pure ⟨.absent, Or.inl rfl⟩
  | node i r t d ih =>
    have hchildren := mapChildren_image (f := p.apply) hroot hq he fun c hc =>
      have hc := (List.mem_filter.mp hc).1
      ih c hc fun n hn => he n (mem_allNodes_of_operand hc hn)
    rw [Placement.apply]
    refine hchildren.bind ?_
    rintro _ ⟨r', cs, rfl, halike, htraced⟩
    -- only blocks and plain stores are looked at again
    generalize hd : refill d cs = d' at halike htraced
    have himage := halike.imp fun _ _ _ h => h.1
    have hstays (hp : p.drops? (.node i r t d) = none)
        (hv : (Expr.node i r' t d').blockVars = p.placed (.node i r t d)) :
        Makes q (pure (.node i r' t d') : Build Expr) fun y => Image p (.node i r t d) y ∧ Traced q root y :=
      Makes.pure ⟨.node hp himage hv, htraced⟩
    cases halike with
    | block body =>
      obtain ⟨rfl, -⟩ := Data.block.inj hd
      dsimp only [data?]
      split
      · rename_i hvars
        exact hstays rfl hvars.symm
      · refine Makes.freshRef.bind fun r'' hr => Makes.pure ⟨?_, Or.inr (Or.inr hr)⟩
        exact .node rfl (.block (body.imp fun _ _ h => h.1)) rfl
    | @assign op target target' v v' field other value =>
      have hvar : target'.asVar? = target.asVar? := by
        cases ht : target.hasKind .field with
        | false => rw [other ht]
        | true =>
          refine (field ht).1.asVar?_eq ?_
          exact drops?_of_field ht
      by_cases hop : op = .plain
      · subst hop
        dsimp only [data?]
        rw [hvar]
        split
        · rename_i x hx
          split
          · rename_i hdropped
            refine (Makes.coerce value.2).mono fun z hz => ⟨.drop (x := x) ?_ value.1 hz.1, hz.2⟩
            simp only [Placement.drops?, hx]
            exact if_pos hdropped
          · rename_i hkept
            refine hstays ?_ rfl
            simp only [Placement.drops?, hx]
            exact if_neg hkept
        · rename_i hx
          exact hstays (by simp [Placement.drops?, hx]) rfl
      · have hskip : p.drops? (.node i r t (.assign op target v)) = none := by
          cases op <;> first | rfl | exact absurd rfl hop
        cases op <;> first | exact hstays hskip rfl | exact absurd rfl hop
    | _ => exact hstays rfl rfl

/-- A placement that leaves everything where it is leaves the tree as it is. -/
theorem stay_image (e : Expr) : Image .stay e e := by
  induction e using operandInduction with
  | absent => exact .absent
  | node i r t d ih =>
    refine .node ?_ ?_ (Placement.placed_stay _).symm
    · unfold Placement.drops?
      split
      · split <;> rfl
      · rfl
    · have hrefl : List.Forall₂ (Image .stay) (present (operands d)) (present (operands d)) :=
        List.forall₂_same.mpr fun c hc => ih c (List.mem_filter.mp hc).1
      have halike := refill_alike .absent hrefl
      rwa [refill_present] at halike

/-- The stores that a placement drops have a value, and are of the type of their variable, which is not
void. -/
def Placement.Typed (p : Placement) (e : Expr) : Prop :=
  ∀ n ∈ e.allNodes, ∀ x v, p.drops? n = some (x, v) →
    v.isAbsent = false ∧ n.type = x.type ∧ x.type.isVoid = false

instance Placement.decidableTyped (p : Placement) (e : Expr) : Decidable (p.Typed e) :=
  decidable_of_iff (∀ n ∈ e.allNodes, ∀ d ∈ p.drops? n,
      d.2.isAbsent = false ∧ n.type = d.1.type ∧ d.1.type.isVoid = false)
    ⟨fun h n hn x v hd => h n hn (x, v) hd, fun h n hn d hd => h n hn d.1 d.2 hd⟩

/-- What is left of a dropped store is its value. -/
theorem drops?_value {v : Expr} {x : Var} {d : Data Expr} (h : p.drops? (.node i r t d) = some (x, v)) :
    v ∈ operands d := by
  unfold Placement.drops? at h
  split at h
  · rename_i heq
    cases heq
    split at h
    · split at h
      · cases h
        exact mem_operands_assign.mpr (Or.inr rfl)
      · cases h
    · cases h
  · cases h

/-- An image is empty where the tree is, and has its type. -/
theorem Image.type_eq (h : Image p e y) (ht : p.Typed e) : y.isAbsent = e.isAbsent ∧ y.type = e.type := by
  induction e using operandInduction generalizing y with
  | absent =>
    cases h with
    | absent => exact ⟨rfl, rfl⟩
    | drop drops => cases drops
  | node i r t d ih =>
    cases h with
    | node => exact ⟨rfl, rfl⟩
    | drop drops value coerced =>
      obtain ⟨hpresent, htype, hvoid⟩ := ht _ self_mem_nodes _ _ drops
      have hmem := drops?_value drops
      obtain ⟨habsent, hv⟩ := ih _ hmem value fun n hn => ht n (mem_allNodes_of_operand hmem hn)
      rw [hpresent] at habsent
      cases coerced with
      | keep hkeep =>
        rw [habsent, hvoid] at hkeep
        exact ⟨habsent, ((hkeep.resolve_left Bool.false_ne_true).resolve_left Bool.false_ne_true).trans
          htype.symm⟩
      | convert => exact ⟨rfl, htype.symm⟩

end Scopes

end Resumable
