import Resumable.Proofs.Supplies
import Resumable.Proofs.Watch

/-!
# `Proofs.Foreign`: code outside a machine under construction

What is built of code outside a machine, with new names and identities, is code outside the machine.
`Provides` says what a construction builds when none of the numbers that it takes from the supply belongs to
the machine; there is one line for every constructor.

**Contents**
* `Watch.Clear`: numbers that are handed out to others.
* `Provides`: what a construction builds, with a rule for each way of putting constructions together.
* One lemma for every constructor, for completion handles and for the trees that are not split.
-/

namespace Resumable

open Resumable.Expr

/-- The numbers that are handed out in between do not belong to the machine. -/
structure Watch.Clear (m : Watch) (q q' : Supply) : Prop where
  names : ∀ i, q.names < i → i ≤ q'.names → m.Plain i
  refs : ∀ r, q.refs < r → r ≤ q'.refs → m.Ground r

namespace Watch.Clear

variable {m : Watch} {q q₁ q' : Supply}

theorem fst (h : m.Clear q q') (h' : q₁.Below q') : m.Clear q q₁ :=
  ⟨fun i hi hle => h.names i hi (Nat.le_trans hle h'.names),
    fun r hr hle => h.refs r hr (Nat.le_trans hle h'.refs)⟩

theorem snd (h : m.Clear q q') (h' : q.Below q₁) : m.Clear q₁ q' :=
  ⟨fun i hi => h.names i (Nat.lt_of_le_of_lt h'.names hi),
    fun r hr => h.refs r (Nat.lt_of_le_of_lt h'.refs hr)⟩

end Watch.Clear

/-- Every result of the construction has the property, when the numbers that it takes do not belong to the
machine. -/
def Provides (m : Watch) (x : Build α) (P : α → Prop) : Prop :=
  ∀ q a q', x q = .ok a q' → m.Clear q q' → P a

namespace Provides

variable {m : Watch} {x : Build α} {P P' : α → Prop} {R : β → Prop}

theorem pure {a : α} (h : P a) : Provides m (pure a) P := by
  intro q b q' heq _
  cases heq
  exact h

theorem throw (f : Fault) : Provides m (throw f : Build α) P := by
  intro q b q' heq
  cases heq

theorem bind {f : α → Build β} [Onward x] [l : ∀ a, Onward (f a)] (hx : Provides m x P)
    (hf : ∀ a, P a → Provides m (f a) R) : Provides m (x >>= f) R := by
  intro q b q' heq hclear
  change EStateM.bind x f q = _ at heq
  unfold EStateM.bind at heq
  split at heq
  · rename_i a q₁ hrun
    have hle := Onward.below q a q₁ hrun
    have hle' := Onward.below q₁ b q' heq
    exact hf a (hx q a q₁ hrun (hclear.fst hle')) q₁ b q' heq (hclear.snd hle)
  · cases heq

theorem any (x : Build α) : Provides m x fun _ => True := fun _ _ _ _ _ => trivial

theorem mono (h : Provides m x P) (hP : ∀ a, P a → P' a) : Provides m x P' :=
  fun q a q' heq hclear => hP a (h q a q' heq hclear)

theorem compositional : Compositional (m := Build) (fun _ x => Onward x) fun _ x P => Provides m x P where
  pure h := ⟨inferInstance, pure h⟩
  bind _ _ hx hf := ⟨inferInstance, bind hx hf⟩

theorem mapM {f : γ → Build α} {xs : List γ} [k : ∀ c, Onward (f c)] (hf : ∀ c ∈ xs, Provides m (f c) P) :
    Provides m (xs.mapM f) fun ys => ∀ y ∈ ys, P y :=
  (compositional.mapM k hf).2

end Provides

/-- Code outside the machine; it may host the machine where `hosts` says so. -/
abbrev Watch.Foreign (m : Watch) (hosts : Bool) (x : Expr) : Prop := Obeys m (.outside hosts) x

section
variable {m : Watch} {hosts : Bool}

theorem Obeys.ordinary {i r : Nat} {t : Ty} {d : Data Expr} (h : m.Foreign hosts (.node i r t d))
    (hd : d.kind ≠ .lambda) : m.Ordinary r d ∧ ∀ x ∈ operands d, m.Foreign hosts x := by
  cases h with
  | node _ hd hc => exact ⟨hd, hc⟩
  | host _ _ _ => exact absurd rfl hd

/-- Code that hosts no machine may stand where one could be hosted. -/
theorem Obeys.widen {x : Expr} (h : m.Foreign false x) : m.Foreign hosts x := by
  induction x using operandInduction with
  | absent => exact .absent
  | node i r t d ih =>
    cases h with
    | node hr hd hc => exact .node hr hd fun c hmem => ih c hmem (hc c hmem)

end

namespace Build

variable {m : Watch} {hosts : Bool} {e x y z target value : Expr} {d : Data Expr} {t : Ty} {xs : List Expr}
  {v : Var}

/-- The payload belongs to code outside the machine. -/
def Loose (m : Watch) (hosts : Bool) (d : Data Expr) : Prop :=
  (∀ r, m.Ground r → m.Ordinary r d) ∧ ∀ c ∈ operands d, m.Foreign hosts c

theorem newVar_gives (name : String) (t : Ty) :
    Provides m (newVar name t) fun v => m.Plain v.id ∧ v.type = t := by
  intro q a q' h hclear
  cases h
  exact ⟨hclear.names _ (Nat.lt_succ_self _) (Nat.le_refl _), rfl⟩

theorem freshRef_gives : Provides m freshRef m.Ground := by
  intro q a q' h hclear
  cases h
  exact hclear.refs _ (Nat.lt_succ_self _) (Nat.le_refl _)

theorem node_gives (h : Loose m hosts d) : Provides m (node t d) (m.Foreign hosts) := by
  intro q a q' heq hclear
  cases heq
  have hr := hclear.refs _ (Nat.lt_succ_self _) (Nat.le_refl _)
  exact .node (fun _ => hr) (h.1 _ hr) h.2

theorem dataOf_gives (e : Expr) : Provides m (dataOf e) fun d => e.data? = some d := by
  unfold dataOf
  split
  · rename_i h
    exact .pure h
  · exact .throw _

theorem withData_gives (h : Loose m hosts d) : Provides m (withData e d) (m.Foreign hosts) := by
  cases e with
  | absent => exact .throw _
  | node i r t d' => exact freshRef_gives.bind fun r' hr => .pure (.node (fun _ => hr) (h.1 r' hr) h.2)

/-! ### Values and variables -/

theorem loose_constant (v : Option Value) : Loose m hosts (.constant v) := ⟨fun _ _ => trivial, by simp [operands]⟩

theorem const_gives (v : Option Value) : Provides m (const v) (m.Foreign hosts) := node_gives (loose_constant v)

theorem constOf_gives (v : Option Value) (t : Ty) : Provides m (constOf v t) (m.Foreign hosts) :=
  node_gives (loose_constant v)

theorem constInt_gives (n : Int) : Provides m (constInt n) (m.Foreign hosts) := const_gives _

theorem constBool_gives (b : Bool) : Provides m (constBool b) (m.Foreign hosts) := const_gives _

theorem default_gives (t : Ty) : Provides m (default t) (m.Foreign hosts) :=
  node_gives ⟨fun _ _ => trivial, by simp [operands]⟩

theorem empty_gives : Provides m empty (m.Foreign hosts) := default_gives _

theorem ref_gives (hv : m.Plain v.id) : Provides m (ref v) (m.Foreign hosts) :=
  node_gives ⟨fun _ _ => hv, by simp [operands]⟩

/-! ### Sequences and stores -/

theorem loose_block {vars : List Var} (hv : ∀ v ∈ vars, m.Declarable v)
    (h : ∀ x ∈ xs, m.Foreign hosts x) : Loose m hosts (.block vars xs) :=
  ⟨fun _ hr => ⟨hv, hr⟩, h⟩

theorem typedBlock_gives {vars : List Var} (hv : ∀ v ∈ vars, m.Declarable v)
    (h : ∀ x ∈ xs, m.Foreign hosts x) : Provides m (typedBlock t vars xs) (m.Foreign hosts) :=
  node_gives (loose_block hv h)

theorem block_gives {vars : List Var} (hv : ∀ v ∈ vars, m.Declarable v)
    (h : ∀ x ∈ xs, m.Foreign hosts x) : Provides m (block vars xs) (m.Foreign hosts) := by
  unfold block
  extract_lets tail
  split
  · exact (Provides.any _).bind fun _ _ => typedBlock_gives hv h
  · exact typedBlock_gives hv h

/-- A store is foreign to the machine when its two sides are. -/
theorem loose_assign {op : AssignOp} (ht : m.Foreign hosts target) (hv : m.Foreign hosts value) :
    Loose m hosts (.assign op target value) := by
  refine ⟨fun _ _ v hvar => ?_, fun c hc => ?_⟩
  · unfold asVar? at hvar
    split at hvar
    · cases hvar
      exact (ht.ordinary (by simp [Data.kind])).1
    · cases hvar
  · rw [mem_operands_assign] at hc
    obtain ⟨-, rfl⟩ | rfl := hc
    · exact ht
    · exact hv

theorem assign_gives (ht : m.Foreign hosts target) (hv : m.Foreign hosts value) :
    Provides m (assign target value) (m.Foreign hosts) := by
  unfold assign assignWith
  refine (dataOf_gives target).bind fun d _ => ?_
  extract_lets k tail
  split
  · exact Provides.bind (Provides.throw (P := fun _ => False) _) fun _ h => h.elim
  · exact node_gives (loose_assign ht hv)

/-! ### Operators -/

theorem binary_gives {op : BinaryOp} (hx : m.Foreign hosts x) (hy : m.Foreign hosts y) :
    Provides m (binary op x y) (m.Foreign hosts) := by
  unfold binary
  exact (Provides.any _).bind fun _ _ => node_gives ⟨fun _ _ => trivial, by simp [operands, hx, hy]⟩

theorem not_gives (hx : m.Foreign hosts x) : Provides m (not x) (m.Foreign hosts) :=
  node_gives ⟨fun _ _ => trivial, by simp [operands, hx]⟩

theorem convert_gives (hx : m.Foreign hosts x) : Provides m (convert x t) (m.Foreign hosts) :=
  node_gives ⟨fun _ _ => trivial, by simp [operands, hx]⟩

theorem throwAs_gives (hx : m.Foreign hosts x) : Provides m (throwAs x t) (m.Foreign hosts) := by
  unfold throwAs
  split
  · exact Provides.bind (Provides.throw (P := fun _ => False) _) fun _ h => h.elim
  · exact node_gives ⟨fun _ _ => trivial, by simp [operands, hx]⟩

theorem raise_gives (hx : m.Foreign hosts x) : Provides m (raise x) (m.Foreign hosts) := throwAs_gives hx

theorem typeIs_gives (hx : m.Foreign hosts x) : Provides m (typeIs x t) (m.Foreign hosts) :=
  node_gives ⟨fun _ _ => trivial, by simp [operands, hx]⟩

theorem coerce_gives (hx : m.Foreign hosts x) : Provides m (x.coerce t) (m.Foreign hosts) := by
  unfold coerce
  split
  · exact .pure hx
  · exact convert_gives hx

/-! ### Control flow -/

/-- The tests and the bodies of the cases are code outside the machine. -/
def LooseCases (m : Watch) (hosts : Bool) (cases : List (List Expr × Expr)) : Prop :=
  ∀ c ∈ cases, (∀ x ∈ c.1, m.Foreign hosts x) ∧ m.Foreign hosts c.2

theorem loose_switch {cases : List (List Expr × Expr)} {comparer : Option Native}
    (hx : m.Foreign hosts x) (hc : LooseCases m hosts cases) (hy : m.Foreign hosts y) :
    Loose m hosts (.switch x cases y comparer) := by
  refine ⟨fun _ _ => trivial, fun c hmem => ?_⟩
  rw [mem_operands_switch] at hmem
  obtain rfl | ⟨arm, harm, hmem | rfl⟩ | rfl := hmem
  · exact hx
  · exact (hc arm harm).1 c hmem
  · exact (hc arm harm).2
  · exact hy

theorem loop_gives {brk cont : Option Label} (hx : m.Foreign hosts x) :
    Provides m (loop x brk cont) (m.Foreign hosts) :=
  node_gives ⟨fun _ _ => trivial, by simp [operands, hx]⟩

theorem catchAll_gives (hv : m.Plain v.id) (hx : m.Foreign hosts x) (hy : m.Foreign hosts y) :
    Provides m (catchAll x v y) (m.Foreign hosts) := by
  unfold catchAll protect
  refine (Provides.any _).bind fun _ _ => node_gives ⟨fun _ _ h hmem u hu => ?_, ?_⟩
  · cases List.mem_singleton.mp hmem
    cases hu
    exact hv
  · simp [operands, hx, hy, Obeys.absent]

theorem jump_gives {k : GotoKind} {l : Label} (hx : m.Foreign hosts x) :
    Provides m (jump k l x) (m.Foreign hosts) :=
  node_gives ⟨fun _ _ => trivial, by simp [operands, hx]⟩

/-! ### Calls and lambdas -/

theorem call_gives (hx : m.Foreign hosts x) (hxs : ∀ y ∈ xs, m.Foreign hosts y) :
    Provides m (call x xs) (m.Foreign hosts) := by
  unfold call
  refine (Provides.any _).bind fun t _ => ?_
  extract_lets tail
  split
  · exact Provides.bind (Provides.throw (P := fun _ => False) _) fun _ h => h.elim
  · exact (Provides.any _).bind fun _ _ => node_gives ⟨fun _ _ => trivial, by simpa [operands, hx] using hxs⟩

theorem callFunc_gives {f : Value} (hxs : ∀ y ∈ xs, m.Foreign hosts y) :
    Provides m (callFunc f xs) (m.Foreign hosts) := by
  unfold callFunc
  exact (const_gives _).bind fun _ hf => call_gives hf hxs

theorem callLibrary_gives {f : Library} (hxs : ∀ y ∈ xs, m.Foreign hosts y) :
    Provides m (callLibrary f xs) (m.Foreign hosts) :=
  callFunc_gives hxs

theorem methodCall_gives {name : String} (hx : m.Foreign hosts x) (hxs : ∀ y ∈ xs, m.Foreign hosts y) :
    Provides m (methodCall x name xs) (m.Foreign hosts) := by
  unfold methodCall
  refine Provides.bind (l := fun t => by split <;> infer_instance) (Provides.any _) fun t _ => ?_
  split
  · exact .throw _
  · exact (Provides.any _).bind fun _ _ => node_gives ⟨fun _ _ => trivial, by simpa [operands, hx] using hxs⟩

/-- A field of what is foreign to the machine is foreign to it. -/
theorem field_gives {name : String} (hx : m.Foreign hosts x) : Provides m (field x name) (m.Foreign hosts) := by
  unfold field
  refine Provides.bind (l := fun t => ?_) (Provides.any _) fun t _ => ?_
  · dsimp only
    repeat' first | infer_instance | split
  · extract_lets st tail
    split
    · refine Provides.bind (l := fun _ => ?_) (Provides.throw (P := fun _ => False) _) fun _ h => h.elim
      unfold tail
      split <;> infer_instance
    · unfold tail
      split
      · exact .throw _
      · exact node_gives ⟨fun _ _ => trivial, by simp [operands, hx]⟩

theorem lambdaOf_gives {shape : Ty} {name : String} {kind : LambdaKind} {fallible : Bool}
    {params : List Var} (hp : ∀ v ∈ params, m.Bound v) (hx : m.Foreign hosts x) :
    Provides m (lambdaOf shape name kind fallible params x) (m.Foreign hosts) := by
  unfold lambdaOf
  extract_lets fits
  split
  · exact node_gives ⟨fun _ _ => hp, by simp [operands, hx]⟩
  · exact .throw _

theorem lambda_gives {name : String} {fallible : Bool} {params : List Var}
    (hp : ∀ v ∈ params, m.Bound v) (hx : m.Foreign hosts x) :
    Provides m (lambda name fallible params x) (m.Foreign hosts) := by
  unfold lambda
  exact (Provides.any _).bind fun _ _ => lambdaOf_gives hp hx

/-! ### Rebuilding -/

/-- Refilled handlers bind the same variables. -/
theorem var_of_mem_fillHandlers {hs : List (Handler Expr)} {cs : List Expr} {h : Handler Expr}
    (hmem : h ∈ (fillHandlers hs cs).1) : ∃ h' ∈ hs, h.var = h'.var := by
  induction hs generalizing cs with
  | nil => cases hmem
  | cons g rest ih =>
    simp only [fillHandlers] at hmem
    obtain rfl | hmem := List.mem_cons.mp hmem
    · exact ⟨g, List.mem_cons_self, rfl⟩
    · obtain ⟨h', hmem', heq⟩ := ih hmem
      exact ⟨h', List.mem_cons_of_mem _ hmem', heq⟩

theorem fillOne_cases (x : Expr) (cs : List Expr) : (fillOne x cs).1 = x ∨ (fillOne x cs).1 ∈ cs := by
  cases x with
  | absent => exact .inl rfl
  | node i r t d =>
    cases cs with
    | nil => exact .inl rfl
    | cons c cs => exact .inr List.mem_cons_self

theorem Foreign.plain_of_asVar? (h : m.Foreign hosts x) (hv : x.asVar? = some v) : m.Plain v.id := by
  unfold asVar? at hv
  split at hv
  · cases hv
    exact (h.ordinary (by simp [Data.kind])).1
  · cases hv

/-- A refilled store keeps its target, or has one of the new operands. -/
theorem refill_assign (op : AssignOp) (target value : Expr) (cs : List Expr) :
    ∃ target' value', refill (.assign op target value) cs = .assign op target' value' ∧
      (target' = target ∨ target' ∈ cs) := by
  cases ht : target.hasKind .field with
  | true =>
    exact ⟨_, _, by simp only [refill, ht]; rfl, fillOne_cases target cs⟩
  | false => exact ⟨_, _, by simp only [refill, ht]; rfl, .inl rfl⟩

/-- A payload that is refilled with code outside the machine stays as it should be. -/
theorem ordinary_refill {r q : Nat} {cs : List Expr} (h : m.Ordinary r d) (hq : m.Ground q)
    (hcs : ∀ c ∈ cs, m.Foreign hosts c) : m.Ordinary q (refill d cs) := by
  cases d with
  | block vs xs => exact ⟨h.1, hq⟩
  | assign op target value =>
    obtain ⟨target', value', heq, htarget⟩ := refill_assign op target value cs
    rw [heq]
    intro v hv
    obtain rfl | hmem := htarget
    · exact h v hv
    · exact Foreign.plain_of_asVar? (hcs _ hmem) hv
  | protect body hs fin fault =>
    intro g hg v hv
    obtain ⟨g', hg', heq⟩ := var_of_mem_fillHandlers hg
    exact h g' hg' v (heq ▸ hv)
  | _ => exact h

theorem foreign_refill {i r q : Nat} {cs : List Expr} (h : m.Foreign hosts (.node i r t d))
    (hd : d.kind ≠ .lambda) (hq : m.Ground q) (hcs : ∀ c ∈ cs, m.Foreign hosts c) (j : Nat) :
    m.Foreign hosts (.node j q t (refill d cs)) := by
  obtain ⟨hord, hops⟩ := h.ordinary hd
  refine .node (fun _ => hq) (ordinary_refill hord hq hcs) fun c hc => ?_
  obtain hc | hc := mem_of_mem_operands_refill hc
  · exact hops c hc
  · exact hcs c hc

/-- Rewriting the operands of a node outside the machine leaves the node outside. -/
theorem mapChildren_gives {f : Expr → Build Expr} [∀ c, Onward (f c)] (hx : m.Foreign hosts x)
    (hd : x.hasKind .lambda = false)
    (hf : ∀ c ∈ x.children, m.Foreign hosts c → Provides m (f c) (m.Foreign hosts)) :
    Provides m (x.mapChildren fun c _ => f c) (m.Foreign hosts) := by
  have hkind : ∀ {i r t d}, x = .node i r t d → d.kind ≠ .lambda := by
    rintro i r t d rfl hk
    simp [hasKind, kind?, data?, hk] at hd
  have hchild : ∀ c ∈ x.children, m.Foreign hosts c := by
    intro c hc
    cases x with
    | absent => cases hc
    | node i r t d => exact (hx.ordinary (hkind rfl)).2 c (List.mem_filter.mp hc).1
  rw [mapChildren_eq]
  refine Provides.bind (l := fun cs => ?_) (P := fun cs => ∀ c ∈ cs, m.Foreign hosts c) ?_ fun cs hcs => ?_
  · repeat' first | infer_instance | split
  · exact Provides.mapM fun c hc => hf c hc (hchild c hc)
  · split
    · exact .pure hx
    · cases x with
      | absent => exact .pure hx
      | node i r t d =>
        exact freshRef_gives.bind fun q hq => .pure (foreign_refill hx (hkind rfl) hq hcs i)

end Build

/-! ### Completion handles -/

namespace Backend

open Build

variable {m : Watch} {hosts : Bool} {b : Backend} {cell value err call : Expr}

theorem resultValue_gives {t : Ty} (hv : m.Foreign hosts value) :
    Provides m (resultValue value t) (m.Foreign hosts) := by
  unfold resultValue
  refine (Provides.any _).bind fun _ _ => ?_
  split
  · exact .pure hv
  · exact convert_gives hv

theorem settle_gives (hv : m.Foreign hosts value) (hc : m.Foreign hosts call) :
    Provides m (settle value call) (m.Foreign hosts) := by
  unfold settle
  split
  · exact .pure hc
  · exact block_gives (by simp) (by simp [hv, hc])

theorem create_gives : Provides m b.create (m.Foreign hosts) := by
  cases b <;> exact callLibrary_gives (by simp)

theorem setResult_gives (hc : m.Foreign hosts cell) (hv : m.Foreign hosts value) :
    Provides m (b.setResult cell value) (m.Foreign hosts) := by
  cases b with
  | task t => exact (resultValue_gives hv).bind fun _ h => methodCall_gives hc (by simpa using h)
  | future => exact (methodCall_gives hc (by simp)).bind fun _ h => settle_gives hv h
  | valueTask t => exact (resultValue_gives hv).bind fun _ h => methodCall_gives hc (by simpa using h)
  | valueFuture => exact (callLibrary_gives (by simpa using hc)).bind fun _ h => settle_gives hv h

theorem setException_gives (hc : m.Foreign hosts cell) (he : m.Foreign hosts err) :
    Provides m (b.setException cell err) (m.Foreign hosts) := by
  cases b <;> exact methodCall_gives hc (by simpa using he)

theorem awaitable_gives (hc : m.Foreign hosts cell) : Provides m (b.awaitable cell) (m.Foreign hosts) := by
  cases b with
  | task t => exact .pure hc
  | future => exact .pure hc
  | valueTask t => exact methodCall_gives hc (by simp)
  | valueFuture =>
    exact (methodCall_gives hc (by simp)).bind fun _ h => callLibrary_gives (by simpa using h)

theorem fromResult_gives (hv : m.Foreign hosts value) :
    Provides m (b.fromResult value) (m.Foreign hosts) := by
  cases b with
  | task t => exact (resultValue_gives hv).bind fun _ h => callLibrary_gives (by simpa using h)
  | future => exact (callLibrary_gives (by simp)).bind fun _ h => settle_gives hv h
  | valueTask t => exact (resultValue_gives hv).bind fun _ h => callLibrary_gives (by simpa using h)
  | valueFuture => exact (callLibrary_gives (by simp)).bind fun _ h => settle_gives hv h

theorem fromException_gives (he : m.Foreign hosts err) :
    Provides m (b.fromException err) (m.Foreign hosts) := by
  cases b <;> exact callLibrary_gives (by simpa using he)

theorem fastPath_gives {body : Expr} (hb : m.Foreign hosts body) :
    Provides m (b.fastPath body) (m.Foreign hosts) := by
  unfold fastPath
  refine (newVar_gives _ _).bind fun ex hex => (coerce_gives hb).bind fun value hv => ?_
  have hread : Provides m (ref ex) (m.Foreign hosts) := ref_gives hex.1
  refine (fromResult_gives hv).bind fun settled hs => hread.bind fun r hr => ?_
  exact (fromException_gives hr).bind fun failed hf => catchAll_gives hex.1 hs hf

end Backend

/-! ### Trees that are not split -/

namespace Split

open Build

variable {m : Watch} {hosts : Bool} {v : Var} {x : Expr}

/-- Binding rethrows to a variable of somebody else. -/
theorem bindRethrow_gives (hv : m.Plain v.id) (hx : m.Foreign hosts x) :
    Provides m (bindRethrow v x) (m.Foreign hosts) := by
  fun_induction bindRethrow v x with
  | case1 => exact .pure hx
  | case2 => exact .pure hx
  | case3 => exact (ref_gives hv).bind fun a ha => throwAs_gives ha
  | case4 i r t body hs fin fault ihb ihf =>
    obtain ⟨hord, hops⟩ := hx.ordinary (by simp [Data.kind])
    simp only [mem_operands_protect] at hops
    refine (ihb (hops body (Or.inl rfl))).bind fun body' hb => ?_
    refine (ihf (hops fin (Or.inr (Or.inr (Or.inl rfl))))).bind fun fin' hf => ?_
    split
    · exact .pure hx
    · refine withData_gives ⟨fun _ _ => hord, fun c hc => ?_⟩
      obtain rfl | hc | rfl | rfl := mem_operands_protect.mp hc
      · exact hb
      · exact hops c (Or.inr (Or.inl hc))
      · exact hf
      · exact hops c (Or.inr (Or.inr (Or.inr rfl)))
  | case5 i r t d hd _ _ ih =>
    refine mapChildren_gives hx ?_ fun c hc h => ih c (sizeOf_lt_of_mem_children hc) h
    cases d <;> first | rfl | exact absurd rfl (hd _ _ _ _ _)

end Split

end Resumable
