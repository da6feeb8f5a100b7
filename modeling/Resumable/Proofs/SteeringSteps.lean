import Resumable.Proofs.Orderly
import Resumable.Proofs.Steering

/-!
# `Proofs.SteeringSteps`: steps that heed a helm

A helm looks on while a body is split: it belongs to the machine that is made of the body, or to another
one. A `Voyage` is what both know of each other. What a step is given and what it gives is loyal when it does
to the variables that steer what the licence of the voyage says; a step that gives loyal things when it was
given loyal things is heedful. Instance search follows the way in which steps are put together.

**Contents**
* `Voyage`, `Voyage.Sees`: a helm and the splitting of a body.
* `Loyal`, `Shaped`, `Ruled`, `Tidy`: trees, states, regions and splitters.
* `Erects`, `Built`: constructions, with an instance for every constructor.
* `Heeding`, `Heedful`: steps, with a rule for each way of putting steps together.
-/

namespace Resumable

open Resumable.Expr Split Build

/-- The number of a state of the loop, or one that every loop knows. -/
def Outlook.Numbers (V : Outlook) (n : Int) : Prop :=
  n = -1 ∨ n = 0 ∨ ∃ r ∈ V.last.states, n = (V.last.graph.state r).id

/-- A helm that looks on while a body is split. -/
structure Voyage where
  helm : Helm
  view : Outlook
  plan : Plan
  /-- The literals that may be stored into the slots of the machine. -/
  numbers : Int → Prop
  /-- The dispatch loop is being built. -/
  turning : Prop
  /-- The state where errors end may have been made. -/
  ending : Prop

namespace Voyage

variable (c : Voyage)

/-- The licence to store the numbers in `P` into the slots of the machine, when the helm belongs to it. -/
def licensed (P : Int → Prop) : Licence :=
  ⟨False, fun v n => c.view.own = true ∧ (v = c.plan.stateVar ∨ v = c.plan.resumeVar) ∧ P n, c.view.own = true⟩

/-- The licence of what is made. -/
def licence : Licence := { c.licensed c.numbers with turns := c.turning ∧ c.view.own = true }

/-- The licence of the statements of a state. -/
def base : Licence := c.licensed c.view.Numbers

/-- An integer variable that steers when the helm belongs to the machine. -/
structure Slot (v : Var) : Prop where
  type : v.type = .int
  steers : c.helm.steers v.id ↔ c.view.own = true

/-- None of the numbers in between belongs to a variable that steers. -/
def Clear (q q' : Supply) : Prop := ∀ i, q.names < i → i ≤ q'.names → ¬ c.helm.steers i

/-- What the helm and the machine know of each other. -/
class Sees : Prop where
  state : c.Slot c.plan.stateVar
  resume : c.Slot c.plan.resumeVar
  excVar : ¬ c.helm.steers c.plan.excVar.id
  target : match c.plan.target with
    | .async _ cell continuation => ¬ c.helm.steers cell.id ∧ ¬ c.helm.steers continuation.id
    | .iterator _ params dispose current =>
      (∀ v ∈ params, ¬ c.helm.steers v.id) ∧ ¬ c.helm.steers dispose.id ∧ ¬ c.helm.steers current.id
  parks : c.view.own = true → ∀ g v, (c.view.last.graph.guard g).parked = some v → c.helm.steers v.id
  parked : ∀ i, c.view.base.names < i → i ≤ c.view.last.supply.names → c.helm.steers i →
    c.view.own = true ∧ ∃ g v, (c.view.last.graph.guard g).parked = some v ∧ v.id = i
  numbers : ∀ n, c.numbers n → c.view.Numbers n
  halt : c.numbers (-1)

/-- The machine is still being split. -/
class Splits : Prop where
  begun : ¬ c.ending
  still : ¬ c.turning
  numbers : c.numbers = c.view.Numbers

variable {c}

/-- Code of another machine may do nothing. -/
theorem licence_within (ho : ¬ c.view.own = true) (z : Licence) : c.licence.Within z :=
  ⟨fun h => absurd h.2 ho, fun _ _ h => absurd h.1 ho, fun h => absurd h ho⟩

theorem Slot.admits {v : Var} (h : c.Slot v) : c.helm.Admits c.licence v := fun hs => ⟨h.steers.mp hs, h.type⟩

theorem Clear.fst {q q₁ q' : Supply} (h : c.Clear q q') (h' : q₁.Below q') : c.Clear q q₁ :=
  fun i hi hle => h i hi (Nat.le_trans hle h'.names)

theorem Clear.snd {q q₁ q' : Supply} (h : c.Clear q q') (h' : q.Below q₁) : c.Clear q₁ q' :=
  fun i hi => h i (Nat.lt_of_le_of_lt h'.names hi)

end Voyage

/-! ### What is fine -/

/-- The tree is none of the variables that steer. -/
def Voyage.Aside (c : Voyage) (e : Expr) : Prop := ∀ v, e.asVar? = some v → ¬ c.helm.steers v.id

theorem Voyage.Aside.retag {c : Voyage} {i r i' r' : Nat} {t t' : Ty} {d : Data Expr}
    (h : c.Aside (.node i r t d)) : c.Aside (.node i' r' t' d) := fun v hv => h v (by cases d <;> exact hv)

/-- What a state holds. -/
structure Shaped (c : Voyage) (st : State) : Prop where
  stmts : ∀ x ∈ st.stmts, Heeds c.helm c.base x ∧ c.Aside x
  result : ∀ v, st.result = some v → ¬ c.helm.steers v.id
  number : c.view.Numbers st.id
  /-- The state where errors end marks the machine as over. -/
  ended : st.kind = .rethrow → c.ending ∧ st.context = [] ∧ st.next = none ∧
    ∀ x ∈ st.stmts, Heeds c.helm (c.licensed (· = -1)) x

/-- What a region holds. -/
structure Ruled (c : Voyage) (g : Guard) : Prop where
  handlers : ∀ h ∈ g.handlers, Heeds c.helm .none h.filter ∧ ∀ v, h.var = some v → ¬ c.helm.steers v.id
  caught : ∀ v, g.caught = some v → ¬ c.helm.steers v.id

/-- What holds of every splitter on the way. -/
structure Tidy (c : Voyage) (s : Splitter) : Prop where
  base : c.view.base.Below s.supply
  states : ∀ r, Shaped c (s.graph.state r)
  guards : ∀ g, Ruled c (s.graph.guard g)
  parked : ∀ g v, (s.graph.guard g).parked = some v → v.id ≤ s.supply.names
  rethrow : ∀ r, s.rethrow = some r → r ∈ c.view.last.states ∧ c.view.kindOf r = .rethrow
  caught : ∀ v, s.caught = some v → ¬ c.helm.steers v.id
  vars : ∀ v ∈ s.vars, c.helm.Typed v

/-- What it is for things of a type to be fine. -/
class Judged (α : Type) where
  good : Voyage → α → Prop

instance (priority := low) Judged.any : Judged α := ⟨fun _ _ => True⟩
instance : Judged Expr := ⟨fun c e => Heeds c.helm c.licence e ∧ c.Aside e⟩
instance : Judged (Data Expr) := ⟨fun c d => ∀ i r t, Judged.good c (Expr.node i r t d)⟩
instance : Judged Var := ⟨fun c v => ¬ c.helm.steers v.id⟩
instance [Judged α] : Judged (Option α) := ⟨fun c o => ∀ a, o = some a → Judged.good c a⟩
instance [Judged α] : Judged (List α) := ⟨fun c as => ∀ a ∈ as, Judged.good c a⟩
instance [Judged α] [Judged β] : Judged (α × β) := ⟨fun c p => Judged.good c p.1 ∧ Judged.good c p.2⟩
instance [Judged α] : Judged (ForInStep α) := ⟨fun c r => ∃ a, r = .yield a ∧ Judged.good c a⟩
instance : Judged State := ⟨Shaped⟩
instance : Judged Guard := ⟨Ruled⟩
instance : Judged Splitter := ⟨Tidy⟩

/-- The thing does to the variables that steer what the licence says. -/
class Loyal [Judged α] (c : Voyage) (a : α) : Prop where
  good : Judged.good c a

/-- The tree has nothing to do with the variables that steer. -/
class Outer (c : Voyage) (e : Expr) : Prop where
  heeds : Heeds c.helm .none e

section
variable {c : Voyage}

instance (priority := low) Loyal.any {a : α} : @Loyal α Judged.any c a := ⟨trivial⟩

instance (priority := low) Loyal.anyOption {o : Option α} : @Loyal (Option α) (@instJudgedOption α Judged.any) c o :=
  ⟨fun _ _ => trivial⟩

instance (priority := low) Loyal.anyList {as : List α} : @Loyal (List α) (@instJudgedList α Judged.any) c as :=
  ⟨fun _ _ => trivial⟩

theorem Loyal.heeds {e : Expr} (h : Loyal c e) : Heeds c.helm c.licence e := h.good.1

theorem Loyal.free {v : Var} (h : Loyal c v) : ¬ c.helm.steers v.id := h.good

theorem Loyal.of_heeds {i r : Nat} {t : Ty} {d : Data Expr} (h : Heeds c.helm c.licence (.node i r t d))
    (hd : ∀ v, d = .var v → ¬ c.helm.steers v.id) : Loyal c (Expr.node i r t d) := by
  refine ⟨h, fun v hv => hd v ?_⟩
  unfold asVar? at hv
  split at hv
  · rename_i heq
    cases heq
    cases hv
    rfl
  · cases hv

instance : Loyal c Expr.absent := ⟨.absent, fun _ h => by cases h⟩

instance : Outer c .absent := ⟨.absent⟩

instance (priority := low) Loyal.of_outer {e : Expr} [h : Outer c e] : Loyal c e where
  good := ⟨h.heeds.any _, fun _ hv => h.heeds.aside hv⟩

instance {i r : Nat} {t : Ty} {d : Data Expr} [h : Loyal c d] : Loyal c (Expr.node i r t d) := ⟨h.good i r t⟩

instance [Judged α] : Loyal c (none : Option α) := ⟨fun _ h => by cases h⟩

instance [Judged α] {a : α} [h : Loyal c a] : Loyal c (some a) := ⟨fun _ heq => by cases heq; exact h.good⟩

instance [Judged α] : Loyal c ([] : List α) := ⟨fun _ h => by cases h⟩

instance [Judged α] {a : α} {as : List α} [h : Loyal c a] [hs : Loyal c as] : Loyal c (a :: as) := by
  refine ⟨fun b hb => ?_⟩
  obtain rfl | hb := List.mem_cons.mp hb
  · exact h.good
  · exact hs.good b hb

instance [Judged α] {as bs : List α} [h : Loyal c as] [h' : Loyal c bs] : Loyal c (as ++ bs) :=
  ⟨fun a ha => (List.mem_append.mp ha).elim (h.good a) (h'.good a)⟩

instance [Judged α] [Judged β] {a : α} {b : β} [h : Loyal c a] [h' : Loyal c b] : Loyal c (a, b) :=
  ⟨h.good, h'.good⟩

instance [Judged α] {a : α} [h : Loyal c a] : Loyal c (ForInStep.yield a) := ⟨a, rfl, h.good⟩

theorem Loyal.fst [Judged α] [Judged β] {a : α} {b : β} (h : Loyal c (a, b)) : Loyal c a := ⟨h.good.1⟩

theorem Loyal.snd [Judged α] [Judged β] {a : α} {b : β} (h : Loyal c (a, b)) : Loyal c b := ⟨h.good.2⟩

theorem Loyal.of_mem [Judged α] {a : α} {as : List α} (h : Loyal c as) (ha : a ∈ as) : Loyal c a := ⟨h.good a ha⟩

theorem Loyal.head [Judged α] {a : α} {as : List α} (h : Loyal c (a :: as)) : Loyal c a := h.of_mem List.mem_cons_self

theorem Loyal.tail [Judged α] {a : α} {as : List α} (h : Loyal c (a :: as)) : Loyal c as :=
  ⟨fun b hb => h.good b (List.mem_cons_of_mem _ hb)⟩

theorem Loyal.get [Judged α] {a : α} (h : Loyal c (some a)) : Loyal c a := ⟨h.good a rfl⟩

instance {st : State} [h : Loyal c st] : Loyal c st.result := ⟨h.good.result⟩

instance {g : Guard} [h : Loyal c g] : Loyal c g.caught := ⟨h.good.caught⟩

instance {s : Splitter} [h : Loyal c s] : Loyal c s.caught := ⟨h.good.caught⟩

instance {s : Splitter} [h : Loyal c s] {r : StateRef} : Loyal c (s.graph.state r) := ⟨h.good.states r⟩

instance {s : Splitter} [h : Loyal c s] {g : GuardRef} : Loyal c (s.graph.guard g) := ⟨h.good.guards g⟩

/-! ### Payloads -/

/-- A payload that stores into none of the variables. -/
theorem Loyal.data {d : Data Expr} (hp : c.helm.Plain c.licence d) (hk : d.kind ≠ .lambda)
    (hv : ∀ v, d = .var v → ¬ c.helm.steers v.id) (hd : ∀ x ∈ operands d, Loyal c x) : Loyal c d :=
  ⟨fun _ _ _ => (Loyal.of_heeds (.node hp hk fun x hx => (hd x hx).heeds) hv).good⟩

variable {x y z : Expr} {xs : List Expr}

instance {v : Option Value} : Loyal c (Data.constant v : Data Expr) :=
  .data trivial (by simp [Data.kind]) (by simp) (by simp [operands])

instance : Loyal c (Data.default : Data Expr) := .data trivial (by simp [Data.kind]) (by simp) (by simp [operands])

instance {v : Var} [h : Loyal c v] : Loyal c (Data.var v : Data Expr) :=
  .data (fun hs => absurd hs h.free) (by simp [Data.kind]) (fun w hw => by cases hw; exact h.free) (by simp [operands])

instance {vs : List Var} [h : Loyal c vs] [hs : Loyal c xs] : Loyal c (Data.block vs xs) :=
  .data (fun v hv hs => absurd hs (h.of_mem hv).free) (by simp [Data.kind]) (by simp) fun _ => hs.of_mem

instance {op : AssignOp} [h : Loyal c x] [h' : Loyal c y] : Loyal c (Data.assign op x y) := by
  refine .data h.good.2 (by simp [Data.kind]) (by simp) fun z hz => ?_
  obtain ⟨-, rfl⟩ | rfl := mem_operands_assign.mp hz
  · exact h
  · exact h'

instance {op : BinaryOp} {f : Option Native} [h : Loyal c x] [h' : Loyal c y] : Loyal c (Data.binary op x y f) :=
  .data trivial (by simp [Data.kind]) (by simp) (by simp [operands, h, h'])

instance {op : UnaryOp} {f : Option Native} [h : Loyal c x] : Loyal c (Data.unary op x f) :=
  .data trivial (by simp [Data.kind]) (by simp) (by simp [operands, h])

instance {t : Ty} [h : Loyal c x] : Loyal c (Data.typeIs x t) :=
  .data trivial (by simp [Data.kind]) (by simp) (by simp [operands, h])

instance {name : String} [h : Loyal c x] : Loyal c (Data.field x name) :=
  .data trivial (by simp [Data.kind]) (by simp) (by simp [operands, h])

instance [h : Loyal c x] : Loyal c (Data.throw x) :=
  .data trivial (by simp [Data.kind]) (by simp) (by simp [operands, h])

instance [h : Loyal c x] [hs : Loyal c xs] : Loyal c (Data.call x xs) :=
  .data trivial (by simp [Data.kind]) (by simp) fun _ => (inferInstance : Loyal c (x :: xs)).of_mem

instance {name : String} [h : Loyal c x] [hs : Loyal c xs] : Loyal c (Data.methodCall x name xs) :=
  .data trivial (by simp [Data.kind]) (by simp) fun _ => (inferInstance : Loyal c (x :: xs)).of_mem

instance [h : Loyal c x] [h' : Loyal c y] [h'' : Loyal c z] : Loyal c (Data.conditional x y z) :=
  .data trivial (by simp [Data.kind]) (by simp) (by simp [operands, h, h', h''])

instance {cases : List (List Expr × Expr)} {f : Option Native} [h : Loyal c x] [hs : Loyal c cases]
    [h' : Loyal c y] : Loyal c (Data.switch x cases y f) := by
  refine .data trivial (by simp [Data.kind]) (by simp) fun a ha => ?_
  obtain rfl | ⟨arm, harm, ha | rfl⟩ | rfl := mem_operands_switch.mp ha
  · exact h
  · exact (hs.of_mem harm).fst.of_mem ha
  · exact (hs.of_mem harm).snd
  · exact h'

instance {brk cont : Option Label} [h : Loyal c x] : Loyal c (Data.loop x brk cont) :=
  .data trivial (by simp [Data.kind]) (by simp) (by simp [operands, h])

instance {k : GotoKind} {l : Label} [h : Loyal c x] : Loyal c (Data.goto k l x) :=
  .data trivial (by simp [Data.kind]) (by simp) (by simp [operands, h])

instance {t : Ty} {v : Var} [h : Loyal c x] [h' : Loyal c y] [hv : Loyal c v] :
    Loyal c (Data.protect x [⟨t, some v, .absent, y⟩] .absent .absent) := by
  refine .data (fun h hmem u hu => ?_) (by simp [Data.kind]) (by simp) ?_
  · cases List.mem_singleton.mp hmem
    cases hu
    exact hv.free
  · simp [operands, h, h', (inferInstance : Loyal c Expr.absent)]

end

/-! ### Constructions -/

/-- Every result of the construction has the property, when none of the numbers that it takes belongs to a
variable that steers. -/
def Erects (c : Voyage) (x : Build α) (P : α → Prop) : Prop := ∀ q a q', x q = .ok a q' → c.Clear q q' → P a

/-- What is built of fine things is fine. -/
class Built [Judged α] (c : Voyage) (x : Build α) : Prop where
  erects : Erects c x (Loyal c)

namespace Erects

variable {c : Voyage} {x : Build α} {P P' : α → Prop} {R : β → Prop}

theorem pure {a : α} (h : P a) : Erects c (pure a) P := by
  intro q b q' heq _
  cases heq
  exact h

theorem throw (f : Fault) : Erects c (throw f : Build α) P := by
  intro q b q' heq
  cases heq

theorem mono (h : Erects c x P) (hP : ∀ a, P a → P' a) : Erects c x P' :=
  fun q a q' heq hclear => hP a (h q a q' heq hclear)

theorem bind [Onward x] {f : α → Build β} (hx : Erects c x P) (hf : ∀ a, P a → Erects c (f a) R)
    [hl : ∀ a, Onward (f a)] : Erects c (x >>= f) R := by
  intro q b q' heq hclear
  change EStateM.bind x f q = _ at heq
  unfold EStateM.bind at heq
  split at heq
  · rename_i a q₁ hrun
    have hle := Onward.below q a q₁ hrun
    have hle' := (hl a).below q₁ b q' heq
    exact hf a (hx q a q₁ hrun (hclear.fst hle')) q₁ b q' heq (hclear.snd hle)
  · cases heq

/-- The same before a choice, where instances alone do not show that what follows goes on. -/
theorem andThen [Onward x] {f : α → Build β} (hx : Erects c x P) (hf : ∀ a, P a → Erects c (f a) R)
    (hl : ∀ a, Onward (f a)) : Erects c (x >>= f) R := hx.bind hf

theorem compositional : Compositional (m := Build) (fun _ x => Onward x) fun _ x P => Erects c x P where
  pure h := ⟨inferInstance, pure h⟩
  bind _ _ hx hf := ⟨inferInstance, bind hx hf⟩

theorem mapM {f : γ → Build α} {xs : List γ} [k : ∀ k, Onward (f k)] (hf : ∀ k ∈ xs, Erects c (f k) P) :
    Erects c (xs.mapM f) fun ys => ∀ y ∈ ys, P y :=
  (compositional.mapM k hf).2

end Erects

namespace Built

variable [Judged α] [Judged β] {c : Voyage} {x y : Build α}

instance pure {a : α} [h : Loyal c a] : Built c (pure a) := ⟨.pure h⟩

instance throw {f : Fault} : Built c (throw f : Build α) := ⟨.throw f⟩

instance (priority := low) any {α : Type} {x : Build α} : @Built α Judged.any c x := ⟨fun _ _ _ _ _ => inferInstance⟩

instance ite {p : Prop} [Decidable p] [hx : Built c x] [hy : Built c y] : Built c (if p then x else y) := by
  split
  · exact hx
  · exact hy

theorem bind [Onward x] {f : α → Build β} (hx : Built c x) (hf : ∀ a, Loyal c a → Built c (f a))
    [∀ a, Onward (f a)] : Built c (x >>= f) := ⟨hx.erects.bind fun a ha => (hf a ha).erects⟩

/-- The same before a choice. -/
theorem next [Onward x] {f : α → Build β} (hx : Built c x) (hf : ∀ a, Loyal c a → Built c (f a))
    (hl : ∀ a, Onward (f a)) : Built c (x >>= f) := hx.bind hf

end Built

namespace Build

section
variable {c : Voyage} {e x y z : Expr} {d : Data Expr} {t : Ty} {xs : List Expr} {v : Var} {name : String}

instance : Built c (newVar name t) := by
  refine ⟨fun q a q' h hclear => ?_⟩
  cases h
  exact ⟨hclear _ (Nat.lt_succ_self _) (Nat.le_refl _)⟩

instance [Loyal c d] : Built c (node t d) := by
  refine ⟨fun q a q' h _ => ?_⟩
  cases h
  infer_instance

instance [h : Loyal c e] : Built c (dataOf e) := by
  unfold dataOf
  split
  · rename_i d hd
    cases e with
    | absent => cases hd
    | node i r t d' =>
      cases hd
      have : Loyal c d := ⟨fun _ _ _ => ⟨h.heeds.retag, h.good.2.retag⟩⟩
      infer_instance
  · infer_instance

instance [Loyal c d] : Built c (withData e d) := by
  unfold withData
  repeat' first | infer_instance | split | refine Built.next ?_ (fun _ _ => ?_) fun _ => ?_

instance [h : Loyal c e] : Built c (withType e t) := by
  unfold withType
  split
  · infer_instance
  · rename_i i r u d
    refine Built.bind inferInstance fun j _ => ?_
    have : Loyal c (Expr.node i j t d) := ⟨h.heeds.retag, h.good.2.retag⟩
    infer_instance

instance {w : Option Value} : Built c (const w) := by unfold const; infer_instance

instance {w : Option Value} : Built c (constOf w t) := by unfold constOf; infer_instance

instance {n : Int} : Built c (constInt n) := by unfold constInt; infer_instance

instance {b : Bool} : Built c (constBool b) := by unfold constBool; infer_instance

instance : Built c (default t) := by unfold default; infer_instance

instance : Built c empty := by unfold empty; infer_instance

instance [Loyal c v] : Built c (ref v) := by unfold ref; infer_instance

instance {vars : List Var} [Loyal c vars] [Loyal c xs] : Built c (typedBlock t vars xs) := by
  unfold typedBlock; infer_instance

instance {vars : List Var} [Loyal c vars] [Loyal c xs] : Built c (block vars xs) := by
  unfold block
  repeat' first | infer_instance | split | refine Built.next ?_ (fun _ _ => ?_) fun _ => ?_

instance [Loyal c x] [Loyal c y] : Built c (assign x y) := by
  unfold assign assignWith
  dsimp only
  repeat' first | infer_instance | split | refine Built.next ?_ (fun _ _ => ?_) fun _ => ?_

instance {op : BinaryOp} [Loyal c x] [Loyal c y] : Built c (binary op x y) := by
  unfold binary
  repeat' first | infer_instance | split | refine Built.next ?_ (fun _ _ => ?_) fun _ => ?_

instance [Loyal c x] : Built c (not x) := by unfold not; infer_instance

instance [Loyal c x] : Built c (convert x t) := by unfold convert; infer_instance

instance [Loyal c x] : Built c (throwAs x t) := by
  unfold throwAs
  repeat' first | infer_instance | split | refine Built.next ?_ (fun _ _ => ?_) fun _ => ?_

instance [Loyal c x] : Built c (raise x) := by unfold raise; infer_instance

instance [Loyal c x] : Built c (typeIs x t) := by unfold typeIs; infer_instance

instance [Loyal c x] [Loyal c y] [Loyal c z] : Built c (typedCondition t x y z) := by
  unfold typedCondition; infer_instance

instance [Loyal c x] [Loyal c y] [Loyal c z] : Built c (ifThenElse x y z) := by unfold ifThenElse; infer_instance

instance [Loyal c x] [Loyal c y] : Built c (ifThen x y) := by
  unfold ifThen
  repeat' first | infer_instance | split | refine Built.next ?_ (fun _ _ => ?_) fun _ => ?_

instance {f : Option Native} {cases : List (List Expr × Expr)} [Loyal c x] [Loyal c y] [Loyal c cases] :
    Built c (switch t x y f cases) := by unfold switch; infer_instance

instance {brk cont : Option Label} [Loyal c x] : Built c (loop x brk cont) := by unfold loop; infer_instance

instance [Loyal c x] [Loyal c v] [Loyal c y] : Built c (catchAll x v y) := by
  unfold catchAll protect
  repeat' first | infer_instance | split | refine Built.next ?_ (fun _ _ => ?_) fun _ => ?_

instance {k : GotoKind} {l : Label} [Loyal c x] : Built c (jump k l x) := by unfold jump; infer_instance

instance [Loyal c x] [Loyal c xs] : Built c (call x xs) := by
  unfold call
  dsimp only
  repeat' first | infer_instance | split | refine Built.next ?_ (fun _ _ => ?_) fun _ => ?_

instance {f : Value} [Loyal c xs] : Built c (callFunc f xs) := by
  unfold callFunc
  repeat' first | infer_instance | split | refine Built.next ?_ (fun _ _ => ?_) fun _ => ?_

instance {f : Library} [Loyal c xs] : Built c (callLibrary f xs) := by unfold callLibrary; infer_instance

instance [Loyal c x] [Loyal c xs] : Built c (methodCall x name xs) := by
  unfold methodCall
  repeat' first | infer_instance | split | refine Built.next ?_ (fun _ _ => ?_) fun _ => ?_

instance [Loyal c x] : Built c (field x name) := by
  unfold field
  dsimp only
  repeat' first | infer_instance | split | refine Built.next ?_ (fun _ _ => ?_) fun _ => ?_

instance [Loyal c x] : Built c (x.coerce t) := by unfold coerce; infer_instance

end

end Build

/-! ### Rebuilding -/

section
variable {c : Voyage} {x : Expr} {d : Data Expr} {v : Var}

/-- A node whose operands are replaced. -/
theorem mapChildren_built [hx : Outer c x] (hk : x.hasKind .lambda = false)
    {f : Expr → Build Expr} [∀ k, Onward (f k)] (hf : ∀ k ∈ x.children, Outer c k → Built c (f k)) :
    Built c (x.mapChildren fun k _ => f k) := by
  have hkind : ∀ {i r t d}, x = .node i r t d → d.kind ≠ .lambda := by
    rintro i r t d rfl h
    simp [hasKind, kind?, data?, h] at hk
  have hchild : ∀ k ∈ x.children, Outer c k := by
    intro k hk
    cases x with
    | absent => cases hk
    | node i r t d => exact ⟨(hx.heeds.parts (hkind rfl)).2 k (List.mem_filter.mp hk).1⟩
  -- the new operands first, then the node that is filled with them
  rw [mapChildren_eq]
  refine ⟨Erects.andThen (P := fun cs => ∀ k ∈ cs, Loyal c k) ?_ (fun cs hcs => ?_) fun cs => ?_⟩
  · exact Erects.mapM fun k hk => (hf k hk (hchild k hk)).erects
  · split
    · exact .pure inferInstance
    · cases x with
      | absent => exact .pure inferInstance
      | node i r t d =>
        refine Erects.bind (P := fun _ => True) (fun _ _ _ _ _ => trivial) fun q _ => .pure ?_
        obtain ⟨hp, hops⟩ := hx.heeds.parts (hkind rfl)
        have hrefill : Loyal c (refill d cs) := by
          refine .data (hp.refill fun k hk => (hcs k hk).good.2) ?_ (fun v hv => ?_) fun k hk => ?_
          · rw [refill_kind]
            exact hkind rfl
          · have hvar : d = .var v := by
              cases d <;> first | exact hv | cases hv
            subst hvar
            exact fun hs => (hp hs).1.elim
          · obtain hk | hk := mem_of_mem_operands_refill hk
            · have : Outer c k := ⟨hops k hk⟩
              infer_instance
            · exact hcs k hk
        infer_instance
  · repeat' first | infer_instance | split

/-- Binding rethrows to a variable that does not steer. -/
theorem bindRethrow_built [hv : Loyal c v] (hx : Outer c x) : Built c (bindRethrow v x) := by
  fun_induction bindRethrow v x with
  | case1 => infer_instance
  | case2 => infer_instance
  | case3 => repeat' first | infer_instance | refine Built.next ?_ (fun _ _ => ?_) fun _ => ?_
  | case4 i r t body hs fin fault ihb ihf =>
    obtain ⟨hp, hops⟩ := hx.heeds.parts (by simp [Data.kind])
    have hop : ∀ k ∈ operands (.protect body hs fin fault), Outer c k := fun k hk => ⟨hops k hk⟩
    have ihb := ihb (hop body (mem_operands_protect.mpr (.inl rfl)))
    have ihf := ihf (hop fin (mem_operands_protect.mpr (.inr (.inr (.inl rfl)))))
    refine Built.bind ihb fun body' hb => Built.bind ihf fun fin' hf => ?_
    split
    · infer_instance
    · have hdata : Loyal c (Data.protect body' hs fin' fault) := by
        refine .data (fun g hg w hw => hp g hg w hw) (by simp [Data.kind]) (by simp) fun k hk => ?_
        obtain rfl | hk | rfl | rfl := mem_operands_protect.mp hk
        · exact hb
        · have := hop k (mem_operands_protect.mpr (.inr (.inl hk)))
          infer_instance
        · exact hf
        · have := hop k (mem_operands_protect.mpr (.inr (.inr (.inr rfl))))
          infer_instance
      infer_instance
  | case5 i r t d hd _ _ ih =>
    refine mapChildren_built ?_ fun k hk h => ih k (sizeOf_lt_of_mem_children hk) h
    cases d <;> first | rfl | exact absurd rfl (hd _ _ _ _ _)

end

/-! ### Completion handles -/

namespace Backend

variable {c : Voyage} {b : Backend} {cell value err call : Expr} {t : Ty}

instance [Loyal c value] : Built c (resultValue value t) := by
  unfold resultValue
  refine Built.next ?_ (fun _ _ => ?_) fun _ => ?_ <;> infer_instance

instance [Loyal c value] [Loyal c call] : Built c (settle value call) := by
  unfold settle
  infer_instance

instance : Built c b.create := by
  unfold create
  split <;> infer_instance

instance [Loyal c cell] [Loyal c value] : Built c (b.setResult cell value) := by
  unfold setResult
  repeat' first | infer_instance | split | refine Built.next ?_ (fun _ _ => ?_) fun _ => ?_

instance [Loyal c cell] [Loyal c err] : Built c (b.setException cell err) := by
  unfold setException
  split <;> infer_instance

instance [Loyal c cell] : Built c (b.awaitable cell) := by
  unfold awaitable
  repeat' first | infer_instance | split | refine Built.next ?_ (fun _ _ => ?_) fun _ => ?_

instance [Loyal c value] : Built c (b.fromResult value) := by
  unfold fromResult
  repeat' first | infer_instance | split | refine Built.next ?_ (fun _ _ => ?_) fun _ => ?_

instance [Loyal c err] : Built c (b.fromException err) := by
  unfold fromException
  split <;> infer_instance

instance [Loyal c value] : Built c (b.fastPath value) := by
  unfold fastPath
  repeat' first | infer_instance | refine Built.next ?_ (fun _ _ => ?_) fun _ => ?_

end Backend

/-! ### Steps -/

namespace Tidy

variable {c : Voyage} {s s' : Splitter} {r : StateRef} {g : GuardRef}

/-- Only the numbers and what stands beside the graph were changed. -/
theorem beside (h : Tidy c s) (hgraph : s'.graph = s.graph) (hrethrow : s'.rethrow = s.rethrow)
    (hsupply : s.supply.Below s'.supply) (hcaught : ∀ v, s'.caught = some v → ¬ c.helm.steers v.id)
    (hvars : ∀ v ∈ s'.vars, c.helm.Typed v) : Tidy c s' where
  base := h.base.trans hsupply
  states r := hgraph ▸ h.states r
  guards g := hgraph ▸ h.guards g
  parked g v hv := Nat.le_trans (h.parked g v (hgraph ▸ hv)) hsupply.names
  rethrow r hr := h.rethrow r (hrethrow ▸ hr)
  caught := hcaught
  vars := hvars

theorem modifyState (h : Tidy c s) {f : State → State}
    (hf : r < s.graph.states.size → Shaped c (s.graph.state r) → Shaped c (f (s.graph.state r))) :
    Tidy c { s with graph := s.graph.modifyState r f } :=
  { h with
    states := fun q => by
      show Shaped c ((s.graph.modifyState r f).state q)
      rw [state_modifyState]
      split
      · rename_i hq
        exact hf hq.2 (h.states r)
      · exact h.states q }

/-- A region that changes. -/
theorem modifyGuard (h : Tidy c s) {f : Guard → Guard} (hf : Ruled c (s.graph.guard g) → Ruled c (f (s.graph.guard g)))
    (hp : ∀ i, (f i).parked = i.parked) : Tidy c { s with graph := s.graph.modifyGuard g f } :=
  { h with
    guards := fun q => by
      show Ruled c ((s.graph.modifyGuard g f).guard q)
      rw [guard_modifyGuard]
      split
      · exact hf (h.guards g)
      · exact h.guards q
    parked := fun q v hv => by
      change ((s.graph.modifyGuard g f).guard q).parked = some v at hv
      rw [guard_modifyGuard] at hv
      split at hv
      · exact h.parked g v ((hp _).symm.trans hv)
      · exact h.parked q v hv }

theorem addState (h : Tidy c s) {st : State} (hst : Shaped c st) :
    Tidy c { s with graph := { s.graph with states := s.graph.states.push st } } :=
  { h with
    states := fun q => by
      show Shaped c (Graph.state { s.graph with states := s.graph.states.push st } q)
      rw [state_push]
      split
      · exact hst
      · exact h.states q }

/-- A new region. -/
theorem addGuard (h : Tidy c s) {i : Guard} (hi : Ruled c i) (hp : ∀ v, i.parked = some v → v.id ≤ s.supply.names) :
    Tidy c { s with graph := { s.graph with guards := s.graph.guards.push i } } :=
  { h with
    guards := fun q => by
      show Ruled c (Graph.guard { s.graph with guards := s.graph.guards.push i } q)
      rw [guard_push]
      split
      · exact hi
      · exact h.guards q
    parked := fun q v hv => by
      change (Graph.guard { s.graph with guards := s.graph.guards.push i } q).parked = some v at hv
      rw [guard_push] at hv
      split at hv
      · exact hp v hv
      · exact h.parked q v hv }

/-- The numbers that a construction takes belong to no variable that steers. -/
theorem clear [hc : c.Sees] (h : Tidy c s) {q : Supply} (hq : Before { s with supply := q } c.view.last) :
    c.Clear s.supply q := by
  intro i hi hle hs
  obtain ⟨-, g, v, hv, rfl⟩ :=
    hc.parked i (Nat.lt_of_le_of_lt h.base.names hi) (Nat.le_trans hle hq.supply.names) hs
  by_cases hg : g < s.graph.guards.size
  · exact absurd (Nat.lt_of_lt_of_le hi (h.parked g v ((hq.guard g hg).symm.trans hv))) (Nat.lt_irrefl _)
  · exact absurd (Nat.lt_of_lt_of_le (hq.parked g (Nat.le_of_not_lt hg) v hv) hle) (Nat.lt_irrefl _)

end Tidy

/-- Every run of the step on the way to the end keeps the splitter tidy, and its results have a property. -/
def Heeding (c : Voyage) (x : Split α) (P : α → Prop) : Prop :=
  ∀ s, Tidy c s → Toward c.view c.plan s x fun a s' => P a ∧ Tidy c s'

/-- What the step gives is loyal. -/
class Heedful [Judged α] (c : Voyage) (x : Split α) : Prop where
  heeding : Heeding c x (Loyal c)

namespace Heeding

variable {c : Voyage} {x : Split α} {P P' : α → Prop} {R : β → Prop}

theorem pure {a : α} (h : P a) : Heeding c (pure a) P := fun _ hs => .pure ⟨h, hs⟩

theorem mono (h : Heeding c x P) (hP : ∀ a, P a → P' a) : Heeding c x P' :=
  fun s hs => (h s hs).mono fun a _ ha => ⟨hP a ha.1, ha.2⟩

theorem bind {f : α → Split β} (hx : Heeding c x P) (hf : ∀ a, P a → Heeding c (f a) R)
    [k : ∀ a, Keeps (f a)] : Heeding c (x >>= f) R :=
  fun s hs => (hx s hs).bind fun a s' h => hf a h.1 s' h.2

/-- The same before a choice. -/
theorem andThen {f : α → Split β} (hx : Heeding c x P) (hf : ∀ a, P a → Heeding c (f a) R)
    (hk : ∀ a, Keeps (f a)) : Heeding c (x >>= f) R := hx.bind hf

/-- A construction. -/
theorem build [c.Sees] {x : Build α} [hb : Onward x] (hx : Erects c x P) : Heeding c (liftM x : Split α) P := by
  intro s hs a s' hrun hbefore
  change Split.build x c.plan s = _ at hrun
  unfold Split.build at hrun
  split at hrun
  · rename_i b q hx'
    cases hrun
    exact ⟨hx _ _ _ hx' (hs.clear hbefore), hs.beside rfl rfl (hb.below _ _ _ hx') hs.caught hs.vars⟩
  · cases hrun

theorem compositional : Compositional (m := Split) (fun _ x => Keeps x) fun _ x P => Heeding c x P where
  pure h := ⟨inferInstance, pure h⟩
  bind _ _ hx hf := ⟨inferInstance, bind hx hf⟩

theorem mapM {f : γ → Split α} {xs : List γ} (hf : ∀ k ∈ xs, Heeding c (f k) P)
    [k : ∀ k, Keeps (f k)] :
    Heeding c (xs.mapM f) fun ys => ∀ y ∈ ys, P y :=
  (compositional.mapM k hf).2

end Heeding

namespace Heedful

variable [Judged α] [Judged β] [Judged γ] {c : Voyage} {x y : Split α}

instance pure {a : α} [h : Loyal c a] : Heedful c (pure a : Split α) := ⟨.pure h⟩

instance throw {f : Fault} : Heedful c (throw f : Split α) := ⟨fun _ _ => .throw f⟩

instance get : Heedful c (get : Split Splitter) := ⟨fun _ hs => .of_ensures (Ensures.of_run rfl ⟨⟨hs⟩, hs⟩)⟩

instance build [c.Sees] {x : Build α} [Onward x] [h : Built c x] : Heedful c (liftM x : Split α) :=
  ⟨.build h.erects⟩

instance ite {p : Prop} [Decidable p] [hx : Heedful c x] [hy : Heedful c y] : Heedful c (if p then x else y) := by
  split
  · exact hx
  · exact hy

theorem bind {f : α → Split β} (hx : Heedful c x) (hf : ∀ a, Loyal c a → Heedful c (f a))
    [∀ a, Keeps (f a)] : Heedful c (x >>= f) :=
  ⟨hx.heeding.bind fun a ha => (hf a ha).heeding⟩

/-- The same before a choice. -/
theorem next {f : α → Split β} (hx : Heedful c x) (hf : ∀ a, Loyal c a → Heedful c (f a))
    (hk : ∀ a, Keeps (f a)) : Heedful c (x >>= f) := hx.bind hf

theorem read {f : Plan → Split β} (h : Heedful c (f c.plan)) : Heedful c (read >>= f) :=
  ⟨fun s hs => h.heeding s hs⟩

theorem modifies {f : Splitter → Splitter} (hf : ∀ s, Tidy c s → Tidy c (f s)) : Heedful c (modify f : Split Unit) :=
  ⟨fun s hs => .of_ensures (Ensures.of_run rfl ⟨inferInstance, hf s hs⟩)⟩

/-- A change beside the graph. -/
instance modify {moments : Splitter → Array Moment} {current : Splitter → StateRef}
    {context : Splitter → List GuardRef} {frames : Splitter → List Frame} {cleanups : Splitter → Nat}
    {labels : Splitter → List (Label × StateRef)} :
    Heedful c (modify fun s => ⟨s.supply, s.reporter, moments s, s.graph, s.states, current s, context s, frames s,
      cleanups s, s.caught, s.vars, s.rethrow, labels s⟩ : Split Unit) :=
  modifies fun _ hs => hs.beside rfl rfl (.refl _) hs.caught hs.vars

theorem mapM {f : γ → Split α} {xs : List γ} [h : Loyal c xs] (hf : ∀ k, Loyal c k → Heedful c (f k))
    [k : ∀ k, Keeps (f k)] : Heedful c (xs.mapM f) :=
  ⟨(Heeding.mapM (P := Loyal c) (fun k hm => (hf k (h.of_mem hm)).heeding)).mono fun _ h => ⟨fun a ha => (h a ha).good⟩⟩

theorem map {f : α → β} (h : Heedful c x) (hf : ∀ a, Loyal c a → Loyal c (f a)) : Heedful c (f <$> x) :=
  ⟨fun s hs => Ensures.map (((h.heeding s hs).mono fun a _ ha => ⟨hf a ha.1, ha.2⟩))⟩

/-- A walk over a list; what is made on the way is loyal. -/
theorem forIn {xs : List δ} {f : δ → α → Split (ForInStep α)} {a : α} (h0 : Loyal c a)
    (hf : ∀ k ∈ xs, ∀ a, Loyal c a → Heedful c (f k a))
    (hk : ∀ k a, Keeps (f k a)) : Heedful c (forIn xs a f) := by
  induction xs generalizing a with
  | nil =>
    rw [List.forIn_nil]
    exact .pure
  | cons k ks ih =>
    rw [List.forIn_cons]
    refine next (hf k List.mem_cons_self a h0) (fun r hr => ?_) fun r => ?_
    · obtain ⟨b, rfl, hb⟩ := hr.good
      exact ih ⟨hb⟩ fun k hk => hf k (List.mem_cons_of_mem _ hk)
    · split
      · infer_instance
      · exact .loop hk

end Heedful

end Resumable
