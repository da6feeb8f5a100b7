import Resumable.Lower.Optimize
import Resumable.Proofs.Tree
import Resumable.Run.Eval

/-!
# `Proofs.Watch`: the code of one machine inside a tree

The invariant of a running machine rests on which statements touch its variables, and on how they follow
one another. A `Watch` names the variables of one async machine and the numbers of its states; `Obeys`
says that a tree treats them as it should. Code outside the machine does not touch them at all. The code
of the machine opens every instance in a block of its own, and its dispatch loop stores numbers of states
only: the number of a cleanup block together with a place to go on, and -1 only on its way out.

**Contents**
* `Watch`, `Watch.Fair`: the variables and states of a machine.
* `Enters`, `Aims`, `Ends`, `Parks`, `Hands`: the statements that the machine itself is made of.
* `Shape`: in which order they may stand.
* `Obeys`: trees that treat the machine as they should, for every role a tree can have.
-/

namespace Resumable

open Resumable.Expr

/-- One async machine: its variables, the label that leaves its loop, and the numbers of its states. -/
structure Watch where
  /-- The slot of the next state. -/
  state : Var
  /-- The slot that says where a cleanup block goes on. -/
  resume : Var
  /-- The function that runs the dispatch loop. -/
  continuation : Var
  /-- The cell that the machine settles. -/
  cell : Var
  /-- The number of the label that leaves the dispatch loop. -/
  leave : Nat
  /-- The numbers of the variables in which cleanup blocks park the resume slot. -/
  parked : Nat → Prop
  /-- The numbers of the states that run no cleanup block. -/
  good : Int → Prop
  /-- The numbers of the states that run a cleanup block. -/
  clean : Int → Prop
  /-- The numbers of the variables whose declarations and stores were dropped. -/
  gone : Nat → Prop
  /-- The identities of the blocks that open an instance. -/
  copies : Nat → Prop
  /-- How far names and identities have been handed out. -/
  limit : Supply

namespace Watch

variable (m : Watch)

/-- A number of one of the machine's states. -/
def Known (n : Int) : Prop := m.good n ∨ m.clean n

/-- A name that belongs to the machine alone. -/
def Owns (i : Nat) : Prop :=
  i = m.state.id ∨ i = m.resume.id ∨ i = m.continuation.id ∨ i = m.leave

/-- A name that code outside the machine may use as it likes. -/
structure Plain (i : Nat) : Prop where
  foreign : ¬ m.Owns i
  loose : ¬ m.parked i
  within : i ≤ m.limit.names

/-- A variable that a lambda outside the machine may bind. -/
structure Bound (v : Var) : Prop where
  plain : m.Plain v.id
  other : v.id ≠ m.cell.id

/-- What the machine needs to know about its own names and numbers. -/
structure Fair : Prop where
  start : m.good 0
  minus : ¬ m.Known (-1)
  disjoint : ∀ n, m.good n → ¬ m.clean n
  parked : ∀ v, m.parked v → ¬ m.Owns v
  apart : [m.state.id, m.resume.id, m.continuation.id, m.leave].Nodup
  types : m.state.type = .int ∧ m.resume.type = .int

variable {m} in
theorem Fair.state_ne_resume (hm : m.Fair) : m.state.id ≠ m.resume.id := by
  have h := hm.apart
  simp only [List.nodup_cons, List.mem_cons] at h
  exact fun heq => h.1 (.inl heq)

/-- A variable that any block may declare. -/
structure Declarable (v : Var) : Prop where
  foreign : ¬ m.Owns v.id
  within : v.id ≤ m.limit.names
  type : m.parked v.id → v.type = .int

/-- A variable of the machine that the block which opens an instance may declare. -/
structure Slotted (v : Var) : Prop where
  own : v = m.state ∨ v = m.resume ∨ v = m.continuation
  kept : ¬ m.gone v.id

/-- The identity of a block that opens no instance. -/
structure Ground (r : Nat) : Prop where
  within : r ≤ m.limit.refs
  other : ¬ m.copies r

/-- A variable in which a cleanup block parks the resume slot. -/
structure Parked (v : Var) : Prop where
  parked : m.parked v.id
  type : v.type = .int

/-! ### Statements of the machine -/

/-- A plain store of a value into a variable. -/
def Puts (v : Var) (P : Expr → Prop) : Expr → Prop
  | .node _ _ _ (.assign .plain (.node _ _ _ (.var x)) value) => x = v ∧ P value
  | _ => False

/-- An integer literal. -/
def Number (P : Int → Prop) : Expr → Prop
  | .node _ _ t (.constant (some (.int u n))) => t = .int ∧ u = .int ∧ P n
  | _ => False

/-- A read of an integer variable. -/
def Reads (v : Var) : Expr → Prop
  | .node _ _ t (.var x) => x = v ∧ t = .int
  | _ => False

/-- A call that completes the cell in a variable, or one that makes it fail. -/
def Settling (completing : Bool) (cell : Var) : Expr → Prop
  | .node _ _ _ (.methodCall r name _) =>
    r.asVar? = some cell ∧ (if completing then Run.completes name else Run.fails name) = true
  | .node _ _ _ (.call (.node _ _ _ (.constant (some (.func _ (.library .completeValueFuture))))) [a]) =>
    completing = true ∧ a.asVar? = some cell
  | _ => False

/-- A statement after which the cell in a variable is completed: a call that completes it, a transfer, which
nothing comes after, or a block that ends with one of them. -/
def Settled (cell : Var) (x : Expr) : Prop :=
  Settling true cell x ∨ x.transfers = true ∨
    ∃ i r t vs xs y, x = .node i r t (.block vs xs) ∧ xs.getLast? = some y ∧
      (Settling true cell y ∨ y.transfers = true)

/-- Goes on in a state that runs no cleanup block. -/
def Moves : Expr → Prop := Puts m.state (Number m.good)

/-- Goes on in a cleanup block. -/
def Enters : Expr → Prop := Puts m.state (Number m.clean)

/-- Says where a cleanup block goes on. -/
def Aims : Expr → Prop := Puts m.resume (Number m.good)

/-- Marks the machine as over. -/
def Ends : Expr → Prop := Puts m.state (Number (· = -1))

/-- Goes on where a cleanup block has parked the resume slot. -/
def Returns : Expr → Prop := Puts m.state fun x => ∃ v, m.Parked v ∧ Reads v x

/-- Goes on where the resume slot says. -/
def Resumes : Expr → Prop := Puts m.state (Reads m.resume)

/-- Parks the resume slot. -/
def Parks (x : Expr) : Prop := ∃ v, m.Parked v ∧ Puts v (Reads m.resume) x

/-- Looks at a slot of the machine, for no purpose. -/
def Peeks (x : Expr) : Prop := Reads m.resume x ∨ ∃ v, m.Parked v ∧ Reads v x

/-- A read of the function that runs the dispatch loop. -/
def IsContinuation : Expr → Prop
  | .node _ _ _ (.var x) => x = m.continuation
  | _ => False

variable {m} in
theorem IsContinuation.asVar? {x : Expr} (h : m.IsContinuation x) : x.asVar? = some m.continuation := by
  unfold IsContinuation at h
  split at h
  · rw [← h]
    rfl
  · cases h

/-- Hands the dispatch loop to an awaiter. -/
def Hands : Expr → Prop
  | .node _ _ _ (.methodCall _ name [k]) => name = "OnCompleted" ∧ m.IsContinuation k
  | _ => False

/-- Leaves the dispatch loop. -/
def Leaves : Expr → Prop
  | .node _ _ _ (.goto _ l v) => l.id = m.leave ∧ v = .absent
  | _ => False

/-- A call that completes the machine's cell, or one that makes it fail. -/
def Calls (completing : Bool) : Expr → Prop := Settling completing m.cell

/-- A method call of variables that makes the machine's cell fail. -/
def Quits (x : Expr) : Prop :=
  m.Calls false x ∧ ∃ i r t receiver name args, x = .node i r t (.methodCall receiver name args) ∧
    receiver.asVar?.isSome = true ∧ ∀ a ∈ args, a.asVar?.isSome = true

/-- A statement after which the machine's cell is completed. -/
def Settles : Expr → Prop := Settled m.cell

/-- The stores of the machine. -/
inductive Raw : Expr → Prop
  | moves {x : Expr} (h : m.Moves x) : Raw x
  | enters {x : Expr} (h : m.Enters x) : Raw x
  | aims {x : Expr} (h : m.Aims x) : Raw x
  | ends {x : Expr} (h : m.Ends x) : Raw x
  | returns {x : Expr} (h : m.Returns x) : Raw x
  | resumes {x : Expr} (h : m.Resumes x) : Raw x
  | parks {x : Expr} (h : m.Parks x) : Raw x
  | peeks {x : Expr} (h : m.Peeks x) : Raw x

/-- A store of the machine is an assignment or a read of a variable. -/
theorem Raw.shape {x : Expr} (h : m.Raw x) :
    ∃ i r t, (∃ op target value, x = .node i r t (.assign op target value)) ∨ ∃ v, x = .node i r t (.var v) := by
  have hputs : ∀ {v : Var} {V : Expr → Prop}, Puts v V x →
      ∃ i r t, (∃ op target value, x = .node i r t (.assign op target value)) ∨
        ∃ v, x = .node i r t (.var v) := by
    intro v V h
    unfold Puts at h
    split at h
    · exact ⟨_, _, _, .inl ⟨_, _, _, rfl⟩⟩
    · cases h
  have hreads : ∀ {v : Var}, Reads v x →
      ∃ i r t, (∃ op target value, x = .node i r t (.assign op target value)) ∨
        ∃ v, x = .node i r t (.var v) := by
    intro v h
    unfold Reads at h
    split at h
    · exact ⟨_, _, _, .inr ⟨_, rfl⟩⟩
    · cases h
  cases h with
  | moves h | enters h | aims h | ends h | returns h | resumes h => exact hputs h
  | parks h =>
    obtain ⟨v, -, h⟩ := h
    exact hputs h
  | peeks h =>
    obtain h | ⟨v, -, h⟩ := h
    · exact hreads h
    · exact hreads h

/-- The statements that may not stand just anywhere; in an `armed` list the resume slot is known to hold
a state. -/
inductive Special (armed : Bool) : Expr → Prop
  | enters {x : Expr} (h : m.Enters x) (hs : ¬ m.gone m.state.id) (hr : ¬ m.gone m.resume.id) :
    Special armed x
  | ends {x : Expr} (h : m.Ends x) (hs : ¬ m.gone m.state.id) : Special armed x
  | hands {x : Expr} (h : m.Hands x) : Special armed x
  | resumes {x : Expr} (h : m.Resumes x) (ha : armed = false) : Special armed x
  | parks {x : Expr} (h : m.Parks x) (ha : armed = false) : Special armed x

/-- A statement fits between the one before it and the ones after it. The store that enters a cleanup
block stands next to the one that says where it goes on; the machine is over only after its cell was
completed, or before it is made to fail where the list is `bare` of handlers; and handing on the loop is followed by
leaving it. -/
inductive Fits (armed bare : Bool) (prev x : Expr) : List Expr → Prop
  | any {rest : List Expr} (hx : ¬ m.Special armed x) : Fits armed bare prev x rest
  | enter {y : Expr} {rest : List Expr} (hx : m.Enters x) (hy : m.Aims y) :
    Fits armed bare prev x (y :: rest)
  | aimed {rest : List Expr} (hp : m.Aims prev) (hx : m.Enters x) : Fits armed bare prev x rest
  | complete {z : Expr} {rest : List Expr} (hp : m.Settles prev) (hx : m.Ends x) (hz : m.Leaves z) :
    Fits armed bare prev x (z :: rest)
  | fail {y z : Expr} {rest : List Expr} (hb : bare = true) (hx : m.Ends x) (hy : m.Quits y)
    (hz : m.Leaves z) : Fits armed bare prev x (y :: z :: rest)
  | hand {y : Expr} {rest : List Expr} (hx : m.Hands x) (hy : m.Leaves y) :
    Fits armed bare prev x (y :: rest)

/-- Every statement of a list fits; `prev` is the one before the list. -/
def Shape (armed bare : Bool) : Expr → List Expr → Prop
  | _, [] => True
  | prev, x :: rest => m.Fits armed bare prev x rest ∧ Shape armed bare x rest

section
variable {m : Watch} {a armed bare : Bool} {x : Expr}

theorem Special.mono (h : m.Special armed x) (ha : a = true → armed = true) : m.Special a x := by
  have hfalse : armed = false → a = false := by cases a <;> simp_all
  cases h with
  | enters h hs hr => exact .enters h hs hr
  | ends h hs => exact .ends h hs
  | hands h => exact .hands h
  | resumes h he => exact .resumes h (hfalse he)
  | parks h he => exact .parks h (hfalse he)

/-- Statements that fit together outside a cleanup block fit together inside one. -/
theorem Shape.mono {prev : Expr} {xs : List Expr} (h : m.Shape a bare prev xs)
    (ha : a = true → armed = true) : m.Shape armed bare prev xs := by
  induction xs generalizing prev with
  | nil => trivial
  | cons x xs ih =>
    refine ⟨?_, ih h.2⟩
    cases h.1 with
    | any hx => exact .any fun hs => hx (hs.mono ha)
    | enter hx hy => exact .enter hx hy
    | aimed hp hx => exact .aimed hp hx
    | complete hp hx hz => exact .complete hp hx hz
    | fail hb hx hy hz => exact .fail hb hx hy hz
    | hand hx hy => exact .hand hx hy

/-- Two ways to look at one store. -/
theorem Puts.both {v u : Var} {P Q : Expr → Prop} (h : Puts v P x) (h' : Puts u Q x) :
    v = u ∧ ∃ value, P value ∧ Q value := by
  unfold Puts at h h'
  split at h
  · exact ⟨h.1.symm.trans h'.1, _, h.2, h'.2⟩
  · cases h

/-- No store is a statement after which the cell is completed. -/
theorem Puts.not_settled {v : Var} {P : Expr → Prop} (h : Puts v P x) : ¬ m.Settles x := by
  unfold Puts at h
  split at h
  · rintro (hs | hs | ⟨_, _, _, _, _, _, hs, -⟩)
    · exact hs
    · cases hs
    · cases hs
  · cases h

/-- No store leaves the dispatch loop. -/
theorem Puts.not_leaves {v : Var} {P : Expr → Prop} (h : Puts v P x) : ¬ m.Leaves x := by
  unfold Puts at h
  split at h
  · exact id
  · cases h

theorem not_settles_absent : ¬ m.Settles .absent := by
  rintro (h | h | ⟨_, _, _, _, _, _, h, -⟩) <;> cases h

theorem not_settles_label {i r : Nat} {t : Ty} {l : Label} {d : Expr} :
    ¬ m.Settles (.node i r t (.label l d)) := by
  rintro (h | h | ⟨_, _, _, _, _, _, h, -⟩) <;> cases h

theorem Number.not_reads {P : Int → Prop} {v : Var} (h : Number P x) : ¬ Reads v x := by
  unfold Number at h
  split at h
  · exact fun h => h
  · cases h

theorem Number.both {P Q : Int → Prop} (h : Number P x) (h' : Number Q x) : ∃ n, P n ∧ Q n := by
  unfold Number at h h'
  split at h
  · exact ⟨_, h.2.2, h'.2.2⟩
  · cases h

/-- Only stores and method calls are special. -/
theorem Special.shape (h : m.Special armed x) :
    ∃ i r t, (∃ op target value, x = .node i r t (.assign op target value)) ∨
      ∃ receiver name args, x = .node i r t (.methodCall receiver name args) := by
  have hputs : ∀ {v : Var} {V : Expr → Prop}, Puts v V x →
      ∃ i r t, (∃ op target value, x = .node i r t (.assign op target value)) ∨
        ∃ receiver name args, x = .node i r t (.methodCall receiver name args) := by
    intro v V h
    unfold Puts at h
    split at h
    · exact ⟨_, _, _, .inl ⟨_, _, _, rfl⟩⟩
    · cases h
  cases h with
  | enters h | ends h | resumes h => exact hputs h
  | parks h =>
    obtain ⟨v, -, h⟩ := h
    exact hputs h
  | hands h =>
    unfold Hands at h
    split at h
    · exact ⟨_, _, _, .inr ⟨_, _, _, rfl⟩⟩
    · cases h

end

/-! ### Trees -/

/-- What a node itself does when it has nothing to do with the machine. -/
def Ordinary (r : Nat) : Data Expr → Prop
  | .var v => m.Plain v.id
  | .block vs _ => (∀ v ∈ vs, m.Declarable v) ∧ m.Ground r
  | .assign _ t _ => ∀ v, t.asVar? = some v → m.Plain v.id
  | .protect _ hs _ _ => ∀ h ∈ hs, ∀ v, h.var = some v → m.Plain v.id
  | .label l _ => m.Plain l.id
  | .lambda _ ps _ _ _ => ∀ v ∈ ps, m.Bound v
  | _ => True

/-- A statement of the block that opens an instance, next to the stores of the machine. -/
def Simple : Expr → Prop
  | .node _ _ _ d =>
    match d with
    | .constant _ | .default | .var _ | .call _ _ | .methodCall _ _ _ | .unary _ _ _ => True
    | .assign _ _ v =>
      v.hasKind .call = true ∨ v.hasKind .methodCall = true ∨ v.hasKind .unary = true
    | _ => False
  | .absent => False

/-- Sets up a slot of a new instance. -/
def Opens (x : Expr) : Prop := Puts m.state (Number (· = 0)) x ∨ Puts m.resume (Number (· = -1)) x

/-- The call that runs the dispatch loop for the first time. -/
def Starts : Expr → Prop
  | .node _ _ _ (.call f []) => m.IsContinuation f
  | _ => False

/-- The store of the function that runs the dispatch loop. -/
def Closes (L x : Expr) : Prop :=
  ∃ i r t i' r' t', x = .node i r t (.assign .plain (.node i' r' t' (.var m.continuation)) L)

end Watch

/-- What a tree is for a machine. -/
inductive Role where
  /-- Code outside the machine; the machine stands in it only where it `hosts` it. -/
  | outside (hosts : Bool)
  /-- Statements of the dispatch loop. -/
  | inside (armed bare : Bool)
  /-- The block that opens an instance. -/
  | opening
  /-- The function that runs the dispatch loop, its body, the loop, the switch in it, the case for an
  unknown number and the error that it raises, and the handler of what leaves the loop. -/
  | running | guarded | turning | choosing | unknown | reporting | failing

/-- The tree treats the machine as its role asks for. -/
inductive Obeys (m : Watch) : Role → Expr → Prop
  | absent {hosts : Bool} : Obeys m (.outside hosts) .absent
  | node {hosts : Bool} {i r : Nat} {t : Ty} {d : Data Expr} (hr : operands d ≠ [] → m.Ground r)
    (hd : m.Ordinary r d) (hc : ∀ c ∈ operands d, Obeys m (.outside hosts) c) : Obeys m (.outside hosts) (.node i r t d)
  | host {i r : Nat} {t : Ty} {name : String} {params : List Var} {body : Expr} {fallible : Bool} (hr : m.Ground r) (hp : ∀ v ∈ params, m.Bound v)
    (hbody : Obeys m .opening body) :
    Obeys m (.outside true) (.node i r t (.lambda name params body .plain fallible))
  | user {armed bare : Bool} {x : Expr} (hx : Obeys m (.outside false) x) : Obeys m (.inside armed bare) x
  | raw {armed bare : Bool} {x : Expr} (hx : m.Raw x) : Obeys m (.inside armed bare) x
  | hand {armed bare : Bool} {i r : Nat} {t : Ty} {awaiter k : Expr}
    (ha : Obeys m (.outside false) awaiter) (hk : m.IsContinuation k) :
    Obeys m (.inside armed bare) (.node i r t (.methodCall awaiter "OnCompleted" [k]))
  | block {armed bare : Bool} {i r : Nat} {t : Ty} {vs : List Var} {xs : List Expr}
    (hg : m.Ground r) (hv : ∀ v ∈ vs, m.Declarable v)
    (hx : ∀ x ∈ xs, Obeys m (.inside false false) x) (hs : m.Shape armed bare .absent xs) :
    Obeys m (.inside armed bare) (.node i r t (.block vs xs))
  | conditional {armed bare : Bool} {i r : Nat} {t : Ty} {test a b : Expr}
    (ht : Obeys m (.outside false) test) (ha : Obeys m (.inside false false) a)
    (hsa : ¬ m.Special false a) (hb : Obeys m (.inside false false) b) (hsb : ¬ m.Special false b) :
    Obeys m (.inside armed bare) (.node i r t (.conditional test a b))
  | switch {armed bare : Bool} {i r : Nat} {t : Ty} {value other : Expr}
    {cases : List (List Expr × Expr)} {comparer : Option Native}
    (hv : Obeys m (.outside false) value)
    (ht : ∀ arm ∈ cases, ∀ x ∈ arm.1, Obeys m (.outside false) x)
    (ha : ∀ arm ∈ cases, Obeys m (.inside false false) arm.2)
    (hs : ∀ arm ∈ cases, ¬ m.Special false arm.2)
    (ho : Obeys m (.inside false false) other) (hso : ¬ m.Special false other) :
    Obeys m (.inside armed bare) (.node i r t (.switch value cases other comparer))
  | protect {armed bare : Bool} {i r : Nat} {t test : Ty} {ex : Var} {body handler : Expr}
    (hb : Obeys m (.inside armed false) body) (hsb : ¬ m.Special armed body) (hex : m.Plain ex.id)
    (hh : Obeys m (.inside false false) handler) (hsh : ¬ m.Special false handler) :
    Obeys m (.inside armed bare)
      (.node i r t (.protect body [⟨test, some ex, .absent, handler⟩] .absent .absent))
  | opening {i r : Nat} {t : Ty} {vs : List Var} {before after : List Expr} {loop x : Expr}
    (hr : r ≤ m.limit.refs) (hn : m.copies r) (hv : ∀ v ∈ vs, m.Declarable v ∨ m.Slotted v)
    (hb : ∀ y ∈ before, m.Opens y ∨ Watch.Simple y)
    (hbo : ∀ y ∈ before, ¬ m.Opens y → Obeys m (.outside false) y)
    (hstate : ¬ m.gone m.state.id → ∃ y ∈ before, Watch.Puts m.state (Watch.Number (· = 0)) y)
    (hresume : ¬ m.gone m.resume.id → ∃ y ∈ before, Watch.Puts m.resume (Watch.Number (· = -1)) y)
    (hx : m.Closes loop x) (hloop : Obeys m .running loop)
    (ha : ∀ y ∈ after, Watch.Simple y) (hao : ∀ y ∈ after, ¬ m.Starts y → Obeys m (.outside false) y)
    (hstart : ∃ y ∈ after, m.Starts y) :
    Obeys m .opening (.node i r t (.block vs (before ++ x :: after)))
  | running {i r : Nat} {t : Ty} {name : String} {kind : LambdaKind} {fallible : Bool} {body : Expr}
    (hbody : Obeys m .guarded body) : Obeys m .running (.node i r t (.lambda name [] body kind fallible))
  | guarded {i r : Nat} {t test : Ty} {ex : Var} {body handler : Expr} (hb : Obeys m .turning body)
    (hex : m.Plain ex.id) (hh : Obeys m .failing handler) :
    Obeys m .guarded
      (.node i r t (.protect body [⟨test, some ex, .absent, handler⟩] .absent .absent))
  | turning {i r : Nat} {brk cont : Label} {body : Expr} (hb : brk.id = m.leave)
    (hbody : Obeys m .choosing body) :
    Obeys m .turning (.node i r .void (.loop body (some brk) (some cont)))
  | choosing {i r i' r' : Nat} {t : Ty} {cases : List (List Expr × Expr)} {other : Expr}
    {armed : List Expr × Expr → Bool}
    (ht : ∀ arm ∈ cases, ∃ n test, arm.1 = [test] ∧ Watch.Number (· = n) test ∧
      (armed arm = true → m.clean n))
    (hc : ∀ arm ∈ cases, Obeys m (.inside (armed arm) true) arm.2)
    (hs : ∀ arm ∈ cases, ¬ m.Special (armed arm) arm.2)
    (hall : ∀ n, m.Known n → ∃ arm ∈ cases, ∃ test, arm.1 = [test] ∧ Watch.Number (· = n) test)
    (ho : Obeys m .unknown other) :
    Obeys m .choosing (.node i r t (.switch (.node i' r' .int (.var m.state)) cases other none))
  | unknown {i r : Nat} {t : Ty} {x : Expr} (hx : Obeys m .reporting x) :
    Obeys m .unknown (.node i r t (.throw x))
  | reporting {i r i' r' : Nat} {t t' : Ty} {f : Expr} (hf : Obeys m (.outside false) f) :
    Obeys m .reporting (.node i r t (.call f [.node i' r' t' (.var m.state)]))
  | failing {i r : Nat} {t : Ty} {vs : List Var} {x y : Expr} (hg : m.Ground r)
    (hv : ∀ v ∈ vs, m.Declarable v) (hx : m.Ends x) (hy : Obeys m (.outside false) y)
    (hsimple : Watch.Simple y) (hcalls : m.Calls false y) : Obeys m .failing (.node i r t (.block vs [x, y]))
  | failed {x : Expr} (hx : Obeys m (.outside false) x) : Obeys m .failing x

end Resumable
