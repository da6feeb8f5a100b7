import Resumable.Proofs.Ending
import Resumable.Proofs.Hidden

/-!
# `Proofs.Search`: the plain search for the handler of an error

An error looks for its handler through the protected regions around it, innermost first: the handlers of a
region in order, then its cleanup block. A filter has a say in this, and may raise an error that takes the
place of the one that is looked after. `Filters.search` is that search with nothing left out. What a filter
says may depend on what was done before it; the search carries a state along that tells, and filters are
only known by what they answer in that state.

An `Arrival` is an error that arrives at the handler that routes it. `Arrival.At` says how far the routing
has come: the variable for the error holds the error as it is now, each region's flag says whether one of
its filters has failed, and no code of the program leads to any of these slots.

**Contents**
* `Verdict`, `Filters`, `Filters.search`, `Exit`: the search and where it ends.
* `Exit.stores`: what is stored for the place where the search ends.
* `Arrival`, `Arrival.Sound`: an error that arrives, and what has to hold of the machine and the filters.
* `Arrival.Stage`, `Arrival.At`: the scope of the routing, and how far it has come.
-/

namespace Resumable

open Run

/-! ### The search -/

/-- What a filter says about an error: that it is the handler's, that it is not, or another error. -/
inductive Verdict where
  | passes
  | rejects
  | fails (e : Value)

/-- How a filter with this verdict ends. -/
def Verdict.result : Verdict → World → EStateM.Result Stop World (Option Value)
  | .passes, w => .ok (some (.ofBool true)) w
  | .rejects, w => .ok (some (.ofBool false)) w
  | .fails e, w => .error (.raised e) w

/-- What filters answer, and the state that their answers depend on; `sees` says which worlds are in a
state. -/
structure Filters (σ : Type) where
  answer : Catch → Value → σ → Verdict × σ
  sees : σ → World → Prop

/-- Where an error ends: in a handler, in the cleanup block of a region, or outside all of them. -/
inductive Exit where
  | handler (g : GuardRef) (h : Catch)
  | cleanup (g : GuardRef) (c : StateRef)
  | outside

namespace Filters

variable {σ : Type} (F : Filters σ)

/-- The handlers of a region in order: the first one that accepts the error, if any, with the error as it
is then. A filter that fails ends the search in this region. -/
def searchHandlers : List Catch → Value → σ → Option Catch × Value × σ
  | [], e, st => (none, e, st)
  | h :: hs, e, st =>
    if e.typeOf.assignableTo h.test then
      if h.filter.isAbsent then (some h, e, st)
      else
        match F.answer h e st with
        | (.passes, st) => (some h, e, st)
        | (.rejects, st) => searchHandlers hs e st
        | (.fails e, st) => (none, e, st)
    else searchHandlers hs e st

/-- The regions from the inside out: the handlers of each, then its cleanup block. -/
def search (graph : Graph) : List GuardRef → Value → σ → Exit × Value × σ
  | [], e, st => (.outside, e, st)
  | g :: outer, e, st =>
    match F.searchHandlers (graph.guard g).handlers e st, (graph.guard g).cleanup with
    | (some h, e, st), _ => (.handler g h, e, st)
    | (none, e, st), some c => (.cleanup g c, e, st)
    | (none, e, st), none => search graph outer e st

variable {F}

/-- The handler that is found is one of the region. -/
theorem mem_of_searchHandlers {hs : List Catch} {e e' : Value} {st st' : σ} {h : Catch}
    (hfound : F.searchHandlers hs e st = (some h, e', st')) : h ∈ hs := by
  fun_induction F.searchHandlers hs e st with
  | case1 => cases hfound
  | case2 => cases hfound; exact List.mem_cons_self
  | case3 => cases hfound; exact List.mem_cons_self
  | case4 _ _ _ _ _ _ _ _ ih => exact List.mem_cons_of_mem _ (ih hfound)
  | case5 => cases hfound
  | case6 _ _ _ _ _ ih => exact List.mem_cons_of_mem _ (ih hfound)

end Filters

/-! ### What is stored -/

/-- The world after values were stored into the slots of variables. -/
def World.storeAll (w : World) (env : Env) (xs : List (Var × Value)) : World :=
  xs.foldl (fun w x => (env.find? x.1).elim w fun a => w.fill a x.2) w

/-- The variable of a handler with the error as a value of its type. -/
def Catch.binding (h : Catch) (e : Value) : List (Var × Value) :=
  (h.var.map fun v => (v, e.given v.type)).toList

/-- What is stored for the place where an error ends: the error, and the number of the state to go on in. A
cleanup block is followed by the state that raises the error again. There is none when the variable of the
region or the state that comes afterwards is missing. -/
def Exit.stores (p : Plan) (s : Splitter) (e : Value) : Exit → Option (List (Var × Value))
  | .handler g h => do
    let caught ← (s.graph.guard g).caught
    return (caught, e.asError) :: h.binding e ++ [(p.stateVar, .ofInt (s.graph.idOf h.state))]
  | .cleanup g c => do
    let caught ← (s.graph.guard g).caught
    let again ← (s.graph.guard g).propagate
    return [(caught, e.asError), (p.resumeVar, .ofInt (s.graph.idOf again)), (p.stateVar, .ofInt (s.graph.idOf c))]
  | .outside => do
    let fails ← s.rethrow
    return [(p.excVar, e.asError), (p.stateVar, .ofInt (s.graph.idOf fails))]

/-! ### Errors that arrive -/

/-- An error that arrives, in a scope and a world, at a handler that binds it to `ex` and routes it. -/
structure Arrival (σ : Type) where
  plan : Plan
  splitter : Splitter
  context : List GuardRef
  ex : Var
  env : Env
  world : World
  err : Value
  /-- The types of the errors, the handlers and their variables. -/
  types : Ty → Prop
  filters : Filters σ
  /-- What the filters see in `world`. -/
  st : σ

namespace Arrival

variable {σ : Type} (A : Arrival σ)

/-- A variable of the program or the machine, which is none that the routing makes. -/
def Known (v : Var) : Prop := v.id ≤ A.splitter.supply.names ∧ v.id ≠ A.ex.id

/-- A handler of one of the regions. -/
def Handler (h : Catch) : Prop := ∃ g ∈ A.context, h ∈ (A.splitter.graph.guard g).handlers

/-- A state of the graph. -/
def Made (r : StateRef) : Prop := r < A.splitter.graph.states.size

/-- A known variable that has a slot. -/
structure Slotted (v : Var) : Prop where
  known : A.Known v
  found : ∃ a, A.env.find? v = some a

/-- A handler: its variable takes every error that its test accepts, and its filter is a tree of the
program. -/
structure SoundHandler (h : Catch) : Prop where
  state : A.Made h.state
  slotted : ∀ v, h.var = some v → A.Slotted v
  accepts : ∀ v, h.var = some v → h.test.assignableTo v.type = true
  test : A.types h.test
  type : ∀ v, h.var = some v → A.types v.type
  filter : h.filter.Every fun n => ∀ v, n.isRef v = true ∨ n.storesTo v = true → A.Known v

/-- What filters see is no matter of slots that no code leads to, and no matter of what a handler's variable
holds. From a world in a state, a filter ends as it answers in that state: with true, with false or with
another error, and in a world that is in the next state. -/
structure SoundFilters : Prop where
  push : ∀ st w v x, A.filters.sees st w → A.filters.sees st (w.push v x)
  bind : ∀ h st w v a x, A.Handler h → h.var = some v → A.env.find? v = some a →
    A.filters.sees st w → A.filters.sees st (w.fill a x)
  fill : ∀ st w a x, A.world.slots.size ≤ a → w.Hides a →
    A.filters.sees st w → A.filters.sees st (w.fill a x)
  run : ∀ h e st env w, A.Handler h → h.filter.isAbsent = false → e.Raisable → A.types e.typeOf →
    e.typeOf.assignableTo h.test = true → env.caught = some A.err →
    (∀ v, A.Known v → env.find? v = A.env.find? v) →
    (∀ v a, h.var = some v → A.env.find? v = some a → w.inSlot a = e.given v.type) →
    A.filters.sees st w → ∃ w', A.filters.sees (A.filters.answer h e st).2 w' ∧
      Ends (fun c => evalAs c h.filter .bool env) w ((A.filters.answer h e st).1.result w')
  fails : ∀ h e st e', (A.filters.answer h e st).1 = .fails e' → e'.Raisable ∧ A.types e'.typeOf

/-- What has to hold of the machine, the scope, the types and the filters where an error arrives. -/
structure Sound : Prop where
  ex : A.ex.type = .error
  named : A.ex.id ≤ A.splitter.supply.names
  stateVar : A.plan.stateVar.type = .int ∧ A.Slotted A.plan.stateVar
  resumeVar : A.plan.resumeVar.type = .int ∧ A.Slotted A.plan.resumeVar
  excVar : A.plan.excVar.type = .error ∧ A.Slotted A.plan.excVar
  /-- The variable of the handle has the type that its backend is made for. -/
  cell : ∀ b v k, A.plan.target = .async b v k → v.type = b.cell
  /-- Every region has a variable that holds errors. -/
  guard : ∀ g ∈ A.context, ∃ v, (A.splitter.graph.guard g).caught = some v ∧ v.type = .error ∧ A.Slotted v
  handler : ∀ h, A.Handler h → A.SoundHandler h
  /-- Scopes lead to slots that exist. -/
  scope : ∀ v a, A.env.find? v = some a → a < A.world.slots.size
  closures : ∀ κ ∈ A.world.closures, ∀ v a, κ.env.find? v = some a → a < A.world.slots.size
  /-- Assignability is transitive on the types involved. -/
  trans : ∀ t u v, A.types t → A.types u → A.types v →
    t.assignableTo u = true → u.assignableTo v = true → t.assignableTo v = true
  error : A.types .error
  raisable : A.err.Raisable
  typed : A.types A.err.typeOf
  filters : A.SoundFilters
  sees : A.filters.sees A.st A.world

/-! ### How far the routing has come -/

/-- The error and the filters' state in the course of routing, and the flags of the regions. -/
structure Way (σ : Type) where
  err : Value
  st : σ
  failed : Var → Bool

/-- A scope of the routing: the variables of the program have the slots they had, and the variable for the
error and the flags `vs` have slots of their own. -/
structure Stage (env : Env) (vs : List Var) : Prop where
  caught : env.caught = some A.err
  known : ∀ v, A.Known v → env.find? v = A.env.find? v
  own : ∀ v ∈ A.ex :: vs, ∃ a, env.find? v = some a ∧ A.world.slots.size ≤ a
  apart : ∀ u ∈ A.ex :: vs, ∀ v ∈ A.ex :: vs, env.find? u = env.find? v → u = v
  fresh : ∀ v ∈ vs, A.splitter.supply.names < v.id

/-- The world is as far as `y` says. -/
structure At (env : Env) (vs : List Var) (y : Way σ) (w : World) : Prop where
  raisable : y.err.Raisable
  typed : A.types y.err.typeOf
  sees : A.filters.sees y.st w
  hides : ∀ v ∈ A.ex :: vs, ∀ a, env.find? v = some a → w.Hides a
  err : ∀ a, env.find? A.ex = some a → w.inSlot a = y.err.asError
  failed : ∀ v ∈ vs, ∀ a, env.find? v = some a → w.inSlot a = .ofBool (y.failed v)

/-- The filters see the world in a state, and the slots that were there when the error arrived are there. -/
structure Seen (st : σ) (w : World) : Prop where
  sees : A.filters.sees st w
  size_le : A.world.slots.size ≤ w.slots.size

end Arrival

/-! ### Stores and hidden slots -/

section
variable {w w' : World} {a b : Nat} {x : Value}

theorem World.Hides.fill (h : w.Hides a) (b : Nat) (x : Value) : (w.fill b x).Hides a := by
  refine ⟨?_, h.closures⟩
  rw [World.size_fill]
  exact h.bounded

theorem World.Hides.push (h : w.Hides a) (v : Var) (x : Value) : (w.push v x).Hides a := by
  refine ⟨?_, h.closures⟩
  show a < (w.slots.push _).size
  rw [Array.size_push]
  exact Nat.lt_succ_of_lt h.bounded

theorem Spares.push (w : World) (v : Var) (x : Value) : Spares a w (w.push v x) := by
  intro h
  refine ⟨h.push v x, ?_⟩
  show (w.slots.push _)[a]? = _
  rw [Array.getElem?_push, if_neg (Nat.ne_of_lt h.bounded)]

theorem Spares.fill (w : World) (x : Value) (hb : b ≠ a) : Spares a w (w.fill b x) :=
  fun h => ⟨h.fill b x, Array.getElem?_setIfInBounds_ne hb⟩

theorem Spares.inSlot (h : Spares a w w') (ha : w.Hides a) : w'.inSlot a = w.inSlot a := by
  have := (h ha).2
  simp only [World.inSlot, Array.getD_eq_getD_getElem?, this]

/-- What a computation is known to leave alone is as it was where the computation ends. -/
theorem Ends.spares {f : Calls → Run (Option Value)} {v : Verdict} (h : Ends f w (v.result w'))
    (hf : ∀ n, Runs (Spares a) (f (Calls.level n))) : Spares a w w' := by
  obtain ⟨n₀, h⟩ := h
  have hleft := (hf n₀).left w
  cases v with
  | fails e => rwa [Run.left_error (h n₀ le_rfl)] at hleft
  | _ => rwa [Run.left_ok (h n₀ le_rfl)] at hleft

end

namespace Arrival

variable {σ : Type} {A : Arrival σ} {env : Env} {vs : List Var} {y : Way σ} {w w' : World} {v : Var}
  {h : Catch} {a b : Nat} {x e : Value}

namespace Stage

theorem ne_ex (hs : A.Stage env vs) (hA : A.Sound) (hv : v ∈ vs) : v ≠ A.ex := by
  rintro rfl
  exact absurd hA.named (Nat.not_le_of_lt (hs.fresh _ hv))

theorem exSlot (hs : A.Stage env vs) : ∃ a, env.find? A.ex = some a ∧ A.world.slots.size ≤ a :=
  hs.own A.ex List.mem_cons_self

theorem size_le (hs : A.Stage env vs) (hv : v ∈ A.ex :: vs) (ha : env.find? v = some a) :
    A.world.slots.size ≤ a := by
  obtain ⟨b, hb, hle⟩ := hs.own v hv
  rw [ha] at hb
  cases hb
  exact hle

/-- The slots of known variables are others than those of the routing. -/
theorem ne_of_known (hs : A.Stage env vs) (hA : A.Sound) (hb : A.env.find? v = some b) {u : Var}
    (hu : u ∈ A.ex :: vs) (ha : env.find? u = some a) : b ≠ a :=
  Nat.ne_of_lt (Nat.lt_of_lt_of_le (hA.scope v b hb) (hs.size_le hu ha))

theorem find?_slotted (hs : A.Stage env vs) (hv : A.Slotted v) :
    ∃ a, A.env.find? v = some a ∧ env.find? v = some a := by
  obtain ⟨a, ha⟩ := hv.found
  exact ⟨a, ha, (hs.known v hv.known).trans ha⟩

/-- The slots of the routing are hidden from filters. -/
theorem filter_misses (hs : A.Stage env vs) (hA : A.Sound) (hh : A.Handler h) (hv : v ∈ A.ex :: vs)
    (ha : env.find? v = some a) : h.filter.Misses env a := by
  intro n hn u hu hfind
  have hknown := (hA.handler h hh).filter n hn u hu
  rw [hs.known u hknown] at hfind
  exact hs.ne_of_known hA hfind hv ha rfl

end Stage

namespace At

theorem seen (hy : A.At env vs y w) (hs : A.Stage env vs) : A.Seen y.st w := by
  obtain ⟨a, ha, hle⟩ := hs.exSlot
  exact ⟨hy.sees, hle.trans (hy.hides A.ex List.mem_cons_self a ha).bounded.le⟩

/-- What leaves the slots of the routing alone leads to the next state of the filters. -/
theorem spared (hy : A.At env vs y w) {st : σ} (hst : A.filters.sees st w')
    (hw : ∀ v ∈ A.ex :: vs, ∀ a, env.find? v = some a → Spares a w w') :
    A.At env vs { y with st := st } w' where
  raisable := hy.raisable
  typed := hy.typed
  sees := hst
  hides v hv a ha := (hw v hv a ha (hy.hides v hv a ha)).1
  err a ha := by
    have hex : A.ex ∈ A.ex :: vs := List.mem_cons_self
    rw [(hw A.ex hex a ha).inSlot (hy.hides A.ex hex a ha)]
    exact hy.err a ha
  failed v hv a ha := by
    have hmem : v ∈ A.ex :: vs := List.mem_cons_of_mem _ hv
    rw [(hw v hmem a ha).inSlot (hy.hides v hmem a ha)]
    exact hy.failed v hv a ha

theorem push (hy : A.At env vs y w) (hA : A.Sound) (u : Var) (x : Value) : A.At env vs y (w.push u x) :=
  hy.spared (hA.filters.push _ _ _ _ hy.sees) fun _ _ _ _ => .push w u x

/-- The variable of a handler may be stored into. -/
theorem bind (hy : A.At env vs y w) (hA : A.Sound) (hs : A.Stage env vs) (hh : A.Handler h) (hv : h.var = some v)
    (hb : A.env.find? v = some b) (x : Value) : A.At env vs y (w.fill b x) :=
  hy.spared (hA.filters.bind _ _ _ _ _ _ hh hv hb hy.sees) fun _ hu _ ha =>
    .fill w x (hs.ne_of_known hA hb hu ha)

/-- Another error takes the place of the one that is looked after. -/
theorem replace (hy : A.At env vs y w) (hA : A.Sound) (hs : A.Stage env vs) (ha : env.find? A.ex = some a)
    (he : e.Raisable) (ht : A.types e.typeOf) : A.At env vs { y with err := e } (w.fill a e.asError) where
  raisable := he
  typed := ht
  sees := hA.filters.fill _ _ _ _ (hs.size_le List.mem_cons_self ha) (hy.hides _ List.mem_cons_self a ha) hy.sees
  hides v hv b hb := (hy.hides v hv b hb).fill a _
  err b hb := by
    rw [ha] at hb
    cases hb
    exact World.inSlot_fill_same (hy.hides _ List.mem_cons_self a ha).bounded
  failed v hv b hb := by
    have hne : a ≠ b := by
      intro heq
      have hfind : env.find? v = env.find? A.ex := by rw [hb, ha, heq]
      exact hs.ne_ex hA hv (hs.apart v (List.mem_cons_of_mem _ hv) A.ex List.mem_cons_self hfind)
    rw [World.inSlot_fill_ne hne]
    exact hy.failed v hv b hb

/-- The flag of a region is set. -/
theorem skip (hy : A.At env vs y w) (hA : A.Sound) (hs : A.Stage env vs) (hv : v ∈ vs)
    (ha : env.find? v = some a) :
    A.At env vs { y with failed := Function.update y.failed v true } (w.fill a (.ofBool true)) where
  raisable := hy.raisable
  typed := hy.typed
  sees := hA.filters.fill _ _ _ _ (hs.size_le (List.mem_cons_of_mem _ hv) ha)
    (hy.hides _ (List.mem_cons_of_mem _ hv) a ha) hy.sees
  hides u hu b hb := (hy.hides u hu b hb).fill a _
  err b hb := by
    have hne : a ≠ b := by
      intro heq
      have hfind : env.find? v = env.find? A.ex := by rw [hb, ha, heq]
      exact hs.ne_ex hA hv (hs.apart v (List.mem_cons_of_mem _ hv) A.ex List.mem_cons_self hfind)
    rw [World.inSlot_fill_ne hne]
    exact hy.err b hb
  failed u hu b hb := by
    by_cases heq : u = v
    · subst heq
      rw [ha] at hb
      cases hb
      rw [World.inSlot_fill_same (hy.hides _ (List.mem_cons_of_mem _ hv) a ha).bounded]
      dsimp only
      rw [Function.update_self]
    · have hne : a ≠ b := by
        intro hab
        have hfind : env.find? u = env.find? v := by rw [hb, ha, hab]
        exact heq (hs.apart u (List.mem_cons_of_mem _ hu) v (List.mem_cons_of_mem _ hv) hfind)
      rw [World.inSlot_fill_ne hne]
      dsimp only
      rw [Function.update_of_ne heq]
      exact hy.failed u hu b hb

/-- A filter answers, and leaves the slots of the routing alone. -/
theorem answer (hy : A.At env vs y w) (hA : A.Sound) (hs : A.Stage env vs) (hh : A.Handler h)
    (hf : h.filter.isAbsent = false) (haccepts : y.err.typeOf.assignableTo h.test = true)
    (hbound : ∀ v a, h.var = some v → A.env.find? v = some a → w.inSlot a = y.err.given v.type) :
    ∃ w', Ends (fun c => evalAs c h.filter .bool env) w ((A.filters.answer h y.err y.st).1.result w') ∧
      A.At env vs { y with st := (A.filters.answer h y.err y.st).2 } w' := by
  obtain ⟨w', hst, hends⟩ := hA.filters.run h y.err y.st env w hh hf hy.raisable hy.typed haccepts hs.caught
    hs.known hbound hy.sees
  refine ⟨w', hends, hy.spared hst fun v hv a ha => ?_⟩
  exact hends.spares (evalAs_spares (hs.filter_misses hA hh hv ha) .bool)

end At

end Arrival

end Resumable
