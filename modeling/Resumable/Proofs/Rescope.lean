import Resumable.Proofs.Moving

/-!
# `Proofs.Rescope`: moving variables keeps the meaning of a tree

Rescoping makes an image of a tree, and leaving the tree as it is makes one too. Both images follow the exact
evaluation of the tree, so both end as it does. Where every variable that is stored is read somewhere, no
store is dropped, and the exact evaluation is the usual one.

**Contents**
* `SameEnd`: runs that end the same way.
* `evalClosed_agree`: a closed tree and its image, evaluated from outside.
* `rescope_preserves_evaluation`: a tree and what rescoping makes of it.
* `Calls.exact_eq_level`: where nothing is dropped nothing is given up.
-/

namespace Resumable

open Run Scopes
open Resumable.Expr hiding operands

variable {α : Type}

/-! ### Ends of runs -/

/-- Whether a run ended because its fuel was used up. -/
def gaveUp : EStateM.Result Stop World α → Bool
  | .error .exhausted _ => true
  | _ => false

/-- Two runs that end the same way: with the same value or for the same reason, in worlds that differ in the
slots of variables and in the trail only. -/
inductive SameEnd : EStateM.Result Stop World α → EStateM.Result Stop World α → Prop
  | value (a : α) {w w' : World} (peer : w.Peer w') : SameEnd (.ok a w) (.ok a w')
  | stop (s : Stop) {w w' : World} (peer : w.Peer w') : SameEnd (.error s w) (.error s w')

/-- Two peers of one world are peers. -/
theorem World.Peer.both {w u u' : World} (h : w.Peer u) (h' : w.Peer u') : u.Peer u' where
  rest := by
    have hu := h.rest
    have hu' := h'.rest
    rw [hu] at *
    exact hu'
  closures := by
    rw [h.rest]
    exact h.closures

theorem SameEnd.both {r u u' : EStateM.Result Stop World α} (h : SameEnd r u) (h' : SameEnd r u') :
    SameEnd u u' := by
  cases h with
  | value a peer =>
    cases h' with
    | value _ peer' => exact .value a (peer.both peer')
  | stop s peer =>
    cases h' with
    | stop _ peer' => exact .stop s (peer.both peer')

/-- Computations that do the same end the same way, unless the fuel is used up. -/
theorem Agree.sameEnd {I : World → World → Prop} [Lax I] {x y : Run α} (h : Agree I x y) {w w' : World}
    (hw : I w w') (hx : gaveUp (x w) = false) : SameEnd (x w) (y w') := by
  have hrun := h.follows w w' hw
  cases hxw : x w with
  | ok a v =>
    rw [hxw] at hrun
    obtain ⟨b, v', hy, rfl, hv⟩ := hrun
    rw [hy]
    exact .value a (Lax.peer hv)
  | error s v =>
    rw [hxw] at hrun hx
    have hs : s ≠ .exhausted := by
      rintro rfl
      cases hx
    obtain ⟨v', hy, hv⟩ := hrun.resolve_left hs
    rw [hy]
    exact .stop s (Lax.peer hv)

/-! ### Closed trees -/

variable {p q : Placement} {e e' : Expr} {n m : Nat}

/-- With nothing in scope, no slots stand for one another. -/
def Bond.empty : Bond where
  pairs _ _ := False
  left := 0
  right := 0
  bounded := False.elim
  injective := fun h => h.elim

theorem Bond.empty_holds {w w' : World} (h : w.Peer w') : Bond.empty.Holds w w' :=
  ⟨h, Nat.zero_le _, Nat.zero_le _, False.elim⟩

theorem suits_empty (e : Expr) : Suits .empty [] [] e {} {} where
  shared h := absurd h.1 List.not_mem_nil
  loose h := absurd h.1 List.not_mem_nil
  apart h := absurd h.1 List.not_mem_nil
  waiting := False.elim
  apart' := False.elim
  caught := rfl

/-- A closed tree is no dropped store, and its image goes by its name. -/
theorem Scopes.Image.alias_of_closed (h : Image p e e') (he : e.ClosedIn []) : Alias e e' := by
  cases h with
  | absent => exact ⟨rfl, rfl⟩
  | node _ alike => exact ⟨rfl, by cases alike <;> rfl⟩
  | @drop _ _ _ _ v drops =>
    obtain ⟨_, i, r, t, j, s, u, rfl⟩ := drops?_eq_some drops
    exact absurd (closedIn_use (v := v) he (by simp [touches, isRef, storesTo, asVar?])) List.not_mem_nil

/-- **Evaluating the image of a closed tree** follows the exact evaluation of the tree. -/
theorem evalClosed_agree (h : Sound p q e) (hi : Image p e e') (hnm : n ≤ m) :
    Agree Bond.empty.Holds (evalClosed (Calls.exact q e n) e) (evalClosed (Calls.level m) e') := by
  have hrun := simulates h hnm hi (Stands.start h.tame) (suits_empty e)
  have halias := hi.alias_of_closed h.tame.closed
  unfold evalClosed
  refine Agree.bind ?_ fun u => inferInstance
  unfold top
  refine hrun.attempt_bind (fun u => inferInstance) (fun s => ?_) rfl
  cases s with
  | jump l u =>
    dsimp only
    rw [halias.unsupported]
    exact inferInstanceAs (Agree _ (throw _) (throw _))
  | _ => infer_instance

theorem placement_sound (h : Tame e) (ignore : List Var)
    (ht : ((scopes ignore e).placement ignore).Typed e) :
    Sound ((scopes ignore e).placement ignore) ((scopes ignore e).placement ignore) e :=
  ⟨h, placement_plan h.toScoped ignore, ht, List.Subset.refl _⟩

/-- Leaving everything where it is drops nothing that another placement does not drop. -/
theorem stay_sound (h : Tame e) (ht : q.Typed e) : Sound .stay q e :=
  ⟨h, stay_plan h.toScoped, ht, List.nil_subset _⟩

/-- **Rescoping makes an image of a tree**, and never fails. -/
theorem rescope_image (ignore : List Var) (h : Tame e) {supply : Supply}
    (hrefs : ∀ n ∈ e.allNodes, n.ref ≤ supply.refs) :
    ∃ e' supply', e.rescope ignore supply = .ok e' supply' ∧ Image ((scopes ignore e).placement ignore) e e' := by
  have hmakes := apply_image (p := (scopes ignore e).placement ignore) h.coherent hrefs e fun _ => id
  obtain ⟨e', supply', hrun, -, hi, -⟩ := hmakes supply le_rfl
  exact ⟨e', supply', hrun, hi⟩

/-- A tree and its image both end as the exact evaluation of the tree does. -/
theorem sameEnd_of_image (h : Tame e) {ignore : List Var} (ht : ((scopes ignore e).placement ignore).Typed e)
    (hi : Image ((scopes ignore e).placement ignore) e e') (hnm : n ≤ m) {w : World} (hw : w.closures = #[])
    (hends : gaveUp (evalClosed (Calls.exact ((scopes ignore e).placement ignore) e n) e w) = false) :
    SameEnd (evalClosed (Calls.exact ((scopes ignore e).placement ignore) e n) e w)
        (evalClosed (Calls.level m) e w) ∧
      SameEnd (evalClosed (Calls.level m) e w) (evalClosed (Calls.level m) e' w) := by
  have hpeer : Bond.empty.Holds w w := Bond.empty_holds ⟨rfl, hw⟩
  have hbefore := (evalClosed_agree (stay_sound h ht) (stay_image e) hnm).sameEnd hpeer hends
  have hafter := (evalClosed_agree (placement_sound h ignore ht) hi hnm).sameEnd hpeer hends
  exact ⟨hbefore, hbefore.both hafter⟩

/-- Trees in which numbers tell all nodes and all variables apart. -/
theorem Scopes.Tame.of_nodup (closed : e.ClosedIn [])
    (hplain : ∀ n ∈ e.allNodes, n.hasKind .lambda = false ∧ n.hasKind .label = false)
    (hrefs : (e.allNodes.map ref).Nodup) (hids : ((e.declarations ++ e.caughtVars).map Var.id).Nodup) : Tame e where
  closed := closed
  plain n hn := (hplain n hn).1
  once := (List.nodup_append.mp (List.Nodup.of_map _ hids)).1
  apart _ hv hd := List.disjoint_of_nodup_append (List.Nodup.of_map _ hids) hd hv
  coherent _ ha _ hb hsame := List.inj_on_of_nodup_map hrefs ha hb (ref_eq_of_same hsame)
  unlabelled n hn := (hplain n hn).2
  named _ hv _ hu hid := List.inj_on_of_nodup_map hids hv hu hid

/-! ### The theorem -/

/-- **Rescoping keeps the meaning of a tree.** Take a closed tree without labels and closures, in which every
variable is declared at one place and none is bound by a handler too, and any variables to ignore. Rescoping
makes a tree. When the exact evaluation of the first one ends, then so does the evaluation of both, in the
same way and in worlds with the same log, store and all else but slots. -/
theorem rescope_preserves_evaluation (e : Expr) (ignore : List Var) (supply : Supply) (h : Tame e)
    (hrefs : ∀ n ∈ e.allNodes, n.ref ≤ supply.refs)
    (ht : ((scopes ignore e).placement ignore).Typed e) :
    ∃ e' supply', e.rescope ignore supply = .ok e' supply' ∧ ∀ {n m : Nat} {w : World}, n ≤ m →
      w.closures = #[] →
      gaveUp (evalClosed (Calls.exact ((scopes ignore e).placement ignore) e n) e w) = false →
      SameEnd (evalClosed (Calls.exact ((scopes ignore e).placement ignore) e n) e w)
          (evalClosed (Calls.level m) e w) ∧
        SameEnd (evalClosed (Calls.level m) e w) (evalClosed (Calls.level m) e' w) := by
  obtain ⟨e', supply', hrun, hi⟩ := rescope_image ignore h hrefs
  exact ⟨e', supply', hrun, fun hnm hw hends => sameEnd_of_image h ht hi hnm hw hends⟩

/-- One variable is stored in vain, and another one is stored and read in a loop alone. -/
def storesAway : Expr :=
  let x : Var := ⟨1, "x", .int⟩
  let y : Var := ⟨2, "y", .int⟩
  let out : Label := ⟨3, "out", .int⟩
  .node 11 11 .int (.block [x, y] [
    .node 3 3 .int (.assign .plain (.node 1 1 .int (.var y)) (.node 2 2 .int (.constant (some (.ofInt 7))))),
    .node 10 10 .int (.loop (.node 9 9 .void (.block [] [
      .node 6 6 .int (.assign .plain (.node 4 4 .int (.var x)) (.node 5 5 .int (.constant (some (.ofInt 1))))),
      .node 8 8 .void (.goto .brk out (.node 7 7 .int (.var x)))])) (some out) none)])

theorem storesAway_tame : Tame storesAway := by
  refine .of_nodup (.block ?_) (by decide +kernel) (by decide +kernel) (by decide +kernel)
  refine List.forall_mem_cons.mpr ⟨closedIn_store (by simp) (closedIn_constant _), List.forall_mem_singleton.mpr ?_⟩
  refine closedIn_other (by simp [Data.kind]) (by simp [Data.kind]) (List.forall_mem_singleton.mpr (.block ?_))
  refine List.forall_mem_cons.mpr ⟨closedIn_store (by simp) (closedIn_constant _), List.forall_mem_singleton.mpr ?_⟩
  exact closedIn_other (by simp [Data.kind]) (by simp [Data.kind]) (List.forall_mem_singleton.mpr (closedIn_var (by simp)))

theorem rescope_preserves_evaluation_storesAway :
    ∃ e' supply', storesAway.rescope [] ⟨11, 3, 11⟩ = .ok e' supply' ∧
      gaveUp (evalClosed (Calls.level 9) storesAway .initial) = false ∧
      SameEnd (evalClosed (Calls.level 9) storesAway .initial) (evalClosed (Calls.level 9) e' .initial) := by
  obtain ⟨e', supply', hrun, hsame⟩ := rescope_preserves_evaluation storesAway [] ⟨11, 3, 11⟩ storesAway_tame
    (by decide +kernel) (by decide +kernel)
  exact ⟨e', supply', hrun, by decide +kernel, (hsame (n := 9) le_rfl rfl (by decide +kernel)).2⟩

/-! ### Where rescoping makes a difference -/

/-- What is stored in vain is not of the type that it is said to have. -/
def beliedStore : Expr :=
  let x : Var := ⟨1, "x", .int⟩
  .node 5 5 .int (.block [x] [
    .node 3 3 .int (.assign .plain (.node 1 1 .int (.var x)) (.node 2 2 .int (.constant (some (.ofText "s"))))),
    .node 4 4 .int (.constant (some (.ofInt 5)))])

/-- A store in vain stands where a truth value is needed. -/
def testedStore : Expr :=
  let x : Var := ⟨1, "x", .int⟩
  .node 7 7 .int (.block [x] [
    .node 6 6 .int (.conditional
      (.node 3 3 .int (.assign .plain (.node 1 1 .int (.var x)) (.node 2 2 .int (.constant (some (.ofInt 5))))))
      (.node 4 4 .int (.constant (some (.ofInt 1)))) (.node 5 5 .int (.constant (some (.ofInt 2)))))])

/-- The variable that is stored in vain can hold no value. -/
def voidStore : Expr :=
  let x : Var := ⟨1, "x", .void⟩
  .node 5 5 .int (.block [x] [
    .node 3 3 .void (.assign .plain (.node 1 1 .void (.var x)) (.node 2 2 .int (.constant (some (.ofInt 5))))),
    .node 4 4 .int (.constant (some (.ofInt 1)))])

/-- What runs on every exit is a store without a value. -/
def emptyStore : Expr :=
  let x : Var := ⟨1, "x", .int⟩
  .node 5 5 .int (.block [x] [
    .node 4 4 .int (.protect (.node 1 1 .int (.constant (some (.ofInt 1)))) []
      (.node 3 3 .int (.assign .plain (.node 2 2 .int (.var x)) .absent)) .absent)])

/-- None of these trees has labels or closures, and no node, variable or handler of theirs stands twice. -/
theorem samples_apart : ∀ e ∈ [beliedStore, testedStore, voidStore, emptyStore],
    (∀ n ∈ e.allNodes, n.hasKind .lambda = false ∧ n.hasKind .label = false) ∧ (e.allNodes.map ref).Nodup ∧
      ((e.declarations ++ e.caughtVars).map Var.id).Nodup := by
  decide +kernel

theorem beliedStore_tame : Tame beliedStore := by
  obtain ⟨hplain, hrefs, hids⟩ := samples_apart beliedStore (by simp)
  refine .of_nodup (.block ?_) hplain hrefs hids
  exact List.forall_mem_cons.mpr ⟨closedIn_store (by simp) (closedIn_constant _),
    List.forall_mem_singleton.mpr (closedIn_constant _)⟩

theorem testedStore_tame : Tame testedStore := by
  obtain ⟨hplain, hrefs, hids⟩ := samples_apart testedStore (by simp)
  refine .of_nodup (.block (List.forall_mem_singleton.mpr ?_)) hplain hrefs hids
  refine closedIn_other (by simp [Data.kind]) (by simp [Data.kind]) ?_
  simp only [Expr.operands, List.mem_cons, List.not_mem_nil, or_false, forall_eq_or_imp, forall_eq]
  exact ⟨closedIn_store (by simp) (closedIn_constant _), closedIn_constant _, closedIn_constant _⟩

theorem voidStore_tame : Tame voidStore := by
  obtain ⟨hplain, hrefs, hids⟩ := samples_apart voidStore (by simp)
  refine .of_nodup (.block ?_) hplain hrefs hids
  exact List.forall_mem_cons.mpr ⟨closedIn_store (by simp) (closedIn_constant _),
    List.forall_mem_singleton.mpr (closedIn_constant _)⟩

theorem emptyStore_tame : Tame emptyStore := by
  obtain ⟨hplain, hrefs, hids⟩ := samples_apart emptyStore (by simp)
  refine .of_nodup (.block (List.forall_mem_singleton.mpr ?_)) hplain hrefs hids
  exact .protect (closedIn_constant _) (by simp) (by simp) (closedIn_store (by simp) .absent) .absent

/-- How a run ended: whether it returned, and which node was refused. -/
def ending : EStateM.Result Stop World α → Bool × Option Nat
  | .ok _ _ => (true, none)
  | .error (.raised (.refusal r)) _ => (false, some r.node)
  | .error _ _ => (false, none)

theorem SameEnd.ending_eq {r r' : EStateM.Result Stop World α} (h : SameEnd r r') : ending r = ending r' := by
  cases h with
  | value => rfl
  | stop s =>
    cases s with
    | raised u => cases u <;> rfl
    | _ => rfl

/-- The tree and what rescoping makes of it end, but not in the same way. -/
def EndsElsewhere (e : Expr) : Prop :=
  ∃ e' supply', e.rescope [] ⟨9, 1, 9⟩ = .ok e' supply' ∧
    gaveUp (evalClosed (Calls.level 9) e .initial) = false ∧
    gaveUp (evalClosed (Calls.level 9) e' .initial) = false ∧
    ¬ SameEnd (evalClosed (Calls.level 9) e .initial) (evalClosed (Calls.level 9) e' .initial)

theorem endsElsewhere_of_ending (h : (match e.rescope [] ⟨9, 1, 9⟩ with
      | .ok e' _ =>
        let r := evalClosed (Calls.level 9) e .initial
        let r' := evalClosed (Calls.level 9) e' .initial
        !gaveUp r && !gaveUp r' && ending r != ending r'
      | .error _ _ => false) = true) : EndsElsewhere e := by
  split at h
  · rename_i e' supply' hrun
    simp only [Bool.and_eq_true, Bool.not_eq_true', bne_iff_ne] at h
    exact ⟨e', supply', hrun, h.1.1, h.1.2, fun hsame => h.2 hsame.ending_eq⟩
  · cases h

/-- A store that is dropped makes a difference when its value is not of its static type, when it is refused
itself, when its variable can hold nothing and when it has no value. -/
theorem dropped_store_matters :
    (Tame beliedStore ∧ EndsElsewhere beliedStore) ∧ (Tame testedStore ∧ EndsElsewhere testedStore) ∧
      (Tame voidStore ∧ EndsElsewhere voidStore) ∧ (Tame emptyStore ∧ EndsElsewhere emptyStore) :=
  ⟨⟨beliedStore_tame, endsElsewhere_of_ending (by decide +kernel)⟩,
    ⟨testedStore_tame, endsElsewhere_of_ending (by decide +kernel)⟩,
    ⟨voidStore_tame, endsElsewhere_of_ending (by decide +kernel)⟩,
    ⟨emptyStore_tame, endsElsewhere_of_ending (by decide +kernel)⟩⟩

/-! ### Nothing dropped -/

/-- A placement that drops no variable drops no store. -/
theorem Scopes.Placement.drops?_eq_none (hp : p.dropped = []) (e : Expr) : p.drops? e = none := by
  cases hd : p.drops? e with
  | none => rfl
  | some d =>
    obtain ⟨v, val⟩ := d
    have hmem := (drops?_eq_some hd).1
    rw [hp] at hmem
    cases hmem

/-- A plan that drops nothing blames nothing. -/
theorem Scopes.Placement.evalExact_eq (hp : p.dropped = []) (root : Expr) (c : Calls) (e : Expr) (ρ : Env) :
    p.evalExact root c e ρ = evalNode c e ρ := by
  have hguard : p.guarded c e = c := by
    unfold guarded
    rw [drops?_eq_none hp]
  have hblame (s : Stop) : p.blames root s = false := by
    unfold blames
    split
    · simp [drops?_eq_none hp]
    · rfl
  unfold evalExact
  rw [hguard]
  simp only [hblame, Bool.false_eq_true, if_false]
  funext w
  change EStateM.bind (attempt _) _ w = _
  unfold EStateM.bind attempt
  cases evalNode c e ρ w <;> rfl

/-- Where nothing is dropped, the exact evaluator is the usual one. -/
theorem Calls.exact_eq_level (hp : p.dropped = []) (root : Expr) (n : Nat) : exact p root n = level n := by
  induction n with
  | zero => rfl
  | succ n ih =>
    rw [exact, level, ih]
    congr 1
    funext e ρ
    exact Placement.evalExact_eq hp root (level n) e ρ

/-- A tree that reads every variable that it declares means the same after rescoping, with no more said
about its stores. -/
theorem rescope_of_read (ignore : List Var) (h : Tame e) {supply : Supply}
    (hrefs : ∀ n ∈ e.allNodes, n.ref ≤ supply.refs) (hread : ((scopes ignore e).placement ignore).dropped = []) :
    ∃ e' supply', e.rescope ignore supply = .ok e' supply' ∧ ∀ {n : Nat} {w : World}, w.closures = #[] →
      gaveUp (evalClosed (Calls.level n) e w) = false →
      SameEnd (evalClosed (Calls.level n) e w) (evalClosed (Calls.level n) e' w) := by
  obtain ⟨e', supply', hrun, hi⟩ := rescope_image ignore h hrefs
  have ht : ((scopes ignore e).placement ignore).Typed e := fun x _ v d hd => by
    rw [Placement.drops?_eq_none hread] at hd
    cases hd
  refine ⟨e', supply', hrun, fun {n w} hw hends => ?_⟩
  rw [← Calls.exact_eq_level hread e] at hends
  exact (sameEnd_of_image h ht hi le_rfl hw hends).2

end Resumable
