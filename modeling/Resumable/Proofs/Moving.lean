import Resumable.Proofs.Exact
import Resumable.Proofs.Standing

/-!
# `Proofs.Moving`: a tree and its image do the same

Evaluating the image of a tree follows the exact evaluation of the tree, node by node and by induction on
the fuel. A node that leaves the scope alone does the same as its image because its operands do. A block
opens scopes that go together; a variable that the image declares further in waits until the block stores
it, which it does before anything else touches it. A store that is dropped fills a loose slot, which nobody
reads.

**Contents**
* `Sound`, `Suits`, `Simulates`: what is assumed of a placement and of two scopes, and what is shown.
* `sees`: operands and their images.
* `assign_tracks`, `dropped_agree`, `block_agree`, `protect_tracks`: one rule for each form of a node that
  has to do with variables.
* `simulates`: all put together.
-/

namespace Resumable.Scopes

open Resumable.Expr Run

/-- `p` is a sound placement of the variables of a tame tree, and drops nothing that `q` does not drop. -/
structure Sound (p q : Placement) (root : Expr) : Prop where
  tame : Tame root
  plan : Plan p root
  typed : q.Typed root
  drops : p.dropped ⊆ q.dropped

/-- Scopes in which a node with `Γ` in scope before and `Δ` afterwards can do the same as its image. -/
def Suits (B : Bond) (Γ Δ : List Var) (e : Expr) (ρ ρ' : Env) : Prop :=
  Fits B (fun v => v ∈ Δ ∧ e.countRefs v ≠ 0) (fun v => v ∈ Γ ∧ v ∉ Δ) (fun _ => False) ρ ρ'

/-- With fuel `m` an image does what the tree does with fuel `n`. -/
def Simulates (p q : Placement) (root : Expr) (n m : Nat) : Prop :=
  ∀ {π Γ Δ e e' B ρ ρ'}, Image p e e' → Stands p root π Γ Δ e → Suits B Γ Δ e ρ ρ' →
    Agree B.Holds ((Calls.exact q root n).eval e ρ) ((Calls.level m).eval e' ρ')

variable {p q : Placement} {root e e' x x' y : Expr} {π : List Expr} {Γ Δ vs : List Var} {d d' : Data Expr}
  {i r r' n m : Nat} {t : Ty} {xs xs' : List Expr} {v : Var} {B : Bond} {ρ ρ' : Env}

/-! ### Mentions -/

theorem countRefs_of_touches (h : (Expr.node i r t d).touches v = true) : (Expr.node i r t d).countRefs v ≠ 0 := by
  intro hzero
  have := countRefs_eq_zero.mp hzero _ self_mem_nodes
  rw [h] at this
  cases this

theorem countRefs_of_operand (hx : x ∈ operands d) (h : x.countRefs v ≠ 0) :
    (Expr.node i r t d).countRefs v ≠ 0 := by
  intro hzero
  refine h (countRefs_eq_zero.mpr fun n hn => ?_)
  exact countRefs_eq_zero.mp hzero n (mem_allNodes_of_operand hx hn)

theorem Suits.operand (h : Suits B Γ Δ (.node i r t d) ρ ρ') (hx : x ∈ operands d) : Suits B Γ Δ x ρ ρ' :=
  Fits.mono h (fun _ hv => ⟨hv.1, countRefs_of_operand hx hv.2⟩) (fun _ => id) fun _ => id

/-! ### Dropped stores -/

/-- A store is dropped when it is a plain one into a dropped variable. -/
theorem drops?_eq_some {val : Expr} (h : p.drops? e = some (v, val)) : v ∈ p.dropped ∧
    ∃ i r t j s u, e = .node i r t (.assign .plain (.node j s u (.var v)) val) := by
  unfold Placement.drops? at h
  split at h
  · rename_i i r t target value
    split at h
    · rename_i w hw
      split at h
      · rename_i hd
        cases h
        refine ⟨by simpa using hd, i, r, t, ?_⟩
        cases target with
        | absent => cases hw
        | node j s u d =>
          cases d with
          | var w' =>
            cases hw
            exact ⟨j, s, u, rfl⟩
          | _ => cases hw
      · cases h
    · cases h
  · cases h

theorem drops?_store {j s : Nat} {u : Ty} {val : Expr} (h : v ∈ p.dropped) :
    p.drops? (.node i r t (.assign .plain (.node j s u (.var v)) val)) = some (v, val) := by
  have : p.dropped.contains v = true := by simpa using h
  simp only [Placement.drops?, asVar?]
  rw [if_pos this]

theorem drops?_mono (hsub : p.dropped ⊆ q.dropped) {s : Var × Expr} (h : p.drops? e = some s) :
    q.drops? e = some s := by
  obtain ⟨v, val⟩ := s
  obtain ⟨hv, i, r, t, j, s, u, rfl⟩ := drops?_eq_some h
  exact drops?_store (hsub hv)

/-- What is left of a tree without labels is no label. -/
theorem Image.not_label (h : Image p e y) (he : ∀ n ∈ e.allNodes, n.hasKind .label = false) :
    y.hasKind .label = false := by
  induction e using operandInduction generalizing y with
  | absent =>
    cases h with
    | absent => rfl
    | drop drops => cases drops
  | node i r t d ih =>
    have hself := he _ self_mem_nodes
    cases h with
    | node _ alike => cases alike <;> first | rfl | exact hself
    | drop drops value coerced =>
      have hmem := drops?_value drops
      cases coerced with
      | keep => exact ih _ hmem value fun n hn => he n (mem_allNodes_of_operand hmem hn)
      | convert => rfl

namespace Sound

variable (h : Sound p q root)
include h

theorem typed_of (hs : Stands p root π Γ Δ e) : p.Typed e := fun n hn x val hd =>
  h.typed n (hs.allNodes_subset hn) x val (drops?_mono h.drops hd)

theorem image (hs : Stands p root π Γ Δ e) (hi : Image p e e') :
    e'.isAbsent = e.isAbsent ∧ e'.type = e.type := hi.type_eq (h.typed_of hs)

end Sound

/-- An operand and its image. -/
theorem sees (h : Sound p q root) (hsim : Simulates p q root n m) (hs : Stands p root π Γ Δ x)
    (hi : Image p x x') (hfits : Suits B Γ Δ x ρ ρ') (e : Expr) :
    Sees (fun s => q.blames root s = true) B.Holds (q.guarded (Calls.exact q root n) e) (Calls.level m) ρ ρ' x x'
    where
  run := Placement.guarded_agree (hsim hi hs hfits)
  absent := (h.image hs hi).1
  named := by
    cases hi with
    | absent => exact Or.inl ⟨rfl, rfl⟩
    | node _ alike => exact Or.inl ⟨rfl, by cases alike <;> rfl⟩
    | drop drops =>
      have hq := drops?_mono h.drops drops
      obtain ⟨_, i, r, t, j, s, u, rfl⟩ := drops?_eq_some drops
      exact Or.inr (Placement.blames_refusal hs.mem (by rw [hq]; rfl))

/-- A node that leaves the scope alone. -/
theorem scopeless_tracks (h : Sound p q root) (hnm : n ≤ m) (hsim : Simulates p q root n m)
    (hs : Stands p root π Γ Δ (.node i r t d)) (hi : d.Alike (Image p) d')
    (hfits : Suits B Γ Δ (.node i r t d) ρ ρ') (hd : d.isScopeless = true) :
    Tracks (fun s => q.blames root s = true) B.Holds
      (evalNode (q.guarded (Calls.exact q root n) (.node i r t d)) (.node i r t d) ρ)
      (evalNode (Calls.level m) (.node i r' t d') ρ') := by
  have := Calls.exact_below (I := B.Holds) q root hnm
  have := Placement.guarded_below (p := q) (e := .node i r t d) (h := this)
  have hkind : d.kind ≠ .block ∧ d.kind ≠ .try ∧ d.kind ≠ .lambda := by
    refine ⟨?_, ?_, ?_⟩ <;> intro heq <;> simp [Data.isScopeless, heq] at hd
  refine evalNode_tracks (hi.imp fun x hx y hy => ?_) hd hfits.caught
  exact sees h hsim (hs.operand hkind hx) hy (hfits.operand hx) _

/-! ### Stores -/

/-- A variable in scope afterwards is a place on both sides. -/
theorem var_resolves {j s : Nat} {u : Ty} {blamed : Stop → Prop} {c c' : Calls} {S L W : Var → Prop}
    (hfits : Fits B S L W ρ ρ') (hv : S v) :
    Resolves blamed B c c' ρ ρ' (.node i r t (.var v)) (.node j s u (.var v)) := by
  obtain ⟨a, a', ha, ha', hp⟩ := hfits.shared hv
  unfold Resolves
  rw [place, place, ha, ha']
  exact Follows.pure fun w w' hw => ⟨⟨.slot hp, rfl, rfl⟩, hw⟩

theorem place_refuses {c : Calls} (hvar : d.kind ≠ .variable) (hfield : d.kind ≠ .field) :
    place c ρ (.node i r t d) = unsupported (.node i r t d) ("cannot assign to " ++ d.kind.text) := by
  rw [place]
  · rintro v rfl
    exact hvar rfl
  · rintro o name rfl
    exact hfield rfl

/-- The fields of objects that stand for one another are places that do. -/
theorem fieldPlace_follows {blamed : Stop → Prop} {base base' : Option Place} (he : Alias e e')
    (obj : Option Value) (name : String) (hbase : Option.Rel (Place.Alike B.pairs) base base') :
    Follows (fun s => s = .exhausted ∨ blamed s) B.Holds (fieldPlace e obj base name)
      (fieldPlace e' obj base' name) (fun p p' w w' => Place.Alike B.pairs p p' ∧ B.Holds w w') B.Holds := by
  have hrefuse : Follows (fun s => s = .exhausted ∨ blamed s) B.Holds
      (unsupported e ("field " ++ name ++ " is not settable"))
      (unsupported e' ("field " ++ name ++ " is not settable"))
      (fun p p' w w' => Place.Alike B.pairs p p' ∧ B.Holds w w') B.Holds := he.follows _
  unfold fieldPlace
  refine ((fieldOf_follows he obj name hbase).lose fun _ => Or.inl).bind fun f f' w w' hf => ?_
  obtain ⟨u, place⟩ := f
  obtain ⟨u', place'⟩ := f'
  obtain ⟨-, hrel, hw⟩ := hf
  cases hrel with
  | some hp => exact ⟨_, w', rfl, hp, hw⟩
  | none => exact hrefuse w w' hw

/-- A field is stored to through the place of its object. -/
theorem field_resolves {blamed : Stop → Prop} {c c' : Calls} {o o' : Expr} {name : String}
    (ho : Sees blamed B.Holds c c' ρ ρ' o o') (htype : o'.type = o.type) (hplace : Resolves blamed B c c' ρ ρ' o o') :
    Resolves blamed B c c' ρ ρ' (.node i r t (.field o name)) (.node i r' t (.field o' name)) := by
  have he : Alias (.node i r t (.field o name)) (.node i r' t (.field o' name)) := ⟨rfl, rfl⟩
  unfold Resolves
  rw [place, place, ho.absent, htype]
  split
  · exact Follows.throw _ fun _ _ => id
  split
  · exact Agree.follows_bind ho.run (Or.inl rfl) fun v => fieldPlace_follows he v name .none
  · refine Follows.bind hplace fun p p' w w' hp => ?_
    refine Agree.follows_bind (readPlace_agree hp.1) (Or.inl rfl) (fun v => ?_) w w' hp.2
    exact fieldPlace_follows he _ name (.some hp.1)

/-- A target and its image resolve to places that stand for one another. -/
theorem target_resolves (h : Sound p q root) (hsim : Simulates p q root n m) (e : Expr)
    (hs : Stands p root π Γ Δ x) (hi : Image p x x') (hfits : Suits B Γ Δ x ρ ρ') :
    Resolves (fun s => q.blames root s = true) B (q.guarded (Calls.exact q root n) e) (Calls.level m) ρ ρ' x x' := by
  induction x using operandInduction generalizing x' with
  | absent =>
    cases hi with
    | absent =>
      unfold Resolves
      rw [place, place]
      exact Follows.throw _ fun _ _ => id
    | drop drops => cases drops
  | node i r t d ih =>
    cases hi with
    | drop drops =>
      -- a store that is dropped is refused as a target, so the run is blamed on it
      have hq := drops?_mono h.drops drops
      obtain ⟨_, i, r, t, j, s, u, heq⟩ := drops?_eq_some drops
      cases heq
      unfold Resolves
      rw [place_refuses (by simp [Data.kind]) (by simp [Data.kind])]
      exact Follows.giveUp (Or.inr (Placement.blames_refusal hs.mem (by rw [hq]; rfl) _ _))
    | @node _ _ r' _ _ d' stays alike =>
      have he : Alias (.node i r t d) (.node i r' t d') := ⟨rfl, by cases alike <;> rfl⟩
      -- only variables and fields have a place
      by_cases hvar : d.kind = .variable
      · cases alike with
        | var v =>
          have htouch : (Expr.node i r t (.var v)).touches v = true := by simp [touches, isRef, asVar?]
          exact var_resolves hfits ⟨hs.shared h.plan htouch (by simp [plainlyStores]), countRefs_of_touches htouch⟩
        | _ => cases hvar
      by_cases hfield : d.kind = .field
      · cases alike with
        | @field o o' name object =>
          have hmem : o ∈ operands (.field o name) := List.mem_singleton_self _
          have hso := hs.operand (by simp [Data.kind]) hmem
          exact field_resolves (sees h hsim hso object (hfits.operand hmem) e) (h.image hso object).2
            (ih _ hmem hso object (hfits.operand hmem))
        | _ => cases hfield
      have hkind : d'.kind = d.kind := by cases alike <;> rfl
      unfold Resolves
      rw [place_refuses hvar hfield, place_refuses (hkind ▸ hvar) (hkind ▸ hfield), hkind]
      exact he.follows _

/-- A store that is kept. -/
theorem assign_tracks (h : Sound p q root) (hsim : Simulates p q root n m) {op : AssignOp}
    {target target' val val' : Expr}
    (hs : Stands p root π Γ Δ (.node i r t (.assign op target val)))
    (stays : p.drops? (.node i r t (.assign op target val)) = none)
    (field : target.hasKind .field = true → Image p target target')
    (other : target.hasKind .field = false → target' = target) (value : Image p val val')
    (hfits : Suits B Γ Δ (.node i r t (.assign op target val)) ρ ρ') :
    Tracks (fun s => q.blames root s = true) B.Holds
      (evalNode (q.guarded (Calls.exact q root n) (.node i r t (.assign op target val)))
        (.node i r t (.assign op target val)) ρ)
      (evalNode (Calls.level m) (.node i r' t (.assign op target' val')) ρ') := by
  have hkind : (Data.assign op target val).kind ≠ .block ∧ (Data.assign op target val).kind ≠ .try ∧
      (Data.assign op target val).kind ≠ .lambda := by simp [Data.kind]
  have hval : val ∈ operands (.assign op target val) := mem_operands_assign.mpr (Or.inr rfl)
  have hrun := (sees h hsim (hs.operand hkind hval) value (hfits.operand hval)
    (.node i r t (.assign op target val))).run
  refine evalAssign_tracks ⟨rfl, rfl⟩ ?_ hrun op
  cases htarget : target.hasKind .field with
  | true =>
    have hmem : target ∈ operands (.assign op target val) := mem_operands_assign.mpr (Or.inl ⟨htarget, rfl⟩)
    exact target_resolves h hsim _ (hs.operand hkind hmem) (field htarget) (hfits.operand hmem)
  -- a target that is no field is not rewritten
  | false =>
    rw [other htarget]
    unfold Resolves
    cases target with
    | absent =>
      rw [place, place]
      exact Follows.throw _ fun _ _ => id
    | node j s u d =>
      by_cases hvar : d.kind = .variable
      · cases d with
        | var v =>
          have htouch : (Expr.node i r t (.assign op (.node j s u (.var v)) val)).touches v = true := by
            simp [touches, isRef, storesTo, asVar?]
          refine var_resolves hfits ⟨hs.shared h.plan htouch (fun hplain hd => ?_), countRefs_of_touches htouch⟩
          cases op <;> simp only [plainlyStores, Bool.false_eq_true] at hplain
          rw [drops?_store hd] at stays
          cases stays
        | _ => cases hvar
      · have hfield : d.kind ≠ .field := by
          intro heq
          simp [hasKind, kind?, data?, heq] at htarget
        rw [place_refuses hvar hfield, place_refuses hvar hfield]
        exact Follows.throw _ fun _ _ => id

/-- A conversion to a type that has values gives one. -/
theorem convertTo_follows {I : World → World → Prop} [Lax I] (ht : t.isVoid = false) (u : Option Value) :
    Follows (· = .exhausted) I (convertTo u t) (convertTo u t)
      (fun a b w w' => a = b ∧ a.isSome = true ∧ I w w') I := by
  have hplain (x : Value) : Follows (· = .exhausted) I (some <$> convertPlain x t) (some <$> convertPlain x t)
      (fun a b w w' => a = b ∧ a.isSome = true ∧ I w w') I :=
    (inferInstance : Agree I (convertPlain x t) (convertPlain x t)).follows.map fun a b w w' hw =>
      ⟨congrArg some hw.1, rfl, hw.2⟩
  have hpure (x : Value) : Follows (· = .exhausted) I (pure (some x) : Run _) (pure (some x))
      (fun a b w w' => a = b ∧ a.isSome = true ∧ I w w') I :=
    Follows.pure fun w w' hw => ⟨rfl, rfl, hw⟩
  unfold convertTo
  rw [if_neg (by simp [ht])]
  repeat' split
  all_goals first | exact hpure _ | exact hplain _

/-- A value that has a type needs no conversion to it. -/
theorem convertTo_of_typeOf {u : Option Value} (hu : u.map Value.typeOf = some t) (ht : t.isVoid = false) :
    convertTo u t = pure u := by
  obtain ⟨x, rfl, hx⟩ := Option.map_eq_some_iff.mp hu
  unfold convertTo
  rw [if_neg (by simp [ht])]
  dsimp only
  rw [if_pos (by simp [hx])]

/-- A store that is dropped does the same as what is left of its value. -/
theorem dropped_agree (h : Sound p q root) (hnm : n < m) (hsim : ∀ m, n ≤ m → Simulates p q root n m)
    {val val' : Expr} (hs : Stands p root π Γ Δ e) (drops : p.drops? e = some (v, val))
    (value : Image p val val') (coerced : Coerced v.type val' y) (hfits : Suits B Γ Δ e ρ ρ') :
    Agree B.Holds ((Calls.exact q root (n + 1)).eval e ρ) ((Calls.level m).eval y ρ') := by
  have hq := drops?_mono h.drops drops
  obtain ⟨hdropped, i, r, t, j, s, u, rfl⟩ := drops?_eq_some drops
  generalize he : Expr.node i r t (.assign .plain (.node j s u (.var v)) val) = e at *
  have hval : val ∈ operands (.assign .plain (.node j s u (.var v)) val) := mem_operands_assign.mpr (Or.inr rfl)
  obtain ⟨hsv, hfv, hΓ, hΔ, hmem⟩ : Stands p root π Γ Δ val ∧ Suits B Γ Δ val ρ ρ' ∧ v ∈ Γ ∧ v ∉ Δ ∧
      e ∈ root.allNodes := by
    subst he
    have hdone := hs.dropped h.plan (v := v) (by simp [touches, isRef, storesTo, asVar?]) hdropped
    exact ⟨hs.operand (by simp [Data.kind]) hval, hfits.operand hval, hdone.1, hdone.2, hs.mem⟩
  obtain ⟨habsent, -, hvoid⟩ := h.typed e hmem v val hq
  obtain ⟨a, ha, hloose⟩ := hfits.loose ⟨hΓ, hΔ⟩
  have hstore {y : Run (Option Value)} (hy : Follows (fun s => s = .exhausted ∨ q.blames root s = true) B.Holds
      (evalAs (q.guarded (Calls.exact q root n) e) val v.type ρ) y
      (fun u u' w w' => u = u' ∧ u.isSome = true ∧ B.Holds w w') B.Holds) :
      Agree B.Holds ((Calls.exact q root (n + 1)).eval e ρ) y := by
    refine ⟨Placement.evalExact_follows ?_⟩
    have hstored : Tracks (fun s => q.blames root s = true) B.Holds (evalNode (q.guarded (Calls.exact q root n) e)
        (.node i r t (.assign .plain (.node j s u (.var v)) val)) ρ) y := store_loose ha hloose hy
    rwa [he] at hstored
  refine hstore ?_
  cases coerced with
  | keep hkeep =>
    -- the value has the type of the variable, and the exact evaluator has looked at it
    have hsame : val.type = v.type := by
      obtain ⟨himage, htype⟩ := h.image hsv value
      rw [himage, habsent, hvoid, htype] at hkeep
      simpa using hkeep
    have hguard : q.guarded (Calls.exact q root n) e = (Calls.exact q root n).checking v.type := by
      unfold Placement.guarded
      rw [hq]
      exact if_pos hsame
    rw [hguard, ← bind_pure ((Calls.level m).eval y ρ')]
    have hcheck := Placement.checking_follows (hsim m (Nat.le_of_lt hnm) value hsv hfv) v.type
    refine (hcheck.lose fun _ => Or.inl).bind fun a b w w' hab => ?_
    obtain ⟨⟨rfl, hw⟩, htype⟩ := hab
    rw [convertTo_of_typeOf htype hvoid]
    obtain ⟨x, hx, -⟩ := Option.map_eq_some_iff.mp htype
    exact ⟨a, w', rfl, rfl, by rw [hx]; rfl, hw⟩
  | convert _ _ other =>
    obtain ⟨m, rfl⟩ : ∃ k, m = k + 1 := ⟨m - 1, by omega⟩
    have hrun := Placement.guarded_agree (p := q) (e := e) (hsim m (Nat.le_of_lt_succ hnm) value hsv hfv)
    refine Agree.follows_bind hrun (Or.inl rfl) fun x => ?_
    exact (convertTo_follows hvoid x).lose fun _ => Or.inl

/-! ### Blocks -/

/-- Either the first statement leaves the variable alone, or it defines it. -/
theorem definesFirst_cons (h : definesFirst v (x :: xs) = true) : x.countRefs v = 0 ∧ definesFirst v xs = true ∨
    ∃ i r t j s u val, x = .node i r t (.assign .plain (.node j s u (.var v)) val) ∧ val.countRefs v = 0 := by
  rw [definesFirst] at h
  split at h
  · cases h
  split at h
  · rename_i hzero
    exact Or.inl ⟨by simpa using hzero, h⟩
  split at h
  · rename_i w val hstore
    rw [Bool.and_eq_true, decide_eq_true_iff] at h
    unfold plainStore? at hstore
    split at hstore
    · split at hstore
      · cases hstore
      · cases hstore
        obtain ⟨rfl, hval⟩ := h
        exact Or.inr ⟨_, _, _, _, _, _, _, rfl, by simpa using hval⟩
    · cases hstore
  · cases h

/-- Scopes inside a block where the variables `P` still wait to be stored. -/
def Awaits (B : Bond) (Γ Δ P : List Var) (e : Expr) (ρ ρ' : Env) : Prop :=
  Fits B (fun v => v ∈ Δ ∧ e.countRefs v ≠ 0 ∧ v ∉ P) (fun v => v ∈ Γ ∧ (v ∉ Δ ∨ v ∈ P)) (· ∈ P) ρ ρ'

/-- What does not touch the variables that wait may be evaluated. -/
theorem Awaits.suits {P : List Var} (h : Awaits B Γ Δ P e ρ ρ') (hx : ∀ v, x.countRefs v ≠ 0 → e.countRefs v ≠ 0)
    (hP : ∀ v ∈ P, x.countRefs v = 0) : Suits B Γ Δ x ρ ρ' :=
  Fits.mono h (fun v hv => ⟨hv.1, hx v hv.2, fun hin => hv.2 (hP v hin)⟩) (fun _ hv => ⟨hv.1, Or.inl hv.2⟩)
    fun _ => False.elim

/-- The store that a variable waits for. -/
theorem define_follows (hnm : n ≤ m) (hsim : ∀ k l, k ≤ n → k ≤ l → Simulates p q root k l)
    {j s a a' : Nat} {u : Ty} {val : Expr}
    (hx : x = .node i r t (.assign .plain (.node j s u (.var v)) val)) (hs : Stands p root π Γ Δ x)
    (hi : Image p x x') (hkept : v ∉ p.dropped) (ha : ρ.find? v = some a) (ha' : ρ'.find? v = some a')
    (hloose : B.Loose a) (hwaits : B.Waits a') (hval : Suits B Γ Δ val ρ ρ') :
    Follows (· = .exhausted) B.Holds ((Calls.exact q root n).eval x ρ) ((Calls.level m).eval x' ρ')
      (fun b b' w w' => b = b' ∧ (B.join a a' hloose hwaits).Holds w w') B.Holds := by
  subst hx
  cases n with
  | zero => exact Follows.giveUp rfl
  | succ n =>
    obtain ⟨m, rfl⟩ : ∃ k, m = k + 1 := ⟨m - 1, by omega⟩
    have hmem : val ∈ operands (.assign .plain (.node j s u (.var v)) val) := mem_operands_assign.mpr (Or.inr rfl)
    cases hi with
    | drop drops =>
      obtain ⟨hd, _, _, _, _, _, _, heq⟩ := drops?_eq_some drops
      cases heq
      exact absurd hd hkept
    | node _ alike =>
      cases alike with
      | assign _ other value =>
        obtain rfl := other rfl
        have hrun := Placement.guarded_agree (p := q)
          (e := .node i r t (.assign .plain (.node j s u (.var v)) val))
          (hsim n m (Nat.le_succ n) (by omega) value (hs.operand (by simp [Data.kind]) hmem) hval)
        refine Placement.evalExact_follows ?_
        rw [Calls.level_eval]
        exact store_join ha ha' hloose hwaits hrun

/-- A statement leaves fewer variables waiting. -/
theorem statement_follows (hnm : n ≤ m)
    (hsim : ∀ k l, k ≤ n → k ≤ l → Simulates p q root k l) {P : List Var} (hs : Stands p root π Γ Δ x)
    (hi : Image p x x') (hx : ∀ v, x.countRefs v ≠ 0 → e.countRefs v ≠ 0)
    (hP : ∀ v ∈ P, definesFirst v (x :: xs) = true ∧ v ∈ Γ ∧ v ∈ Δ ∧ v ∉ p.dropped)
    (hfits : Awaits B Γ Δ P e ρ ρ') :
    ∃ (B₁ : Bond) (P₁ : List Var), Follows (· = .exhausted) B.Holds ((Calls.exact q root n).eval x ρ)
        ((Calls.level m).eval x' ρ') (fun b b' w w' => b = b' ∧ B₁.Holds w w') B.Holds ∧
      (∀ w w', B₁.Holds w w' → B.Holds w w') ∧ Awaits B₁ Γ Δ P₁ e ρ ρ' ∧ P₁ ⊆ P ∧
      ∀ v ∈ P₁, definesFirst v xs = true := by
  by_cases hall : ∀ v ∈ P, x.countRefs v = 0
  · refine ⟨B, P, (hsim n m le_rfl hnm hi hs (hfits.suits hx hall)).follows, fun _ _ => id, hfits,
      List.Subset.refl _, fun v hv => ?_⟩
    obtain hzero | ⟨i, r, t, j, s, u, val, rfl, -⟩ := definesFirst_cons (hP v hv).1
    · exact hzero.2
    · exact absurd (hall v hv) (countRefs_of_touches (by simp [touches, isRef, storesTo, asVar?]))
  · push Not at hall
    obtain ⟨v, hv, htouch⟩ := hall
    obtain ⟨hdef, hΓ, hΔ, hkept⟩ := hP v hv
    obtain hzero | ⟨i, r, t, j, s, u, val, heq, hval⟩ := definesFirst_cons hdef
    · exact absurd hzero.1 htouch
    -- nothing else that waits is touched, by the store or by its value
    have hothers : ∀ w ∈ P, w ≠ v → x.countRefs w = 0 ∧ definesFirst w xs = true := by
      intro w hw hne
      obtain hzero | ⟨_, _, _, _, _, _, _, heq', -⟩ := definesFirst_cons (hP w hw).1
      · exact hzero
      · rw [heq] at heq'
        cases heq'
        exact absurd rfl hne
    have hvalue : ∀ w, val.countRefs w ≠ 0 → x.countRefs w ≠ 0 := by
      subst heq
      exact fun w => countRefs_of_operand (mem_operands_assign.mpr (Or.inr rfl))
    have hsuits : Suits B Γ Δ val ρ ρ' := by
      refine hfits.suits (fun w hw => hx w (hvalue w hw)) fun w hw => ?_
      by_cases hne : w = v
      · exact hne ▸ hval
      · by_contra hcount
        exact hvalue w hcount (hothers w hw hne).1
    obtain ⟨a, ha, hloose⟩ := hfits.loose ⟨hΓ, Or.inr hv⟩
    obtain ⟨a', ha', hwaits⟩ := hfits.waiting hv
    refine ⟨B.join a a' hloose hwaits, P.filter (· ≠ v),
      define_follows hnm hsim heq hs hi hkept ha ha' hloose hwaits hsuits, fun _ _ => Bond.Holds.of_join, ?_,
      fun w hw => (List.mem_filter.mp hw).1, fun w hw => ?_⟩
    · refine (hfits.join ⟨hΓ, Or.inr hv⟩ hv ha ha' hloose hwaits).mono (fun w hw => ?_) (fun w hw => ?_)
        fun w hw => ?_
      · by_cases hne : w = v
        · exact Or.inr hne
        · exact Or.inl ⟨hw.1, hw.2.1, fun hin => hw.2.2 (by simp [hin, hne])⟩
      · obtain ⟨hwΓ, hw | hw⟩ := hw
        · exact ⟨⟨hwΓ, Or.inl hw⟩, fun heq => hw (heq ▸ hΔ)⟩
        · simp only [ne_eq, decide_not, List.mem_filter, Bool.not_eq_true', decide_eq_false_iff_not] at hw
          exact ⟨⟨hwΓ, Or.inr hw.1⟩, hw.2⟩
      · simpa using hw
    · simp only [ne_eq, decide_not, List.mem_filter, Bool.not_eq_true', decide_eq_false_iff_not] at hw
      exact (hothers w hw.1 hw.2).2

/-- No statement is the place of a label, before and afterwards. -/
theorem afterLabel_eq (h : List.Forall₂ (fun x x' => x'.isAbsent = x.isAbsent ∧ x.hasKind .label = false ∧
    x'.hasKind .label = false) xs xs') (l : Label) :
    afterLabel l xs = pure none ∧ afterLabel l xs' = pure none ∨
      afterLabel l xs = panicNil ∧ afterLabel l xs' = panicNil := by
  have hskip {y : Expr} (ys : List Expr) (hy : y.isAbsent = false) (hl : y.hasKind .label = false) :
      afterLabel l (y :: ys) = afterLabel l ys := by
    cases y with
    | absent => cases hy
    | node i r t d => cases d <;> first | rfl | cases hl
  induction h with
  | nil => exact Or.inl ⟨rfl, rfl⟩
  | @cons x x' xs xs' hx _ ih =>
    obtain ⟨habsent, hl, hl'⟩ := hx
    cases ha : x.isAbsent with
    | true =>
      rw [ha] at habsent
      cases x with
      | node => cases ha
      | absent =>
        cases x' with
        | node => cases habsent
        | absent => exact Or.inr ⟨rfl, rfl⟩
    | false => rwa [hskip xs ha hl, hskip xs' (habsent.trans ha) hl']

/-- One statement of a block. -/
theorem stepBlock_follows {c c' : Calls} {body body' : List Expr} {B₁ : Bond} {last : Option Value}
    (hx : Follows (· = .exhausted) B.Holds (c.eval x ρ) (c'.eval x' ρ')
      (fun u u' w w' => u = u' ∧ B₁.Holds w w') B.Holds)
    (hlabel : ∀ l, afterLabel l body = pure none ∧ afterLabel l body' = pure none ∨
      afterLabel l body = panicNil ∧ afterLabel l body' = panicNil) :
    Follows (· = .exhausted) B.Holds (Run.stepBlock c body ρ (x :: xs, last)) (Run.stepBlock c' body' ρ' (x' :: xs', last))
      (fun s s' w w' => ∃ u, s = .inl (xs, u) ∧ s' = .inl (xs', u) ∧ B₁.Holds w w') B.Holds := by
  unfold Run.stepBlock
  refine hx.attempt_bind (fun u u' => ?_) (fun s _ => ?_) ?_
  · intro w w' hu
    obtain ⟨rfl, hw⟩ := hu
    exact ⟨_, w', rfl, u, rfl, rfl, hw⟩
  · cases s with
    | jump l u =>
      dsimp only
      obtain ⟨hl, hl'⟩ | ⟨hl, hl'⟩ := hlabel l
      · rw [hl, hl']
        exact Follows.throw _ fun _ _ => id
      · rw [hl, hl']
        exact Follows.throw _ fun _ _ => id
    | _ => exact Follows.throw _ fun _ _ => id
  · rintro s rfl w
    exact ⟨_, w, rfl, rfl⟩

/-- The statements of a block, one after the other. -/
theorem statements_follow (hnm : n ≤ m)
    (hsim : ∀ k l, k ≤ n → k ≤ l → Simulates p q root k l) {body body' : List Expr} {B₀ : Bond}
    (hlabel : ∀ l, afterLabel l body = pure none ∧ afterLabel l body' = pure none ∨
      afterLabel l body = panicNil ∧ afterLabel l body' = panicNil)
    {k k' : Nat} (hk : k ≤ k') {P : List Var} (last : Option Value) (hi : List.Forall₂ (Image p) xs xs')
    (hs : ∀ x ∈ xs, Stands p root π Γ Δ x ∧ ∀ v, x.countRefs v ≠ 0 → e.countRefs v ≠ 0)
    (hP : ∀ v ∈ P, definesFirst v xs = true ∧ v ∈ Γ ∧ v ∈ Δ ∧ v ∉ p.dropped)
    (hfits : Awaits B Γ Δ P e ρ ρ') (hB : ∀ w w', B.Holds w w' → B₀.Holds w w') :
    Follows (· = .exhausted) B.Holds (iterate (Run.stepBlock (Calls.exact q root n) body ρ) k (xs, last))
      (iterate (Run.stepBlock (Calls.level m) body' ρ') k' (xs', last))
      (fun u u' w w' => u = u' ∧ B₀.Holds w w') B₀.Holds := by
  induction k generalizing k' P xs xs' last B with
  | zero => exact Follows.spent rfl
  | succ k ih =>
    obtain ⟨k', rfl⟩ : ∃ l, k' = l + 1 := ⟨k' - 1, by omega⟩
    rw [iterate_succ, iterate_succ]
    cases hi with
    | nil => exact Follows.pure fun w w' hw => ⟨rfl, hB w w' hw⟩
    | @cons x x' xs xs' hix hixs =>
      obtain ⟨hsx, hx⟩ := hs x List.mem_cons_self
      obtain ⟨B₁, P₁, hrun, hB₁, hfits₁, hsub, hdef⟩ := statement_follows hnm hsim hsx hix hx hP hfits
      refine Follows.bind ((stepBlock_follows hrun hlabel).mono (fun _ => id) (fun _ _ => id)
        (fun _ _ _ _ => id) hB) fun s s' => ?_
      intro w w' hw
      obtain ⟨u, rfl, rfl, hw⟩ := hw
      exact ih (Nat.le_of_succ_le_succ hk) u hixs (fun y hy => hs y (List.mem_cons_of_mem _ hy))
        (fun v hv => ⟨hdef v hv, (hP v (hsub hv)).2⟩) hfits₁ (fun w w' hw => hB w w' (hB₁ w w' hw)) w w' hw

/-- The scopes inside a block, where the variables that it gets still wait. -/
theorem awaits_enter (h : Sound p q root) (hs : Stands p root π Γ Δ (.node i r t (.block vs xs)))
    (hfits : Suits B Γ Δ (.node i r t (.block vs xs)) ρ ρ') {w w' w₁ w₁' : World} {ρ₁ ρ₁' : Env}
    (hB : B.Holds w w') (hl : Opens ρ vs (fun v => v.type.zero) w ρ₁ w₁)
    (hr : Opens ρ' (p.placed (.node i r t (.block vs xs))) (fun v => v.type.zero) w' ρ₁' w₁') :
    ∃ B₁ : Bond, B₁.Holds w₁ w₁' ∧ (∀ u u', B₁.Holds u u' → B.Holds u u') ∧
      Awaits B₁ (vs ++ Γ) (p.placed (.node i r t (.block vs xs)) ++ Δ)
        ((p.placed (.node i r t (.block vs xs))).filter (· ∉ vs)) (.node i r t (.block vs xs)) ρ₁ ρ₁' := by
  obtain ⟨B₁, hB₁, hback, hin⟩ := hfits.enter hB hl hr
  have hfresh {v : Var} (hv : v ∈ vs ∨ v ∈ p.placed (.node i r t (.block vs xs))) : v ∉ Δ :=
    hs.fresh h.tame h.plan hv
  -- numbers tell variables apart
  have hids {u v : Var} (hu : u ∈ vs ∨ u ∈ p.placed (.node i r t (.block vs xs))) (hv : v ∈ Γ ∨ v ∈ Δ)
      (hid : u.id = v.id) : u = v := by
    refine h.tame.named u ?_ v (hs.known hv) hid
    exact List.mem_append_left _ (hu.elim (mem_declarations_of_mem hs.mem) (h.plan.known hs.mem))
  refine ⟨B₁, hB₁, hback, hin.mono (fun v hv => ?_) (fun v hv => ?_) fun v hv => by simpa using hv⟩
  · obtain ⟨hΔ, hcount, hwait⟩ := hv
    obtain hplaced | hΔ := List.mem_append.mp hΔ
    · have : v ∈ vs := by
        by_contra hvs
        exact hwait (by simp [hplaced, hvs])
      exact Or.inl ⟨this, hplaced⟩
    · refine Or.inr ⟨⟨hΔ, hcount⟩, fun u hu hid => ?_⟩
      have hu := List.mem_append.mp hu
      exact hfresh hu (hids hu (Or.inr hΔ) hid ▸ hΔ)
  · obtain ⟨hΓ, hv⟩ := hv
    have hΔ : v ∉ Δ := by
      obtain hv | hv := hv
      · exact fun hin => hv (List.mem_append_right _ hin)
      · exact hfresh (Or.inr (List.mem_filter.mp hv).1)
    by_cases hvs : v ∈ vs
    · refine Or.inl ⟨hvs, fun hplaced => ?_⟩
      obtain hv | hv := hv
      · exact hv (List.mem_append_left _ hplaced)
      · simp [hvs] at hv
    · have hΓ := (List.mem_append.mp hΓ).resolve_left hvs
      exact Or.inr ⟨⟨hΓ, hΔ⟩, fun u hu hid => hvs (hids (Or.inl hu) (Or.inl hΓ) hid ▸ hu)⟩

/-- **A block does the same as its image.** -/
theorem block_agree (h : Sound p q root) (hnm : n ≤ m) (hsim : ∀ k l, k ≤ n → k ≤ l → Simulates p q root k l)
    (hs : Stands p root π Γ Δ (.node i r t (.block vs xs))) (hi : List.Forall₂ (Image p) xs xs')
    (hfits : Suits B Γ Δ (.node i r t (.block vs xs)) ρ ρ') :
    Agree B.Holds (evalBlock (Calls.exact q root n) t vs xs ρ)
      (evalBlock (Calls.level m) t (p.placed (.node i r t (.block vs xs))) xs' ρ') where
  follows := by
    -- names tell the variables of a tree apart
    have hids {us : List Var} (hus : us.Nodup) (hin : us ⊆ root.declarations) : (us.map Var.id).Nodup :=
      hus.map_on fun v hv u hu => h.tame.named v (List.mem_append_left _ (hin hv)) u
        (List.mem_append_left _ (hin hu))
    have hvs : (vs.map Var.id).Nodup :=
      hids ((List.nodup_flatMap.mp h.tame.once).1 _ hs.mem) fun v => mem_declarations_of_mem hs.mem
    have hvs' : ((p.placed (.node i r t (.block vs xs))).map Var.id).Nodup :=
      hids (h.plan.once hs.mem) fun v => h.plan.known hs.mem
    -- no statement is a label, so a jump finds its way in both lists or in none
    have hlabel := afterLabel_eq <| forall₂_imp_of_mem (fun x hx x' (hxi : Image p x x') =>
      have hsx := hs.statement h.plan hx
      have hplain : ∀ y ∈ x.allNodes, y.hasKind .label = false := fun y hy =>
        h.tame.unlabelled y (hsx.allNodes_subset hy)
      have hself : x.hasKind .label = false := by
        cases x with
        | absent => rfl
        | node => exact hplain _ self_mem_nodes
      (⟨(h.image hsx hxi).1, hself, hxi.not_label hplain⟩ :
        x'.isAbsent = x.isAbsent ∧ x.hasKind .label = false ∧ x'.hasKind .label = false)) hi
    intro w w' hw
    obtain ⟨ρ₁, w₁, hrun, hopens⟩ := Opens.declare hvs ρ w
    obtain ⟨ρ₁', w₁', hrun', hopens'⟩ := Opens.declare hvs' ρ' w'
    obtain ⟨B₁, hB₁, hback, hwaits⟩ := awaits_enter h hs hfits hw hopens hopens'
    have hbody := statements_follow hnm hsim
      hlabel (Calls.exact_below (I := B.Holds) q root hnm).turns none hi
      (fun x hx => ⟨hs.statement h.plan hx, fun v => countRefs_of_operand (d := .block vs xs) hx⟩)
      (fun v hv => ?_) hwaits hback
    · -- the value of the block is that of its last statement
      have hrest := hbody.bind (f := fun last => if t.isVoid then pure none else convertTo last t)
        (g := fun last => if t.isVoid then pure none else convertTo last t)
        (R := fun u u' w w' => u = u' ∧ B.Holds w w') fun u u' w w' hu => by
          obtain ⟨rfl, hw⟩ := hu
          exact (inferInstance : Agree B.Holds _ _).follows w w' hw
      unfold evalBlock
      rw [bind_of_ok hrun, bind_of_ok hrun']
      exact hrest w₁ w₁' hB₁
    · obtain ⟨hplaced, hvs⟩ := List.mem_filter.mp hv
      have hgets := hs.gets h.plan hplaced (by simpa using hvs)
      exact ⟨hgets.2, List.mem_append_right _ hgets.1, List.mem_append_left _ hplaced,
        fun hd => h.plan.dropped hd hs.mem hplaced⟩

/-! ### Protected regions -/

section Protect

variable {body fin fault : Expr} {hs : List (Handler Expr)} {g g' : Handler Expr}

/-- The scopes inside a handler that binds a variable. -/
theorem handler_enter (h : Sound p q root) (hst : Stands p root π Γ Δ (.node i r t (.protect body hs fin fault)))
    (hfits : Suits B Γ Δ (.node i r t (.protect body hs fin fault)) ρ ρ') (hg : g ∈ hs) (hv : g.var = some v)
    {w w' : World} (hB : B.Holds w w') (u : Value) :
    ∃ B₁ : Bond, B₁.Holds { w with slots := w.slots.push ⟨v.id, u⟩ } { w' with slots := w'.slots.push ⟨v.id, u⟩ } ∧
      (∀ w w', B₁.Holds w w' → B.Holds w w') ∧ ∀ c ∈ operands (.protect body hs fin fault),
        Suits B₁ (g.var.toList ++ Γ) (g.var.toList ++ Δ) c (ρ.bind v w.slots.size) (ρ'.bind v w'.slots.size) := by
  obtain ⟨B₁, hB₁, hback, hin⟩ := hfits.enter hB (Opens.single ρ v u w) (Opens.single ρ' v u w')
  have hcaught : v ∈ root.caughtVars := hst.caught hg (by simp [hv])
  have hids {y : Var} (hy : y ∈ Γ ∨ y ∈ Δ) (hid : v.id = y.id) : v = y :=
    h.tame.named v (List.mem_append_right _ hcaught) y (hst.known hy) hid
  refine ⟨B₁, hB₁, hback, fun c hc => hin.mono (fun y hy => ?_) (fun y hy => ?_) fun _ => False.elim⟩
  all_goals simp only [hv, Option.toList_some, List.singleton_append, List.mem_cons] at hy
  all_goals by_cases hne : y = v
  · exact Or.inl (by simp [hne])
  · refine Or.inr ⟨⟨hy.1.resolve_left hne, countRefs_of_operand hc hy.2⟩, fun z hz hid => ?_⟩
    obtain rfl : z = v := by simpa using hz
    exact hne (hids (Or.inr (hy.1.resolve_left hne)) hid).symm
  · exact absurd (Or.inl hne) hy.2
  · have hΓ := hy.1.resolve_left hne
    refine Or.inr ⟨⟨hΓ, fun hΔ => hy.2 (Or.inr hΔ)⟩, fun z hz hid => ?_⟩
    obtain rfl : z = v := by simpa using hz
    exact hne (hids (Or.inl hΓ) hid).symm

/-- A handler of the moved tree sees what that of the old one sees. -/
theorem handler_sees (h : Sound p q root) (hsim : Simulates p q root n m)
    (hst : Stands p root π Γ Δ (.node i r t (.protect body hs fin fault)))
    (hfits : Suits B Γ Δ (.node i r t (.protect body hs fin fault)) ρ ρ') (hg : g ∈ hs)
    (hi : HandlerAlike (Image p) g g') (e : Expr) :
    HandlerSees (fun s => q.blames root s = true) B.Holds (q.guarded (Calls.exact q root n) e) (Calls.level m)
      ρ ρ' g g' := by
  have hmem {c : Expr} (hc : c = g.filter ∨ c = g.body) : c ∈ operands (.protect body hs fin fault) :=
    mem_operands_protect.mpr (Or.inr (Or.inl ⟨g, hg, hc⟩))
  have hfilter := hst.handler h.tame hg (Or.inl rfl)
  have hbody := hst.handler h.tame hg (Or.inr rfl)
  obtain ⟨filter, body⟩ := hi
  refine ⟨rfl, fun err => ?_⟩
  rename_i test var f f' b b'
  unfold handlerScope
  cases var with
  | none =>
    refine Follows.pure fun w w' hw => ⟨B.Holds, inferInstance, hw, fun _ _ => id, ?_, ?_⟩
    · exact sees h hsim hfilter filter (Fits.catching (hfits.operand (hmem (Or.inl rfl))) _) e
    · exact sees h hsim hbody body (Fits.catching (hfits.operand (hmem (Or.inr rfl))) _) e
  -- a handler with a variable is one more scope on both sides
  | some v =>
    refine Agree.follows_bind inferInstance rfl fun u => ?_
    unfold declareAs
    cases u with
    | none => exact Agree.follows_bind inferInstance rfl fun e => Follows.throw _ fun _ _ => id
    | some u =>
      intro w w' hw
      obtain ⟨B₁, hB₁, hback, hin⟩ := handler_enter h hst (Fits.catching hfits (some err)) hg rfl hw u
      refine ⟨_, _, rfl, B₁.Holds, inferInstance, hB₁, hback, ?_, ?_⟩
      · exact sees h hsim hfilter filter (hin f (hmem (Or.inl rfl))) e
      · exact sees h hsim hbody body (hin b (hmem (Or.inr rfl))) e

/-- A protected region does the same as its image. -/
theorem protect_tracks (h : Sound p q root) (hsim : Simulates p q root n m) {body' fin' fault' : Expr}
    {hs' : List (Handler Expr)} (hst : Stands p root π Γ Δ (.node i r t (.protect body hs fin fault)))
    (hbody : Image p body body') (hhs : List.Forall₂ (HandlerAlike (Image p)) hs hs') (hfin : Image p fin fin')
    (hfault : Image p fault fault') (hfits : Suits B Γ Δ (.node i r t (.protect body hs fin fault)) ρ ρ') (e : Expr) :
    Tracks (fun s => q.blames root s = true) B.Holds
      (evalProtect (q.guarded (Calls.exact q root n) e) t body hs fin fault ρ)
      (evalProtect (Calls.level m) t body' hs' fin' fault' ρ') := by
  obtain ⟨hsb, hsn, hsf⟩ := hst.parts
  have hmem {c : Expr} (hc : c = body ∨ c = fin ∨ c = fault) : c ∈ operands (.protect body hs fin fault) :=
    mem_operands_protect.mpr (by tauto)
  refine evalProtect_tracks ?_ (forall₂_imp_of_mem ?_ hhs) ?_ ?_ t
  · exact sees h hsim hsb hbody (hfits.operand (hmem (by simp))) e
  · exact fun g hg g' hgi => handler_sees h hsim hst hfits hg hgi e
  · exact sees h hsim hsn hfin (hfits.operand (hmem (by simp))) e
  · exact sees h hsim hsf hfault (hfits.operand (hmem (by simp))) e

end Protect

/-! ### Trees -/

/-- A variable does the same as its image. -/
theorem var_tracks (h : Sound p q root) {c c' : Calls} (hs : Stands p root π Γ Δ (.node i r t (.var v)))
    (hfits : Suits B Γ Δ (.node i r t (.var v)) ρ ρ') :
    Tracks (fun s => q.blames root s = true) B.Holds (evalNode c (.node i r t (.var v)) ρ)
      (evalNode c' (.node i r' t (.var v)) ρ') := by
  have htouch : (Expr.node i r t (.var v)).touches v = true := by simp [touches, isRef, asVar?]
  obtain ⟨a, a', ha, ha', hp⟩ := hfits.shared
    ⟨hs.shared h.plan htouch (by simp [plainlyStores]), countRefs_of_touches htouch⟩
  exact evalVar_tracks ha ha' hp

/-- A node that is kept does the same as its image. -/
theorem node_tracks (h : Sound p q root) (hnm : n ≤ m) (hsim : ∀ k l, k ≤ n → k ≤ l → Simulates p q root k l)
    (hs : Stands p root π Γ Δ (.node i r t d)) (stays : p.drops? (.node i r t d) = none)
    (alike : d.Alike (Image p) d') (vars : (Expr.node i r' t d').blockVars = p.placed (.node i r t d))
    (hfits : Suits B Γ Δ (.node i r t d) ρ ρ') :
    Tracks (fun s => q.blames root s = true) B.Holds
      (evalNode (q.guarded (Calls.exact q root n) (.node i r t d)) (.node i r t d) ρ)
      (evalNode (Calls.level m) (.node i r' t d') ρ') := by
  have hsame : Simulates p q root n m := hsim n m le_rfl hnm
  by_cases hd : d.isScopeless = true
  · exact scopeless_tracks h hnm hsame hs alike hfits hd
  cases alike with
  | var v => exact var_tracks h hs hfits
  | block body =>
    obtain rfl := vars
    exact Tracks.of_agree (block_agree h hnm hsim hs body hfits)
  | assign field other value => exact assign_tracks h hsame hs stays field other value hfits
  | protect body handlers fin fault => exact protect_tracks h hsame hs body handlers fin fault hfits _
  | lambda =>
    have hplain := h.tame.plain _ hs.mem
    cases hplain
  | _ => exact absurd rfl hd

/-- **A tree and its image do the same**, whatever fuel the image has more. -/
theorem simulates (h : Sound p q root) {n m : Nat} (hnm : n ≤ m) : Simulates p q root n m := by
  induction n using Nat.strong_induction_on generalizing m with
  | _ n ih =>
    intro π Γ Δ e e' B ρ ρ' hi hs hfits
    cases n with
    | zero => exact ⟨Follows.giveUp rfl⟩
    | succ n =>
      have hsim : ∀ k l, k ≤ n → k ≤ l → Simulates p q root k l := fun k l hk => ih k (by omega)
      cases hi with
      | drop drops value coerced =>
        exact dropped_agree h hnm (fun l hl => hsim n l le_rfl hl) hs drops value coerced hfits
      | absent =>
        obtain ⟨m, rfl⟩ : ∃ k, m = k + 1 := ⟨m - 1, by omega⟩
        refine ⟨Placement.evalExact_follows ?_⟩
        exact Follows.throw _ fun _ _ => id
      | node stays alike vars =>
        obtain ⟨m, rfl⟩ : ∃ k, m = k + 1 := ⟨m - 1, by omega⟩
        refine ⟨Placement.evalExact_follows ?_⟩
        exact node_tracks h (by omega) hsim hs stays alike vars hfits

end Resumable.Scopes
