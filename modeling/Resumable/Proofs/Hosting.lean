import Resumable.Proofs.Recasting
import Resumable.Proofs.Scoping

/-!
# `Proofs.Hosting`: where a machine stands in a tree

A block that opens an instance holds no other one, and nothing around it could be mistaken for it. So a
slot of the machine is declared again in a block that declared it before, and the function that runs the
dispatch loop is never dropped.

**Contents**
* `Obeys.ground_blocks`, `Obeys.hosted_blocks`: the blocks of a tree.
* `Obeys.ground_around`: what is around a block that opens an instance.
* `home_below`: where a variable may go.
* `Places`, `placement_places`: what a placement may do to the variables of a machine.
-/

namespace Resumable

open Resumable.Expr Scopes

/-- The machine may stand in a tree of this role. -/
def Role.hosting : Role → Bool
  | .outside hosts => hosts
  | .opening => true
  | _ => false

section
variable {m : Watch} {role : Role} {e b c n : Expr} {i r : Nat} {t : Ty} {d : Data Expr} {v : Var}

theorem mem_allNodes_node : b ∈ (Expr.node i r t d).allNodes ↔
    b = .node i r t d ∨ ∃ c ∈ operands d, b ∈ c.allNodes := by
  rw [allNodes_node, List.mem_cons, List.mem_flatMap]

/-- What stays as it is has no block in it. -/
theorem Watch.Still.not_block (h : m.Still e) (hb : b ∈ e.allNodes) : b.hasKind .block = false := by
  unfold Watch.Still at h
  split at h
  · simp at hb
  · rw [mem_allNodes_node] at hb
    obtain rfl | ⟨c, hc, -⟩ := hb
    · rfl
    · cases hc
  · rw [mem_allNodes_node] at hb
    obtain rfl | ⟨c, hc, -⟩ := hb
    · rfl
    · cases hc
  · rw [mem_allNodes_node] at hb
    obtain rfl | ⟨c, hc, hb⟩ := hb
    · rfl
    · rw [List.mem_singleton.mp hc] at hb
      simp at hb
  · cases h

/-- A store of something that stays as it is has no block in it. -/
theorem Watch.Puts.not_block {P : Expr → Prop} (hP : ∀ e, P e → m.Still e) (h : Watch.Puts v P e)
    (hb : b ∈ e.allNodes) : b.hasKind .block = false := by
  unfold Watch.Puts at h
  split at h
  · rw [mem_allNodes_node] at hb
    obtain rfl | ⟨c, hc, hb⟩ := hb
    · rfl
    · obtain ⟨hf, -⟩ | rfl := mem_operands_assign.mp hc
      · cases hf
      · exact (hP _ h.2).not_block hb
  · cases h

/-! ### The parts of a node -/

theorem Watch.Puts.isAssign {P : Expr → Prop} (h : Watch.Puts v P e) : e.hasKind .assign = true := by
  unfold Watch.Puts at h
  split at h
  · rfl
  · cases h

/-- Only a statement of the dispatch loop marks the machine as over. -/
theorem Obeys.not_ends (h : Obeys m role e) (hrole : ∀ armed bare, role ≠ .inside armed bare) : ¬ m.Ends e := by
  intro hends
  cases h with
  | node hr hd hc => exact ((Obeys.node hr hd hc).not_puts hends).foreign (.inl rfl)
  | failed hx => exact (hx.not_puts hends).foreign (.inl rfl)
  | absent => cases hends
  | user | raw | hand | block | conditional | switch | protect => exact hrole _ _ rfl
  | _ => cases hends.isAssign

/-- What a store stores stays as it is. -/
theorem Watch.Raw.operand (h : m.Raw (.node i r t d)) (hc : c ∈ operands d) : m.Still c := by
  have hputs : ∀ {v : Var} {P : Expr → Prop}, Watch.Puts v P (.node i r t d) → (∀ x, P x → m.Still x) → m.Still c := by
    intro v P hputs hP
    unfold Watch.Puts at hputs
    split at hputs
    · rename_i heq
      cases heq
      obtain ⟨hf, -⟩ | rfl := mem_operands_assign.mp hc
      · cases hf
      · exact hP _ hputs.2
    · cases hputs
  have hreads : ∀ {v : Var}, Watch.Reads v (.node i r t d) → m.Still c := by
    intro v h
    unfold Watch.Reads at h
    split at h
    · rename_i heq
      cases heq
      cases hc
    · cases h
  cases h with
  | moves h | enters h | aims h | ends h => exact hputs h fun _ => Watch.still_number
  | returns h => exact hputs h fun _ ⟨_, hv, h⟩ => Watch.still_reads hv.marks h
  | resumes h => exact hputs h fun _ => Watch.still_reads m.marks_resume
  | parks h =>
    obtain ⟨_, -, h⟩ := h
    exact hputs h fun _ => Watch.still_reads m.marks_resume
  | peeks h =>
    obtain h | ⟨_, -, h⟩ := h
    · exact hreads h
    · exact hreads h

/-- An operand of a node that has a role: it stays as it is, or it has a role too. Only as a statement of a block
does it mark the machine as over. -/
inductive Watch.Part (m : Watch) (hosting : Bool) (d : Data Expr) (c : Expr) : Prop
  | still (h : m.Still c)
  | part {role : Role} (h : Obeys m role c) (hh : role.hosting = true → hosting = true)
    (he : d.kind ≠ .block → ¬ m.gone m.state.id → ¬ m.Ends c)

theorem Watch.Part.apart {hosting : Bool} (h : Obeys m role c) (hrole : ∀ armed bare, role ≠ .inside armed bare)
    (hh : role.hosting = true → hosting = true) : m.Part hosting d c := .part h hh fun _ _ => h.not_ends hrole

theorem Watch.Part.arm {armed armed' bare hosting : Bool} (h : Obeys m (.inside armed bare) c)
    (hs : ¬ m.Special armed' c) : m.Part hosting d c :=
  .part h (fun h => by cases h) fun _ hg he => hs (.ends he hg)

/-- **The operands of a node**, other than the statements of a block that opens an instance. -/
theorem Obeys.part (h : Obeys m role (.node i r t d)) (hopen : role ≠ .opening) (hc : c ∈ operands d) :
    m.Part role.hosting d c := by
  have habsent : m.Part role.hosting d .absent := .still trivial
  -- code of the surroundings hosts nothing: each operand is apart from the body
  have houtside : ∀ {hosts : Bool}, Obeys m (.outside false) (.node i r t d) → m.Part hosts d c := fun h => by
    cases h with
    | node _ _ hops => exact .apart (hops c hc) (by simp) fun h => by cases h
  cases h with
  | node _ _ hops => exact .apart (hops c hc) (by simp) id
  | host _ _ hbody =>
    cases List.mem_singleton.mp hc
    exact .apart hbody (by simp) fun _ => rfl
  | user hx => exact houtside hx
  | failed hx => exact houtside hx
  | raw hx => exact .still (hx.operand hc)
  | hand ha hk =>
    obtain rfl | hc := List.mem_cons.mp hc
    · exact .apart ha (by simp) fun h => by cases h
    · cases List.mem_singleton.mp hc
      exact .still hk.still
  | block _ _ hx => exact .part (hx c hc) (fun h => by cases h) fun hd => absurd rfl hd
  | conditional ht ha hsa hb hsb =>
    simp only [operands, List.mem_cons, List.not_mem_nil, or_false] at hc
    obtain rfl | rfl | rfl := hc
    · exact .apart ht (by simp) fun h => by cases h
    · exact .arm ha hsa
    · exact .arm hb hsb
  | switch hv ht ha hs ho hso =>
    obtain rfl | ⟨arm, harm, hc | rfl⟩ | rfl := mem_operands_switch.mp hc
    · exact .apart hv (by simp) fun h => by cases h
    · exact .apart (ht arm harm c hc) (by simp) fun h => by cases h
    · exact .arm (ha arm harm) (hs arm harm)
    · exact .arm ho hso
  | protect hb hsb _ hh hsh =>
    obtain rfl | ⟨h, hmem, rfl | rfl⟩ | rfl | rfl := mem_operands_protect.mp hc
    · exact .arm hb hsb
    · cases List.mem_singleton.mp hmem
      exact habsent
    · cases List.mem_singleton.mp hmem
      exact .arm hh hsh
    · exact habsent
    · exact habsent
  | opening => exact absurd rfl hopen
  | running hbody =>
    cases List.mem_singleton.mp hc
    exact .apart hbody (by simp) fun h => by cases h
  | guarded hb _ hh =>
    obtain rfl | ⟨h, hmem, rfl | rfl⟩ | rfl | rfl := mem_operands_protect.mp hc
    · exact .apart hb (by simp) fun h => by cases h
    · cases List.mem_singleton.mp hmem
      exact habsent
    · cases List.mem_singleton.mp hmem
      exact .apart hh (by simp) fun h => by cases h
    · exact habsent
    · exact habsent
  | turning _ hbody =>
    cases List.mem_singleton.mp hc
    exact .apart hbody (by simp) fun h => by cases h
  | choosing ht hc' hs _ ho =>
    obtain rfl | ⟨arm, harm, hc | rfl⟩ | rfl := mem_operands_switch.mp hc
    · exact .still m.marks_state
    · obtain ⟨n, test, hts, hnum, -⟩ := ht arm harm
      rw [hts, List.mem_singleton] at hc
      exact .still (hc ▸ Watch.still_number hnum)
    · exact .arm (hc' arm harm) (hs arm harm)
    · exact .apart ho (by simp) fun h => by cases h
  | unknown hx =>
    cases List.mem_singleton.mp hc
    exact .apart hx (by simp) fun h => by cases h
  | reporting hf =>
    obtain rfl | hc := List.mem_cons.mp hc
    · exact .apart hf (by simp) fun h => by cases h
    · cases List.mem_singleton.mp hc
      exact .still m.marks_state
  | failing _ _ hx hy =>
    obtain rfl | hc := List.mem_cons.mp hc
    · exact .part (.raw (.ends hx) : Obeys m (.inside false false) _) (fun h => by cases h) fun hd => absurd rfl hd
    · cases List.mem_singleton.mp hc
      exact .apart hy (by simp) fun h => by cases h

/-! ### Blocks -/

/-- A block that opens no instance. -/
structure Watch.Grounded (m : Watch) (b : Expr) : Prop where
  ground : m.Ground b.ref
  declarable : ∀ v ∈ b.blockVars, m.Declarable v

/-- A block where the machine does not stand. -/
theorem Obeys.grounded (h : Obeys m role e) (hr : role.hosting = false) (hk : e.hasKind .block = true) :
    m.Grounded e := by
  have houtside : ∀ {hosts : Bool}, Obeys m (.outside hosts) e → m.Grounded e := fun h => by
    cases h with
    | absent => cases hk
    | @node _ i r t d _ hd =>
      cases d with
      | block => exact ⟨hd.2, hd.1⟩
      | _ => cases hk
    | host => cases hk
  cases h with
  | absent => cases hk
  | node hg hd hc => exact houtside (.node hg hd hc)
  | user hx => exact houtside hx
  | failed hx => exact houtside hx
  | raw hx =>
    obtain ⟨_, _, _, ⟨_, _, _, rfl⟩ | ⟨_, rfl⟩⟩ := hx.shape <;> cases hk
  | block hg hv => exact ⟨hg, hv⟩
  | failing hg hv => exact ⟨hg, hv⟩
  | host | opening => cases hr
  | _ => cases hk

/-- **Where the machine does not stand**, no block opens an instance. -/
theorem Obeys.ground_blocks (h : Obeys m role e) (hr : role.hosting = false) (hb : b ∈ e.allNodes)
    (hk : b.hasKind .block = true) : m.Grounded b := by
  induction e using operandInduction generalizing role with
  | absent => simp at hb
  | node i r t d ih =>
    obtain rfl | ⟨c, hc, hb⟩ := mem_allNodes_node.mp hb
    · exact h.grounded hr hk
    · have hopen : role ≠ .opening := by
        rintro rfl
        cases hr
      cases h.part hopen hc with
      | still hstill =>
        rw [hstill.not_block hb] at hk
        cases hk
      | part h' hh => exact ih c hc h' (Bool.eq_false_iff.mpr fun h => by rw [hh h] at hr; cases hr) hb

/-- A block that opens an instance holds no other one. -/
theorem Obeys.opening_blocks (h : Obeys m .opening (.node i r t d)) (hc : c ∈ operands d)
    (hb : b ∈ c.allNodes) (hk : b.hasKind .block = true) : m.Grounded b := by
  -- a store of a number holds no block
  have hputs : ∀ {v : Var} {P : Int → Prop}, Watch.Puts v (Watch.Number P) c → False := fun h => by
    rw [h.not_block (m := m) (fun _ => Watch.still_number) hb] at hk
    cases hk
  cases h with
  | opening hr hn hv hbefore hbo hstate hresume hx hloop ha hao hstart =>
    change c ∈ _ ++ _ :: _ at hc
    rw [List.mem_append, List.mem_cons] at hc
    obtain hc | rfl | hc := hc
    · by_cases ho : m.Opens c
      · obtain h | h := ho
        · exact (hputs h).elim
        · exact (hputs h).elim
      · exact (hbo c hc ho).ground_blocks rfl hb hk
    · obtain ⟨_, _, _, _, _, _, rfl⟩ := hx
      obtain rfl | ⟨L, hL, hbL⟩ := mem_allNodes_node.mp hb
      · cases hk
      · obtain ⟨hf, -⟩ | rfl := mem_operands_assign.mp hL
        · cases hf
        · exact hloop.ground_blocks rfl hbL hk
    · by_cases hs : m.Starts c
      · unfold Watch.Starts at hs
        split at hs
        · obtain rfl | ⟨f, hf, hb⟩ := mem_allNodes_node.mp hb
          · cases hk
          · cases List.mem_singleton.mp hf
            rw [hs.still.not_block hb] at hk
            cases hk
        · cases hs
      · exact (hao c hc hs).ground_blocks rfl hb hk

/-- **The blocks of a tree** in which the machine may stand. -/
theorem Obeys.hosted_blocks (h : Obeys m (.outside true) e) (hb : b ∈ e.allNodes)
    (hk : b.hasKind .block = true) : m.Grounded b ∨ Obeys m .opening b := by
  induction e using operandInduction with
  | absent => simp at hb
  | node i r t d ih =>
    cases h with
    | node hr hd hc =>
      obtain rfl | ⟨c, hmem, hb⟩ := mem_allNodes_node.mp hb
      · cases d with
        | block => exact .inl ⟨hd.2, hd.1⟩
        | _ => cases hk
      · exact ih c hmem (hc c hmem) hb
    | host hr hp hbody =>
      obtain rfl | ⟨c, hmem, hb⟩ := mem_allNodes_node.mp hb
      · cases hk
      · cases List.mem_singleton.mp hmem
        obtain ⟨j, s, u, vs, xs, rfl⟩ := hbody.isBlock
        obtain rfl | ⟨c, hc, hb⟩ := mem_allNodes_node.mp hb
        · exact .inr hbody
        · exact .inl (hbody.opening_blocks hc hb hk)

/-- **Nothing around a block that opens an instance** could be mistaken for it. -/
theorem Obeys.ground_around {path around : List Expr} (h : Obeys m (.outside true) e)
    (hn : (around, n) ∈ walk path e) (hopen : Obeys m .opening n) (hcopy : m.copies n.ref) :
    ∀ z ∈ around, z ∈ path ∨ m.Ground z.ref := by
  induction e using operandInduction generalizing path with
  | absent => simp at hn
  | node i r t d ih =>
    rw [walk_node] at hn
    obtain hn | hn := List.mem_cons.mp hn
    · cases hn
      exact fun z hz => .inl hz
    · obtain ⟨c, hc, hn⟩ := List.mem_flatMap.mp hn
      have hinside : ∀ z ∈ inside path (.node i r t d), m.Ground r → z ∈ path ∨ m.Ground z.ref := by
        intro z hz hg
        unfold inside at hz
        split at hz
        · obtain hz | hz := List.mem_append.mp hz
          · exact .inl hz
          · exact .inr (List.mem_singleton.mp hz ▸ hg)
        · exact .inl hz
      cases h with
      | node hr hd hops =>
        intro z hz
        obtain hz | hz := ih c hc (hops c hc) hn z hz
        · exact hinside z hz (hr (List.ne_nil_of_mem hc))
        · exact .inr hz
      | host hr hp hbody =>
        -- the host of a machine is ground itself, and its body is where the machine opens
        cases List.mem_singleton.mp hc
        obtain ⟨j, s, u, vs, xs, rfl⟩ := hbody.isBlock
        rw [walk_node] at hn
        obtain hn | hn := List.mem_cons.mp hn
        · cases hn
          exact fun z hz => hinside z hz hr
        · obtain ⟨x, hx, hn⟩ := List.mem_flatMap.mp hn
          obtain ⟨j', s', u', vs', xs', rfl⟩ := hopen.isBlock
          exact absurd hcopy (hbody.opening_blocks hx (mem_allNodes_of_mem_walk hn) rfl).ground.other

/-- The same for a tree that opens an instance itself. -/
theorem Obeys.nothing_around {path around : List Expr} (h : Obeys m .opening e)
    (hn : (around, n) ∈ walk path e) (hopen : Obeys m .opening n) (hcopy : m.copies n.ref) : around = path := by
  obtain ⟨j, s, u, vs, xs, rfl⟩ := h.isBlock
  rw [walk_node] at hn
  obtain hn | hn := List.mem_cons.mp hn
  · cases hn
    rfl
  · obtain ⟨x, hx, hn⟩ := List.mem_flatMap.mp hn
    obtain ⟨j', s', u', vs', xs', rfl⟩ := hopen.isBlock
    exact absurd hcopy (h.opening_blocks hx (mem_allNodes_of_mem_walk hn) rfl).ground.other

/-! ### Homes -/

/-- The first scopes of a path are the given ones. -/
def Leading (xs p : List Expr) : Prop := ∃ p', p' <+: p ∧ List.Forall₂ (fun x y => x.same y = true) xs p'

theorem leading_commonPath : ∀ p q : List Expr, commonPath p q <+: p ∧ Leading (commonPath p q) q
  | [], q => ⟨List.nil_prefix, [], List.nil_prefix, .nil⟩
  | a :: as, [] => ⟨List.nil_prefix, [], List.nil_prefix, .nil⟩
  | a :: as, b :: bs => by
    rw [commonPath]
    split
    · rename_i hab
      obtain ⟨hp, q', hq, hall⟩ := leading_commonPath as bs
      exact ⟨List.cons_prefix_cons.mpr ⟨rfl, hp⟩, b :: q', List.cons_prefix_cons.mpr ⟨rfl, hq⟩, .cons hab hall⟩
    · exact ⟨List.nil_prefix, [], List.nil_prefix, .nil⟩

theorem forall₂_prefix {xs zs p : List Expr}
    (h : List.Forall₂ (fun x y => x.same y = true) (xs ++ zs) p) : Leading xs p := by
  induction xs generalizing p with
  | nil => exact ⟨[], List.nil_prefix, .nil⟩
  | cons x xs ih =>
    cases h with
    | cons hx h =>
      obtain ⟨p', hp, hall⟩ := ih h
      exact ⟨_ :: p', List.cons_prefix_cons.mpr ⟨rfl, hp⟩, .cons hx hall⟩

theorem Leading.shorter {xs ys p : List Expr} (h : Leading ys p) (hx : xs <+: ys) : Leading xs p := by
  obtain ⟨zs, rfl⟩ := hx
  obtain ⟨p', hp, hall⟩ := h
  obtain ⟨p'', hp', hall'⟩ := forall₂_prefix hall
  exact ⟨p'', hp'.trans hp, hall'⟩

/-- What all paths have in common is where each of them begins. -/
theorem leading_foldl {ps : List (List Expr)} {p : List Expr} :
    ps.foldl commonPath p <+: p ∧ ∀ q ∈ ps, Leading (ps.foldl commonPath p) q := by
  induction ps generalizing p with
  | nil => exact ⟨List.prefix_refl p, by simp⟩
  | cons q ps ih =>
    obtain ⟨hp, hps⟩ := ih (p := commonPath p q)
    obtain ⟨hcommon, hq⟩ := leading_commonPath p q
    refine ⟨hp.trans hcommon, fun q' hq' => ?_⟩
    obtain rfl | hq' := List.mem_cons.mp hq'
    · exact hq.shorter hp
    · exact hps q' hq'

theorem Leading.refl (p : List Expr) : Leading p p :=
  ⟨p, List.prefix_refl p, List.forall₂_same.mpr fun x _ => same_refl x⟩

/-- Where paths begin the same way, all but the last of the common scopes are around the last scope of
each path. -/
theorem Leading.around {xs p : List Expr} {b x : Expr} (h : Leading (xs ++ [b]) p) (hx : x ∈ xs) :
    ∃ y ∈ p.dropLast, x.same y = true := by
  obtain ⟨p', ⟨rest, rfl⟩, hall⟩ := h
  obtain ⟨xs', b', ys', rfl, hxs, -, -⟩ := forall₂_split hall
  obtain ⟨y, hy, hsame⟩ := exists_of_mem_left hxs hx
  refine ⟨y, ?_, hsame⟩
  rw [List.append_assoc, List.cons_append, List.dropLast_append_of_ne_nil (by simp)]
  exact List.mem_append_left _ hy

/-- A variable that moves goes below the block that declares it, on every path to a use. -/
theorem home_below (decl : Expr) (v : Var) (u : VarUses) : home decl v u = decl ∨
    ∃ z : Expr, z.same decl = true ∧ ∀ π ∈ u.paths, ∃ y ∈ π.dropLast, z.same y = true := by
  obtain ⟨paths, isRead⟩ := u
  cases paths with
  | nil => exact .inl rfl
  | cons p ps =>
    unfold home
    dsimp only
    split
    · exact .inl rfl
    rename_i block around hcommon
    split
    · rename_i hmovable
      simp only [Bool.and_eq_true] at hmovable
      obtain ⟨z, hz, hsame⟩ := List.any_eq_true.mp hmovable.1.1.2
      refine .inr ⟨z, hsame, fun π hπ => ?_⟩
      -- what is around the block comes before it on the common path
      have hprefix : around.reverse ++ [block] <+: ps.foldl commonPath p := by
        have hsuffix := List.dropWhile_suffix (fun e : Expr => !e.hasKind .block) (l := (ps.foldl commonPath p).reverse)
        rw [hcommon] at hsuffix
        simpa using List.reverse_prefix.mpr hsuffix
      obtain ⟨hp, hps⟩ := @leading_foldl ps p
      have hleading : Leading (ps.foldl commonPath p) π := by
        obtain rfl | hπ := List.mem_cons.mp hπ
        · exact (Leading.refl _).shorter hp
        · exact hps π hπ
      exact (hleading.shorter hprefix).around (List.mem_reverse.mpr hz)
    · exact .inl rfl

/-! ### Placements -/

/-- What a placement may do to the variables of a machine: a slot goes into a block that opens an instance,
and the slot of the next state and the function that runs the dispatch loop stay. -/
structure Places (m : Watch) (p : Placement) : Prop where
  moved : ∀ b v, v ∈ p.movedTo b → m.Declarable v ∨ m.Slotted v ∧ m.copies b.ref
  state : m.state ∉ p.dropped
  kept : m.continuation ∉ p.dropped
  apart : ∀ b v, v ∈ p.movedTo b → v ∉ p.dropped

theorem Watch.Slotted.not_declarable (h : m.Slotted v) : ¬ m.Declarable v := by
  rintro ⟨hforeign, -, -⟩
  refine hforeign ?_
  obtain rfl | rfl | rfl := h.own
  · exact .inl rfl
  · exact .inr (.inl rfl)
  · exact .inr (.inr (.inl rfl))

/-- Every slot of the machine is used by a statement of the block that opens an instance. -/
theorem Obeys.opening_touches {vs : List Var} {xs : List Expr} (h : Obeys m .opening (.node i r t (.block vs xs)))
    (hv : m.Slotted v) : ∃ x ∈ xs, x.touches v = true := by
  have hputs : ∀ {w : Var} {P : Expr → Prop} {x : Expr}, Watch.Puts w P x → x.touches w = true := by
    intro w P x hx
    unfold Watch.Puts at hx
    split at hx
    · rw [hx.1]
      simp [touches, storesTo, isRef, asVar?]
    · cases hx
  generalize hx : Expr.node i r t (.block vs xs) = x at h
  cases h with
  | opening _ _ _ _ _ hstate hresume hcloses _ _ _ _ =>
    cases hx
    obtain ⟨hv, hkept⟩ := hv
    obtain rfl | rfl | rfl := hv
    · obtain ⟨y, hy, hput⟩ := hstate hkept
      exact ⟨y, List.mem_append_left _ hy, hputs hput⟩
    · obtain ⟨y, hy, hput⟩ := hresume hkept
      exact ⟨y, List.mem_append_left _ hy, hputs hput⟩
    · refine ⟨_, List.mem_append_right _ List.mem_cons_self, ?_⟩
      obtain ⟨_, _, _, _, _, _, rfl⟩ := hcloses
      simp [touches, storesTo, isRef, asVar?]

/-- The trees that a pass works on. -/
def Watch.Hosted (m : Watch) (e : Expr) : Prop := Obeys m (.outside true) e ∨ Obeys m .opening e

theorem Watch.Hosted.blocks (h : m.Hosted e) (hb : b ∈ e.allNodes) (hk : b.hasKind .block = true) :
    m.Grounded b ∨ Obeys m .opening b := by
  obtain h | h := h
  · exact h.hosted_blocks hb hk
  · obtain ⟨i, r, t, vs, xs, rfl⟩ := h.isBlock
    obtain rfl | ⟨c, hc, hb⟩ := mem_allNodes_node.mp hb
    · exact .inr h
    · exact .inl (h.opening_blocks hc hb hk)

theorem Watch.Hosted.around {around : List Expr} (h : m.Hosted e) (hn : (around, n) ∈ walk [] e)
    (hopen : Obeys m .opening n) (hcopy : m.copies n.ref) : ∀ z ∈ around, m.Ground z.ref := by
  obtain h | h := h
  · exact fun z hz => (h.ground_around hn hopen hcopy z hz).resolve_left (by simp)
  · rw [h.nothing_around hn hopen hcopy]
    simp

theorem Obeys.opening_copies (h : Obeys m .opening e) : m.copies e.ref := by
  cases h with
  | opening _ hn => exact hn

/-- A block that declares a slot of the machine opens an instance. -/
theorem Watch.Hosted.opening (h : m.Hosted e) (hb : b ∈ e.allNodes) (hv : v ∈ b.blockVars) (hs : m.Slotted v) :
    Obeys m .opening b := by
  refine (h.blocks hb (isBlock_of_mem_blockVars hv)).resolve_left fun hg => ?_
  exact hs.not_declarable (hg.declarable v hv)

theorem exists_walk (hb : b ∈ e.allNodes) (path : List Expr) : ∃ around, (around, b) ∈ walk path e := by
  rw [← map_walk path e] at hb
  obtain ⟨⟨around, n⟩, hn, rfl⟩ := List.mem_map.mp hb
  exact ⟨around, hn⟩

theorem mem_walk_operand {around : List Expr} (h : (around, .node i r t d) ∈ walk [] e) (hc : c ∈ operands d)
    (hn : c ≠ .absent) : (inside around (.node i r t d), c) ∈ walk [] e := by
  cases c with
  | absent => exact absurd rfl hn
  | node => exact walk_subset h (walk_operand hc self_mem_walk)

theorem mem_walk_statement {around : List Expr} {vs : List Var} {xs : List Expr} {x : Expr}
    (h : (around, .node i r t (.block vs xs)) ∈ walk [] e) (hx : x ∈ xs) (hv : x.touches v = true) :
    (around ++ [.node i r t (.block vs xs)], x) ∈ walk [] e := by
  rw [← inside_block]
  refine mem_walk_operand h hx ?_
  rintro rfl
  simp [touches, isRef, storesTo, asVar?] at hv

/-- A slot of the machine stays in the blocks that declare it. -/
theorem Watch.Hosted.home (h : m.Hosted e) {ignore : List Var} (hs : m.Slotted v) (hb : b ∈ e.allNodes)
    (hv : v ∈ b.blockVars) {u : VarUses} (hu : (v, u) ∈ (scopes ignore e).uses) (hi : v ∉ ignore) :
    Scopes.home b v u = b := by
  have hopen := h.opening hb hv hs
  have hcopy := hopen.opening_copies
  obtain ⟨around, hwalk⟩ := exists_walk hb []
  obtain ⟨i, r, t, vs, xs, rfl⟩ := hopen.isBlock
  obtain ⟨x, hx, htouch⟩ := hopen.opening_touches hs
  obtain ⟨u', hu', hπ, -⟩ := scopes_records (mem_walk_statement hwalk hx htouch) htouch hi ⟨_, by simp, hv⟩
  cases (orderly_scopes ignore e).unread hu hu'
  obtain hhome | ⟨z, hz, hbelow⟩ := home_below (.node i r t (.block vs xs)) v u
  · exact hhome
  · obtain ⟨y, hy, hsame⟩ := hbelow _ hπ
    rw [List.dropLast_concat] at hy
    have hg := h.around hwalk hopen hcopy y hy
    rw [← ref_eq_of_same hsame, ref_eq_of_same hz] at hg
    exact absurd hcopy hg.other

/-- The dispatch loop turns on the slot of the next state. -/
theorem Obeys.running_reads (h : Obeys m .running e) :
    ∃ n ∈ e.allNodes, n.touches m.state = true ∧ n.plainlyStores m.state = false := by
  cases h with
  | running h =>
    cases h with
    | guarded h =>
      cases h with
      | turning _ h =>
        cases h with
        | @choosing i r i' r' t =>
          refine ⟨.node i' r' .int (.var m.state), ?_, by simp [touches, isRef, asVar?], rfl⟩
          simp [allNodes_node, operands]

/-- The slot of the next state and the function that runs the dispatch loop are read in the block that opens
an instance. -/
theorem Obeys.opening_reads {vs : List Var} {xs : List Expr} (h : Obeys m .opening (.node i r t (.block vs xs)))
    (hv : v = m.state ∨ v = m.continuation) :
    ∃ x ∈ xs, ∃ n ∈ x.allNodes, n.touches v = true ∧ n.plainlyStores v = false := by
  obtain rfl | rfl := hv
  · generalize hx : Expr.node i r t (.block vs xs) = x at h
    cases h with
    | @opening _ _ _ _ _ _ loop _ _ _ _ _ _ _ _ hcloses hloop _ _ _ =>
      cases hx
      obtain ⟨n, hn, htouches, hstores⟩ := hloop.running_reads
      obtain ⟨_, _, _, _, _, _, rfl⟩ := hcloses
      exact ⟨_, List.mem_append_right _ List.mem_cons_self, n, mem_allNodes_of_operand (by simp [operands, hasKind, kind?, data?, Data.kind]) hn,
        htouches, hstores⟩
  · obtain ⟨x, hx, hstarts⟩ := h.exists_starts
    unfold Watch.Starts at hstarts
    split at hstarts
    · unfold Watch.IsContinuation at hstarts
      split at hstarts
      · rename_i i' r' t' v
        subst hstarts
        refine ⟨_, hx, .node i' r' t' (.var m.continuation), ?_, by simp [touches, isRef, asVar?], rfl⟩
        simp [allNodes_node, operands]
      · cases hstarts
    · cases hstarts

/-- What is read in the blocks that declare it is not dropped. -/
theorem Watch.Hosted.not_dropped (h : m.Hosted e) (ignore : List Var) (hv : v = m.state ∨ v = m.continuation) :
    v ∉ ((scopes ignore e).placement ignore).dropped := by
  have hs := orderly_scopes ignore e
  intro hd
  obtain ⟨c, hc, hvc, hi⟩ : ∃ c ∈ e.allNodes, v ∈ c.blockVars ∧ v ∉ ignore := by
    have hk : v ∈ (scopes ignore e).declared.map Prod.fst ∧ v ∉ ignore := by
      obtain ⟨u, hu, -⟩ | ⟨hk, -, hi⟩ := mem_dropped.mp hd
      · exact hs.known _ u hu
      · exact ⟨hk, hi⟩
    obtain ⟨⟨⟨w, c⟩, hc, hw⟩, hi⟩ := hk.imp_left List.mem_map.mp
    cases hw
    exact ⟨c, (hs.declared _ c hc).1, (hs.declared _ c hc).2, hi⟩
  have hown : m.Owns v.id := by
    obtain rfl | rfl := hv
    · exact .inl rfl
    · exact .inr (.inr (.inl rfl))
  have hopen : Obeys m .opening c :=
    (h.blocks hc (isBlock_of_mem_blockVars hvc)).resolve_left fun hg => (hg.declarable _ hvc).foreign hown
  obtain ⟨around, hwalk⟩ := exists_walk hc []
  obtain ⟨i, r, t, vs, xs, rfl⟩ := hopen.isBlock
  obtain ⟨x, hx, n, hn, htouches, hplain⟩ := hopen.opening_reads hv
  -- the node that reads it stands under the block
  have hbelow : (around ++ [.node i r t (.block vs xs)], x) ∈ walk [] e := by
    rw [← inside_block]
    refine mem_walk_operand hwalk hx ?_
    rintro rfl
    simp at hn
  obtain ⟨path, hpath⟩ := exists_walk hn (around ++ [.node i r t (.block vs xs)])
  have hdecl : .node i r t (.block vs xs) ∈ path := (prefix_of_mem_walk hpath).subset (by simp)
  obtain ⟨u, hu, -, hr⟩ := scopes_records (walk_subset hbelow hpath) htouches hi ⟨_, hdecl, hvc⟩
  obtain ⟨u', hu', hr'⟩ | ⟨-, hn, -⟩ := mem_dropped.mp hd
  · cases hs.unread hu hu'
    rw [hr hplain] at hr'
    cases hr'
  · exact hn (List.mem_map.mpr ⟨_, hu, rfl⟩)

/-- **The placement that a survey leads to** respects the machine. -/
theorem placement_places (h : m.Hosted e) (ignore : List Var) :
    Places m ((scopes ignore e).placement ignore) := by
  have hs := orderly_scopes ignore e
  have hapart : ∀ b v, v ∈ ((scopes ignore e).placement ignore).movedTo b →
      v ∉ ((scopes ignore e).placement ignore).dropped := by
    intro b v hv hd
    obtain ⟨u, hu, hr, -⟩ := exists_use_of_mem_movedTo hv
    obtain ⟨u', hu', hr'⟩ | ⟨-, hn, -⟩ := mem_dropped.mp hd
    · cases hs.unread hu hu'
      rw [hr] at hr'
      cases hr'
    · exact hn (List.mem_map.mpr ⟨_, hu, rfl⟩)
  refine ⟨fun b v hv => ?_, h.not_dropped ignore (.inl rfl), h.not_dropped ignore (.inr rfl), hapart⟩
  obtain ⟨u, hu, hr, hsame⟩ := exists_use_of_mem_movedTo hv
  obtain ⟨hk, hi⟩ := hs.known v u hu
  cases hl : (scopes ignore e).declared.lookup v with
  | none =>
    have := lookup_isNone_eq_false hk
    rw [hl] at this
    cases this
  | some c =>
    obtain ⟨as, bs, heq, -⟩ := List.lookup_eq_some_iff.mp hl
    obtain ⟨hc, hvc⟩ := hs.declared v c (by rw [heq]; simp)
    obtain hg | ho := h.blocks hc (isBlock_of_mem_blockVars hvc)
    · exact .inl (hg.declarable v hvc)
    · obtain hd | hslot := ho.opening_vars v hvc
      · exact .inl hd
      · refine .inr ⟨hslot, ?_⟩
        rw [hl, Option.getD_some, h.home hslot hc hvc hu hi] at hsame
        rw [← ref_eq_of_same hsame]
        exact ho.opening_copies

end

end Resumable
