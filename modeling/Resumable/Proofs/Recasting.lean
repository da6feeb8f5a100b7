import Resumable.Proofs.Rebuilding

/-!
# `Proofs.Recasting`: passes over a finished tree

A pass rebuilds a tree from the leaves up and takes new identities on the way. What it makes of a tree may
stand where the tree stood; the watch moves on with the supply, and knows the new identities of the blocks
that open an instance.

**Contents**
* `Watch.Later`, `Watch.Onward`, `Watch.drop`: a watch later in a pass, and after stores were dropped.
* `Obeys.later`, `Replaces.trans`: one replacement after another.
* `Reworks`, `Recasts`: constructions that replace a tree, with a rule for each way of putting them together.
* `Recasts.rewrite`: a pass over a tree.
-/

namespace Resumable

open Resumable.Expr

/-- The same machine, seen later: old identities mean what they meant before. -/
structure Watch.Later (m m' : Watch) : Prop where
  ages : m.Ages m'
  refs : m.limit.refs ≤ m'.limit.refs
  copies : ∀ r, m.copies r → m'.copies r
  others : ∀ r, r ≤ m.limit.refs → m'.copies r → m.copies r

/-- The same machine after more numbers were handed out; the blocks that were given one of them and open an
instance are known. -/
structure Watch.Onward (m m' : Watch) : Prop extends Watch.Later m m' where
  gone : m'.gone = m.gone

/-- A variable of the machine that the block which opens an instance declares. -/
def Watch.Slot (m : Watch) (v : Var) : Prop := v = m.state ∨ v = m.resume ∨ v = m.continuation

/-- The machine without the stores into some variables, and without their declarations. -/
def Watch.drop (m : Watch) (g : Var → Prop) : Watch :=
  { m with gone := fun i => m.gone i ∨ ∃ v, m.Slot v ∧ v.id = i ∧ g v }

/-- The variables of the machine that blocks of the tree declare are still there later. -/
def Watch.Kept (m m' : Watch) (e : Expr) : Prop :=
  ∀ b ∈ e.allNodes, ∀ v ∈ b.blockVars, m.Slotted v → m'.Slotted v

section
variable {m₀ m m' m'' : Watch} {e x y z : Expr} {role : Role} {g : Var → Prop} {armed bare : Bool}

namespace Watch

theorem drop_none (m : Watch) : m.drop (fun _ => False) = m := by
  simp [drop]

theorem Later.refl (m : Watch) : m.Later m := ⟨.refl m, Nat.le_refl _, fun _ h => h, fun _ _ h => h⟩

theorem Later.trans (h : m.Later m') (h' : m'.Later m'') : m.Later m'' where
  ages := h.ages.trans h'.ages
  refs := Nat.le_trans h.refs h'.refs
  copies r hr := h'.copies r (h.copies r hr)
  others r hr hc := h.others r hr (h'.others r (Nat.le_trans hr h.refs) hc)

theorem Onward.refl (m : Watch) : m.Onward m := ⟨.refl m, rfl⟩

theorem Onward.trans (h : m.Onward m') (h' : m'.Onward m'') : m.Onward m'' :=
  ⟨h.toLater.trans h'.toLater, h'.gone.trans h.gone⟩

/-- Nothing is known about names and identities that were not handed out. -/
theorem Onward.extend {q : Supply} (hnames : m.limit.names ≤ q.names) (hrefs : m.limit.refs ≤ q.refs) :
    m.Onward { m with limit := q } :=
  ⟨⟨⟨m.gone, m.copies, q, rfl, fun _ h => h, hnames⟩, hrefs, fun _ h => h, fun _ _ h => h⟩, rfl⟩

theorem later_drop (m : Watch) (g : Var → Prop) : m.Later (m.drop g) :=
  ⟨⟨_, m.copies, m.limit, rfl, fun _ => Or.inl, Nat.le_refl _⟩, Nat.le_refl _, fun _ h => h, fun _ _ h => h⟩

theorem Ages.drop (h : m.Ages m') (g : Var → Prop) : (m.drop g).Ages (m'.drop g) := by
  obtain ⟨gone, copies, limit, rfl, hgone, hnames⟩ := h
  exact ⟨_, copies, limit, rfl, fun i hi => hi.imp_left (hgone i), hnames⟩

theorem Onward.drop (h : m.Onward m') (g : Var → Prop) : (m.drop g).Onward (m'.drop g) where
  ages := h.ages.drop g
  refs := h.refs
  copies := h.copies
  others := h.others
  gone := by
    have hslot : m'.Slot = m.Slot := by
      obtain ⟨_, _, _, rfl, -, -⟩ := h.ages
      rfl
    simp only [Watch.drop, h.gone, hslot]

theorem Ground.later {r : Nat} (h : m.Ground r) (hl : m.Later m') : m'.Ground r :=
  ⟨Nat.le_trans h.within hl.refs, fun hc => h.other (hl.others r h.within hc)⟩

/-- A variable that is still declared by the machine. -/
theorem Slotted.ages {v : Var} (h : m.Slotted v) (ha : m.Ages m') (hg : ¬ m'.gone v.id) : m'.Slotted v := by
  obtain ⟨_, _, _, rfl, -, -⟩ := ha
  exact ⟨h.own, hg⟩

theorem Onward.kept (h : m.Onward m') (e : Expr) : m.Kept m' e := fun _ _ _ _ hs =>
  hs.ages h.ages (h.gone ▸ hs.kept)

theorem Kept.operand {i r : Nat} {t : Ty} {d : Data Expr} (h : m.Kept m' (.node i r t d)) {c : Expr}
    (hc : c ∈ operands d) : m.Kept m' c := fun b hb => h b (mem_allNodes_of_operand hc hb)

/-- A statement fits as well when less is special. -/
theorem Fits.later (h : m.Fits armed bare x y rest) (ha : m.Ages m') : m'.Fits armed bare x y rest := by
  have hany : ¬ m.Special armed y → ¬ m'.Special armed y := fun hs hs' => hs (hs'.before ha)
  obtain ⟨_, _, _, rfl, -, -⟩ := ha
  cases h with
  | any hs => exact .any (hany hs)
  | enter hx hy => exact .enter hx hy
  | aimed hp hx => exact .aimed hp hx
  | complete hp hx hz => exact .complete hp hx hz
  | fail hb hx hy hz => exact .fail hb hx hy hz
  | hand hx hy => exact .hand hx hy

theorem Shape.later {xs : List Expr} (h : m.Shape armed bare x xs) (ha : m.Ages m') :
    m'.Shape armed bare x xs := by
  induction xs generalizing x with
  | nil => trivial
  | cons y ys ih => exact ⟨h.1.later ha, ih h.2⟩

theorem Ordinary.later {r : Nat} {d : Data Expr} (h : m.Ordinary r d) (hl : m.Later m') : m'.Ordinary r d := by
  unfold Ordinary at h ⊢
  cases d with
  | var v => exact Plain.ages h hl.ages
  | block vs xs => exact ⟨fun v hv => (h.1 v hv).ages hl.ages, h.2.later hl⟩
  | assign op t v => exact fun v hv => (h v hv).ages hl.ages
  | protect b hs f g => exact fun h' hh v hv => (h h' hh v hv).ages hl.ages
  | label l x => exact Plain.ages h hl.ages
  | lambda n ps b k f => exact fun v hv => (h v hv).ages hl.ages
  | _ => trivial

end Watch

/-- A tree treats the machine as it should also later, when what it declares for the machine is still
there. -/
theorem Obeys.later (h : Obeys m role e) (hl : m.Later m') (hk : m.Kept m' e) : Obeys m' role e := by
  -- what is asked of names and numbers holds later as well; the rest follows the shape of the tree
  have hplain : ∀ i, m.Plain i → m'.Plain i := fun i h => h.ages hl.ages
  have hdeclarable : ∀ v, m.Declarable v → m'.Declarable v := fun v h => h.ages hl.ages
  have hground : ∀ r, m.Ground r → m'.Ground r := fun r h => h.later hl
  have hspecial : ∀ {a : Bool} {x : Expr}, ¬ m.Special a x → ¬ m'.Special a x := fun hs hs' =>
    hs (hs'.before hl.ages)
  induction h with
  | absent => exact .absent
  | node hr hd _ ih => exact .node (fun hne => hground _ (hr hne)) (hd.later hl) fun c hc => ih c hc (hk.operand hc)
  | host hr hp _ ih =>
    exact .host (hground _ hr) (fun v hv => (hp v hv).ages hl.ages) (ih (hk.operand (List.mem_singleton.mpr rfl)))
  | user _ ih => exact .user (ih hk)
  | raw hx => exact .raw (hx.ages hl.ages)
  | hand _ hcont ih =>
    have ha := ih (hk.operand (by simp [operands]))
    obtain ⟨_, _, _, rfl, -, -⟩ := hl.ages
    exact .hand ha hcont
  | block hg hv _ hs ih =>
    exact .block (hground _ hg) (fun v hmem => hdeclarable v (hv v hmem)) (fun x hx => ih x hx (hk.operand hx))
      (hs.later hl.ages)
  | conditional _ _ hsa _ hsb iht iha ihb =>
    exact .conditional (iht (hk.operand (by simp [operands]))) (iha (hk.operand (by simp [operands])))
      (hspecial hsa) (ihb (hk.operand (by simp [operands]))) (hspecial hsb)
  | switch _ _ _ hs _ hso ihv iht iha iho =>
    refine .switch (ihv (hk.operand (mem_operands_switch.mpr (.inl rfl)))) (fun arm harm x hx => ?_)
      (fun arm harm => ?_) (fun arm harm => hspecial (hs arm harm))
      (iho (hk.operand (mem_operands_switch.mpr (.inr (.inr rfl))))) (hspecial hso)
    · exact iht arm harm x hx (hk.operand (mem_operands_switch.mpr (.inr (.inl ⟨arm, harm, .inl hx⟩))))
    · exact iha arm harm (hk.operand (mem_operands_switch.mpr (.inr (.inl ⟨arm, harm, .inr rfl⟩))))
  | protect _ hsb hex _ hsh ihb ihh =>
    exact .protect (ihb (hk.operand (by simp [operands]))) (hspecial hsb) (hplain _ hex)
      (ihh (hk.operand (by simp [operands]))) (hspecial hsh)
  | @opening i r t vs before after loop x hr hn hv hb hbo hstate hresume hx hloop ha hao hstart ihb ihl iha =>
    -- every statement of the block is kept, the function that runs the dispatch loop inside its store too
    have hloop' : Obeys m' .running loop := by
      have hkept : m.Kept m' _ := hk.operand (List.mem_append_right before List.mem_cons_self)
      obtain ⟨_, _, _, _, _, _, rfl⟩ := hx
      exact ihl (hkept.operand (mem_operands_assign.mpr (.inr rfl)))
    have hb' : ∀ y ∈ before, ¬ m.Opens y → Obeys m' (.outside false) y := fun y hy hn =>
      ihb y hy hn (hk.operand (by simp [operands, hy]))
    have ha' : ∀ y ∈ after, ¬ m.Starts y → Obeys m' (.outside false) y := fun y hy hn =>
      iha y hy hn (hk.operand (by simp [operands, hy]))
    have hv' : ∀ v ∈ vs, m'.Declarable v ∨ m'.Slotted v := fun v hmem =>
      (hv v hmem).imp (hdeclarable v) (hk _ self_mem_nodes v hmem)
    have hr' := Nat.le_trans hr hl.refs
    have hn' := hl.copies r hn
    obtain ⟨gone, _, _, rfl, hgone, -⟩ := hl.ages
    exact .opening hr' hn' hv' hb hb' (fun h => hstate fun hg => h (hgone _ hg))
      (fun h => hresume fun hg => h (hgone _ hg)) hx hloop' ha ha' hstart
  | running _ ih => exact .running (ih (hk.operand (by simp [operands])))
  | guarded _ hex _ ihb ihh =>
    exact .guarded (ihb (hk.operand (by simp [operands]))) (hplain _ hex) (ihh (hk.operand (by simp [operands])))
  | turning hb _ ih =>
    have hbody := ih (hk.operand (by simp [operands]))
    obtain ⟨_, _, _, rfl, -, -⟩ := hl.ages
    exact .turning hb hbody
  | @choosing i r i' r' t arms other isArmed ht _ hs hall _ ihc iho =>
    have hc' : ∀ arm ∈ arms, Obeys m' (.inside (isArmed arm) true) arm.2 := fun arm harm =>
      ihc arm harm (hk.operand (mem_operands_switch.mpr (.inr (.inl ⟨arm, harm, .inr rfl⟩))))
    have hs' : ∀ arm ∈ arms, ¬ m'.Special (isArmed arm) arm.2 := fun arm harm => hspecial (hs arm harm)
    have ho' := iho (hk.operand (mem_operands_switch.mpr (.inr (.inr rfl))))
    obtain ⟨_, _, _, rfl, -, -⟩ := hl.ages
    exact .choosing ht hc' hs' hall ho'
  | unknown _ ih => exact .unknown (ih (hk.operand (by simp [operands])))
  | reporting _ ih =>
    have hf := ih (hk.operand (by simp [operands]))
    obtain ⟨_, _, _, rfl, -, -⟩ := hl.ages
    exact .reporting hf
  | failing hg hv hx _ hsimple hcalls ih =>
    have hy := ih (hk.operand (by simp [operands]))
    have hg' := hground _ hg
    have hv' : ∀ v ∈ _, m'.Declarable v := fun v hmem => hdeclarable v (hv v hmem)
    obtain ⟨_, _, _, rfl, -, -⟩ := hl.ages
    exact .failing hg' hv' hx hy hsimple hcalls
  | failed _ ih => exact .failed (ih hk)

/-! ### One replacement after another -/

/-- A tree may stand for itself later, when what it declares for the machine is still there. -/
theorem Replaces.of_obeys (h : m.Later m') (hk : ∀ role, Obeys m role x → m.Kept m' x)
    (hL : ∀ L, m.Closes L x → Obeys m .running L → m.Kept m' L) : Replaces m m' x x where
  still _ := rfl
  reads := id
  obeys role hx := hx.later h (hk role hx)
  plain _ _ _ _ _ hs hs' := hs (hs'.before h.ages)
  puts _ _ _ hx := .inl hx
  hands := id
  calls _ := id
  transfers := id
  quits := id
  settles := id
  closes L hx hobeys := ⟨L, hx, hobeys.later h (hL L hx hobeys)⟩
  starts := id
  simple := id
  kinds _ _ := id

theorem Replaces.of_later (h : m.Later m') (hk : m.Kept m' x) : Replaces m m' x x := by
  refine .of_obeys h (fun _ _ => hk) fun L hx _ => ?_
  obtain ⟨_, _, _, _, _, _, rfl⟩ := hx
  exact hk.operand (mem_operands_assign.mpr (.inr rfl))

theorem Replaces.refl (m : Watch) (x : Expr) : Replaces m m x x := .of_later (.refl m) fun _ _ _ _ h => h

/-- One tree stands for another over a third. -/
theorem Replaces.trans (h : Replaces m m' x y) (h' : Replaces m' m'' y z) (ha : m.Ages m') (ha' : m'.Ages m'') :
    Replaces m m'' x z := by
  -- a variable dropped on the way stays dropped
  have hgone : ∀ i, m'.gone i → m''.gone i := by
    obtain ⟨_, _, _, rfl, hg, -⟩ := ha'
    exact hg
  have hobeys := h.obeys
  have hplain := h.plain
  have hcloses := h.closes
  have hputs := h.puts
  have hcloses' := h'.closes
  have hhands := h'.hands
  have hcalls := h'.calls
  have hquits := h'.quits
  have hsettles := h'.settles
  have hstarts := h'.starts
  obtain ⟨gone, _, _, rfl, -, -⟩ := ha
  exact
    { still := fun hx => by
        have hy := h.still hx
        rw [h'.still (hy ▸ hx), hy]
      reads := fun hx => h'.reads (h.reads hx)
      obeys := fun role hx => h'.obeys role (hobeys role hx)
      plain := fun a b armed hle hx hs => h'.plain a b armed hle (hobeys _ hx) (hplain a b armed hle hx hs)
      puts := fun v P hv hx => by
        obtain hy | ⟨hg, hnum⟩ := hputs v P hv hx
        · exact h'.puts v P hv hy
        · exact .inr ⟨hgone _ hg, h'.still (Watch.still_number hnum) ▸ hnum⟩
      hands := fun hx => hhands (h.hands hx)
      calls := fun b hx => hcalls b (h.calls b hx)
      transfers := fun hx => h'.transfers (h.transfers hx)
      quits := fun hx => hquits (h.quits hx)
      settles := fun hx => hsettles (h.settles hx)
      closes := fun L hx hL => by
        obtain ⟨L', hy, hL'⟩ := hcloses L hx hL
        exact hcloses' L' hy hL'
      starts := fun hx => hstarts (h.starts hx)
      simple := fun hx => h'.simple (h.simple hx)
      kinds := fun k hk hx => h'.kinds k hk (h.kinds k hk hx) }

/-- What stood for a tree at one time also stands for it seen from an earlier time, and at a later one. -/
theorem Replaces.widen {n n' : Watch} (h : Replaces m m' x y) (hn : n.Onward m) (ha : m.Ages m')
    (hn' : m'.Onward n') : Replaces n n' x y :=
  ((Replaces.of_later hn.toLater (hn.kept x)).trans h hn.ages ha).trans
    (.of_later hn'.toLater (hn'.kept y)) (hn.ages.trans ha) hn'.ages

/-! ### Constructions -/

/-- The watch has moved on with the supply. -/
structure Watch.Ready (m : Watch) (q : Supply) : Prop where
  fair : m.Fair
  limit : m.limit = q
  copies : ∀ r, m.copies r → r ≤ q.refs

/-- Wherever the construction starts, the watch moves on with it, and what is built has the property. -/
def Reworks (m : Watch) (x : Build α) (P : Watch → α → Prop) : Prop :=
  ∀ q a q', m.Ready q → x q = .ok a q' → ∃ m', m.Onward m' ∧ m'.Ready q' ∧ P m' a

/-- From some time on, whatever the construction builds may stand where `e` stood, without the stores into
the variables of `g`. -/
def Recasts (m₀ : Watch) (g : Var → Prop) (x : Build Expr) (e : Expr) : Prop :=
  ∀ m : Watch, m₀.Onward m → m.Fair → Reworks m x fun m' y => Replaces m (m'.drop g) e y

theorem Watch.Onward.ages_drop (h : m.Onward m') (g : Var → Prop) : m.Ages (m'.drop g) :=
  h.ages.trans (Watch.later_drop m' g).ages

theorem Watch.Onward.fair (h : m.Onward m') (hm : m.Fair) : m'.Fair := hm.ages h.ages

theorem Build.exists_of_bind {x : Build α} {f : α → Build β} {q q' : Supply} {b : β}
    (h : (x >>= f) q = .ok b q') : ∃ a q₁, x q = .ok a q₁ ∧ f a q₁ = .ok b q' := by
  change EStateM.bind x f q = _ at h
  unfold EStateM.bind at h
  split at h
  · rename_i a q₁ hrun
    exact ⟨a, q₁, hrun, h⟩
  · cases h

/-- The watch when nothing is known about the identities that were taken. -/
theorem Watch.Ready.extend {q q' : Supply} (h : m.Ready q) (hq : q.Below q') :
    m.Onward { m with limit := q' } ∧ Watch.Ready { m with limit := q' } q' := by
  obtain ⟨hfair, rfl, hcopies⟩ := h
  have ho := Watch.Onward.extend hq.names hq.refs
  exact ⟨ho, ho.fair hfair, rfl, fun r hr => Nat.le_trans (hcopies r hr) hq.refs⟩

namespace Reworks

variable {α β : Type} {u : Build α} {f : α → Build β} {P Q : Watch → α → Prop} {R : Watch → β → Prop}

theorem pure {v : α} (h : P m v) : Reworks m (pure v) P := by
  intro q c q' hm heq
  cases heq
  exact ⟨m, .refl m, hm, h⟩

theorem throw (e : Fault) : Reworks m (throw e : Build α) P := by
  intro q c q' hm heq
  cases heq

theorem bind (hu : Reworks m u P) (hf : ∀ m₁ v, m.Onward m₁ → P m₁ v → Reworks m₁ (f v) R) :
    Reworks m (u >>= f) R := by
  intro q c q' hm h
  obtain ⟨v, q₁, hv, h⟩ := Build.exists_of_bind h
  obtain ⟨m₁, h01, hm₁, hp⟩ := hu q v q₁ hm hv
  obtain ⟨m₂, h12, hm₂, hr⟩ := hf m₁ v h01 hp q₁ c q' hm₁ h
  exact ⟨m₂, h01.trans h12, hm₂, hr⟩

theorem mono (h : Reworks m u P) (hP : ∀ m' v, m.Onward m' → P m' v → Q m' v) : Reworks m u Q := by
  intro q c q' hm hrun
  obtain ⟨m', hmm, hm', hp⟩ := h q c q' hm hrun
  exact ⟨m', hmm, hm', hP m' c hmm hp⟩

/-- The machine is fair wherever a construction starts. -/
theorem fair (h : m.Fair → Reworks m u P) : Reworks m u P := fun q c q' hm => h hm.fair q c q' hm

theorem freshRef : Reworks m Build.freshRef fun m' r => m'.Ground r := by
  intro q r q' hm hrun
  obtain ⟨ho, hr⟩ := hm.extend (Onward.below q r q' hrun)
  cases hrun
  exact ⟨_, ho, hr, Nat.le_refl _, fun hc => absurd (hm.copies _ hc) (Nat.not_succ_le_self _)⟩

theorem node (t : Ty) (d : Data Expr) :
    Reworks m (Build.node t d) fun m' y => ∃ i r, m'.Ground r ∧ m.limit.refs < r ∧ y = .node i r t d := by
  intro q y q' hm hrun
  obtain ⟨ho, hr⟩ := hm.extend (Onward.below q y q' hrun)
  cases hrun
  exact ⟨_, ho, hr, _, _, ⟨Nat.le_refl _, fun hc => absurd (hm.copies _ hc) (Nat.not_succ_le_self _)⟩,
    Nat.lt_succ_of_le (congrArg Supply.refs hm.limit).le, rfl⟩

end Reworks

/-- Work on every element of a list, where what holds of an element and its result is seen from an earlier
and from a later time as well. -/
theorem Reworks.mapM {f : γ → Build α} {S : Watch → Watch → γ → α → Prop} {cs : List γ}
    (hS : ∀ {n m m' n' : Watch} {c y}, n.Onward m → m.Onward m' → m'.Onward n' → S m m' c y → S n n' c y)
    (h0 : m₀.Onward m) (hm : m.Fair)
    (hf : ∀ c ∈ cs, ∀ m, m₀.Onward m → m.Fair → Reworks m (f c) fun m' y => S m m' c y) :
    Reworks m (cs.mapM f) fun m' ys => List.Forall₂ (S m m') cs ys := by
  induction cs generalizing m with
  | nil =>
    rw [List.mapM_nil]
    exact .pure .nil
  | cons c cs ih =>
    rw [List.mapM_cons]
    refine (hf c List.mem_cons_self m h0 hm).bind fun m₁ y h01 hrep => ?_
    refine (ih (h0.trans h01) (h01.fair hm) fun c hc => hf c (List.mem_cons_of_mem _ hc)).bind fun m₂ ys h12 hreps => ?_
    exact .pure (.cons (hS (.refl m) h01 h12 hrep) (hreps.imp fun _ _ hr => hS h01 h12 (.refl m₂) hr))

theorem Replaces.self (h : m.Onward m') (e : Expr) : Replaces m (m'.drop fun _ => False) e e := by
  rw [Watch.drop_none]
  exact .of_later h.toLater (h.kept e)

/-- Leaving a tree as it is replaces it. -/
theorem Recasts.pure (e : Expr) : Recasts m₀ (fun _ => False) (pure e) e := fun m _ _ =>
  .pure (.self (.refl m) e)

/-- One pass after another. -/
theorem Recasts.bind {u : Build Expr} {f : Expr → Build Expr} (hu : Recasts m₀ (fun _ => False) u e)
    (hf : ∀ y, Recasts m₀ (fun _ => False) (f y) y) : Recasts m₀ (fun _ => False) (u >>= f) e := by
  refine fun m h0 hm => (hu m h0 hm).bind fun m₁ y h01 hrep => ?_
  refine (hf y m₁ (h0.trans h01) (h01.fair hm)).mono fun m₂ z h12 hrep' => ?_
  rw [Watch.drop_none] at hrep hrep' ⊢
  exact hrep.trans hrep' h01.ages h12.ages

/-! ### Rebuilding a node -/

/-- A new identity was taken, for a block that opens an instance where `opens` says so. -/
def Watch.next (m : Watch) (opens : Prop) : Watch :=
  { m with
    limit := { m.limit with refs := m.limit.refs + 1 }
    copies := fun r => m.copies r ∨ opens ∧ r = m.limit.refs + 1 }

/-- One more node is ready for the next identity. -/
theorem Watch.Ready.next {q : Supply} (h : m.Ready q) (opens : Prop) :
    m.Onward (m.next opens) ∧ (m.next opens).Ready { q with refs := q.refs + 1 } := by
  obtain ⟨hfair, rfl, hcopies⟩ := h
  refine ⟨⟨⟨⟨m.gone, _, _, rfl, fun _ h => h, Nat.le_refl _⟩, Nat.le_succ _, fun r => Or.inl,
    fun r hr hc => ?_⟩, rfl⟩, ⟨hfair.start, hfair.minus, hfair.disjoint, hfair.parked, hfair.apart, hfair.types⟩,
    rfl, fun r hr => ?_⟩
  · obtain hc | ⟨-, rfl⟩ := hc
    · exact hc
    · exact absurd hr (Nat.not_succ_le_self _)
  · obtain hc | ⟨-, rfl⟩ := hr
    · exact Nat.le_succ_of_le (hcopies r hc)
    · exact Nat.le_refl _

theorem Watch.Declarable.drop {v : Var} (h : m.Declarable v) (hm : m.Onward m') (g : Var → Prop) :
    (m'.drop g).Declarable v := h.ages (hm.ages_drop g)

variable {i r : Nat} {t : Ty} {d d' : Data Expr} {q : Supply}

/-- The variables of a node that is rebuilt, where variables of `g` are no longer stored into. -/
structure Redeclares (m : Watch) (g : Var → Prop) (x y : Expr) : Prop where
  plain : ¬ Obeys m .opening x → m.Ground x.ref → (∀ v ∈ x.blockVars, m.Declarable v) →
    ∀ v ∈ y.blockVars, m.Declarable v
  slots : Obeys m .opening x → ∀ v ∈ y.blockVars, m.Declarable v ∨ (m.drop g).Slotted v

/-- A node of which the parts were replaced gets a new identity. -/
theorem Replaces.rebuild (hm : m.Fair) (h01 : m.Onward m') (h1 : m'.Ready q)
    (hd : d.Alike (Replaces m (m'.drop g)) d') (hs : ¬ m.Still (.node i r t d))
    (hv : Redeclares m g (.node i r t d) (.node i (q.refs + 1) t d')) :
    ∃ m'', m.Onward m'' ∧ m''.Ready { q with refs := q.refs + 1 } ∧
      Replaces m (m''.drop g) (.node i r t d) (.node i (q.refs + 1) t d') := by
  obtain ⟨h12, h2⟩ := h1.next (Obeys m .opening (.node i r t d))
  have h02 := h01.trans h12
  refine ⟨_, h02, h2, Replaces.node hm ⟨h02.ages_drop g, fun hn _ => ⟨?_, ?_⟩, fun hn hg hold v hmem => ?_,
    fun ho => ⟨?_, ?_⟩, fun ho v hmem => ?_⟩ (hd.imp fun x _ y hr => ?_) fun h => absurd h hs⟩
  · exact (congrArg Supply.refs h2.limit).ge
  · rintro (hc | ⟨ho, -⟩)
    · exact absurd (h1.copies _ hc) (Nat.not_succ_le_self _)
    · exact hn ho
  · exact (hv.plain hn hg hold v hmem).drop h02 g
  · exact (congrArg Supply.refs h2.limit).ge
  · exact .inr ⟨ho, by rw [h1.limit]; rfl⟩
  · obtain h | h := hv.slots ho v hmem
    · exact .inl (h.drop h02 g)
    · refine .inr (h.ages (h02.ages.drop g) ?_)
      rw [(h02.drop g).gone]
      exact h.kept
  · exact hr.widen (.refl m) (h01.ages_drop g) (h12.drop g)

theorem Obeys.opening_vars (h : Obeys m .opening x) : ∀ v ∈ x.blockVars, m.Declarable v ∨ m.Slotted v := by
  cases h with
  | opening _ _ hv => exact hv

/-- The same variables. -/
theorem Redeclares.same (m : Watch) (h : y.blockVars = x.blockVars) : Redeclares m (fun _ => False) x y where
  plain _ _ hv v hmem := hv v (h ▸ hmem)
  slots ho v hmem := by
    rw [Watch.drop_none]
    exact ho.opening_vars v (h ▸ hmem)

/-- What comes of work on the operands of a node: the node where they all stay, or a new one. -/
theorem mapChildren_run {f : Expr → Build Expr} {q' : Supply}
    (h : e.mapChildren (fun c _ => f c) q = .ok y q') : ∃ cs q₁, e.children.mapM f q = .ok cs q₁ ∧
      (((e.children.zip cs).all fun (x, y) => x.same y) = true ∧ y = e ∧ q' = q₁ ∨
        ((e.children.zip cs).all fun (x, y) => x.same y) = false ∧ ∃ i r t d, e = .node i r t d ∧
          y = .node i (q₁.refs + 1) t (refill d cs) ∧ q' = { q₁ with refs := q₁.refs + 1 }) := by
  rw [mapChildren_eq] at h
  obtain ⟨cs, q₁, hcs, h⟩ := Build.exists_of_bind h
  refine ⟨cs, q₁, hcs, ?_⟩
  split at h
  · rename_i hsame
    cases h
    exact .inl ⟨hsame, rfl, rfl⟩
  · rename_i hsame
    have hsame := Bool.eq_false_iff.mpr hsame
    cases e with
    | absent => simp [children] at hsame
    | node i r t d =>
      cases h
      exact .inr ⟨hsame, i, r, t, d, rfl, rfl, rfl⟩

theorem Watch.Still.children_eq (h : m.Still e) : e.children = [] := by
  unfold Watch.Still at h
  split at h
  · rfl
  · rfl
  · rfl
  · rfl
  · cases h

theorem Replaces.absent (m m' : Watch) (ha : m.Later m') : Replaces m m' .absent .absent :=
  .of_later ha fun b hb => by simp at hb

theorem blockVars_refill (i r j s : Nat) (t : Ty) (d : Data Expr) (cs : List Expr) :
    (Expr.node i r t (refill d cs)).blockVars = (Expr.node j s t d).blockVars := by
  cases d <;> rfl

/-- Work on the operands of a node replaces the node. -/
theorem Recasts.mapChildren {f : Expr → Build Expr}
    (hf : ∀ c ∈ e.children, Recasts m₀ (fun _ => False) (f c) c) :
    Recasts m₀ (fun _ => False) (e.mapChildren fun c _ => f c) e := by
  intro m h0 hfair q y q' hm h
  obtain ⟨cs, q₁, hcs, h⟩ := mapChildren_run h
  have hwork := Reworks.mapM (m := m) (S := fun m m' c y => Replaces m (m'.drop fun _ => False) c y)
    (fun hn hmm hn' h => h.widen hn (hmm.ages_drop _) (hn'.drop _)) h0 hfair hf
  obtain ⟨m₁, h01, h1, hreps⟩ := hwork q cs q₁ hm hcs
  obtain ⟨-, rfl, rfl⟩ | ⟨hsame, i, r, t, d, rfl, rfl, rfl⟩ := h
  · exact ⟨m₁, h01, h1, .self h01 _⟩
  · refine Replaces.rebuild hfair h01 h1 (refill_alike ?_ hreps) ?_ (.same m (blockVars_refill _ _ _ _ _ _ _))
    · exact .absent _ _ (h01.toLater.trans (Watch.later_drop m₁ _))
    · intro hs
      rw [hs.children_eq] at hsame
      cases hsame

/-- A pass over a tree replaces it when it replaces every node. -/
theorem Recasts.rewrite {f : Expr → Build Expr} (hf : ∀ n, Recasts m₀ (fun _ => False) (f n) n) (e : Expr) :
    Recasts m₀ (fun _ => False) (e.rewrite f) e := by
  rw [Expr.rewrite]
  split
  · exact .pure e
  · exact (Recasts.mapChildren fun c _ => Recasts.rewrite hf c).bind hf
  termination_by sizeOf e
  decreasing_by exact sizeOf_lt_of_mem_children ‹_›

end

end Resumable
