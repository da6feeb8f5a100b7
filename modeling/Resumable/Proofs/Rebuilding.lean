import Resumable.Proofs.Orderly
import Resumable.Proofs.Replacing

/-!
# `Proofs.Rebuilding`: a node of which the parts were replaced

When every part of a node has been replaced, so has the node: for each role there is a lemma that rebuilds
the node in that role, and `Replaces.node` puts them together.

**Contents**
* `Replaces.opening`, `Replaces.choosing`, `Replaces.failing`: the roles with a structure of their own.
* `Replaces.obeys_node`: every role.
* `Replaces.node`: rebuilding a node.
-/

namespace Resumable

open Resumable.Expr

section
variable {m m' : Watch} {x y : Expr} {i r r' : Nat} {t : Ty} {d d' : Data Expr} {armed bare : Bool}

/-! ### Lists -/

theorem exists_of_mem_left {α : Type} {R : α → α → Prop} {xs xs' : List α} (h : List.Forall₂ R xs xs') {a : α}
    (ha : a ∈ xs) : ∃ b ∈ xs', R a b := by
  induction h with
  | nil => cases ha
  | cons hr _ ih =>
    obtain rfl | ha := List.mem_cons.mp ha
    · exact ⟨_, List.mem_cons_self, hr⟩
    · obtain ⟨b, hb, h⟩ := ih ha
      exact ⟨b, List.mem_cons_of_mem _ hb, h⟩

/-- A list that is alike to one in two parts falls into two parts as well. -/
theorem forall₂_split {α : Type} {R : α → α → Prop} {xs ys : List α} {a : α} {zs : List α}
    (h : List.Forall₂ R (xs ++ a :: ys) zs) :
    ∃ xs' a' ys', zs = xs' ++ a' :: ys' ∧ List.Forall₂ R xs xs' ∧ R a a' ∧ List.Forall₂ R ys ys' := by
  induction xs generalizing zs with
  | nil =>
    cases h with
    | cons ha hys => exact ⟨[], _, _, rfl, .nil, ha, hys⟩
  | cons x xs ih =>
    cases h with
    | cons hx h =>
      obtain ⟨xs', a', ys', rfl, hxs, ha, hys⟩ := ih h
      exact ⟨_ :: xs', a', ys', rfl, .cons hx hxs, ha, hys⟩

/-- Alike lists end alike. -/
theorem forall₂_getLast? {α : Type} {R : α → α → Prop} {xs ys : List α} (h : List.Forall₂ R xs ys) {a : α}
    (ha : xs.getLast? = some a) : ∃ b, ys.getLast? = some b ∧ R a b := by
  induction h with
  | nil => cases ha
  | @cons x y xs ys hxy hrest ih =>
    cases hrest with
    | nil =>
      cases ha
      exact ⟨y, rfl, hxy⟩
    | cons _ _ =>
      rw [List.getLast?_cons_cons] at ha ⊢
      exact ih ha

/-! ### The block that opens an instance -/

/-- A number is code outside every machine. -/
theorem Watch.Number.foreign {P : Int → Prop} {hosts : Bool} (h : Watch.Number P x) : m.Foreign hosts x := by
  unfold Watch.Number at h
  split at h
  · exact .node (fun hne => absurd rfl hne) trivial fun c hc => by cases hc
  · cases h

theorem Watch.Number.simple {P : Int → Prop} (h : Watch.Number P x) : Watch.Simple x := by
  unfold Watch.Number at h
  split at h
  · trivial
  · cases h

/-- A statement that sets up a slot may be replaced, or dropped. -/
theorem Watch.Opens.replace (h : m.Opens x) (ha : m.Ages m') (hr : Replaces m m' x y) :
    m'.Opens y ∨ Watch.Number (fun _ => True) y := by
  have hany : ∀ {P : Int → Prop}, Watch.Number P y → Watch.Number (fun _ => True) y := by
    intro P h
    unfold Watch.Number at h ⊢
    split at h
    · exact ⟨h.1, h.2.1, trivial⟩
    · cases h
  obtain ⟨_, _, _, rfl, -, -⟩ := ha
  obtain h | h := h
  · obtain h | ⟨-, h⟩ := hr.puts _ _ (.inl rfl) h
    · exact .inl (.inl h)
    · exact .inr (hany h)
  · obtain h | ⟨-, h⟩ := hr.puts _ _ (.inr rfl) h
    · exact .inl (.inr h)
    · exact .inr (hany h)

/-- The block that opens an instance may be rebuilt from parts that stand for the old ones. -/
theorem Replaces.opening (hf : Frames m m' (.node i r t d) (.node i r' t d'))
    (hd : d.Alike (Replaces m m') d') (h : Obeys m .opening (.node i r t d)) :
    Obeys m' .opening (.node i r' t d') := by
  obtain ⟨href, hcopy⟩ := hf.copy h
  have hslots := hf.slots h
  have hages := hf.ages
  cases h with
  | @opening _ _ _ _ old _ _ _ hr hn hv hb hbo hstate hresume hx hloop ha hao hstart =>
    cases hd with
    | block body =>
      obtain ⟨before, x, after, rfl, hbefore, hx', hafter⟩ := forall₂_split body
      obtain ⟨L, hcloses, hL⟩ := hx'.closes _ hx hloop
      -- a store that was not dropped for good is still there
      have hstored : ∀ {v : Var} {P : Int → Prop}, v = m.state ∨ v = m.resume → ¬ m'.gone v.id →
          (¬ m.gone v.id → ∃ y ∈ old, Watch.Puts v (Watch.Number P) y) →
          ∃ y ∈ before, Watch.Puts v (Watch.Number P) y := by
        intro v P hslot hkept hput
        obtain ⟨y, hy, hputs⟩ := hput fun hg => by
          obtain ⟨_, _, _, rfl, hgone, -⟩ := hages
          exact hkept (hgone _ hg)
        obtain ⟨y', hy', hrep⟩ := exists_of_mem_left hbefore hy
        obtain h | ⟨hg, -⟩ := hrep.puts _ _ hslot hputs
        · exact ⟨y', hy', h⟩
        · exact absurd hg hkept
      have hbefore' : ∀ y' ∈ before, (m'.Opens y' ∨ Watch.Simple y') ∧
          (¬ m'.Opens y' → m'.Foreign false y') := by
        intro y' hy'
        obtain ⟨y, hy, hrep⟩ := exists_of_mem_right hbefore hy'
        by_cases ho : m.Opens y
        · obtain h | h := ho.replace hages hrep
          · exact ⟨.inl h, fun hn => absurd h hn⟩
          · exact ⟨.inr h.simple, fun _ => h.foreign⟩
        · exact ⟨.inr (hrep.simple ((hb y hy).resolve_left ho)), fun _ => hrep.obeys _ (hbo y hy ho)⟩
      have hfacts : m'.state = m.state ∧ m'.resume = m.resume ∧ (∀ y, m.Starts y → m'.Starts y) ∧
          (∀ L x, m.Closes L x → m'.Closes L x) := by
        obtain ⟨_, _, _, rfl, -, -⟩ := hages
        exact ⟨rfl, rfl, fun _ h => h, fun _ _ h => h⟩
      obtain ⟨hst, hre, hstarts, hclose⟩ := hfacts
      refine .opening href hcopy hslots (fun y hy => (hbefore' y hy).1) (fun y hy => (hbefore' y hy).2)
        (fun hk => ?_) (fun hk => ?_) (hclose _ _ hcloses) hL (fun y' hy' => ?_) (fun y' hy' hns => ?_) ?_
      · rw [hst] at hk ⊢
        exact hstored (.inl rfl) hk hstate
      · rw [hre] at hk ⊢
        exact hstored (.inr rfl) hk hresume
      · obtain ⟨y, hy, hrep⟩ := exists_of_mem_right hafter hy'
        exact hrep.simple (ha y hy)
      · obtain ⟨y, hy, hrep⟩ := exists_of_mem_right hafter hy'
        exact hrep.obeys _ (hao y hy fun hs => hns (hstarts _ (hrep.starts hs)))
      · obtain ⟨y, hy, hs⟩ := hstart
        obtain ⟨y', hy', hrep⟩ := exists_of_mem_left hafter hy
        exact ⟨y', hy', hstarts _ (hrep.starts hs)⟩

/-! ### The loop -/

/-- The switch over the states may be rebuilt from parts that stand for the old ones. -/
theorem Replaces.choosing (hf : Frames m m' (.node i r t d) (.node i r' t d'))
    (hd : d.Alike (Replaces m m') d') (h : Obeys m .choosing (.node i r t d)) :
    Obeys m' .choosing (.node i r' t d') := by
  classical
  cases h with
  | @choosing _ _ i₁ r₁ _ arms other isArmed ht hc hs hall ho =>
    cases hd with
    | @switch _ v' _ x' _ arms' _ value cases default =>
      rw [value.still m.marks_state]
      have htest : ∀ {ts ts' : List Expr} {test : Expr} {P : Int → Prop}, List.Forall₂ (Replaces m m') ts ts' →
          ts = [test] → Watch.Number P test → ts' = [test] := by
        rintro ts ts' test P hts rfl hnum
        cases hts with
        | cons h hnil =>
          cases hnil
          rw [h.still (Watch.still_number hnum)]
      -- an arm is armed where one that it was made from was
      let isArmed' (arm' : List Expr × Expr) : Bool :=
        ∃ arm ∈ arms, ArmAlike (Replaces m m') arm arm' ∧ isArmed arm = true
      have horigin : ∀ arm' ∈ arms', ∃ arm ∈ arms, ArmAlike (Replaces m m') arm arm' ∧
          isArmed arm = isArmed' arm' := by
        intro arm' harm'
        by_cases h : ∃ arm ∈ arms, ArmAlike (Replaces m m') arm arm' ∧ isArmed arm = true
        · obtain ⟨arm, harm, hrel, ha⟩ := h
          exact ⟨arm, harm, hrel, ha.trans (decide_eq_true ⟨arm, harm, hrel, ha⟩).symm⟩
        · obtain ⟨arm, harm, hrel⟩ := exists_of_mem_right cases harm'
          refine ⟨arm, harm, hrel, ?_⟩
          rw [show isArmed' arm' = false from decide_eq_false h]
          exact Bool.eq_false_iff.mpr fun ha => h ⟨arm, harm, hrel, ha⟩
      obtain ⟨_, _, _, rfl, -, -⟩ := hf.ages
      refine @Obeys.choosing _ i r' i₁ r₁ t arms' x' isArmed' (fun arm' harm' => ?_) (fun arm' harm' => ?_)
        (fun arm' harm' => ?_) (fun n hn => ?_) (default.obeys _ ho)
      · obtain ⟨_, harm, ⟨tests, body⟩, harmed⟩ := horigin arm' harm'
        obtain ⟨n, test, hts, hnum, hclean⟩ := ht _ harm
        exact ⟨n, test, htest tests hts hnum, hnum, fun ha => hclean (harmed.trans ha)⟩
      · obtain ⟨_, harm, ⟨tests, body⟩, harmed⟩ := horigin arm' harm'
        exact harmed ▸ body.obeys _ (hc _ harm)
      · obtain ⟨_, harm, ⟨tests, body⟩, harmed⟩ := horigin arm' harm'
        exact harmed ▸ body.plain _ _ _ id (hc _ harm) (hs _ harm)
      · obtain ⟨arm, harm, test, hts, hnum⟩ := hall n hn
        obtain ⟨_, harm', ⟨tests, body⟩⟩ := exists_of_mem_left cases harm
        exact ⟨_, harm', test, htest tests hts hnum, hnum⟩

/-- What leaves the loop is handled as before. When the store that marks the machine as over was dropped,
nothing of the machine is left in the handler. -/
theorem Replaces.failing (hf : Frames m m' (.node i r t d) (.node i r' t d'))
    (hd : d.Alike (Replaces m m') d') (h : Obeys m .failing (.node i r t d)) :
    Obeys m' .failing (.node i r' t d') := by
  have hopen : ¬ Obeys m .opening (.node i r t d) := fun ho => ho.not_failing h
  cases h with
  | failing hg hv hx hy hsimple hcalls =>
    have hg' := hf.ground hopen hg
    have hv' := hf.declares hopen hg hv
    cases hd with
    | block body =>
      cases body with
      | cons hx' hrest =>
        cases hrest with
        | cons hy' hnil =>
          cases hnil
          obtain h | ⟨-, hnum⟩ := hx'.puts _ _ (.inl rfl) hx
          · have hcalls' := hy'.calls _ hcalls
            have hobeys := hy'.obeys _ hy
            obtain ⟨_, _, _, rfl, -, -⟩ := hf.ages
            exact .failing hg' hv' h hobeys (hy'.simple hsimple) hcalls'
          · refine .failed (.node (fun _ => hg') ⟨hv', hg'⟩ fun c hc => ?_)
            simp only [operands, List.mem_cons, List.not_mem_nil, or_false] at hc
            obtain rfl | rfl := hc
            · exact hnum.foreign
            · exact hy'.obeys _ hy
  | failed hx => exact .failed (Replaces.outside hf hd hx)

/-- A node that was rebuilt has the roles of the one before. -/
theorem Replaces.obeys_node (hm : m.Fair) (hf : Frames m m' (.node i r t d) (.node i r' t d'))
    (hd : d.Alike (Replaces m m') d') (hs : m.Still (.node i r t d) → Expr.node i r' t d' = .node i r t d)
    {role : Role} (h : Obeys m role (.node i r t d)) : Obeys m' role (.node i r' t d') := by
  -- one role at a time: each fixes the kind of the node, and with it which operands are rebuilt in which role
  cases role with
  | outside hosts => exact Replaces.outside hf hd h
  | inside armed bare => exact Replaces.inside hm hf hd hs h
  | opening => exact Replaces.opening hf hd h
  | choosing => exact Replaces.choosing hf hd h
  | failing => exact Replaces.failing hf hd h
  | running =>
    cases h with
    | running hbody =>
      cases hd with
      | lambda body => exact .running (body.obeys _ hbody)
  | guarded =>
    cases h with
    | guarded hb hex hh =>
      cases hd with
      | protect body handlers fin fault =>
        cases handlers with
        | cons hh' hnil =>
          cases hnil
          cases hh' with
          | mk filter handler =>
            rw [filter.still trivial, fin.still trivial, fault.still trivial]
            exact .guarded (body.obeys _ hb) (hex.ages hf.ages) (handler.obeys _ hh)
  | turning =>
    cases h with
    | turning hb hbody =>
      cases hd with
      | loop body =>
        have hbody' := body.obeys _ hbody
        obtain ⟨_, _, _, rfl, -, -⟩ := hf.ages
        exact .turning hb hbody'
  | unknown =>
    cases h with
    | unknown hx =>
      cases hd with
      | throw value => exact .unknown (value.obeys _ hx)
  | reporting =>
    cases h with
    | reporting hf' =>
      cases hd with
      | call fn args =>
        cases args with
        | cons ha hnil =>
          cases hnil
          rw [ha.still m.marks_state]
          have hfn := fn.obeys _ hf'
          obtain ⟨_, _, _, rfl, -, -⟩ := hf.ages
          exact .reporting hfn

/-! ### Statements -/

theorem still_of_asVar? {v : Var} (h : x.asVar? = some v) (hv : m.Marks v.id) : m.Still x := by
  unfold asVar? at h
  split at h
  · cases h
    exact hv
  · cases h

/-- A call of the cell stays one when its operands are replaced. -/
theorem calls_of_alike {b : Bool} (hd : d.Alike (Replaces m m') d') (h : m.Calls b (.node i r t d)) :
    m.Calls b (.node i r' t d') := by
  unfold Watch.Calls Watch.Settling at h
  split at h
  · rename_i heq
    cases heq
    cases hd with
    | methodCall receiver args =>
      rw [receiver.still (still_of_asVar? h.1 m.marks_cell)]
      exact h
  · rename_i heq
    cases heq
    cases hd with
    | call fn args =>
      cases args with
      | cons ha hnil =>
        cases hnil
        rw [fn.still trivial, ha.still (still_of_asVar? h.2 m.marks_cell)]
        exact h
  · cases h

theorem quits_of_alike (hd : d.Alike (Replaces m m') d') (h : m.Quits (.node i r t d)) :
    m.Quits (.node i r' t d') := by
  obtain ⟨hcalls, i₁, r₁, t₁, receiver, name, args, heq, hr, ha⟩ := h
  refine ⟨calls_of_alike hd hcalls, ?_⟩
  cases heq
  cases hd with
  | methodCall hreceiver hargs =>
    refine ⟨_, _, _, _, _, _, rfl, hreceiver.reads hr, fun a hmem => ?_⟩
    obtain ⟨x, hx, hrep⟩ := exists_of_mem_right hargs hmem
    exact hrep.reads (ha x hx)

theorem transfers_of_alike {R : Expr → Expr → Prop} (hd : d.Alike R d') :
    (Expr.node i r' t d').transfers = (Expr.node i r t d).transfers := by
  cases hd <;> rfl

theorem settles_of_alike (hd : d.Alike (Replaces m m') d') (h : m.Settles (.node i r t d)) :
    m.Settles (.node i r' t d') := by
  obtain h | h | ⟨i₁, r₁, t₁, vs, xs, y, heq, hlast, h⟩ := h
  · exact .inl (calls_of_alike hd h)
  · exact .inr (.inl ((transfers_of_alike hd).trans h))
  · cases heq
    cases hd with
    | block body =>
      obtain ⟨y', hlast', hrep⟩ := forall₂_getLast? body hlast
      exact .inr (.inr ⟨_, _, _, _, _, y', rfl, hlast', h.imp (hrep.calls _) hrep.transfers⟩)

/-- Starting an instance is recognized after the identities have changed. -/
theorem starts_of_alike (hd : d.Alike (Replaces m m') d') (h : m.Starts (.node i r t d)) :
    m.Starts (.node i r' t d') := by
  unfold Watch.Starts at h
  split at h
  · rename_i heq
    cases heq
    cases hd with
    | call fn args =>
      cases args
      rw [fn.still h.still]
      exact h
  · cases h

theorem closes_of_alike (hd : d.Alike (Replaces m m') d') {L : Expr} (h : m.Closes L (.node i r t d))
    (hL : Obeys m .running L) : ∃ L', m.Closes L' (.node i r' t d') ∧ Obeys m' .running L' := by
  obtain ⟨_, _, _, i₁, r₁, t₁, heq⟩ := h
  cases heq
  cases hd with
  | assign field other value =>
    rw [other rfl]
    exact ⟨_, ⟨_, _, _, _, _, _, rfl⟩, value.obeys _ hL⟩

theorem simple_of_alike (hd : d.Alike (Replaces m m') d') (h : Watch.Simple (.node i r t d)) :
    Watch.Simple (.node i r' t d') := by
  cases hd with
  | assign field other value =>
    have hkind : ∀ k ∈ [ExprKind.call, .methodCall, .unary], _ := value.kinds
    simp only [List.mem_cons, List.not_mem_nil, or_false, forall_eq_or_imp, forall_eq] at hkind
    exact h.imp hkind.1 (Or.imp hkind.2.1 hkind.2.2)
  | _ => exact h

/-- A statement of the machine that is not special does not become so when its node is rebuilt. -/
theorem Replaces.plain_node (hf : Frames m m' (.node i r t d) (.node i r' t d'))
    (hd : d.Alike (Replaces m m') d') (hs : m.Still (.node i r t d) → Expr.node i r' t d' = .node i r t d)
    {a b : Bool} (h : Obeys m (.inside a b) (.node i r t d))
    (hplain : ¬ m.Special armed (.node i r t d)) : ¬ m'.Special armed (.node i r' t d') := by
  intro hspecial
  cases h with
  | user hx => exact (Replaces.outside hf hd hx).not_special hspecial
  | raw hx =>
    -- a store of the machine stores something that stays as it is, so that the payload is the same
    have hdata : d' = d := by
      obtain ⟨i₁, r₁, t₁, ⟨op, target, value, heq⟩ | ⟨v, heq⟩⟩ := hx.shape
      · cases heq
        cases hd with
        | assign field other val =>
          have htarget : target.hasKind .field = false ∧ m.Still value := by
            have hputs : ∀ {v : Var} {P : Expr → Prop}, (∀ e, P e → m.Still e) →
                Watch.Puts v P (.node i r t (.assign op target value)) →
                target.hasKind .field = false ∧ m.Still value := by
              intro v P hP h
              unfold Watch.Puts at h
              split at h
              · rename_i heq
                cases heq
                exact ⟨rfl, hP _ h.2⟩
              · cases h
            cases hx with
            | moves h | enters h | aims h | ends h => exact hputs (fun _ => Watch.still_number) h
            | returns h => exact hputs (fun _ ⟨_, hv, h⟩ => Watch.still_reads hv.marks h) h
            | resumes h => exact hputs (fun _ => Watch.still_reads m.marks_resume) h
            | parks h =>
              obtain ⟨_, _, h⟩ := h
              exact hputs (fun _ => Watch.still_reads m.marks_resume) h
            | peeks h => obtain h | ⟨_, _, h⟩ := h <;> cases h
          rw [other htarget.1, val.still htarget.2]
      · cases heq
        cases hd
        rfl
    rw [hdata] at hspecial
    exact hplain ((hspecial.before hf.ages).congr _)
  | hand _ hk => exact hplain (.hands ⟨rfl, hk⟩)
  | _ =>
    obtain ⟨_, _, _, ⟨_, _, _, heq⟩ | ⟨_, _, _, heq⟩⟩ := hspecial.shape
    · cases heq
      cases hd
    · cases heq
      cases hd

/-- **A node of which the parts were replaced.** -/
theorem Replaces.node (hm : m.Fair) (hf : Frames m m' (.node i r t d) (.node i r' t d'))
    (hd : d.Alike (Replaces m m') d')
    (hs : m.Still (.node i r t d) → Expr.node i r' t d' = .node i r t d) :
    Replaces m m' (.node i r t d) (.node i r' t d') where
  still := hs
  reads h := by cases hd <;> exact h
  obeys _ h := Replaces.obeys_node hm hf hd hs h
  plain _ _ _ _ h hplain := Replaces.plain_node hf hd hs h hplain
  puts _ _ _ h := .inl (puts_of_alike (fun _ => Watch.still_number) hd h)
  hands := hands_of_alike hd
  calls _ := calls_of_alike hd
  transfers h := (transfers_of_alike hd).trans h
  quits := quits_of_alike hd
  settles := settles_of_alike hd
  closes _ := closes_of_alike hd
  starts := starts_of_alike hd
  simple := simple_of_alike hd
  kinds k _ h := by
    rw [← h]
    cases hd <;> rfl

end

end Resumable
