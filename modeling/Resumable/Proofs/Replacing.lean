import Resumable.Proofs.Foreign
import Resumable.Proofs.Placing

/-!
# `Proofs.Replacing`: trees that stand in for one another

The passes over a finished tree rebuild it from the leaves up. What comes out in the end treats a machine
as it should because each part of it may stand where the part stood that it was made from. The watch grows on
the way: stores are dropped, numbers are handed out, and blocks that open an instance get a new identity.

**Contents**
* `Watch.Ages`: the same machine, seen later.
* `Replaces`: one tree may stand where the other stood.
* `Replaces.node`: rebuilding a node.
-/

namespace Resumable

open Resumable.Expr

/-- The same machine, seen later: more stores were dropped, more numbers were handed out. -/
def Watch.Ages (m m' : Watch) : Prop :=
  ∃ gone copies limit, m' = { m with gone, copies, limit } ∧ (∀ i, m.gone i → gone i) ∧
    m.limit.names ≤ limit.names

/-- A name that the code of the machine relies on. -/
def Watch.Marks (m : Watch) (i : Nat) : Prop := m.Owns i ∨ m.parked i ∨ i = m.cell.id

/-- Constants, reads of variables that the machine relies on and jumps without a value are never replaced. -/
def Watch.Still (m : Watch) : Expr → Prop
  | .absent => True
  | .node _ _ _ (.constant _) => True
  | .node _ _ _ (.var v) => m.Marks v.id
  | .node _ _ _ (.goto _ _ .absent) => True
  | _ => False

/-- The tree `y` may stand wherever `x` stood; the machine is seen through `m` before and `m'` then. -/
structure Replaces (m m' : Watch) (x y : Expr) : Prop where
  still : m.Still x → y = x
  reads : x.asVar?.isSome = true → y.asVar?.isSome = true
  obeys : ∀ role, Obeys m role x → Obeys m' role y
  plain : ∀ a b armed, (a = true → armed = true) → Obeys m (.inside a b) x → ¬ m.Special armed x →
    ¬ m'.Special armed y
  /-- A store of a number into a slot of the machine stays, or it was dropped. -/
  puts : ∀ v P, v = m.state ∨ v = m.resume → Watch.Puts v (Watch.Number P) x →
    Watch.Puts v (Watch.Number P) y ∨ m'.gone v.id ∧ Watch.Number P y
  hands : m.Hands x → m.Hands y
  calls : ∀ b, m.Calls b x → m.Calls b y
  transfers : x.transfers = true → y.transfers = true
  quits : m.Quits x → m.Quits y
  settles : m.Settles x → m.Settles y
  closes : ∀ L, m.Closes L x → Obeys m .running L → ∃ L', m.Closes L' y ∧ Obeys m' .running L'
  starts : m.Starts x → m.Starts y
  simple : Watch.Simple x → Watch.Simple y
  kinds : ∀ k ∈ [ExprKind.call, .methodCall, .unary], x.hasKind k = true → y.hasKind k = true

section
variable {m m' m'' : Watch} {x y z : Expr} {i r r' : Nat} {t : Ty} {d d' : Data Expr} {hosts armed bare : Bool}

/-! ### Watches of one machine -/

namespace Watch

theorem Ages.refl (m : Watch) : m.Ages m := ⟨m.gone, m.copies, m.limit, rfl, fun _ h => h, Nat.le_refl _⟩

theorem Ages.trans (h : m.Ages m') (h' : m'.Ages m'') : m.Ages m'' := by
  obtain ⟨_, _, _, rfl, hgone, hnames⟩ := h
  obtain ⟨_, _, _, rfl, hgone', hnames'⟩ := h'
  exact ⟨_, _, _, rfl, fun i hi => hgone' i (hgone i hi), Nat.le_trans hnames hnames'⟩

theorem Plain.ages {i : Nat} (h : m.Plain i) (ha : m.Ages m') : m'.Plain i := by
  obtain ⟨_, _, _, rfl, -, hnames⟩ := ha
  exact ⟨h.foreign, h.loose, Nat.le_trans h.within hnames⟩

theorem Declarable.ages {v : Var} (h : m.Declarable v) (ha : m.Ages m') : m'.Declarable v := by
  obtain ⟨_, _, _, rfl, -, hnames⟩ := ha
  exact ⟨h.foreign, Nat.le_trans h.within hnames, h.type⟩

theorem Bound.ages {v : Var} (h : m.Bound v) (ha : m.Ages m') : m'.Bound v := by
  refine ⟨h.plain.ages ha, ?_⟩
  obtain ⟨_, _, _, rfl, -, -⟩ := ha
  exact h.other

theorem Parked.ages {v : Var} (h : m.Parked v) (ha : m.Ages m') : m'.Parked v := by
  obtain ⟨_, _, _, rfl, -, -⟩ := ha
  exact ⟨h.parked, h.type⟩

/-- A store of the machine stays one when more states and variables are known. -/
theorem Raw.ages (h : m.Raw x) (ha : m.Ages m') : m'.Raw x := by
  have hparked : ∀ v, m.Parked v → m'.Parked v := fun v hv => hv.ages ha
  obtain ⟨_, _, _, rfl, -, -⟩ := ha
  cases h with
  | moves h => exact .moves h
  | enters h => exact .enters h
  | aims h => exact .aims h
  | ends h => exact .ends h
  | resumes h => exact .resumes h
  | returns h =>
    refine .returns ?_
    revert h
    unfold Returns Puts
    split
    · rintro ⟨h, v, hv, hr⟩
      exact ⟨h, v, hparked v hv, hr⟩
    · exact id
  | parks h =>
    obtain ⟨v, hv, h⟩ := h
    exact .parks ⟨v, hparked v hv, h⟩
  | peeks h =>
    obtain h | ⟨v, hv, h⟩ := h
    · exact .peeks (.inl h)
    · exact .peeks (.inr ⟨v, hparked v hv, h⟩)

/-- What is special later was special before. -/
theorem Special.before (h : m'.Special armed x) (ha : m.Ages m') : m.Special armed x := by
  obtain ⟨_, _, _, rfl, hgone, -⟩ := ha
  cases h with
  | enters h hs hr => exact .enters h (fun hg => hs (hgone _ hg)) fun hg => hr (hgone _ hg)
  | ends h hs => exact .ends h fun hg => hs (hgone _ hg)
  | hands h => exact .hands h
  | resumes h hf => exact .resumes h hf
  | parks h hf =>
    obtain ⟨v, hv, h⟩ := h
    exact .parks ⟨v, ⟨hv.parked, hv.type⟩, h⟩ hf

/-- The identity of a store does not matter. -/
theorem puts_congr {v : Var} {P : Expr → Prop} (h : Puts v P (.node i r t d)) (r' : Nat) :
    Puts v P (.node i r' t d) := by
  unfold Puts at h ⊢
  split at h
  · rename_i heq
    cases heq
    exact h
  · cases h

/-- Whether a statement is special does not depend on its identity. -/
theorem Special.congr (h : m.Special armed (.node i r t d)) (r' : Nat) : m.Special armed (.node i r' t d) := by
  cases h with
  | enters h hs hr => exact .enters (puts_congr h r') hs hr
  | ends h hs => exact .ends (puts_congr h r') hs
  | resumes h ha => exact .resumes (puts_congr h r') ha
  | parks h ha =>
    obtain ⟨v, hv, h⟩ := h
    exact .parks ⟨v, hv, puts_congr h r'⟩ ha
  | hands h =>
    unfold Hands at h
    split at h
    · rename_i heq
      cases heq
      exact .hands h
    · cases h

/-- What a store of the machine stores stays as it is. -/
theorem still_number {P : Int → Prop} (h : Number P x) : m.Still x := by
  unfold Number at h
  split at h
  · trivial
  · cases h

theorem still_reads {v : Var} (hv : m.Marks v.id) (h : Reads v x) : m.Still x := by
  unfold Reads at h
  split at h
  · exact h.1 ▸ hv
  · cases h

theorem marks_resume (m : Watch) : m.Marks m.resume.id := .inl (.inr (.inl rfl))

theorem marks_state (m : Watch) : m.Marks m.state.id := .inl (.inl rfl)

theorem marks_cell (m : Watch) : m.Marks m.cell.id := .inr (.inr rfl)

theorem Parked.marks {v : Var} (h : m.Parked v) : m.Marks v.id := .inr (.inl h.parked)

theorem Still.ages (h : m.Still x) (ha : m.Ages m') : m'.Still x := by
  obtain ⟨_, _, _, rfl, -, -⟩ := ha
  exact h

theorem IsContinuation.still (h : m.IsContinuation x) : m.Still x := by
  unfold IsContinuation at h
  split at h
  · exact h ▸ .inl (.inr (.inr (.inl rfl)))
  · cases h

end Watch

theorem Watch.Leaves.still (h : m.Leaves x) : m.Still x := by
  unfold Watch.Leaves at h
  split at h
  · rw [h.2]
    trivial
  · cases h

theorem Replaces.leaves (h : Replaces m m' x y) (hx : m.Leaves x) : m.Leaves y :=
  h.still hx.still ▸ hx

/-! ### Blocks that open an instance -/

/-- The first call of the function that runs the loop is code of the opening block alone. -/
theorem Watch.Starts.not_outside (h : m.Starts x) (hosts : Bool) : ¬ m.Foreign hosts x := by
  unfold Watch.Starts at h
  split at h
  · rename_i f
    intro ho
    have hf := (ho.ordinary (by simp [Data.kind])).2 f (by simp [operands])
    exact (Build.Foreign.plain_of_asVar? hf h.asVar?).foreign (.inr (.inr (.inl rfl)))
  · cases h

theorem Watch.Starts.not_inside (h : m.Starts x) (armed bare : Bool) : ¬ Obeys m (.inside armed bare) x := by
  intro hi
  cases hi with
  | user hx => exact h.not_outside _ hx
  | raw hx =>
    obtain ⟨_, _, _, ⟨_, _, _, rfl⟩ | ⟨_, rfl⟩⟩ := hx.shape
    · cases h
    · cases h
  | _ => cases h

/-- The first call of the function that runs the loop stands in every block that opens an instance. -/
theorem Obeys.exists_starts {vs : List Var} {xs : List Expr} (h : Obeys m .opening (.node i r t (.block vs xs))) :
    ∃ y ∈ xs, m.Starts y := by
  generalize hx : Expr.node i r t (.block vs xs) = x at h
  cases h with
  | opening hr hn hv hb hbo hstate hresume hx' hloop ha hao hstart =>
    cases hx
    obtain ⟨y, hy, hstarts⟩ := hstart
    exact ⟨y, by simp [hy], hstarts⟩

theorem Obeys.isBlock (h : Obeys m .opening x) : ∃ i r t vs xs, x = .node i r t (.block vs xs) := by
  cases h with
  | opening => exact ⟨_, _, _, _, _, rfl⟩

/-- A block that opens an instance is nothing else. -/
theorem Obeys.not_outside (h : Obeys m .opening x) (hosts : Bool) : ¬ m.Foreign hosts x := by
  obtain ⟨i, r, t, vs, xs, rfl⟩ := h.isBlock
  obtain ⟨y, hy, hstarts⟩ := h.exists_starts
  exact fun ho => hstarts.not_outside hosts ((ho.ordinary (by simp [Data.kind])).2 y hy)

theorem Obeys.not_inside (h : Obeys m .opening x) (armed bare : Bool) : ¬ Obeys m (.inside armed bare) x := by
  obtain ⟨i, r, t, vs, xs, rfl⟩ := h.isBlock
  obtain ⟨y, hy, hstarts⟩ := h.exists_starts
  intro hi
  cases hi with
  | user hx => exact h.not_outside _ hx
  | raw hx =>
    obtain ⟨_, _, _, ⟨_, _, _, heq⟩ | ⟨_, heq⟩⟩ := hx.shape
    · cases heq
    · cases heq
  | block _ _ hx _ => exact hstarts.not_inside _ _ (hx y hy)

/-- The block that opens an instance is not the one that makes it fail. -/
theorem Obeys.not_failing (h : Obeys m .opening x) : ¬ Obeys m .failing x := by
  obtain ⟨i, r, t, vs, xs, rfl⟩ := h.isBlock
  obtain ⟨y, hy, hstarts⟩ := h.exists_starts
  intro hf
  cases hf with
  | failing _ _ hends hb _ _ =>
    simp only [List.mem_cons, List.not_mem_nil, or_false] at hy
    obtain rfl | rfl := hy
    · unfold Watch.Starts at hstarts
      split at hstarts
      · cases hends
      · cases hstarts
    · exact hstarts.not_outside _ hb
  | failed hx => exact h.not_outside _ hx

/-! ### Rebuilding a node -/

/-- What is known about the identity and the variables of a node that is rebuilt. -/
structure Frames (m m' : Watch) (x y : Expr) : Prop where
  ages : m.Ages m'
  ground : ¬ Obeys m .opening x → m.Ground x.ref → m'.Ground y.ref
  declares : ¬ Obeys m .opening x → m.Ground x.ref → (∀ v ∈ x.blockVars, m.Declarable v) →
    ∀ v ∈ y.blockVars, m'.Declarable v
  copy : Obeys m .opening x → y.ref ≤ m'.limit.refs ∧ m'.copies y.ref
  slots : Obeys m .opening x → ∀ v ∈ y.blockVars, m'.Declarable v ∨ m'.Slotted v

theorem exists_of_mem_right {α : Type} {R : α → α → Prop} {xs xs' : List α} (h : List.Forall₂ R xs xs') {b : α}
    (hb : b ∈ xs') : ∃ a ∈ xs, R a b := by
  induction h with
  | nil => cases hb
  | cons hr _ ih =>
    obtain rfl | hb := List.mem_cons.mp hb
    · exact ⟨_, List.mem_cons_self, hr⟩
    · obtain ⟨a, ha, h⟩ := ih hb
      exact ⟨a, List.mem_cons_of_mem _ ha, h⟩

/-- Every operand of the new payload comes from one of the old payload. -/
theorem Data.Alike.operands {R : Expr → Expr → Prop} (h : d.Alike R d') {c' : Expr}
    (hc : c' ∈ Expr.operands d') : ∃ c ∈ Expr.operands d, R c c' := by
  cases h with
  | constant | default | var => cases hc
  | block body => exact exists_of_mem_right body hc
  | @assign op t t' v v' field other value =>
    rw [mem_operands_assign] at hc
    obtain ⟨hfield, rfl⟩ | rfl := hc
    · -- the target counts as an operand on both sides or on neither
      cases ht : t.hasKind .field with
      | true => exact ⟨t, mem_operands_assign.mpr (.inl ⟨ht, rfl⟩), field ht⟩
      | false =>
        rw [other ht, ht] at hfield
        cases hfield
    · exact ⟨v, mem_operands_assign.mpr (.inr rfl), value⟩
  | binary hl hr => exact exists_of_mem_right (.cons hl (.cons hr .nil)) hc
  | conditional ha hb hc' => exact exists_of_mem_right (.cons ha (.cons hb (.cons hc' .nil))) hc
  | @switch v v' x x' arms arms' comparer value cases default =>
    rw [mem_operands_switch] at hc
    obtain rfl | ⟨arm, harm, hc⟩ | rfl := hc
    · exact ⟨v, mem_operands_switch.mpr (.inl rfl), value⟩
    · obtain ⟨_, harm', ⟨tests, body⟩⟩ := exists_of_mem_right cases harm
      obtain hc | rfl := hc
      · obtain ⟨c, hmem, hr⟩ := exists_of_mem_right tests hc
        exact ⟨c, mem_operands_switch.mpr (.inr (.inl ⟨_, harm', .inl hmem⟩)), hr⟩
      · exact ⟨_, mem_operands_switch.mpr (.inr (.inl ⟨_, harm', .inr rfl⟩)), body⟩
    · exact ⟨x, mem_operands_switch.mpr (.inr (.inr rfl)), default⟩
  | @protect x x' f f' g g' hs hs' body handlers fin fault =>
    rw [mem_operands_protect] at hc
    obtain rfl | ⟨h', hh', hc⟩ | rfl | rfl := hc
    · exact ⟨x, mem_operands_protect.mpr (.inl rfl), body⟩
    · obtain ⟨_, hh, ⟨filter, body⟩⟩ := exists_of_mem_right handlers hh'
      obtain rfl | rfl := hc
      · exact ⟨_, mem_operands_protect.mpr (.inr (.inl ⟨_, hh, .inl rfl⟩)), filter⟩
      · exact ⟨_, mem_operands_protect.mpr (.inr (.inl ⟨_, hh, .inr rfl⟩)), body⟩
    · exact ⟨f, mem_operands_protect.mpr (.inr (.inr (.inl rfl))), fin⟩
    · exact ⟨g, mem_operands_protect.mpr (.inr (.inr (.inr rfl))), fault⟩
  | call fn args => exact exists_of_mem_right (.cons fn args) hc
  | methodCall receiver args => exact exists_of_mem_right (.cons receiver args) hc
  | _ h => exact exists_of_mem_right (.cons h .nil) hc

/-- A node outside the machine is rebuilt as one. -/
theorem Replaces.outside (hf : Frames m m' (.node i r t d) (.node i r' t d')) (hd : d.Alike (Replaces m m') d')
    (h : Obeys m (.outside hosts) (.node i r t d)) : Obeys m' (.outside hosts) (.node i r' t d') := by
  have hopen : ¬ Obeys m .opening (.node i r t d) := fun ho => ho.not_outside hosts h
  cases h with
  | node hr hord hc =>
    -- operands are replaced by what replaces them, and stay outside with it
    have hc' : ∀ c' ∈ Expr.operands d', Obeys m' (.outside hosts) c' := by
      intro c' hmem
      obtain ⟨c, hmem, hrep⟩ := hd.operands hmem
      exact hrep.obeys _ (hc c hmem)
    refine .node (fun hne => hf.ground hopen (hr fun hnil => hne ?_)) ?_ hc'
    · refine List.eq_nil_iff_forall_not_mem.mpr fun c' hmem => ?_
      obtain ⟨c, hmem, -⟩ := hd.operands hmem
      rw [hnil] at hmem
      cases hmem
    · cases hd with
      | var => exact Watch.Plain.ages hord hf.ages
      | block => exact ⟨hf.declares hopen hord.2 hord.1, hf.ground hopen hord.2⟩
      | @assign op t t' v v' field other value =>
        intro x hx
        cases ht : t.hasKind .field with
        | true => exact Build.Foreign.plain_of_asVar? ((field ht).obeys _
            (hc t (mem_operands_assign.mpr (.inl ⟨ht, rfl⟩)))) hx
        | false =>
          rw [other ht] at hx
          exact (hord x hx).ages hf.ages
      | protect body handlers fin fault =>
        intro h' hmem x hx
        obtain ⟨_, hh, ⟨_, _⟩⟩ := exists_of_mem_right handlers hmem
        exact (hord _ hh x hx).ages hf.ages
      | label => exact Watch.Plain.ages hord hf.ages
      | lambda => exact fun x hx => (hord x hx).ages hf.ages
      | _ => trivial
  | host hr hp hbody =>
    cases hd with
    | lambda body => exact .host (hf.ground hopen hr) (fun v hv => (hp v hv).ages hf.ages) (body.obeys _ hbody)

/-! ### Lists of statements -/

namespace Watch

variable {prev prev' x' : Expr} {xs xs' rest rest' : List Expr}

theorem still_not_special (h : m.Still x) : ¬ m.Special armed x := by
  intro hs
  obtain ⟨_, _, _, ⟨_, _, _, rfl⟩ | ⟨_, _, _, rfl⟩⟩ := hs.shape
  · cases h
  · cases h

/-- A cleanup block may be entered anyhow when nothing says where it goes on. -/
theorem Enters.not_special (hm : m.Fair) (h : m.Enters x) (hg : m.gone m.resume.id) :
    ¬ m.Special armed x := by
  intro hs
  cases hs with
  | enters _ _ hr => exact hr hg
  | ends h' =>
    obtain ⟨-, value, hclean, hminus⟩ := h.both h'
    obtain ⟨n, hn, rfl⟩ := hclean.both hminus
    exact hm.minus (.inr hn)
  | hands h' =>
    unfold Hands at h'
    split at h'
    · cases h
    · cases h'
  | resumes h' =>
    obtain ⟨-, value, hclean, hreads⟩ := h.both h'
    exact hclean.not_reads hreads
  | parks h' =>
    obtain ⟨v, -, h'⟩ := h'
    obtain ⟨-, value, hclean, hreads⟩ := h.both h'
    exact hclean.not_reads hreads

theorem Fair.ages (h : m.Fair) (ha : m.Ages m') : m'.Fair := by
  obtain ⟨_, _, _, rfl, -, -⟩ := ha
  exact ⟨h.start, h.minus, h.disjoint, h.parked, h.apart, h.types⟩

/-- What stands before a statement may be replaced. -/
structure Leads (m m' : Watch) (prev prev' : Expr) : Prop where
  aims : m.Aims prev → m.Aims prev' ∨ m'.gone m.resume.id
  settles : m.Settles prev → m.Settles prev'

theorem Leads.of_replaces (h : Replaces m m' x y) : m.Leads m' x y where
  aims hx := (h.puts _ _ (.inr rfl) hx).imp_right And.left
  settles := h.settles

/-- Statements that stand for those of the machine fit one another as these do. -/
theorem Fits.replace (hm : m.Fair) (ha : m.Ages m') (h : m.Fits armed bare prev x rest)
    (hprev : m.Leads m' prev prev') (hx : Replaces m m' x x') (hobeys : Obeys m (.inside false false) x)
    (hrest : List.Forall₂ (Replaces m m') rest rest') : m'.Fits armed bare prev' x' rest' := by
  -- a store of a slot that is gone is a number by now, which fits anywhere
  have hdropped : ∀ {n : Int → Prop}, Number n x' → m'.Fits armed bare prev' x' rest' :=
    fun h => .any (still_not_special (still_number h))
  have hm' := hm.ages ha
  cases h with
  | any hs => exact .any (hx.plain false false _ (by simp) hobeys hs)
  | enter h1 h2 =>
    cases hrest with
    | cons hy _ =>
      obtain h1' | ⟨-, hnum⟩ := hx.puts _ _ (.inl rfl) h1
      · obtain ⟨gone, _, _, rfl, -, -⟩ := ha
        obtain h2' | ⟨hg, -⟩ := hy.puts _ _ (.inr rfl) h2
        · exact .enter h1' h2'
        · exact .any (Enters.not_special hm' h1' hg)
      · exact hdropped hnum
  -- either both stores of a cleanup block are there, or neither is special
  | aimed hp h1 =>
    obtain h1' | ⟨-, hnum⟩ := hx.puts _ _ (.inl rfl) h1
    · obtain ⟨gone, _, _, rfl, -, -⟩ := ha
      obtain hp' | hg := hprev.aims hp
      · exact .aimed hp' h1'
      · exact .any (Enters.not_special hm' h1' hg)
    · exact hdropped hnum
  | complete hp h1 hz =>
    cases hrest with
    | cons hz' _ =>
      have hz'' := hz'.leaves hz
      obtain h1' | ⟨-, hnum⟩ := hx.puts _ _ (.inl rfl) h1
      · obtain ⟨gone, _, _, rfl, -, -⟩ := ha
        exact .complete (hprev.settles hp) h1' hz''
      · exact hdropped hnum
  | fail hb h1 hy hz =>
    cases hrest with
    | cons hy' hrest =>
      cases hrest with
      | cons hz' _ =>
        have hz'' := hz'.leaves hz
        have hy'' := hy'.quits hy
        obtain h1' | ⟨-, hnum⟩ := hx.puts _ _ (.inl rfl) h1
        · obtain ⟨gone, _, _, rfl, -, -⟩ := ha
          exact .fail hb h1' hy'' hz''
        · exact hdropped hnum
  | hand h1 hy =>
    cases hrest with
    | cons hy' _ =>
      have h1' := hx.hands h1
      have hy'' := hy'.leaves hy
      obtain ⟨gone, _, _, rfl, -, -⟩ := ha
      exact .hand h1' hy''

theorem Shape.replace (hm : m.Fair) (ha : m.Ages m') (h : m.Shape armed bare prev xs)
    (hprev : m.Leads m' prev prev') (hxs : List.Forall₂ (Replaces m m') xs xs')
    (hobeys : ∀ x ∈ xs, Obeys m (.inside false false) x) : m'.Shape armed bare prev' xs' := by
  induction hxs generalizing prev prev' with
  | nil => trivial
  | cons hx hxs ih =>
    rw [List.forall_mem_cons] at hobeys
    exact ⟨h.1.replace hm ha hprev hx hobeys.1 hxs, ih h.2 (.of_replaces hx) hobeys.2⟩

end Watch

/-! ### Statements -/

/-- A rebuilt store of something that stays as it is stores the same. -/
theorem puts_of_alike {v : Var} {P : Expr → Prop} (hP : ∀ e, P e → m.Still e) (hd : d.Alike (Replaces m m') d')
    (h : Watch.Puts v P (.node i r t d)) : Watch.Puts v P (.node i r' t d') := by
  unfold Watch.Puts at h
  split at h
  · rename_i heq
    cases heq
    cases hd with
    | assign _ other value =>
      rw [other rfl, value.still (hP _ h.2)]
      exact h
  · cases h

/-- A store of the machine stays one when its operands are replaced. -/
theorem Watch.Raw.of_alike (h : m.Raw (.node i r t d)) (hd : d.Alike (Replaces m m') d')
    (hs : m.Still (.node i r t d) → Expr.node i r' t d' = .node i r t d) : m.Raw (.node i r' t d') := by
  have hreads : ∀ {v : Var}, m.Marks v.id → Watch.Reads v (.node i r t d) → Watch.Reads v (.node i r' t d') :=
    fun hv h => hs (Watch.still_reads hv h) ▸ h
  cases h with
  | moves h => exact .moves (puts_of_alike (fun _ => Watch.still_number) hd h)
  | enters h => exact .enters (puts_of_alike (fun _ => Watch.still_number) hd h)
  | aims h => exact .aims (puts_of_alike (fun _ => Watch.still_number) hd h)
  | ends h => exact .ends (puts_of_alike (fun _ => Watch.still_number) hd h)
  | returns h => exact .returns (puts_of_alike (fun _ ⟨_, hv, h⟩ => Watch.still_reads hv.marks h) hd h)
  | resumes h => exact .resumes (puts_of_alike (fun _ => Watch.still_reads m.marks_resume) hd h)
  | parks h =>
    obtain ⟨v, hv, h⟩ := h
    exact .parks ⟨v, hv, puts_of_alike (fun _ => Watch.still_reads m.marks_resume) hd h⟩
  | peeks h =>
    obtain h | ⟨v, hv, h⟩ := h
    · exact .peeks (.inl (hreads m.marks_resume h))
    · exact .peeks (.inr ⟨v, hv, hreads hv.marks h⟩)

/-- Handing over a continuation is recognized after the identities have changed. -/
theorem hands_of_alike (hd : d.Alike (Replaces m m') d') (h : m.Hands (.node i r t d)) :
    m.Hands (.node i r' t d') := by
  unfold Watch.Hands at h
  split at h
  · rename_i heq
    cases heq
    cases hd with
    | methodCall receiver args =>
      cases args with
      | cons hk hnil =>
        cases hnil
        rw [hk.still h.2.still]
        exact h
  · cases h

/-- A statement of the machine is rebuilt as one. -/
theorem Replaces.inside (hm : m.Fair) (hf : Frames m m' (.node i r t d) (.node i r' t d'))
    (hd : d.Alike (Replaces m m') d')
    (hs : m.Still (.node i r t d) → Expr.node i r' t d' = .node i r t d)
    (h : Obeys m (.inside armed bare) (.node i r t d)) : Obeys m' (.inside armed bare) (.node i r' t d') := by
  -- the block that opens an instance is never inside the dispatch loop
  have hopen : ¬ Obeys m .opening (.node i r t d) := fun ho => ho.not_inside armed bare h
  cases h with
  | user hx => exact .user (Replaces.outside hf hd hx)
  | raw hx => exact .raw ((hx.of_alike hd hs).ages hf.ages)
  | hand ha hk =>
    cases hd with
    | methodCall receiver args =>
      cases args with
      | cons hk' hnil =>
        cases hnil
        rw [hk'.still hk.still]
        obtain ⟨_, _, _, rfl, -, -⟩ := hf.ages
        exact .hand (receiver.obeys _ ha) hk
  | block hg hv hx hshape =>
    cases hd with
    | block body =>
      refine .block (hf.ground hopen hg) (hf.declares hopen hg hv) (fun x' hmem => ?_)
        (hshape.replace hm hf.ages ⟨fun h => h.elim, fun h => ?_⟩ body hx)
      · obtain ⟨x, hmem, hrep⟩ := exists_of_mem_right body hmem
        exact hrep.obeys _ (hx x hmem)
      · obtain h | h | ⟨_, _, _, _, _, _, h, -⟩ := h
        · exact h.elim
        · cases h
        · cases h
  | conditional ht ha hsa hb hsb =>
    cases hd with
    | conditional ht' ha' hb' =>
      exact .conditional (ht'.obeys _ ht) (ha'.obeys _ ha) (ha'.plain _ _ _ id ha hsa) (hb'.obeys _ hb)
        (hb'.plain _ _ _ id hb hsb)
  | switch hv ht ha hsp ho hso =>
    cases hd with
    | switch value cases default =>
      refine .switch (value.obeys _ hv) (fun arm' hmem x' hx' => ?_) (fun arm' hmem => ?_)
        (fun arm' hmem => ?_) (default.obeys _ ho) (default.plain _ _ _ id ho hso)
      · obtain ⟨_, harm, ⟨tests, body⟩⟩ := exists_of_mem_right cases hmem
        obtain ⟨x, hx, hrep⟩ := exists_of_mem_right tests hx'
        exact hrep.obeys _ (ht _ harm x hx)
      · obtain ⟨_, harm, ⟨tests, body⟩⟩ := exists_of_mem_right cases hmem
        exact body.obeys _ (ha _ harm)
      · obtain ⟨_, harm, ⟨tests, body⟩⟩ := exists_of_mem_right cases hmem
        exact body.plain _ _ _ id (ha _ harm) (hsp _ harm)
  | protect hb hsb hex hh hsh =>
    cases hd with
    | protect body handlers fin fault =>
      cases handlers with
      | cons hh' hnil =>
        cases hnil
        cases hh' with
        | mk filter handler =>
          rw [filter.still trivial, fin.still trivial, fault.still trivial]
          exact .protect (body.obeys _ hb) (body.plain _ _ _ id hb hsb) (hex.ages hf.ages)
            (handler.obeys _ hh) (handler.plain _ _ _ id hh hsh)

end

end Resumable
