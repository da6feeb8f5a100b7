import Resumable.Proofs.Natives
import Resumable.Proofs.Placing

/-!
# `Proofs.Congruence`: nodes whose operands do the same do the same

The evaluator goes through a tree node by node. Here each form of a node gets its rule: when evaluating
every operand on the one side follows evaluating it on the other, so does evaluating the node. An operand
that is refused is named in the refusal, so an operand that stands for another one must have its name, or
the refusal is one that nothing is said of. Blocks, variables and stores depend on what is in scope and
are no matter of their operands alone; a protected region is given its rule with a hypothesis on the scopes
of its handlers.

**Contents**
* `Tracks`: a run that follows another with one relation all along.
* `Alias`, `Sees`: nodes that bear one name, and operands that can stand for one another.
* `evalBool_tracks`, `evalArgs_tracks`, `evalSwitch_agree` and so on: one rule for each form of a node.
* `evalProtect_tracks`: protected regions.
* `evalNode_tracks`: the forms that leave the scope alone, put together.
-/

namespace Resumable

open Run

/-- The second computation does what the first does, from and to worlds in `I`, unless the first runs out of
fuel or is blamed for how it stops. -/
def Tracks (blamed : Stop → Prop) (I : World → World → Prop) (x y : Run α) : Prop :=
  Follows (fun s => s = .exhausted ∨ blamed s) I x y (fun a b w w' => a = b ∧ I w w') I

variable {blamed : Stop → Prop} {I : World → World → Prop} {α β : Type} {c c' : Calls} {ρ ρ' : Env}
  {x x' e e' : Expr} {xs xs' : List Expr} {t : Ty}

namespace Tracks

variable {m m' : Run α} {f f' : α → Run β}

theorem bind (h : Tracks blamed I m m') (hf : ∀ a, Tracks blamed I (f a) (f' a)) :
    Tracks blamed I (m >>= f) (m' >>= f') :=
  Follows.bind h fun a b w w' hw => by
    obtain ⟨rfl, hw⟩ := hw
    exact hf a w w' hw

theorem of_agree (h : Agree I m m') : Tracks blamed I m m' :=
  h.follows.lose fun _ => Or.inl

theorem pure (a : α) : Tracks blamed I (pure a) (pure a) := Follows.pure fun _ _ hw => ⟨rfl, hw⟩

theorem throw (s : Stop) : Tracks blamed I (throw s : Run α) (throw s) := Follows.throw s fun _ _ => id

theorem map (h : Tracks blamed I m m') (F : α → β) : Tracks blamed I (F <$> m) (F <$> m') :=
  Follows.map h fun _ _ _ _ hw => ⟨congrArg F hw.1, hw.2⟩

end Tracks

/-! ### Nodes and operands -/

/-- Two nodes that messages do not tell apart. -/
structure Alias (x x' : Expr) : Prop where
  id : x'.id = x.id
  kind : x'.kind? = x.kind?

theorem Alias.refuse (h : Alias x x') (code : Code) (msg : String) :
    (refuse x' code msg : Run α) = refuse x code msg := by
  unfold Run.refuse
  rw [h.id, h.kind]

theorem Alias.unsupported (h : Alias x x') (msg : String) :
    (unsupported x' msg : Run α) = unsupported x msg := h.refuse _ msg

/-- Nodes that bear one name are refused in the same words. -/
theorem Alias.follows (h : Alias x x') (msg : String) {lost : Stop → Prop}
    {Q : α → β → World → World → Prop} :
    Follows lost I (Run.unsupported x msg : Run α) (Run.unsupported x' msg : Run β) Q I := by
  rw [h.unsupported]
  exact Follows.throw _ fun _ _ hw => hw

/-- What the evaluator says when it refuses a node. -/
def refusal (x : Expr) (code : Code) (msg : String) : Stop :=
  .raised (.refusal ⟨code, x.id, (x.kind?).getD .constant, msg⟩)

/-- An operand that can stand for another one: it does the same, is empty when the other one is, and goes
by its name, unless a refusal of the other one is blamed. -/
structure Sees (blamed : Stop → Prop) (I : World → World → Prop) (c c' : Calls) (ρ ρ' : Env)
    (x x' : Expr) : Prop where
  run : Agree I (c.eval x ρ) (c'.eval x' ρ')
  absent : x'.isAbsent = x.isAbsent
  named : Alias x x' ∨ ∀ code msg, blamed (refusal x code msg)

theorem Sees.unsupported (h : Sees blamed I c c' ρ ρ' x x') (msg : String) :
    Tracks blamed I (Run.unsupported x msg : Run α) (Run.unsupported x' msg) := by
  obtain hn | hn := h.named
  · rw [hn.unsupported]
    exact Tracks.throw _
  · exact Follows.giveUp (Or.inr (hn _ _))

theorem anyM_agree {f f' : Expr → Run Bool} {R : Expr → Expr → Prop}
    (hf : ∀ x x', R x x' → Agree I (f x) (f' x')) (h : List.Forall₂ R xs xs') :
    Agree I (xs.anyM f) (xs'.anyM f') := by
  induction h with
  | nil => exact inferInstanceAs (Agree I (pure false) (pure false))
  | cons hx _ ih =>
    unfold List.anyM
    refine (hf _ _ hx).bind fun b => ?_
    cases b
    · exact ih
    · exact inferInstanceAs (Agree I (pure true) (pure true))

/-- The cases of a switch choose related bodies. -/
theorem choose_follows {f f' : Expr → Run Bool} {R : Expr → Expr → Prop}
    {arms arms' : List (List Expr × Expr)} (hf : ∀ x x', R x x' → Agree I (f x) (f' x'))
    (h : List.Forall₂ (ArmAlike R) arms arms') :
    Follows (· = .exhausted) I (choose f arms) (choose f' arms')
      (fun a b w w' => Option.Rel R a b ∧ I w w') I := by
  induction h with
  | nil => exact Follows.pure fun _ _ hw => ⟨.none, hw⟩
  | cons harm _ ih =>
    obtain ⟨tests, body⟩ := harm
    unfold choose
    refine Follows.bind (anyM_agree hf tests).follows fun b b' => ?_
    intro w w' hw
    obtain ⟨rfl, hw⟩ := hw
    cases b
    · exact ih w w' hw
    · exact ⟨_, w', rfl, .some body, hw⟩

/-! ### Outcomes -/

/-- Looking at the outcome of a computation in two parts is looking at that of each. -/
theorem attempt_bind_assoc (m : Run α) (f : α → Run β) (k : Except Stop β → Run γ) :
    (attempt (m >>= f) >>= k) = attempt m >>= fun r =>
      match r with
      | .ok a => attempt (f a) >>= k
      | .error s => k (.error s) := by
  funext w
  simp only [bind, EStateM.bind, attempt]
  cases m w <;> rfl

/-- From worlds in `J` the second computation does what the first does, and both end in worlds in `I`. -/
def Leads (blamed : Stop → Prop) (J I : World → World → Prop) (m m' : Run α) : Prop :=
  Follows (fun s => s = .exhausted ∨ blamed s) J m m' (fun a b w w' => a = b ∧ I w w') I

/-- Looking at the outcome of a computation. -/
theorem attempt_leads {J : World → World → Prop} {m m' : Run α} {k k' : Except Stop α → Run β}
    (hm : Agree J m m') (hk : ∀ r, Leads blamed J I (k r) (k' r))
    (hout : k (.error .exhausted) = throw .exhausted) :
    Leads blamed J I (attempt m >>= k) (attempt m' >>= k') := by
  refine hm.follows.attempt_bind (fun a b w w' hw => ?_) (fun s _ => hk _) ?_
  · obtain ⟨rfl, hw⟩ := hw
    exact hk (.ok a) w w' hw
  · rintro s rfl w
    exact ⟨.exhausted, w, by rw [hout]; rfl, Or.inl rfl⟩

/-- What goes on, from worlds in `J`, after a computation that may have failed: it gives up when the
computation did, and does the same for any two refusals of which the first is blamed. -/
structure Resumes (blamed : Stop → Prop) (J I : World → World → Prop) (k k' : Except Stop α → Run β) :
    Prop where
  same : ∀ r, Leads blamed J I (k r) (k' r)
  exhausted : k (.error .exhausted) = throw .exhausted
  refused : ∀ x x' code msg, blamed (refusal x code msg) →
    Leads blamed J I (k (.error (refusal x code msg))) (k' (.error (refusal x' code msg)))

namespace Resumes

variable {J : World → World → Prop} {k k' : Except Stop α → Run β}

theorem mono (h : Resumes blamed I I k k') (hJ : ∀ w w', J w w' → I w w') : Resumes blamed J I k k' :=
  have hmono {m m' : Run β} (hm : Leads blamed I I m m') : Leads blamed J I m m' :=
    hm.mono (fun _ => id) hJ (fun _ _ _ _ => id) fun _ _ => id
  ⟨fun r => hmono (h.same r), h.exhausted, fun x x' code msg hb => hmono (h.refused x x' code msg hb)⟩

end Resumes

/-! ### Conditions -/

variable [Lax I]

theorem Sees.evalAs (h : Sees blamed I c c' ρ ρ' x x') (t : Ty) :
    Agree I (Run.evalAs c x t ρ) (Run.evalAs c' x' t ρ') := by
  have := h.run
  unfold Run.evalAs
  infer_instance

theorem evalBool_tracks (h : Sees blamed I c c' ρ ρ' x x') :
    Tracks blamed I (evalBool c x ρ) (evalBool c' x' ρ') := by
  unfold evalBool
  refine (Tracks.of_agree h.run).bind fun v => ?_
  refine (Tracks.of_agree inferInstance).bind fun v => ?_
  split
  · exact Tracks.pure _
  · exact h.unsupported _

/-! ### Calls -/

/-- Arguments are evaluated the same way. -/
theorem evalArgs_tracks (h : List.Forall₂ (Sees blamed I c c' ρ ρ') xs xs') (sig : Ty) :
    Tracks blamed I (evalArgs c sig ρ xs) (evalArgs c' sig ρ' xs') := by
  unfold evalArgs
  generalize 0 = k
  induction h generalizing k with
  | nil => exact Tracks.pure _
  | @cons x x' xs xs' hx _ ih =>
    rw [List.zipIdx_cons, List.zipIdx_cons, List.mapM_cons, List.mapM_cons]
    refine Tracks.bind ?_ fun v => (ih (k + 1)).bind fun vs => Tracks.pure _
    refine (Tracks.of_agree inferInstance).bind fun t => ?_
    split
    · exact Tracks.of_agree (hx.evalAs _)
    · rw [hx.absent]
      dsimp only
      split
      · exact (Tracks.of_agree (inferInstance : Agree I panicNil _)).bind fun _ => hx.unsupported _
      · exact hx.unsupported _

/-- The computation does no more than note something. -/
def Notes (x : Run Unit) : Prop := ∀ w, ∃ trail, x w = .ok () { w with trail := trail }

theorem notes_nothing : Notes (pure ()) := fun w => ⟨w.trail, rfl⟩

theorem recordOn_notes (x : Expr) (ρ : Env) (event : Nat → Nat → Footprint) : Notes (recordOn x ρ event) := by
  intro w
  unfold recordOn
  cases x.asVar? with
  | none => exact ⟨w.trail, rfl⟩
  | some v =>
    dsimp only
    cases ρ.find? v with
    | none => exact ⟨w.trail, rfl⟩
    | some a => exact ⟨_, rfl⟩

theorem recordCell_notes (x : Expr) (ρ : Env) (event : Nat → Env → Footprint) : Notes (recordCell x ρ event) := by
  intro w
  unfold recordCell
  cases x.asVar? with
  | none => exact ⟨w.trail, rfl⟩
  | some v => exact ⟨_, rfl⟩

/-- What two runs note is all the same to them. -/
theorem Notes.agree {x x' : Run Unit} (hx : Notes x) (hx' : Notes x') : Agree I x x' where
  follows := by
    intro w w' hw
    obtain ⟨trail, hrun⟩ := hx w
    obtain ⟨trail', hrun'⟩ := hx' w'
    have hp : w.Peer w' := Lax.peer hw
    rw [hrun, hrun']
    refine ⟨(), _, rfl, rfl, Lax.keep hw ⟨?_, hp.closures⟩ rfl rfl⟩
    exact congrArg (fun u : World => { u with trail := trail' }) hp.rest

theorem recordOn_agree (x x' : Expr) (ρ ρ' : Env) (event event' : Nat → Nat → Footprint) :
    Agree I (recordOn x ρ event) (recordOn x' ρ' event') :=
  (recordOn_notes x ρ event).agree (recordOn_notes x' ρ' event')

theorem noteCompleted_notes (cell? : Option (Expr × Value)) (ρ : Env) : Notes (noteCompleted cell? ρ) := by
  unfold noteCompleted
  split
  · exact recordCell_notes _ ρ _
  · exact notes_nothing

theorem noteFailing_notes (name : String) (x : Expr) (ρ : Env) : Notes (noteFailing name x ρ) := by
  unfold noteFailing
  split
  · exact recordCell_notes x ρ _
  · exact notes_nothing

theorem watchCompleting_agree {run run' : Run α} (h : Agree I run run') (cell? cell?' : Option (Expr × Value)) :
    Agree I (watchCompleting cell? ρ run) (watchCompleting cell?' ρ' run') := by
  unfold watchCompleting
  refine h.bind fun r => ?_
  exact ((noteCompleted_notes cell? ρ).agree (noteCompleted_notes cell?' ρ')).bind fun _ => inferInstance

theorem Alias.invokeAs_eq (h : Alias e e') (ht : e'.type = e.type) (sig : Ty) (args : List (Option Value))
    (run : List Value → Run (List Value)) : invokeAs e' sig args run = invokeAs e sig args run := by
  unfold invokeAs invoke
  simp only [h.unsupported, ht]

theorem Alias.applyNative_eq (h : Alias e e') (ht : e'.type = e.type) (method : Native)
    (operands : List (Option Value)) : applyNative c e' method operands = applyNative c e method operands := by
  unfold applyNative
  simp only [h.invokeAs_eq ht]

/-! ### Places -/

/-- Places in the same object, or in slots that stand for one another. -/
inductive Base.Alike (S : Nat → Nat → Prop) : Base → Base → Prop
  | slot {a a' : Nat} (h : S a a') : Alike S (.slot a) (.slot a')
  | object (a : Nat) : Alike S (.object a) (.object a)

/-- Places that differ in where they begin only. -/
structure Place.Alike (S : Nat → Nat → Prop) (p p' : Place) : Prop where
  base : Base.Alike S p.base p'.base
  path : p'.path = p.path
  type : p'.type = p.type

/-- Values with places that stand for one another, in worlds in `I`. -/
def Located (S : Nat → Nat → Prop) (I : World → World → Prop) (r r' : Value × Option Place) (w w' : World) :
    Prop :=
  r.1 = r'.1 ∧ Option.Rel (Place.Alike S) r.2 r'.2 ∧ I w w'

variable {S : Nat → Nat → Prop} {base base' : Option Place}

/-- The struct of a field, read through alike places. -/
theorem structOf_follows (obj : Option Value) (hbase : Option.Rel (Place.Alike S) base base') :
    Follows (· = .exhausted) I (structOf obj base) (structOf obj base') (Located S I) I := by
  unfold structOf
  refine Agree.follows_bind inferInstance rfl fun v => ?_
  split
  · refine Agree.follows_bind inferInstance rfl fun v => ?_
    exact Follows.pure fun w w' hw => ⟨rfl, .some ⟨.object _, rfl, rfl⟩, hw⟩
  · exact Agree.follows_bind inferInstance rfl fun v => Follows.throw _ fun _ _ => id
  · refine Follows.pure fun w w' hw => ⟨rfl, ?_, hw⟩
    split
    · exact .none
    · exact hbase

omit [Lax I] in
/-- Nodes that bear one name find the same field, at places that stand for one another. -/
theorem fieldIn_follows (h : Alias e e') (name : String) (v : Value)
    (hbase : Option.Rel (Place.Alike S) base base') :
    Follows (· = .exhausted) I (fieldIn e name v base) (fieldIn e' name v base') (Located S I) I := by
  have hrefuse (msg : String) :
      Follows (· = .exhausted) I (unsupported e msg) (unsupported e msg) (Located S I) I :=
    Follows.throw _ fun _ _ => id
  unfold fieldIn
  simp only [h.unsupported]
  split
  · exact Follows.throw _ fun _ _ => id
  split
  · refine Follows.pure fun w w' hw => ⟨rfl, ?_, hw⟩
    cases hbase with
    | none => exact .none
    | some hp => exact .some ⟨hp.base, congrArg (· ++ [_]) hp.path, rfl⟩
  · exact hrefuse _

theorem fieldOf_follows (h : Alias e e') (obj : Option Value) (name : String)
    (hbase : Option.Rel (Place.Alike S) base base') :
    Follows (· = .exhausted) I (fieldOf e obj base name) (fieldOf e' obj base' name) (Located S I) I := by
  unfold fieldOf
  refine (structOf_follows obj hbase).bind fun r r' w w' hr => ?_
  obtain ⟨v, base⟩ := r
  obtain ⟨v', base'⟩ := r'
  obtain ⟨rfl, hbase, hw⟩ := hr
  exact fieldIn_follows h name v hbase w w' hw

/-! ### Forms of nodes -/

/-- Loops of alike bodies. -/
theorem evalLoop_agree [Calls.Below I c c'] {body body' : Expr} (h : Sees blamed I c c' ρ ρ' body body')
    (t : Ty) (brk cont : Option Label) :
    Agree I (evalLoop c t body brk cont ρ) (evalLoop c' t body' brk cont ρ') := by
  unfold evalLoop
  refine Agree.iterate (fun _ => ?_) (Calls.Below.turns I) ()
  unfold stepLoop
  refine h.run.attempt_bind (fun a => ?_) (fun s => ?_) rfl
  · infer_instance
  · split <;> infer_instance

/-- Handing on is noted the same way. -/
theorem watchHanding_agree {run run' : Run α} (hargs : List.Forall₂ (Sees blamed I c c' ρ ρ') xs xs')
    (hrun : Agree I run run') (name : String) :
    Agree I (watchHanding name xs ρ run) (watchHanding name xs' ρ' run') := by
  by_cases hshape : name = "OnCompleted" ∧ xs.length = 1
  · obtain ⟨rfl, hlen⟩ := hshape
    obtain ⟨x, rfl⟩ := List.length_eq_one_iff.mp hlen
    cases hargs with
    | @cons _ x' _ _ _ hnil =>
      cases hnil
      unfold watchHanding
      refine (recordOn_agree _ _ _ _ _ _).bind fun _ => hrun.attempt_bind (fun a => ?_) (fun s => ?_) rfl
      · infer_instance
      · have := recordOn_agree (I := I) x x' ρ ρ' Footprint.rejected Footprint.rejected
        split <;> infer_instance
  · have hplain {ys : List Expr} {σ : Env} {m : Run α} (h : ¬(name = "OnCompleted" ∧ ys.length = 1)) :
        watchHanding name ys σ m = m := by
      unfold watchHanding
      split
      · exact absurd ⟨rfl, rfl⟩ h
      · rfl
    rw [hplain hshape, hplain (hargs.length_eq ▸ hshape)]
    exact hrun

section Nodes

variable [Calls.Below I c c'] (he : Alias e e') (ht : e'.type = e.type)
include he ht

theorem applyNative_agree (method : Native) (operands : List (Option Value)) :
    Agree I (applyNative c e method operands) (applyNative c' e' method operands) := by
  rw [he.applyNative_eq ht]
  infer_instance

/-- Operators follow their operands. -/
theorem evalBinary_tracks {l l' r r' : Expr} (hl : Sees blamed I c c' ρ ρ' l l')
    (hr : Sees blamed I c c' ρ ρ' r r') (op : BinaryOp) (method : Option Native) :
    Tracks blamed I (evalBinary c e op l r method ρ) (evalBinary c' e' op l' r' method ρ') := by
  unfold evalBinary
  rw [ht]
  split
  · refine (evalBool_tracks hl).bind fun a => ?_
    split
    · exact Tracks.pure _
    · exact (evalBool_tracks hr).bind fun b => Tracks.pure _
  · refine (Tracks.of_agree hl.run).bind fun a => (Tracks.of_agree hr.run).bind fun b => ?_
    split
    · exact Tracks.of_agree (applyNative_agree he ht _ _)
    · exact Tracks.of_agree inferInstance

theorem hits_agree (hx : Sees blamed I c c' ρ ρ' x x') (v : Option Value) (comparer : Option Native) :
    Agree I (hits c e v comparer ρ x) (hits c' e' v comparer ρ' x') := by
  unfold hits
  refine hx.run.bind fun t => ?_
  split
  · infer_instance
  · refine (applyNative_agree he ht _ _).bind fun r => ?_
    split <;> infer_instance

/-- A switch takes the same arm. -/
theorem evalSwitch_agree {v v' other other' : Expr} {arms arms' : List (List Expr × Expr)}
    (hv : Sees blamed I c c' ρ ρ' v v') (harms : List.Forall₂ (ArmAlike (Sees blamed I c c' ρ ρ')) arms arms')
    (hother : Sees blamed I c c' ρ ρ' other other') (comparer : Option Native) :
    Agree I (evalSwitch c e v arms other comparer ρ) (evalSwitch c' e' v' arms' other' comparer ρ') := by
  unfold evalSwitch
  rw [ht, hother.absent]
  refine hv.run.bind fun u => (recordOn_agree _ _ _ _ _ _).bind fun _ => ⟨?_⟩
  refine Follows.bind (choose_follows (fun _ _ hx => hits_agree he ht hx u comparer) harms) fun a b => ?_
  intro w w' hw
  obtain ⟨hab, hw⟩ := hw
  cases hab with
  | some hbody => exact (hbody.evalAs _).follows w w' hw
  | none =>
    have := hother.evalAs e.type
    have := recordOn_agree (I := I) v v' ρ ρ' Footprint.missed Footprint.missed
    exact (inferInstance : Agree I _ _).follows w w' hw

theorem evalCall_tracks {f f' : Expr} (hf : Sees blamed I c c' ρ ρ' f f')
    (hargs : List.Forall₂ (Sees blamed I c c' ρ ρ') xs xs') :
    Tracks blamed I (evalCall c e f xs ρ) (evalCall c' e' f' xs' ρ') := by
  unfold evalCall
  refine (Tracks.of_agree hf.run).bind fun v => (Tracks.of_agree inferInstance).bind fun v => ?_
  refine (Tracks.of_agree inferInstance).bind fun _ => (evalArgs_tracks hargs _).bind fun vs => ?_
  rw [he.invokeAs_eq ht]
  exact Tracks.of_agree (invokeAs_agree (fun vs => watchCompleting_agree inferInstance _ _) _ _ _)

/-- A method call does the same from where its receiver is looked up. -/
theorem callOn_tracks {o o' : Expr} (ho : Sees blamed I c c' ρ ρ' o o')
    (hargs : List.Forall₂ (Sees blamed I c c' ρ ρ') xs xs') (name : String) :
    Tracks blamed I (callOn c e o name xs ρ) (callOn c' e' o' name xs' ρ') := by
  unfold callOn
  refine (Tracks.of_agree ho.run).bind fun v => (Tracks.of_agree inferInstance).bind fun v => ?_
  refine (Tracks.of_agree inferInstance).bind fun r => ?_
  obtain ⟨recv, sig⟩ := r
  cases sig with
  | none =>
    dsimp only
    rw [he.unsupported]
    exact Tracks.throw _
  | some sig =>
    refine (evalArgs_tracks hargs sig).bind fun vs => Tracks.of_agree ?_
    rw [he.invokeAs_eq ht]
    exact watchHanding_agree hargs (invokeAs_agree (fun vs => watchCompleting_agree inferInstance _ _) _ _ _) name

theorem evalMethodCall_tracks {o o' : Expr} (ho : Sees blamed I c c' ρ ρ' o o')
    (hargs : List.Forall₂ (Sees blamed I c c' ρ ρ') xs xs') (name : String) :
    Tracks blamed I (evalMethodCall c e o name xs ρ) (evalMethodCall c' e' o' name xs' ρ') := by
  unfold evalMethodCall
  have hnotes : Agree I (noteFailing name o ρ) (noteFailing name o' ρ') :=
    (noteFailing_notes name o ρ).agree (noteFailing_notes name o' ρ')
  exact (Tracks.of_agree hnotes).bind fun _ => callOn_tracks he ht ho hargs name

end Nodes

/-! ### Protected regions -/

namespace Resumes

variable {J : World → World → Prop}

/-- What is made of the value of a condition. -/
def truth (y : Expr) (v : Value) : Run Bool :=
  match v with
  | .bool _ b => pure b
  | v => unsupported y ("condition of type " ++ v.typeOf.text)

/-- What a handler does when its filter has been asked. -/
def afterPassing (run other : Run (Except Stop β)) : Except Stop Bool → Run (Except Stop β)
  | .ok true => run
  | .ok false => other
  | .error s => pure (.error s)

omit [Lax I] in
/-- A refused condition is a failure like any other. -/
theorem afterBool {k k' : Except Stop Bool → Run β} [Lax J] (h : Resumes blamed J I k k')
    (hx : Sees blamed J c c' ρ ρ' x x') :
    Leads blamed J I (attempt (evalBool c x ρ) >>= k) (attempt (evalBool c' x' ρ') >>= k') := by
  have hsplit (c : Calls) (y : Expr) (σ : Env) :
      evalBool c y σ = (c.eval y σ >>= unwrap) >>= truth y := by
    rw [bind_assoc]
    rfl
  have hrun := hx.run
  rw [hsplit, hsplit, attempt_bind_assoc (c.eval x ρ >>= unwrap), attempt_bind_assoc (c'.eval x' ρ' >>= unwrap)]
  refine attempt_leads inferInstance (fun r => ?_) h.exhausted
  cases r with
  | error s => exact h.same _
  | ok v =>
    dsimp only [truth]
    split
    · exact h.same (.ok _)
    · obtain hn | hn := hx.named
      · rw [hn.unsupported]
        exact h.same _
      · exact h.refused x x' _ _ (hn _ _)

omit [Lax I] in
theorem afterFilter {k k' : Except Stop Bool → Run β} [Lax J] (h : Resumes blamed J I k k')
    (hx : Sees blamed J c c' ρ ρ' x x') :
    Leads blamed J I (passes c x ρ >>= k) (passes c' x' ρ' >>= k') := by
  unfold passes
  rw [hx.absent]
  split
  · exact h.same (.ok true)
  · exact h.afterBool hx

end Resumes

/-- Handlers that can stand for one another: they accept the same errors, and in the scopes that they open
their filters and bodies can stand for one another. -/
structure HandlerSees (blamed : Stop → Prop) (I : World → World → Prop) (c c' : Calls) (ρ ρ' : Env)
    (h h' : Handler Expr) : Prop where
  test : h'.test = h.test
  opens : ∀ err, Follows (· = .exhausted) I (handlerScope h.var err ρ) (handlerScope h'.var err ρ')
    (fun σ σ' w w' => ∃ J, Lax J ∧ J w w' ∧ (∀ u u', J u u' → I u u') ∧
      Sees blamed J c c' σ σ' h.filter h'.filter ∧ Sees blamed J c c' σ σ' h.body h'.body) I

instance (s : Stop) : Agree I (caughtValue s) (caughtValue s) := by
  unfold caughtValue
  split <;> infer_instance

/-- Handlers that see the same do the same with an error. -/
theorem handle_tracks {hs hs' : List (Handler Expr)} {k k' : Except Stop (Option Value) → Run β}
    (hhs : List.Forall₂ (HandlerSees blamed I c c' ρ ρ') hs hs') (hk : Resumes blamed I I k k') (s : Stop) :
    Tracks blamed I (handle c hs s ρ >>= k) (handle c' hs' s ρ' >>= k') := by
  induction hhs with
  | nil => exact hk.same _
  | @cons h h' hs hs' hh _ ih =>
    unfold handle
    rw [hh.test]
    split
    · simpa using ih
    simp only [bind_assoc]
    refine Agree.follows_bind inferInstance (Or.inl rfl) fun err => ?_
    refine Follows.bind ((hh.opens err).lose fun _ => Or.inl) fun σ σ' w w' hσ => ?_
    obtain ⟨J, _, hJ, hJI, hfilter, hbody⟩ := hσ
    have hafter : Resumes blamed J I
        (fun r => Resumes.afterPassing (attempt (c.eval h.body σ)) (handle c hs s ρ) r >>= k)
        (fun r => Resumes.afterPassing (attempt (c'.eval h'.body σ')) (handle c' hs' s ρ') r >>= k') := by
      refine ⟨fun r => ?_, hk.exhausted, (hk.mono hJI).refused⟩
      rcases r with s | (_ | _)
      · exact (hk.mono hJI).same _
      · exact ih.mono (fun _ => id) hJI (fun _ _ _ _ => id) fun _ _ => id
      · exact attempt_leads hbody.run (hk.mono hJI).same hk.exhausted
    exact hafter.afterFilter hfilter w w' hJ

variable {body body' fault fault' fin fin' : Expr} {hs hs' : List (Handler Expr)}

/-- Handlers that see alike answer an error alike, and go on alike. -/
theorem recover_tracks {k k' : Except Stop (Option Value) → Run β}
    (hhs : List.Forall₂ (HandlerSees blamed I c c' ρ ρ') hs hs') (hfault : Sees blamed I c c' ρ ρ' fault fault')
    (hk : Resumes blamed I I k k') (s : Stop) :
    Tracks blamed I (recover c hs fault ρ s >>= k) (recover c' hs' fault' ρ' s >>= k') := by
  unfold recover
  rw [hfault.absent]
  split
  · exact hk.same _
  split
  · simpa using handle_tracks hhs hk s
  rw [bind_assoc, bind_assoc]
  refine attempt_leads hfault.run (fun r => ?_) rfl
  match r with
  | .ok _ => exact handle_tracks hhs hk s
  | .error s' =>
    dsimp only
    split
    · exact handle_tracks hhs hk s'
    · exact Tracks.throw s'

/-- Leaving a protected body through alike `finally` blocks. -/
theorem leave_resumes (hfin : Sees blamed I c c' ρ ρ' fin fin') (t : Ty) :
    Resumes blamed I I (leave c t fin ρ) (leave c' t fin' ρ') where
  same r := by
    have := hfin.run
    unfold leave
    rw [hfin.absent]
    split <;> exact Tracks.of_agree inferInstance
  exhausted := rfl
  refused x x' code msg hb := by
    have hthrow : Tracks blamed I (throw (refusal x code msg) : Run (Option Value))
        (throw (refusal x' code msg)) := Follows.giveUp (Or.inr hb)
    have := hfin.run
    have horderly (y : Expr) : isOrderly (refusal y code msg) = true := rfl
    unfold leave
    dsimp only
    rw [hfin.absent, horderly, horderly]
    cases fin.isAbsent
    · exact (Tracks.of_agree (inferInstance : Agree I (discard _) (discard _))).bind fun _ => hthrow
    · exact hthrow

/-- **A protected region does the same as one with the same parts.** -/
theorem evalProtect_tracks (hbody : Sees blamed I c c' ρ ρ' body body')
    (hhs : List.Forall₂ (HandlerSees blamed I c c' ρ ρ') hs hs') (hfin : Sees blamed I c c' ρ ρ' fin fin')
    (hfault : Sees blamed I c c' ρ ρ' fault fault') (t : Ty) :
    Tracks blamed I (evalProtect c t body hs fin fault ρ) (evalProtect c' t body' hs' fin' fault' ρ') := by
  have hleave := leave_resumes hfin t
  unfold evalProtect
  refine attempt_leads hbody.run (fun r => ?_) rfl
  cases r with
  | ok v => exact hleave.same _
  | error s => exact recover_tracks hhs hfault hleave s

/-! ### Nodes that leave the scope alone -/

/-- Whether what a node does is a matter of its operands alone. -/
def Data.isScopeless (d : Data Expr) : Bool :=
  match d.kind with
  | .block | .variable | .assign | .try | .lambda => false
  | _ => true

/-- **A node does the same as one whose operands do the same**, when it leaves the scope alone. -/
theorem evalNode_tracks [Calls.Below I c c'] {d d' : Data Expr} {i r r' : Nat}
    (h : d.Alike (Sees blamed I c c' ρ ρ') d') (hd : d.isScopeless = true) (hcaught : ρ'.caught = ρ.caught) :
    Tracks blamed I (evalNode c (.node i r t d) ρ) (evalNode c' (.node i r' t d') ρ') := by
  have he : Alias (.node i r t d) (.node i r' t d') := ⟨rfl, by cases h <;> rfl⟩
  -- kinds that open a scope are compared elsewhere
  cases h with
  | constant | default => exact Tracks.pure _
  | var | block | assign | protect | lambda => cases hd
  | binary left right => exact evalBinary_tracks he rfl left right _ _
  | unary operand =>
    refine (Tracks.of_agree operand.run).bind fun v => ?_
    split
    · exact Tracks.of_agree (applyNative_agree he rfl _ _)
    · exact Tracks.of_agree inferInstance
    · exact Tracks.of_agree inferInstance
  | throw value =>
    unfold evalNode
    dsimp only
    rw [value.absent, hcaught, he.unsupported]
    split
    · split <;> exact Tracks.of_agree inferInstance
    · refine (Tracks.of_agree value.run).bind fun v => ?_
      split <;> exact Tracks.of_agree inferInstance
  | typeIs operand => exact (Tracks.of_agree operand.run).bind fun v => Tracks.pure _
  | conditional test ifTrue ifFalse =>
    refine (evalBool_tracks test).bind fun b => ?_
    cases b
    · exact Tracks.of_agree (ifFalse.evalAs t)
    · exact Tracks.of_agree (ifTrue.evalAs t)
  | switch value cases default => exact Tracks.of_agree (evalSwitch_agree he rfl value cases default _)
  | loop body => exact Tracks.of_agree (evalLoop_agree body t _ _)
  | goto value =>
    have := value.run
    unfold evalNode
    dsimp only
    rw [value.absent]
    exact Tracks.of_agree inferInstance
  | label default =>
    have := default.evalAs t
    unfold evalNode
    dsimp only
    rw [default.absent]
    exact Tracks.of_agree inferInstance
  | call fn args => exact evalCall_tracks he rfl fn args
  | methodCall receiver args => exact evalMethodCall_tracks he rfl receiver args _
  | @field o o' name object =>
    refine (Tracks.of_agree object.run).bind fun v => ?_
    refine Follows.bind ((fieldOf_follows (S := Eq) he v name .none).lose fun _ => Or.inl) ?_
    exact fun a b w w' hw => ⟨_, w', rfl, congrArg some hw.1, hw.2.2⟩
  | await | yield =>
    unfold evalNode
    dsimp only
    rw [he.refuse]
    exact Tracks.throw _

end Resumable
