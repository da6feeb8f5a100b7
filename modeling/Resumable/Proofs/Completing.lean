import Resumable.Proofs.Running

/-!
# `Proofs.Completing`: what the completion of a cell leaves on the trail

When a call that completes the cell in a variable returns, an outcome without an error has been offered to the
cell, and the trail says last that the call returned. A block that ends with such a call leaves the trail so
too, as no label stands at its end, and so does a statement that never lets the next one run.

**Contents**
* `Offered`, `complete_offers`: outcomes that were offered to a cell.
* `convertTo_ok`, `invokeAs_ok`: what comes after a function returned leaves no trace.
* `method?_completes`, `callMethod_completes`: the methods that complete a cell.
* `evalMethodCall_completed`, `evalCall_completed`: the calls that do.
* `eval_settling`: any call that completes the cell in a variable.
* `runBlock_last`, `eval_settled`: blocks, and every statement after which a cell is completed.
-/

namespace Resumable

open Resumable.Expr

/-! ### Offers -/

theorem Offered.later {w w' : World} {a : Nat} (h : Offered a w.trail) (hl : Later w w') : Offered a w'.trail := by
  obtain ⟨value, taken, h⟩ := h
  exact ⟨value, taken, hl.trail.subset h⟩

namespace Run

variable {c : Calls} {w w' : World} {n : Nat}

/-- A computation that returns leaves what a later computation does. -/
theorem later_of_ok {x : Run α} [hx : Runs Later x] {r : α} (h : x w = .ok r w') : Later w w' :=
  left_ok h ▸ hx.left w

/-- Whether the cell takes it or not, the outcome has been offered. -/
theorem complete_offers [CallsRoam Later c] {a : Nat} {v : Option Value} {b : Bool}
    (h : complete c a v w = .ok b w') : Offered a w'.trail := by
  unfold complete finish at h
  obtain ⟨cell, w₁, -, h⟩ := bind_eq_ok.mp h
  obtain ⟨_, w₂, hrecord, h⟩ := bind_eq_ok.mp h
  have hoffered : Offered a w₂.trail := by
    cases hrecord
    exact ⟨v, _, List.mem_cons_self⟩
  exact hoffered.later (later_of_ok h)

/-! ### After a function has returned -/

theorem convertPlain_ok {v : Value} {t : Ty} {r : Value} (h : convertPlain v t w = .ok r w') : w' = w := by
  unfold convertPlain at h
  split at h
  · cases h
    rfl
  · split at h <;> cases h
    rfl

/-- A conversion that succeeds changes nothing. -/
theorem convertTo_ok {v : Option Value} {t : Ty} {r : Option Value} (h : convertTo v t w = .ok r w') : w' = w := by
  have hmap : ∀ {x : Value} {r : Option Value}, (some <$> convertPlain x t) w = .ok r w' → w' = w := by
    intro x r h
    obtain ⟨y, w₁, hx, h⟩ := bind_eq_ok.mp ((map_eq_pure_bind some (convertPlain x t)) ▸ h)
    cases h
    exact convertPlain_ok hx
  unfold convertTo at h
  repeat' split at h
  all_goals first
    | exact hmap h
    | (cases h; rfl)

/-- What the call of a function returns is returned by the function, and nothing happens afterwards. -/
theorem invokeAs_ok {e : Expr} {sig : Ty} {vs : List (Option Value)} {run : List Value → Run (List Value)}
    {r : Option Value} (h : invokeAs e sig vs run w = .ok r w') :
    ∃ args w₁ outs, run args w₁ = .ok outs w' := by
  unfold invokeAs at h
  obtain ⟨v, w₁, hinvoke, h⟩ := bind_eq_ok.mp h
  -- converting the result leaves the world as it is
  obtain rfl : w' = w₁ := by
    split at h
    · cases h
      rfl
    · exact convertTo_ok h
  unfold invoke at hinvoke
  cases hsig : sig.funcResult with
  | error fault =>
    rw [hsig] at hinvoke
    cases fault <;> cases hinvoke
  | ok shape =>
    rw [hsig] at hinvoke
    obtain ⟨res, fallible⟩ := shape
    obtain ⟨o, w₂, hattempt, hrest⟩ := bind_eq_ok.mp hinvoke
    unfold attempt at hattempt
    split at hattempt
    · rename_i outs _ hrun
      cases hattempt
      obtain ⟨args, w₃, -, hrun⟩ := bind_eq_ok.mp hrun
      -- and so does reading the error a fallible function returns
      obtain rfl : w' = w₂ := by
        cases fallible with
        | false =>
          cases hrest
          rfl
        | true =>
          dsimp only at hrest
          cases herr : outs.getLast?.bind Value.content with
          | none =>
            rw [herr] at hrest
            cases hrest
            rfl
          | some err =>
            rw [herr] at hrest
            cases hrest
      exact ⟨args, w₃, outs, hrun⟩
    · rename_i s _ hrun
      cases hattempt
      cases s with
      | panic p =>
        obtain ⟨_, _, _, hraise⟩ := bind_eq_ok.mp hrest
        cases hraise
      | _ => cases hrest

/-- A call that is watched notes that it completed the cell. -/
theorem watchCompleting_ok {e : Expr} {v : Var} {env : Env} {cell : Value} {run : Run α} {r : α}
    (hv : e.asVar? = some v) (h : watchCompleting (some (e, cell)) env run w = .ok r w') :
    ∃ w₁, run w = .ok r w₁ ∧ w'.trail = .completed v.id env cell :: w₁.trail := by
  unfold watchCompleting at h
  obtain ⟨r₁, w₁, hrun, h⟩ := bind_eq_ok.mp h
  obtain ⟨_, w₂, hnote, h⟩ := bind_eq_ok.mp h
  cases h
  refine ⟨w₁, hrun, ?_⟩
  simp only [noteCompleted, recordCell, hv] at hnote
  cases hnote
  rfl

/-! ### Functions that complete a cell -/

theorem addressOf_ok {v : Value} {a : Nat} (h : addressOf v w = .ok a w') : ∃ t, v = .pointer t a := by
  unfold addressOf at h
  split at h
  · cases h
    exact ⟨_, rfl⟩
  · cases h

/-- The types outside interfaces that have a method which completes a cell. -/
theorem method?_completes {t sig : Ty} {name : String} (hname : completes name = true)
    (hi : t.isInterface = false) (h : t.method? name = some sig) :
    (t = .pointer (.named .future) ∨ ∃ s, t = .pointer (.applied .task [s])) ∧ name = "Complete" ∨
      (∃ s, t = .pointer (.applied .valueTaskSource [s])) ∧ name = "SetResult" := by
  obtain rfl | rfl : name = "Complete" ∨ name = "SetResult" := by simpa [completes] using hname
  all_goals
    unfold Ty.method? Ty.methods at h
    split at h
    · rename_i n
      cases n <;> simp [TypeName.interface?, TypeName.valueMethods, method, awaiterMethods] at h
    · rename_i g args
      unfold Generic.valueMethods at h
      split at h <;> simp [method, awaiterMethods] at h
    · rename_i n
      split at h
      · cases h
      · cases n <;> simp [TypeName.valueMethods, TypeName.pointerMethods, method, awaiterMethods] at h ⊢
    · rename_i g args
      unfold Generic.valueMethods Generic.pointerMethods at h
      split at h <;> split at h <;> simp_all [method, awaiterMethods]
    · cases hi
    · cases h

/-- What these methods do. -/
theorem callMethod_completes {recv : Value} {name : String} {sig : Ty} (hname : completes name = true)
    (h : recv.typeOf.isInterface = false ∧ recv.typeOf.method? name = some sig) (args : List Value) :
    ∃ v, callMethod c recv name args = do
      let cell ← addressOf recv
      return [.ofBool (← complete c cell v)] := by
  obtain ⟨ht | ⟨s, ht⟩, rfl⟩ | ⟨⟨s, ht⟩, rfl⟩ := method?_completes hname h.1 h.2
  · refine ⟨none, ?_⟩
    unfold callMethod pointerMethod
    simp only [ht]
    rfl
  all_goals
    refine ⟨some (args.headD (.null .any)), ?_⟩
    unfold callMethod pointerMethod
    simp only [ht]
    rfl

/-- What is called is a method of the receiver. -/
theorem methodOf_has {recv recv' : Value} {name : String} {sig : Ty}
    (h : methodOf recv name w = .ok (recv', some sig) w') :
    recv'.typeOf.isInterface = false ∧ recv'.typeOf.method? name = some sig := by
  unfold methodOf at h
  cases hsig : if recv.typeOf.isInterface then none else recv.typeOf.method? name with
  | some sig' =>
    rw [hsig] at h
    cases h
    split at hsig
    · cases hsig
    · rename_i hi
      exact ⟨by simpa using hi, hsig⟩
  | none =>
    rw [hsig] at h
    dsimp only at h
    cases hptr : if recv.kind == .pointer then none else (Ty.pointer recv.typeOf).method? name with
    | none =>
      rw [hptr] at h
      cases h
    | some sig' =>
      rw [hptr] at h
      obtain ⟨a, w₁, -, h⟩ := bind_eq_ok.mp h
      cases h
      split at hptr
      · cases hptr
      · exact ⟨rfl, hptr⟩

variable {e : Expr} {env : Env} {v : Var} {r : Option Value}

/-- The trail says last that a call returned which completes the cell in a variable; an outcome without an error
had been offered to it. -/
def Completed (v : Var) (env : Env) (trail : List Footprint) : Prop :=
  ∃ t a l, trail = .completed v.id env (.pointer t a) :: l ∧ Offered a l

/-- A call that does no more than complete the cell in its watched value. -/
theorem watchCompleting_completed [CallsRoam Later c] {cell : Value} {o : Option Value} {outs : List Value}
    (hv : e.asVar? = some v) (h : watchCompleting (some (e, cell)) env (do
      let a ← addressOf cell
      return [.ofBool (← complete c a o)]) w = .ok outs w') : Completed v env w'.trail := by
  obtain ⟨w₁, hrun, htrail⟩ := watchCompleting_ok hv h
  obtain ⟨a, w₂, haddress, hrun⟩ := bind_eq_ok.mp hrun
  obtain ⟨b, w₃, hcomplete, hrun⟩ := bind_eq_ok.mp hrun
  cases hrun
  obtain ⟨t, rfl⟩ := addressOf_ok haddress
  exact ⟨t, a, _, htrail, complete_offers hcomplete⟩

/-- A method call that completes the cell in a variable. -/
theorem evalMethodCall_completed [CallsRoam Later c] {receiver : Expr} {name : String} {args : List Expr}
    (hv : receiver.asVar? = some v) (hname : completes name = true)
    (h : evalMethodCall c e receiver name args env w = .ok r w') : Completed v env w'.trail := by
  unfold evalMethodCall callOn at h
  obtain ⟨_, w₁, -, h⟩ := bind_eq_ok.mp h
  obtain ⟨o, w₂, -, h⟩ := bind_eq_ok.mp h
  obtain ⟨recv₀, w₃, -, h⟩ := bind_eq_ok.mp h
  obtain ⟨⟨recv, sig?⟩, w₄, hmethod, h⟩ := bind_eq_ok.mp h
  cases sig? with
  | none => cases h
  | some sig =>
    obtain ⟨vs, w₅, -, h⟩ := bind_eq_ok.mp h
    have hwatch : ∀ run : Run (Option Value), watchHanding name args env run = run := by
      intro run
      unfold watchHanding
      split
      · cases hname
      · rfl
    rw [hwatch] at h
    obtain ⟨outs, w₆, vs, hcall⟩ := invokeAs_ok h
    obtain ⟨o, heq⟩ := callMethod_completes (c := c) hname (methodOf_has hmethod) outs
    rw [heq, completedOn, if_pos hname] at hcall
    exact watchCompleting_completed hv hcall

/-- A constant that is a function is one under whatever type. -/
theorem unwrap_constant {s t : Ty} {k : Func} {f : Value}
    (h : unwrap (constValue (some (.func s k)) t) w = .ok f w') : ∃ s', f = .func s' k := by
  have hshape : (∃ s', constValue (some (.func s k)) t = some (.func s' k)) ∨
      constValue (some (.func s k)) t = some (.box t (some (.func s k))) := by
    unfold constValue Value.widen
    dsimp only
    split
    · exact .inl ⟨_, rfl⟩
    · split
      · split
        · exact .inr rfl
        · exact .inl ⟨_, rfl⟩
      · split
        · exact .inl ⟨_, rfl⟩
        · exact .inl ⟨_, rfl⟩
  obtain ⟨s', heq⟩ | heq := hshape
  all_goals
    rw [heq] at h
    cases h
    exact ⟨_, rfl⟩

/-- A call of the library function that completes the cell in a variable. -/
theorem evalCall_completed {i ref : Nat} {s t : Ty} {x : Expr} (hv : x.asVar? = some v)
    (h : evalCall (Calls.level n) e (.node i ref t (.constant (some (.func s (.library .completeValueFuture))))) [x]
      env w = .ok r w') : Completed v env w'.trail := by
  unfold evalCall at h
  cases n with
  | zero => cases h
  | succ n =>
    obtain ⟨o, w₁, heval, h⟩ := bind_eq_ok.mp h
    cases heval
    obtain ⟨f, w₂, hunwrap, h⟩ := bind_eq_ok.mp h
    obtain ⟨s', rfl⟩ := unwrap_constant hunwrap
    obtain ⟨_, w₃, -, h⟩ := bind_eq_ok.mp h
    obtain ⟨vs, w₄, -, h⟩ := bind_eq_ok.mp h
    obtain ⟨args, w₅, outs, hcall⟩ := invokeAs_ok h
    cases args with
    | nil =>
      obtain ⟨_, _, hrun, -⟩ := bind_eq_ok.mp hcall
      cases hrun
    | cons cell args => exact watchCompleting_completed hv hcall

/-- **A call that completes a cell** is noted when it returns, and by then the cell was offered an outcome. -/
theorem eval_settling {x : Expr} (hx : Watch.Settling true v x) (h : (Calls.level n).eval x env w = .ok r w') :
    Completed v env w'.trail := by
  cases n with
  | zero => cases h
  | succ n =>
    unfold Watch.Settling at hx
    split at hx
    · exact evalMethodCall_completed hx.1 hx.2 h
    · exact evalCall_completed hx.2 h
    · cases hx

/-! ### Blocks -/

/-- Looking for a label among statements changes nothing, and finds what comes after its place. -/
theorem afterLabel_run (l : Label) (xs : List Expr) :
    (∃ r, afterLabel l xs w = .ok r w ∧ ∀ rest, r = some rest → ∃ front i r' t l' d,
      xs = front ++ .node i r' t (.label l' d) :: rest ∧ l'.id = l.id) ∨
    ∃ p, afterLabel l xs w = .error (.panic p) w := by
  fun_induction afterLabel l xs with
  | case1 => exact .inl ⟨none, rfl, fun _ h => by cases h⟩
  | case2 => exact .inr ⟨_, rfl⟩
  | case3 i r t l' d rest hid =>
    refine .inl ⟨some rest, rfl, fun rest' h => ?_⟩
    cases h
    exact ⟨[], _, _, _, _, _, rfl, by simpa using hid⟩
  | case4 _ _ _ _ _ rest _ ih | case5 _ rest _ _ ih =>
    obtain ⟨r, hrun, hr⟩ | h := ih
    · refine .inl ⟨r, hrun, fun rest' h => ?_⟩
      obtain ⟨front, i, r', t, l', d, rfl, hid⟩ := hr rest' h
      exact ⟨_ :: front, i, r', t, l', d, rfl, hid⟩
    · exact .inr h

/-- What every turn that returns keeps holds in the end. -/
theorem iterate_ok {σ : Type} {step : σ → Run (σ ⊕ α)} {I : σ → World → Prop} {Q : World → Prop}
    (hstep : ∀ s w o w', I s w → step s w = .ok o w' → o.elim (I · w') fun _ => Q w') {s : σ} {a : α}
    (hs : I s w) (h : iterate step n s w = .ok a w') : Q w' := by
  induction n generalizing s w with
  | zero => cases h
  | succ n ih =>
    rw [iterate_succ] at h
    obtain ⟨o, w₁, hrun, h⟩ := bind_eq_ok.mp h
    have ho := hstep s w o w₁ hs hrun
    cases o with
    | inl s' => exact ih ho h
    | inr b =>
      cases h
      exact ho

variable {body : List Expr} {y : Expr}

/-- What is left to run of a block, and what holds when nothing is. -/
def Remains (body : List Expr) (T : World → Prop) (s : List Expr × Option Value) (w : World) : Prop :=
  s.1 <:+ body ∧ (s.1 = [] → T w)

/-- A block that returns has run its last statement to its end, unless that is a label. -/
theorem runBlock_last {T : World → Prop} {t : Ty} (hlast : body.getLast? = some y)
    (hlabel : ∀ i ref t l d, y ≠ .node i ref t (.label l d))
    (hy : ∀ {w r w'}, c.eval y env w = .ok r w' → T w') (h : runBlock c t body env w = .ok r w') : T w' := by
  have hstep : ∀ s w o w', Remains body T s w → stepBlock c body env s w = .ok o w' →
      o.elim (Remains body T · w') fun _ => T w' := by
    rintro ⟨rest, last⟩ w o w' ⟨hsuffix, hdone⟩ hrun
    cases rest with
    | nil =>
      cases hrun
      exact hdone rfl
    | cons x rest =>
      obtain ⟨res, w₁, hattempt, hrun⟩ := bind_eq_ok.mp hrun
      unfold attempt at hattempt
      split at hattempt
      · rename_i hx
        cases hattempt
        cases hrun
        refine ⟨(List.suffix_cons x rest).trans hsuffix, fun hrest => ?_⟩
        -- the statement was the last one
        obtain rfl : rest = [] := hrest
        obtain ⟨front, rfl⟩ := hsuffix
        obtain rfl : x = y := by simpa using hlast
        exact hy hx
      · rename_i s _ hx
        cases hattempt
        cases s with
        | jump l v =>
          obtain ⟨found, w₂, hfound, hrun⟩ := bind_eq_ok.mp hrun
          cases found with
          | none => cases hrun
          | some rest' =>
            obtain ⟨u, w₃, -, hrun⟩ := bind_eq_ok.mp hrun
            cases hrun
            obtain ⟨found', hafter, hplace⟩ | ⟨p, hafter⟩ := afterLabel_run (w := w₁) l body
            · cases hfound.symm.trans hafter
              obtain ⟨front, i, ref, t, l', d, rfl, -⟩ := hplace rest' rfl
              refine ⟨⟨front ++ [.node i ref t (.label l' d)], by simp⟩, fun hrest => ?_⟩
              obtain rfl : rest' = [] := hrest
              exact absurd (Option.some.inj (by simpa using hlast.symm)) (hlabel i ref t l' d)
            · cases hfound.symm.trans hafter
        | _ => cases hrun
  have hbody : body ≠ [] := by
    rintro rfl
    cases hlast
  unfold runBlock at h
  obtain ⟨last, w₁, hturns, h⟩ := bind_eq_ok.mp h
  have hT : T w₁ := iterate_ok (I := Remains body T) hstep ⟨List.suffix_refl body, fun h => absurd h hbody⟩ hturns
  split at h
  · cases h
    exact hT
  · exact convertTo_ok h ▸ hT

/-- Declarations of other variables leave a variable where it is. -/
theorem declareAll_slot? {vars : List Var} {k : Nat} {env' : Env} (hvars : ∀ v ∈ vars, v.id ≠ k)
    (h : vars.foldlM declare env w = .ok env' w') : env'.slot? k = env.slot? k := by
  induction vars generalizing env w with
  | nil =>
    cases h
    rfl
  | cons v vars ih =>
    rw [List.foldlM_cons] at h
    obtain ⟨env₁, w₁, hdeclare, h⟩ := bind_eq_ok.mp h
    rw [ih (fun u hu => hvars u (List.mem_cons_of_mem v hu)) h]
    cases hdeclare
    rw [Env.slot?_bind, if_neg (hvars v List.mem_cons_self).symm]

/-- A statement that goes elsewhere does not return. -/
theorem eval_transfers {x : Expr} (hx : x.transfers = true) : (Calls.level n).eval x env w ≠ .ok r w' := by
  intro h
  cases n with
  | zero => cases h
  | succ n =>
    change evalNode (Calls.level n) x env w = .ok r w' at h
    cases x with
    | absent => cases hx
    | node i ref t d =>
      cases d with
      | goto kind l value =>
        unfold evalNode at h
        dsimp only at h
        split at h
        all_goals
          obtain ⟨_, _, _, h⟩ := bind_eq_ok.mp h
          cases h
      | throw value =>
        unfold evalNode at h
        dsimp only at h
        cases habsent : value.isAbsent
        all_goals simp only [habsent, if_true, if_neg Bool.false_ne_true] at h
        · obtain ⟨y, _, _, h⟩ := bind_eq_ok.mp h
          cases herr : asError? y
          all_goals
            rw [herr] at h
            cases h
        · cases hcaught : env.caught
          all_goals
            rw [hcaught] at h
            cases h
      | _ => cases hx

/-- **A statement after which a cell is completed** leaves the trail so that the instance in whose scope it runs
has completed the cell. -/
theorem eval_settled {state : Var} {x : Expr} {a : Nat} (hx : Watch.Settled v x)
    (hvars : ∀ i ref t vars xs, x = .node i ref t (.block vars xs) → ∀ u ∈ vars, u.id ≠ state.id)
    (ha : env.slot? state.id = some a) (h : (Calls.level n).eval x env w = .ok r w') :
    Completes state v a w'.trail := by
  have hcompletes : ∀ {env : Env} {w : World}, env.slot? state.id = some a → Completed v env w.trail →
      Completes state v a w.trail := by
    rintro env w ha ⟨t, b, l, hl, hoffered⟩
    exact ⟨env, t, b, l, hl, ha, hoffered⟩
  obtain hx | hx | ⟨i, ref, t, vars, xs, y, rfl, hlast, hy⟩ := hx
  · exact hcompletes ha (eval_settling hx h)
  · exact absurd h (eval_transfers hx)
  · cases n with
    | zero => cases h
    | succ n =>
      obtain ⟨env', w₁, hdeclare, h⟩ := bind_eq_ok.mp h
      rw [← declareAll_slot? (hvars i ref t vars xs rfl) hdeclare] at ha
      refine runBlock_last (T := fun w => Completes state v a w.trail) hlast ?_ (fun h => ?_) h
      · rintro i ref t l d rfl
        obtain hy | hy := hy
        · exact hy
        · cases hy
      · obtain hy | hy := hy
        · exact hcompletes ha (eval_settling hy h)
        · exact absurd h (eval_transfers hy)

end Run

end Resumable
