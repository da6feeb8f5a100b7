import Resumable.Proofs.Cells

/-!
# `Proofs.Sources`: the uses of a source are never mixed up

A source is a cell that is used again and again: reading its outcome through a handle ends a use. Handles of
ended uses stay around and may be read at any time. The trail tells the uses apart, and `Chronicle` says what
the source holds in each: it is an invariant of every step, and with it every answer ever given is the right
one for the use that the handle was made in.

**Contents**
* `uses`, `outcomes`, `Claimed`: the uses on a trail, what was set during each, and which have been read.
* `RightAnswer`: what a handle has to answer.
* `SourceDeed`, `SourceDeed.tally`: what a program and its continuations do with a source, and the events that
  it leaves on the trail.
* `Chronicle`, `Chronicle.stable`, `Chronicle.peek`, `Chronicle.consume`: the invariant, and that each step
  keeps it.
* `source_uses_never_mix`: every answer is right.
* `rent_pending`, `rent_of_late_result`: what a rented source holds.
-/

namespace Resumable

/-! ### Uses -/

/-- How many uses of the source have ended. -/
def uses (a : Nat) : List Footprint → Nat
  | [] => 0
  | .read b _ _ true :: t => if b = a then uses a t + 1 else uses a t
  | _ :: t => uses a t

/-- The outcomes that were set during a use: an error, or a value. -/
def outcomes (a u : Nat) : List Footprint → List (Option Value × Option Value)
  | [] => []
  | .offered b err value true :: t =>
    if b = a ∧ uses a t = u then (err, value) :: outcomes a u t else outcomes a u t
  | _ :: t => outcomes a u t

/-- A handle of a use has been read after the use had an outcome. -/
def Claimed (a u : Nat) : List Footprint → Prop
  | [] => False
  | .read b version _ _ :: t => Claimed a u t ∨ b = a ∧ version.toNat = u ∧ outcomes a u t ≠ []
  | _ :: t => Claimed a u t

/-- What a handle of the use `u` has to answer, when the trail is `t`. -/
structure RightAnswer (zero : Value) (a u : Nat) (t : List Footprint) (answer : Value × Option Value) :
    Prop where
  /-- Before the use has an outcome it is not completed. -/
  early : outcomes a u t = [] → answer = (zero, some Sentinel.notCompleted.error)
  /-- The first time after that it is the outcome that was set during the use. -/
  first : ∀ err value, outcomes a u t = [(err, value)] → ¬ Claimed a u t →
    answer = (value.getD zero, err)
  /-- From then on the handle is stale. -/
  stale : Claimed a u t → answer = (zero, some Sentinel.stale.error)

/-! ### Deeds -/

/-- The handle for a use of a source, by its version. -/
def sourceHandle (t : Ty) (a : Nat) (version : UInt32) : Value :=
  .struct (.valueTask t) [.pointer (.source t) a, .int (.scalar .uint32) version.toNat, t.zero, .ofError none]

/-- What can be done with a source. Handles are told by the use that they are for. -/
inductive SourceDeed where
  | setResult (v : Value)
  | setException (e : Option Value)
  /-- Makes a handle of the current use. -/
  | task
  | isCompleted (u : Nat)
  | onCompleted (u k : Nat)
  | result (u : Nat)

namespace SourceDeed

/-- Does something with the handle for a use that has begun. -/
def withHandle (t : Ty) (a u : Nat) (f : Value → Run Unit) : Run Unit := do
  let cell ← Run.completion a
  if u ≤ cell.version.toNat then f (sourceHandle t a (.ofNat u))

/-- Does it with the source at an address. -/
def perform (t : Ty) (a : Nat) (c : Calls) : SourceDeed → Run Unit
  | .setResult v => discard (Run.complete c a (some v))
  | .setException e => discard (Run.fail c a e)
  | .task => discard (Run.handleOf t a)
  | .isCompleted u => withHandle t a u fun h => discard (Run.handleDone h)
  | .onCompleted u k => withHandle t a u fun h => Run.handleOnCompleted c h (continuation k)
  | .result u => withHandle t a u fun h => discard (Run.handleResult t h)

/-- How continuations are called when a plan says what each does with the source at an address. -/
def host (t : Ty) (a : Nat) (plan : Nat → List SourceDeed) (n : Nat) : Calls :=
  .hosting (fun c k => (plan k).forM (perform t a c)) n

/-- What it costs, when continuations have the given costs. -/
def price (cost : Nat → Nat) : SourceDeed → Nat
  | .onCompleted _ k => cost k + 1
  | _ => 1

/-- The event that setting an outcome leaves behind. Failing with nil sets an error that is made for it. -/
inductive Leaves (a : Nat) : SourceDeed → Footprint → Prop
  | setResult (v : Value) (taken : Bool) : Leaves a (.setResult v) (.offered a none (some v) taken)
  | setException (e : Option Value) (p : Nat) (taken : Bool) :
      Leaves a (.setException e)
        (.offered a (some (e.getD (.pointer (.pointer (.named .errorText)) p))) none taken)

/-- Only setting an outcome offers one. -/
def tally (a : Nat) : Tally SourceDeed where
  marks e := (e.offer? a).isSome
  counts
    | .setResult _ | .setException _ => true
    | _ => false
  leaves := Leaves a
  resumed _ _ := rfl
  entered _ := rfl

end SourceDeed

namespace Run

variable {t : Ty} {a : Nat} {cell : Completion} {w : World} {version : UInt32}

theorem handleOf_eq (h : w.store[a]? = some (.completion cell)) :
    handleOf t a w = .ok (sourceHandle t a cell.version) w := by
  rw [handleOf, bind_of_ok (completion_eq h)]
  rfl

theorem handleParts_sourceHandle (t : Ty) (a : Nat) (version : UInt32) :
    handleParts (sourceHandle t a version) = (.pointer (.source t) a, version, t.zero, none) := by
  simp [handleParts, sourceHandle, Value.asInt, Value.ofError]
  rfl

theorem handleResult_sourceHandle (t : Ty) (a : Nat) (version : UInt32) :
    handleResult t (sourceHandle t a version) = consume t a version := by
  simp only [handleResult, handleParts_sourceHandle]

theorem handleOnCompleted_sourceHandle (c : Calls) (t : Ty) (a : Nat) (version : UInt32) (k : Callback) :
    handleOnCompleted c (sourceHandle t a version) k = onCompleted c a k false := by
  simp only [handleOnCompleted, handleParts_sourceHandle]

theorem handleDone_sourceHandle (h : w.store[a]? = some (.completion cell)) :
    handleDone (sourceHandle t a version) w = .ok (cell.version != version || cell.done) w := by
  simp only [handleDone, handleParts_sourceHandle]
  rw [bind_of_ok (completion_eq h)]
  rfl

/-- The answer of a handle for another use than the current one. -/
theorem consume_of_stale (h : w.store[a]? = some (.completion cell)) (hv : cell.version ≠ version) :
    consume t a version w = .ok (t.zero, some Sentinel.stale.error)
      (w.add (.read a version (t.zero, some Sentinel.stale.error) false)) := by
  rw [consume, bind_of_ok (completion_eq h)]
  simp only [bne_iff_ne, ne_eq, hv, not_false_eq_true, if_true]
  rfl

/-- The answer of a handle for the current use, before it has an outcome. -/
theorem consume_of_pending (h : w.store[a]? = some (.completion cell)) (hv : cell.version = version)
    (hd : cell.done = false) :
    consume t a version w = .ok (t.zero, some Sentinel.notCompleted.error)
      (w.add (.read a version (t.zero, some Sentinel.notCompleted.error) false)) := by
  rw [consume, bind_of_ok (completion_eq h)]
  simp [hv, hd]
  rfl

/-- The answer of a handle for the current use, when it has an outcome; this ends the use. -/
theorem consume_of_done (h : w.store[a]? = some (.completion cell)) (hv : cell.version = version)
    (hd : cell.done = true) :
    ∃ pools, consume t a version w = .ok (cell.value.getD t.zero, cell.err)
      (({ w with pools := pools }.setCell a
        { cell with done := false, err := none, value := some t.zero, wakers := [],
                    version := cell.version + 1 }).add
          (.read a version (cell.value.getD t.zero, cell.err) true)) := by
  rw [consume, bind_of_ok (completion_eq h)]
  simp [hv, hd]
  exact ⟨(t, (((w.pools.lookup t).getD {}).put a)) :: w.pools.filter (·.1 != t), rfl⟩

end Run

/-! ### The chronicle of a source -/

/-- A use that was claimed has an outcome. -/
theorem outcomes_of_claimed {a u : Nat} {t : List Footprint} (h : Claimed a u t) : outcomes a u t ≠ [] := by
  induction t with
  | nil => exact h.elim
  | cons e t ih =>
    cases e with
    | offered b err value taken =>
      cases taken with
      | false => exact ih h
      | true =>
        rw [outcomes]
        split
        · exact List.cons_ne_nil _ _
        · exact ih h
    | read b version answer recycled => exact h.elim ih fun h => h.2.2
    | _ => exact ih h

/-- What a source holds and what its handles have answered. -/
structure Chronicle (t : Ty) (a : Nat) (fly : List Waker) (v : View) : Prop where
  known : ∀ k ∈ fly ++ v.cell.wakers, ∃ j, k.callback = continuation j
  binding : v.cell.binding = .free
  /-- The version counts the uses, around the clock. -/
  version : v.cell.version = .ofNat (uses a v.trail)
  /-- A pending source holds the zero value, and its use has no outcome. -/
  pending : v.cell.done = false → v.cell.value = some t.zero ∧ outcomes a (uses a v.trail) v.trail = []
  /-- A source that is done holds the outcome of its use. -/
  done : v.cell.done = true → ∃ err value, outcomes a (uses a v.trail) v.trail = [(err, value)] ∧
    v.cell.err = err ∧ v.cell.value = (value <|> some t.zero)
  /-- Uses to come have no outcomes. -/
  later : ∀ u, uses a v.trail < u → outcomes a u v.trail = []
  one : ∀ u, (outcomes a u v.trail).length ≤ 1
  /-- The uses that have been read are those that have ended. -/
  claimed : uses a v.trail < 2 ^ 32 → ∀ u, Claimed a u v.trail ↔ u < uses a v.trail
  answers : ∀ {version answer recycled t'}, .read a version answer recycled :: t' <:+ v.trail →
    uses a v.trail < 2 ^ 32 → version.toNat ≤ uses a t' ∧ RightAnswer t.zero a version.toNat t' answer

namespace Chronicle

variable {t : Ty} {a : Nat} {fly : List Waker} {v : View}

theorem init (t : Ty) (a : Nat) (loop : Option Loop) :
    Chronicle t a [] ⟨{ value := some t.zero }, [], loop⟩ where
  known := by simp
  binding := rfl
  version := rfl
  pending _ := ⟨rfl, rfl⟩
  done h := nomatch h
  later _ _ := rfl
  one _ := Nat.zero_le _
  claimed _ u := by simp [Claimed, uses]
  answers h := by simp at h

/-- Answers stay right when something else than a reading happens. -/
theorem answers_cons (h : Chronicle t a fly v) {e : Footprint}
    (huses : uses a (e :: v.trail) = uses a v.trail)
    (hread : ∀ version answer recycled, e ≠ .read a version answer recycled)
    {version : UInt32} {answer : Value × Option Value} {recycled : Bool} {t' : List Footprint}
    (hsuffix : .read a version answer recycled :: t' <:+ e :: v.trail)
    (hlt : uses a (e :: v.trail) < 2 ^ 32) :
    version.toNat ≤ uses a t' ∧ RightAnswer t.zero a version.toNat t' answer := by
  rcases List.suffix_cons_iff.mp hsuffix with heq | hsuffix
  · exact absurd (List.cons.inj heq).1.symm (hread _ _ _)
  · exact h.answers hsuffix (huses ▸ hlt)

/-- What is neither an outcome that is taken nor a reading changes nothing. -/
theorem aside (h : Chronicle t a fly v) {fly' : List Waker} {cell : Completion} {e : Footprint}
    {loop : Option Loop}
    (hcell : cell = { v.cell with wakers := cell.wakers })
    (hknown : ∀ k ∈ fly' ++ cell.wakers, ∃ j, k.callback = continuation j)
    (huses : uses a (e :: v.trail) = uses a v.trail)
    (houtcomes : ∀ u, outcomes a u (e :: v.trail) = outcomes a u v.trail)
    (hclaimed : ∀ u, Claimed a u (e :: v.trail) = Claimed a u v.trail)
    (hread : ∀ version answer recycled, e ≠ .read a version answer recycled) :
    Chronicle t a fly' { cell := cell, trail := e :: v.trail, loop := loop } where
  known := hknown
  binding := by
    rw [hcell]
    exact h.binding
  version := by
    rw [hcell, huses]
    exact h.version
  pending hd := by
    rw [hcell] at hd ⊢
    simpa only [huses, houtcomes] using h.pending hd
  done hd := by
    rw [hcell] at hd ⊢
    simpa only [huses, houtcomes] using h.done hd
  later u hu := by
    rw [houtcomes]
    exact h.later u (huses ▸ hu)
  one u := by
    rw [houtcomes]
    exact h.one u
  claimed hlt u := by
    rw [hclaimed, huses]
    exact h.claimed (huses ▸ hlt) u
  answers := h.answers_cons huses hread

/-- The first outcome of a use is kept. -/
theorem taken (h : Chronicle t a fly v) (hd : v.cell.done = false) (err value : Option Value) :
    Chronicle t a (v.cell.wakers ++ fly) { v.add (.offered a err value true) with
      cell := { v.cell with done := true, err := err, value := value <|> v.cell.value, wakers := [] } } := by
  obtain ⟨hvalue, hnone⟩ := h.pending hd
  have houtcomes (u : Nat) : outcomes a u (.offered a err value true :: v.trail) =
      if uses a v.trail = u then (err, value) :: outcomes a u v.trail else outcomes a u v.trail := by
    simp [outcomes]
  exact {
    known := fun k hk => h.known k (by simpa [or_comm] using hk)
    binding := h.binding
    version := h.version
    pending := nofun
    done := fun _ => ⟨err, value, by simp [View.add, uses, houtcomes, hnone], rfl, by rw [hvalue]⟩
    later := fun u hu => by
      have hne : uses a v.trail ≠ u := Nat.ne_of_lt hu
      simpa [View.add, houtcomes, hne] using h.later u hu
    one := fun u => by
      show (outcomes a u (.offered a err value true :: v.trail)).length ≤ 1
      rw [houtcomes]
      split
      · next heq => simp [← heq, hnone]
      · exact h.one u
    claimed := h.claimed
    answers := h.answers_cons rfl fun _ _ _ => Footprint.noConfusion }

/-- Footprints that are not about the source are no part of its chronicle. -/
theorem stable : Stable a (Chronicle t a) where
  known h := h.known _ (List.mem_append_left _ List.mem_cons_self)
  somewhere h := by
    rw [h.binding, Waker.runsOn]
    split <;> exact Binding.noConfusion
  refused h _ := h.aside rfl h.known rfl (fun _ => rfl) (fun _ => rfl) fun _ _ _ => Footprint.noConfusion
  taken h hd := h.taken hd _ _
  waiting {fly v j inline} h _ := by
    refine h.aside rfl (fun k hk => ?_) rfl (fun _ => rfl) (fun _ => rfl) fun _ _ _ => Footprint.noConfusion
    rw [← List.append_assoc] at hk
    rcases List.mem_append.mp hk with hk | hk
    · exact h.known k hk
    · exact ⟨j, by rw [List.mem_singleton.mp hk]⟩
  late {fly v j inline} h _ := by
    refine h.aside rfl (fun k hk => ?_) rfl (fun _ => rfl) (fun _ => rfl) fun _ _ _ => Footprint.noConfusion
    rcases List.mem_cons.mp hk with rfl | hk
    · exact ⟨j, rfl⟩
    · exact h.known k hk
  ran {k fly v j} h _ _ := by
    have hresumed : Chronicle t a fly (v.add (.resumed a k)) :=
      h.aside rfl (fun k hk => h.known k (List.mem_cons_of_mem _ hk)) rfl (fun _ => rfl) (fun _ => rfl)
        fun _ _ _ => Footprint.noConfusion
    exact hresumed.aside rfl hresumed.known rfl (fun _ => rfl) (fun _ => rfl)
      fun _ _ _ => Footprint.noConfusion
  queued {k fly v} h hon := by
    rw [h.binding, Waker.runsOn] at hon
    split at hon <;> exact Binding.noConfusion hon

/-- While versions do not repeat, the version of a source is the number of its current use. -/
theorem version_toNat (h : Chronicle t a fly v) (hlt : uses a v.trail < 2 ^ 32) :
    v.cell.version.toNat = uses a v.trail := by
  rw [h.version, UInt32.toNat_ofNat_of_lt' hlt]

/-- A reading that does not end a use. -/
theorem peek (h : Chronicle t a fly v) {version : UInt32} {answer : Value × Option Value}
    (hright : uses a v.trail < 2 ^ 32 →
      version.toNat ≤ uses a v.trail ∧ RightAnswer t.zero a version.toNat v.trail answer)
    (hclaim : uses a v.trail < 2 ^ 32 → outcomes a version.toNat v.trail ≠ [] →
      version.toNat < uses a v.trail) :
    Chronicle t a fly (v.add (.read a version answer false)) where
  known := h.known
  binding := h.binding
  version := h.version
  pending := h.pending
  done := h.done
  later := h.later
  one := h.one
  claimed hlt u := by
    have hiff := h.claimed hlt u
    constructor
    · rintro (hu | ⟨-, rfl, hne⟩)
      · exact hiff.mp hu
      · exact hclaim hlt hne
    · exact fun hu => .inl (hiff.mpr hu)
  answers hsuffix hlt := by
    rcases List.suffix_cons_iff.mp hsuffix with heq | hsuffix
    · cases heq
      exact hright hlt
    · exact h.answers hsuffix hlt

/-- A handle of an ended use is stale. -/
theorem peek_stale (h : Chronicle t a fly v) {version : UInt32} (hv : v.cell.version ≠ version)
    (hle : version.toNat ≤ v.cell.version.toNat) :
    Chronicle t a fly (v.add (.read a version (t.zero, some Sentinel.stale.error) false)) := by
  -- versions have not come round yet, so another version is an earlier one
  have hbefore (hlt : uses a v.trail < 2 ^ 32) : version.toNat < uses a v.trail := by
    have hne : version.toNat ≠ v.cell.version.toNat := fun heq => hv (UInt32.toNat_inj.mp heq.symm)
    have := h.version_toNat hlt
    omega
  refine h.peek (fun hlt => ?_) fun hlt _ => hbefore hlt
  have hclaimed := (h.claimed hlt _).mpr (hbefore hlt)
  exact ⟨(hbefore hlt).le, {
    early := fun hnone => absurd hnone (outcomes_of_claimed hclaimed)
    first := fun _ _ _ hnot => absurd hclaimed hnot
    stale := fun _ => rfl }⟩

/-- A handle of the current use is not completed before the use has an outcome. -/
theorem peek_pending (h : Chronicle t a fly v) (hd : v.cell.done = false) :
    Chronicle t a fly (v.add (.read a v.cell.version (t.zero, some Sentinel.notCompleted.error) false)) := by
  obtain ⟨-, hnone⟩ := h.pending hd
  refine h.peek (fun hlt => ?_) fun hlt hne => ?_
  · rw [h.version_toNat hlt]
    exact ⟨Nat.le_refl _, {
      early := fun _ => rfl
      first := fun err value hsome => by simp [hnone] at hsome
      stale := fun hclaimed => absurd hnone (outcomes_of_claimed hclaimed) }⟩
  · rw [h.version_toNat hlt] at hne
    exact absurd hnone hne

/-- The first reading of a use with an outcome gives the outcome and ends the use. -/
theorem consume (h : Chronicle t a fly v) (hd : v.cell.done = true) :
    Chronicle t a fly { v.add (.read a v.cell.version (v.cell.value.getD t.zero, v.cell.err) true) with
      cell := { v.cell with done := false, err := none, value := some t.zero, wakers := [],
                            version := v.cell.version + 1 } } := by
  obtain ⟨err, value, hsome, herr, hvalue⟩ := h.done hd
  have huses : uses a (.read a v.cell.version (v.cell.value.getD t.zero, v.cell.err) true :: v.trail) =
      uses a v.trail + 1 := by
    simp [uses]
  exact {
    known := fun k hk => h.known k (List.mem_append_left _ (by simpa using hk))
    binding := h.binding
    version := by
      simp only [View.add]
      rw [huses, UInt32.ofNat_add, ← h.version]
      rfl
    pending := fun _ => ⟨rfl, by
      simp only [View.add, huses]
      exact h.later _ (Nat.lt_succ_self _)⟩
    done := nofun
    later := fun u hu => by
      simp only [View.add, huses] at hu
      exact h.later u (Nat.lt_of_succ_lt hu)
    one := h.one
    claimed := fun hlt u => by
      simp only [View.add, huses] at hlt ⊢
      have hiff := h.claimed (Nat.lt_of_succ_lt hlt) u
      have hversion := h.version_toNat (Nat.lt_of_succ_lt hlt)
      show Claimed a u v.trail ∨ a = a ∧ v.cell.version.toNat = u ∧ outcomes a u v.trail ≠ [] ↔ _
      rw [hiff, hversion]
      constructor
      · rintro (hu | ⟨-, rfl, -⟩) <;> omega
      · intro hu
        -- the use that ends now is claimed by this very reading
        rcases Nat.lt_or_eq_of_le (Nat.le_of_lt_succ hu) with hu | rfl
        · exact .inl hu
        · exact .inr ⟨rfl, rfl, by simp [hsome]⟩
    answers := fun hsuffix hlt => by
      simp only [View.add, huses] at hlt
      have hlt := Nat.lt_of_succ_lt hlt
      -- this reading is the first after the outcome; the others were right before
      rcases List.suffix_cons_iff.mp hsuffix with heq | hsuffix
      · cases heq
        rw [h.version_toNat hlt]
        refine ⟨Nat.le_refl _, ⟨fun hnone => ?_, fun err' value' hsome' _ => ?_, fun hclaimed => ?_⟩⟩
        · simp [hsome] at hnone
        · obtain ⟨rfl, rfl⟩ : err = err' ∧ value = value' := by simpa [hsome] using hsome'
          rw [herr, hvalue]
          cases value <;> rfl
        · exact absurd ((h.claimed hlt _).mp hclaimed) (Nat.lt_irrefl _)
      · exact h.answers hsuffix hlt }

end Chronicle

/-! ### Runs -/

section

variable {t : Ty} {a : Nat} {c : Calls} {cost : Nat → Nat} {b m : Nat}

/-- What a reading through a handle does: it answers, keeps the chronicle if the use of the handle has begun,
and registers nothing. -/
structure Reads (t : Ty) (a : Nat) (version : UInt32) (w : World) (cell : Completion)
    (r : Value × Option Value) (w' : World) (cell' : Completion) : Prop where
  ok : Run.consume t a version w = .ok r w'
  held : w'.store[a]? = some (.completion cell')
  trail : ∃ recycled, w'.trail = .read a version r recycled :: w.trail
  loop : w'.loop = w.loop
  wakers : cell'.wakers = cell.wakers ∨ cell'.wakers = []
  chronicle : ∀ {fly}, version.toNat ≤ cell.version.toNat →
    Chronicle t a fly ⟨cell, w.trail, w.loop⟩ → Chronicle t a fly ⟨cell', w'.trail, w'.loop⟩

/-- The outcome of a source can always be read, if by an error. -/
theorem exists_reads (t : Ty) (version : UInt32) {w : World} {cell : Completion}
    (hcell : w.store[a]? = some (.completion cell)) :
    ∃ r w' cell', Reads t a version w cell r w' cell' := by
  by_cases hv : cell.version = version
  · subst hv
    cases hd : cell.done with
    | false =>
      exact ⟨_, _, cell, Run.consume_of_pending hcell rfl hd, hcell, ⟨_, rfl⟩, rfl, .inl rfl,
        fun _ h => h.peek_pending hd⟩
    | true =>
      obtain ⟨pools, hread⟩ := Run.consume_of_done (t := t) hcell rfl hd
      obtain ⟨hlt, -⟩ := Array.getElem?_eq_some_iff.mp hcell
      exact ⟨_, _, _, hread, Array.getElem?_setIfInBounds_self_of_lt hlt, ⟨_, rfl⟩, rfl, .inr rfl,
        fun _ h => h.consume hd⟩
  · exact ⟨_, _, cell, Run.consume_of_stale hcell hv, hcell, ⟨_, rfl⟩, rfl, .inl rfl,
      fun hle h => h.peek_stale hv hle⟩

/-- What is done through a handle keeps the chronicle when it does for the uses that have begun. -/
theorem SourceDeed.withHandle_upholds {u : Nat} {f : Value → Run Unit}
    (h : ∀ {fly w r w' cell}, w.store[a]? = some (.completion cell) → u ≤ cell.version.toNat →
      Chronicle t a fly ⟨cell, w.trail, w.loop⟩ → f (sourceHandle t a (.ofNat u)) w = .ok r w' →
      Holds a (Chronicle t a) fly w') :
    Upholds a (Chronicle t a) (SourceDeed.withHandle t a u f) := by
  intro fly w r w' hw hrun
  obtain ⟨cell, hcell, hI⟩ := hw
  rw [SourceDeed.withHandle, Run.bind_of_ok (Run.completion_eq hcell)] at hrun
  split at hrun
  · next hu => exact h hcell hu hI hrun
  · cases hrun
    exact ⟨cell, hcell, hI⟩

/-- The version of a use that has begun. -/
theorem toNat_ofNat_of_le {u : Nat} {version : UInt32} (hu : u ≤ version.toNat) :
    (UInt32.ofNat u).toNat = u :=
  UInt32.toNat_ofNat_of_lt' (Nat.lt_of_le_of_lt hu version.toNat_lt)

/-- What is done with a source keeps its chronicle. -/
theorem SourceDeed.upholds (hc : Carries a (Chronicle t a) c) (d : SourceDeed) :
    Upholds a (Chronicle t a) (d.perform t a c) := by
  cases d with
  | setResult v => exact (Chronicle.stable.finish hc none (some v)).discard
  | setException e => exact (Chronicle.stable.fail hc e).discard
  | task =>
    intro fly w r w' ⟨cell, hcell, hI⟩ hrun
    obtain ⟨v, hrun⟩ := Run.discard_eq_ok.mp hrun
    rw [Run.handleOf_eq hcell] at hrun
    cases hrun
    exact ⟨cell, hcell, hI⟩
  | isCompleted u =>
    rw [perform]
    refine withHandle_upholds fun hcell _ hI hrun => ?_
    obtain ⟨v, hrun⟩ := Run.discard_eq_ok.mp hrun
    rw [Run.handleDone_sourceHandle hcell] at hrun
    cases hrun
    exact ⟨_, hcell, hI⟩
  | onCompleted u k =>
    rw [perform]
    refine withHandle_upholds fun hcell _ hI hrun => ?_
    rw [Run.handleOnCompleted_sourceHandle] at hrun
    exact Chronicle.stable.onCompleted hc k false ⟨_, hcell, hI⟩ hrun
  | result u =>
    rw [perform]
    refine withHandle_upholds fun hcell hu hI hrun => ?_
    obtain ⟨v, hrun⟩ := Run.discard_eq_ok.mp hrun
    obtain ⟨r, w', cell', hread⟩ := exists_reads t (.ofNat u) hcell
    rw [Run.handleResult_sourceHandle, hread.ok] at hrun
    cases hrun
    exact ⟨cell', hread.held, hread.chronicle ((toNat_ofNat_of_le hu).trans_le hu) hI⟩

section
variable {A : Tally SourceDeed} {plan : Nat → List SourceDeed}

/-- What is done through a handle is accounted for when it is for the uses that have begun. -/
theorem SourceDeed.withHandle_does {u : Nat} {f : Value → Run Unit}
    (h : A.Does plan a (Chronicle t a) (f (sourceHandle t a (.ofNat u))) []) :
    A.Does plan a (Chronicle t a) (SourceDeed.withHandle t a u f) [] := by
  intro fly w r w' hw hrun
  obtain ⟨cell, hcell, hI⟩ := hw
  rw [SourceDeed.withHandle, Run.bind_of_ok (Run.completion_eq hcell)] at hrun
  split at hrun
  · exact h ⟨cell, hcell, hI⟩ hrun
  · cases hrun
    exact ⟨[], rfl, .nil⟩

/-- Every outcome that is set is on the trail, and no others. -/
theorem SourceDeed.does (hu : Carries a (Chronicle t a) c) (hc : (tally a).Carries plan a (Chronicle t a) c)
    (d : SourceDeed) : (tally a).Does plan a (Chronicle t a) (d.perform t a c) [d] := by
  have hI := Chronicle.stable (t := t) (a := a)
  have hleft : ∀ {d : SourceDeed} {e}, (tally a).counts d = true → (tally a).marks e = true →
      e.entry? = none → Leaves a d e → (tally a).Balances plan [d] [e] := .left
  cases d with
  | setResult v =>
    exact (Tally.finish hI hu hc fun taken =>
      hleft rfl (by simp [tally]) rfl (.setResult v taken)).discard
  | setException e =>
    exact (Tally.fail hI hu hc fun p taken =>
      hleft rfl (by simp [tally]) rfl (.setException e p taken)).discard
  -- handing out a handle, and asking whether it is completed, leave no trace
  | task =>
    refine Tally.Does.idle rfl fun fly w r w' ⟨cell, hcell, hI⟩ hrun => ?_
    obtain ⟨v, hrun⟩ := Run.discard_eq_ok.mp hrun
    rw [Run.handleOf_eq hcell] at hrun
    cases hrun
    exact ⟨[], rfl, .nil⟩
  | isCompleted u =>
    refine Tally.Does.idle rfl ?_
    rw [perform]
    refine withHandle_does fun fly w r w' ⟨cell, hcell, hI⟩ hrun => ?_
    obtain ⟨v, hrun⟩ := Run.discard_eq_ok.mp hrun
    rw [Run.handleDone_sourceHandle hcell] at hrun
    cases hrun
    exact ⟨[], rfl, .nil⟩
  | onCompleted u k =>
    refine Tally.Does.idle rfl ?_
    rw [perform]
    refine withHandle_does ?_
    rw [Run.handleOnCompleted_sourceHandle]
    exact Tally.onCompleted hI hc (.aside rfl rfl)
  | result u =>
    refine Tally.Does.idle rfl ?_
    rw [perform]
    refine withHandle_does fun fly w r w' ⟨cell, hcell, hI⟩ hrun => ?_
    obtain ⟨v, hrun⟩ := Run.discard_eq_ok.mp hrun
    obtain ⟨r, w', cell', hread⟩ := exists_reads t (.ofNat u) hcell
    obtain ⟨recycled, htrail⟩ := hread.trail
    rw [Run.handleResult_sourceHandle, hread.ok] at hrun
    cases hrun
    exact ⟨[.read a (.ofNat u) v recycled], htrail, .aside rfl rfl⟩

end

/-- What is done through a handle returns when it does for the uses that have begun. -/
theorem SourceDeed.withHandle_returns {u m' : Nat} {f : Value → Run Unit} (hm : m ≤ m')
    (h : ∀ {fly w cell}, w.store[a]? = some (.completion cell) → u ≤ cell.version.toNat →
      Within cost m (Chronicle t a) fly ⟨cell, w.trail, w.loop⟩ →
      ∃ w', f (sourceHandle t a (.ofNat u)) w = .ok () w' ∧
        Holds a (Within cost m' (Chronicle t a)) fly w') :
    Returns a (Chronicle t a) cost m m' (SourceDeed.withHandle t a u f) := by
  intro fly w hw
  obtain ⟨cell, hcell, hI⟩ := hw
  rw [SourceDeed.withHandle, Run.bind_of_ok (Run.completion_eq hcell)]
  split
  · next hu =>
    obtain ⟨w', hrun, hw'⟩ := h hcell hu hI
    exact ⟨(), w', hrun, hw'⟩
  · exact ⟨(), w, rfl, Holds.within ⟨cell, hcell, hI⟩ hm⟩

/-- What is done with a source returns, within a budget. -/
theorem SourceDeed.returns (hc : Affords a (Chronicle t a) cost b c) (d : SourceDeed)
    (hm : m + d.price cost ≤ b + 1) :
    Returns a (Chronicle t a) cost m (m + d.price cost - 1) (d.perform t a c) := by
  have hI := Chronicle.stable (t := t) (a := a)
  cases d with
  | setResult v => exact (hI.finish_returns hc (Nat.le_of_succ_le_succ hm) none (some v)).discard
  | setException e => exact (hI.fail_returns hc (Nat.le_of_succ_le_succ hm) e).discard
  | task =>
    intro fly w ⟨cell, hcell, hw⟩
    exact ⟨(), w, Run.discard_eq_ok.mpr ⟨_, Run.handleOf_eq hcell⟩, cell, hcell, hw⟩
  | isCompleted u =>
    rw [perform]
    refine withHandle_returns (Nat.le_refl _) fun {fly w cell} hcell _ hw => ?_
    exact ⟨w, Run.discard_eq_ok.mpr ⟨_, Run.handleDone_sourceHandle hcell⟩, cell, hcell, hw⟩
  | onCompleted u k =>
    rw [perform]
    refine withHandle_returns (Nat.le_add_right ..) fun {fly w cell} hcell _ hw => ?_
    rw [Run.handleOnCompleted_sourceHandle]
    obtain ⟨_, w', hrun, hw'⟩ :=
      hI.onCompleted_returns hc (j := k) (Nat.le_of_succ_le_succ hm) false ⟨cell, hcell, hw⟩
    exact ⟨w', hrun, hw'⟩
  | result u =>
    rw [perform]
    refine withHandle_returns (Nat.le_refl _) fun {fly w cell} hcell hu hw => ?_
    obtain ⟨r, w', cell', hread⟩ := exists_reads t (.ofNat u) hcell
    -- reading leaves fewer continuations than there were
    have hburden : View.burden cost fly ⟨cell', w'.trail, w'.loop⟩ ≤
        View.burden cost fly ⟨cell, w.trail, w.loop⟩ := by
      rw [hread.loop]
      rcases hread.wakers with h | h <;> simp [View.burden, h]
    have hresult : Run.handleResult t (sourceHandle t a (.ofNat u)) w = .ok r w' := by
      rw [Run.handleResult_sourceHandle, hread.ok]
    exact ⟨w', Run.discard_eq_ok.mpr ⟨r, hresult⟩, cell', hread.held,
      hread.chronicle ((toNat_ofNat_of_le hu).trans_le hu) hw.1, hburden.trans hw.2⟩

/-- Continuations do not lead to one another without end: the cost of each covers what it does and the
continuations that it registers. -/
def SourceDeed.Bounded (plan : Nat → List SourceDeed) : Prop :=
  ∃ cost : Nat → Nat, ∀ k, ((plan k).map (SourceDeed.price cost)).sum < cost k

end

/-- A source as it is made, at an address. -/
structure NewSource (t : Ty) (a : Nat) (w : World) : Prop where
  cell : w.store[a]? = some (.completion { value := some t.zero })
  trail : w.trail = []

theorem NewSource.chronicle {t : Ty} {a : Nat} {w : World} (h : NewSource t a w) :
    Holds a (Chronicle t a) [] w := by
  refine ⟨_, h.cell, ?_⟩
  rw [h.trail]
  exact .init t a w.loop

/-- The uses of a source are never mixed up. Whatever is done with a new source, and whatever continuations do
with it: when a run returns and fewer than 2^32 uses have ended, then each use has had one outcome at most,
every answer of a handle was right for the use of the handle, and the next handle that is made is one of the
current use. The outcomes on the trail are the arguments that were set, one for one. Runs return when
continuations do not lead to one another without end, and a handle always answers, with what the trail tells.
A pending source takes what is set, before its continuations are resumed; a settled one refuses it. -/
theorem source_uses_never_mix (t : Ty) (plan : Nat → List SourceDeed) (ds : List SourceDeed) {a : Nat}
    {w : World} (h : NewSource t a w) :
    (∀ n w', ds.forM (SourceDeed.perform t a (SourceDeed.host t a plan n)) w = .ok () w' →
      (SourceDeed.tally a).Balances plan ds w'.trail ∧
      (uses a w'.trail < 2 ^ 32 →
        (∀ u, (outcomes a u w'.trail).length ≤ 1) ∧
        (∀ version answer recycled before, .read a version answer recycled :: before <:+ w'.trail →
          version.toNat ≤ uses a before ∧ RightAnswer t.zero a version.toNat before answer) ∧
        ∃ version, version.toNat = uses a w'.trail ∧
          Run.handleOf t a w' = .ok (sourceHandle t a version) w')) ∧
    (SourceDeed.Bounded plan → ∃ n₀, ∀ n, n₀ ≤ n →
      ∃ w', ds.forM (SourceDeed.perform t a (SourceDeed.host t a plan n)) w = .ok () w') ∧
    ∀ (v : World) (cell : Completion), v.store[a]? = some (.completion cell) →
      (∀ version, ∃ answer v' recycled, Run.handleResult t (sourceHandle t a version) v = .ok answer v' ∧
        v'.trail = .read a version answer recycled :: v.trail) ∧
      ∀ (c : Calls), let wake : Run Bool := do cell.wakers.forM (Run.resume c a); return true
        (cell.done = false →
          (∀ x, Run.complete c a (some x) v = wake (v.settle a cell none (some x))) ∧
          (∀ e, Run.fail c a (some e) v = wake (v.settle a cell (some e) none)) ∧
          Run.fail c a none v =
            wake ({ v with store := v.store.push Run.nilFailure }.settle a cell (some (Run.madeError v)) none)) ∧
        (cell.done = true →
          (∀ x, Run.complete c a (some x) v = .ok false (v.add (.offered a none (some x) false))) ∧
          (∀ e, Run.fail c a (some e) v = .ok false (v.add (.offered a (some e) none false))) ∧
          Run.fail c a none v = .ok false
            ({ v with store := v.store.push Run.nilFailure }.add
              (.offered a (some (Run.madeError v)) none false))) := by
  refine ⟨fun n w' hrun => ⟨?_, fun hlt => ?_⟩, ?_, fun v cell hcell => ⟨fun version => ?_, fun c => ?_⟩⟩
  · obtain ⟨t', ht, hbalances⟩ := Tally.hosted (fun _ => SourceDeed.upholds) (fun _ => SourceDeed.does) n ds
      h.chronicle hrun
    rw [h.trail, List.append_nil] at ht
    rwa [ht]
  · -- the chronicle of the source tells the uses apart and what was set in each
    obtain ⟨cell, hcell, hw'⟩ := Upholds.hosted (fun _ => SourceDeed.upholds) n ds h.chronicle hrun
    exact ⟨hw'.one, fun version answer recycled before hread => hw'.answers hread hlt,
      cell.version, hw'.version_toNat hlt, Run.handleOf_eq hcell⟩
  · rintro ⟨cost, hcost⟩
    exact h.chronicle.exists_hosted hcost (fun _ _ hc d _ => SourceDeed.returns hc d) ds
  · obtain ⟨answer, v', cell', hread⟩ := exists_reads t version hcell
    obtain ⟨recycled, htrail⟩ := hread.trail
    exact ⟨answer, v', recycled, by rw [Run.handleResult_sourceHandle, hread.ok], htrail⟩
  · exact ⟨fun hd => ⟨fun x => Run.finish_of_pending hcell hd none (some x),
        fun e => Run.finish_of_pending hcell hd (some e) none, Run.fail_none_of_pending hcell hd⟩,
      fun hd => ⟨fun x => Run.finish_of_done hcell hd none (some x),
        fun e => Run.finish_of_done hcell hd (some e) none, Run.fail_none_of_done hcell hd⟩⟩

/-- A source that is used twice, while a continuation and old handles read it too often. -/
theorem source_uses_never_mix_twice :
    let t : Ty := .scalar .int
    let plan : Nat → List SourceDeed
      | 0 => [.result 0, .setException none, .onCompleted 0 1]
      | _ => []
    let ds : List SourceDeed := [.task, .result 0, .onCompleted 0 0, .setResult (.int t 5), .result 0, .task,
      .isCompleted 1, .result 1, .result 1, .setResult (.int t 6)]
    let w : World := { store := #[.completion { value := some t.zero }] }
    NewSource t 0 w ∧ SourceDeed.Bounded plan ∧
      ∃ w', ds.forM (SourceDeed.perform t 0 (SourceDeed.host t 0 plan 9)) w = .ok () w' ∧
        (SourceDeed.tally 0).Balances plan ds w'.trail ∧ uses 0 w'.trail = 2 ∧
        (∀ u, (outcomes 0 u w'.trail).length ≤ 1) ∧
        ∀ version answer recycled before, .read 0 version answer recycled :: before <:+ w'.trail →
          version.toNat ≤ uses 0 before ∧ RightAnswer t.zero 0 version.toNat before answer := by
  intro t plan ds w
  have hnew : NewSource t 0 w := ⟨rfl, rfl⟩
  have hends : (ds.forM (SourceDeed.perform t 0 (SourceDeed.host t 0 plan 9))).endsIn
      (fun w' => uses 0 w'.trail == 2) w = true := by cbv
  obtain ⟨w', hw', huses⟩ := Run.exists_of_endsIn hends
  have huses : uses 0 w'.trail = 2 := by simpa using huses
  obtain ⟨hbalances, hright⟩ := (source_uses_never_mix t plan ds hnew).1 9 w' hw'
  obtain ⟨hone, hright, -⟩ := hright (by omega)
  refine ⟨hnew, ⟨fun k => if k = 0 then 5 else 1, fun k => ?_⟩, w', hw', hbalances, huses, hone, hright⟩
  cases k with
  | zero => decide
  | succ k => simp [plan]

/-! ### The pool -/

/-- The source at an address has no outcome and nothing waits for it. -/
def IsPending (t : Ty) (a : Nat) (w : World) : Prop :=
  ∃ version, w.store[a]? = some (.completion { value := some t.zero, version := version })

/-- The sources of a type that are in the pool. -/
def World.pooled (w : World) (t : Ty) : List Nat :=
  let p := (w.pools.lookup t).getD {}
  p.first.toList ++ p.rest

/-- A source is pending when it is rented, if every source in the pool is. -/
theorem rent_pending {t : Ty} {w : World} (h : ∀ a ∈ w.pooled t, IsPending t a w) :
    ∃ a w', Run.rent t w = .ok a w' ∧ IsPending t a w' := by
  have hpool : Run.pool t w = .ok ((w.pools.lookup t).getD {}) w := rfl
  simp only [World.pooled] at h
  rw [Run.rent, Run.bind_of_ok hpool]
  generalize (w.pools.lookup t).getD {} = p at h
  obtain ⟨first, rest⟩ := p
  cases first with
  | some a => exact ⟨a, _, rfl, h a (by simp)⟩
  | none =>
    cases rest with
    | cons a rest => exact ⟨a, _, rfl, h a (by simp)⟩
    | nil => exact ⟨w.store.size, _, rfl, 0, Array.getElem?_push_size⟩

/-- The source that came back last is rented first. -/
theorem rent_first {t : Ty} {a : Nat} {w : World} {p : Pool} (hp : w.pools.lookup t = some p)
    (ha : p.first = some a) :
    Run.rent t w =
      .ok a { w with pools := (t, { p with first := none }) :: w.pools.filter (·.1 != t) } := by
  have hpool : Run.pool t w = .ok p w := by
    show EStateM.Result.ok ((w.pools.lookup t).getD {}) w = _
    rw [hp]
    rfl
  obtain ⟨first, rest⟩ := p
  subst ha
  rw [Run.rent, Run.bind_of_ok hpool]
  rfl

/-- **A result that is set when the use has ended** reaches the source in the pool: it is taken, and whoever rents
the source next has it done. -/
theorem rent_of_late_result {t : Ty} {a : Nat} {w : World} {version : UInt32} {p : Pool} (c : Calls) (v : Value)
    (hcell : w.store[a]? = some (.completion { value := some t.zero, version := version }))
    (hp : w.pools.lookup t = some p) (ha : p.first = some a) :
    ∃ w₁ w₂, Run.complete c a (some v) w = .ok true w₁ ∧ Run.rent t w₁ = .ok a w₂ ∧
      w₂.store[a]? = some (.completion { done := true, value := some v, version := version }) := by
  obtain ⟨hlt, -⟩ := Array.getElem?_eq_some_iff.mp hcell
  let w₁ := w.settle a { value := some t.zero, version := version } none (some v)
  exact ⟨w₁, _, Run.finish_of_pending hcell rfl none (some v), rent_first (w := w₁) hp ha,
    Array.getElem?_setIfInBounds_self_of_lt hlt⟩

example : (do
    let t : Ty := .scalar .int
    let a ← Run.rent t
    discard (Run.complete .empty a (some (.int t 1)))
    discard (Run.handleResult t (← Run.handleOf t a))
    discard (Run.complete .empty a (some (.int t 5)))
    let b ← Run.rent t
    discard (Run.handleResult t (← Run.handleOf t b))).endsIn
      (fun w => match w.trail with
        | .read _ _ (.int _ n, none) _ :: _ => n == 5
        | _ => false) World.initial = true := by
  cbv

end Resumable
