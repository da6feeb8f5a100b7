import Resumable.Proofs.Congruence

/-!
# `Proofs.Slots`: slots that stand for one another

Two runs may keep a variable in different slots. A `Bond` says which slots of the one run stand for which
of the other, and holds of two worlds that are the same but for their slots and have equal values in the
slots that stand for one another. `Fits` says the same of two scopes: a shared variable has slots that stand
for one another. A variable that is about to be declared further in has a slot on the left that stands for
nothing yet (it is *loose*), and, once its new block is entered, one on the right that does not either (it
is *waiting*), until its first value is stored into both and the two are joined.

**Contents**
* `World.fill`: the world after a store into a slot.
* `Bond`, `Bond.Holds`, `Bond.join`: slots that stand for one another.
* `Opens`: scopes with some variables more.
* `Fits`, `Fits.enter`, `Fits.join`: scopes that go together.
* `evalVar_tracks`, `evalAssign_tracks`: reading a variable, and storing into a place.
-/

namespace Resumable

open Run

/-! ### Slots -/

namespace World

variable {w w' : World} {a b : Nat} {x : Value}

/-- The value in a slot. -/
def inSlot (w : World) (a : Nat) : Value := (w.slots.getD a ⟨0, .null .any⟩).value

/-- The world after a value was stored into a slot. -/
def fill (w : World) (a : Nat) (x : Value) : World :=
  { w with
    slots := w.slots.setIfInBounds a { w.slots.getD a ⟨0, .null .any⟩ with value := x }
    trail := .stored (w.slots.getD a ⟨0, .null .any⟩).var a x :: w.trail }

theorem fillSlot_run (a : Nat) (x : Value) (w : World) : fillSlot a x w = .ok () (w.fill a x) := rfl

@[simp] theorem size_fill : (w.fill a x).slots.size = w.slots.size := Array.size_setIfInBounds

theorem inSlot_fill_same (h : a < w.slots.size) : (w.fill a x).inSlot a = x := by
  simp [inSlot, fill, h]

theorem inSlot_fill_ne (h : a ≠ b) : (w.fill a x).inSlot b = w.inSlot b := by
  simp [inSlot, fill, Array.getElem?_setIfInBounds_ne h]

theorem Peer.slots (h : w.Peer w') (slots slots' : Array Slot) (trail trail' : List Footprint) :
    World.Peer { w with slots := slots, trail := trail } { w' with slots := slots', trail := trail' } :=
  ⟨congrArg (fun u : World => { u with slots := slots', trail := trail' }) h.rest, h.closures⟩

end World

/-- Which slots of one run stand for which of another: no slot stands for two, and the slots below two
bounds are those that were there before. -/
structure Bond where
  pairs : Nat → Nat → Prop
  left : Nat
  right : Nat
  bounded : ∀ {a a'}, pairs a a' → a < left ∧ a' < right
  injective : ∀ {a a' b b'}, pairs a a' → pairs b b' → (a = b ↔ a' = b')

namespace Bond

variable {B : Bond} {w w' : World} {a a' b b' : Nat} {x : Value}

/-- A slot on the left that stands for none. -/
structure Loose (B : Bond) (a : Nat) : Prop where
  bounded : a < B.left
  single : ∀ a', ¬ B.pairs a a'

/-- A slot on the right that none stands for. -/
structure Waits (B : Bond) (a' : Nat) : Prop where
  bounded : a' < B.right
  single : ∀ a, ¬ B.pairs a a'

/-- Two worlds with equal values in slots that stand for one another, and nothing else that differs. -/
structure Holds (B : Bond) (w w' : World) : Prop where
  peer : w.Peer w'
  left : B.left ≤ w.slots.size
  right : B.right ≤ w'.slots.size
  values : ∀ {a a'}, B.pairs a a' → w.inSlot a = w'.inSlot a'

instance : Lax B.Holds where
  peer h := h.peer
  keep h hv hs hs' := ⟨hv, hs ▸ h.left, hs' ▸ h.right, fun hp => by
    have := h.values hp
    rwa [World.inSlot, World.inSlot, ← hs, ← hs'] at this⟩

/-- Equal values may be stored into slots that stand for one another. -/
theorem Holds.fill (h : B.Holds w w') (hp : B.pairs a a') (x : Value) :
    B.Holds (w.fill a x) (w'.fill a' x) where
  peer := h.peer.slots _ _ _ _
  left := by rw [World.size_fill]; exact h.left
  right := by rw [World.size_fill]; exact h.right
  values {b b'} hb := by
    by_cases hab : a = b
    · subst hab
      rw [← (B.injective hp hb).mp rfl, World.inSlot_fill_same ((B.bounded hp).1.trans_le h.left),
        World.inSlot_fill_same ((B.bounded hp).2.trans_le h.right)]
    · have hab' : a' ≠ b' := fun heq => hab ((B.injective hp hb).mpr heq)
      rw [World.inSlot_fill_ne hab, World.inSlot_fill_ne hab']
      exact h.values hb

/-- What is stored into a slot that stands for none is not seen. -/
theorem Holds.fill_loose (h : B.Holds w w') (ha : B.Loose a) (x : Value) : B.Holds (w.fill a x) w' where
  peer := h.peer.slots _ _ _ _
  left := by rw [World.size_fill]; exact h.left
  right := h.right
  values {b b'} hb := by
    have hab : a ≠ b := fun heq => ha.single b' (heq ▸ hb)
    rw [World.inSlot_fill_ne hab]
    exact h.values hb

/-- Lets two slots stand for one another that stood for none. -/
def join (B : Bond) (a a' : Nat) (ha : B.Loose a) (ha' : B.Waits a') : Bond where
  pairs b b' := B.pairs b b' ∨ b = a ∧ b' = a'
  left := B.left
  right := B.right
  bounded h := h.elim B.bounded fun h => ⟨h.1 ▸ ha.bounded, h.2 ▸ ha'.bounded⟩
  injective {b b' d d'} hb hd := by
    obtain hb | ⟨rfl, rfl⟩ := hb <;> obtain hd | ⟨rfl, rfl⟩ := hd
    · exact B.injective hb hd
    · exact ⟨fun h => absurd (h ▸ hb) (ha.single _), fun h => absurd (h ▸ hb) (ha'.single _)⟩
    · exact ⟨fun h => absurd (h ▸ hd) (ha.single _), fun h => absurd (h ▸ hd) (ha'.single _)⟩
    · exact ⟨fun _ => rfl, fun _ => rfl⟩

variable {ha : B.Loose a} {ha' : B.Waits a'}

/-- Storing one value into both slots joins them. -/
theorem Holds.join (h : B.Holds w w') (x : Value) :
    (B.join a a' ha ha').Holds (w.fill a x) (w'.fill a' x) where
  peer := h.peer.slots _ _ _ _
  left := by rw [World.size_fill]; exact h.left
  right := by rw [World.size_fill]; exact h.right
  values {b b'} hb := by
    obtain hb | ⟨rfl, rfl⟩ := hb
    · have hab : a ≠ b := fun heq => ha.single b' (heq ▸ hb)
      have hab' : a' ≠ b' := fun heq => ha'.single b (heq ▸ hb)
      rw [World.inSlot_fill_ne hab, World.inSlot_fill_ne hab']
      exact h.values hb
    · rw [World.inSlot_fill_same (ha.bounded.trans_le h.left),
        World.inSlot_fill_same (ha'.bounded.trans_le h.right)]

theorem Holds.of_join (h : (B.join a a' ha ha').Holds w w') : B.Holds w w' :=
  ⟨h.peer, h.left, h.right, fun hp => h.values (Or.inl hp)⟩

theorem Loose.join (hb : B.Loose b) (hne : b ≠ a) : (B.join a a' ha ha').Loose b :=
  ⟨hb.bounded, fun b' h => h.elim (hb.single b') fun h => hne h.1⟩

theorem Waits.join (hb : B.Waits b) (hne : b ≠ a') : (B.join a a' ha ha').Waits b :=
  ⟨hb.bounded, fun b' h => h.elim (hb.single b') fun h => hne h.2⟩

end Bond

/-! ### Scopes -/

namespace Env

@[simp] theorem find?_bind_self (ρ : Env) (v : Var) (a : Nat) : (ρ.bind v a).find? v = some a := by
  simp [find?, bind]

theorem find?_bind_of_ne (ρ : Env) {u v : Var} (a : Nat) (h : v.id ≠ u.id) :
    (ρ.bind v a).find? u = ρ.find? u := by
  simp only [find?, bind, List.lookup_cons, beq_eq_false_iff_ne.mpr (Ne.symm h)]

end Env

/-- `ρ₁` is `ρ` with variables more, which have slots of their own with the values `val`. -/
structure Opens (ρ : Env) (vs : List Var) (val : Var → Value) (w : World) (ρ₁ : Env) (w₁ : World) :
    Prop where
  world : w₁ = { w with slots := w₁.slots }
  grows : w.slots.size ≤ w₁.slots.size
  keeps : ∀ a, a < w.slots.size → w₁.inSlot a = w.inSlot a
  caught : ρ₁.caught = ρ.caught
  new : ∀ v ∈ vs, ∃ a, ρ₁.find? v = some a ∧ w.slots.size ≤ a ∧ a < w₁.slots.size ∧ w₁.inSlot a = val v
  apart : ∀ v ∈ vs, ∀ u ∈ vs, ρ₁.find? v = ρ₁.find? u → v = u
  old : ∀ v, (∀ u ∈ vs, u.id ≠ v.id) → ρ₁.find? v = ρ.find? v

namespace Opens

variable {ρ ρ₁ ρ₂ : Env} {vs : List Var} {val : Var → Value} {w w₁ w₂ : World} {v : Var} {x : Value}

theorem nil (ρ : Env) (val : Var → Value) (w : World) : Opens ρ [] val w ρ w :=
  ⟨rfl, le_rfl, fun _ _ => rfl, rfl, by simp, by simp, fun _ _ => rfl⟩

/-- One more variable is opened. -/
theorem cons (h : Opens (ρ.bind v w.slots.size) vs val { w with slots := w.slots.push ⟨v.id, val v⟩ } ρ₁ w₁)
    (hv : ∀ u ∈ vs, u.id ≠ v.id) : Opens ρ (v :: vs) val w ρ₁ w₁ := by
  have hsize : (w.slots.push ⟨v.id, val v⟩).size = w.slots.size + 1 := Array.size_push ..
  have hlt := h.grows
  rw [hsize] at hlt
  -- the variables declared later do not hide this one
  have hfind : ρ₁.find? v = some w.slots.size := by rw [h.old v hv, Env.find?_bind_self]
  have hnew : ∀ u ∈ vs, ρ₁.find? u ≠ some w.slots.size := by
    intro u hu heq
    obtain ⟨a, ha, hle, _⟩ := h.new u hu
    rw [ha, Option.some_inj] at heq
    rw [hsize] at hle
    omega
  refine ⟨h.world, by omega, fun a ha => ?_, h.caught, fun u hu => ?_, fun u hu u' hu' heq => ?_,
    fun u hu => ?_⟩
  · rw [h.keeps a (by rw [hsize]; omega)]
    simp [World.inSlot, Array.getElem?_push_lt ha, ha]
  · obtain rfl | hu := List.mem_cons.mp hu
    · refine ⟨_, hfind, le_rfl, hlt, ?_⟩
      rw [h.keeps _ (by rw [hsize]; omega)]
      simp [World.inSlot]
    · obtain ⟨a, ha, hle, hrest⟩ := h.new u hu
      rw [hsize] at hle
      exact ⟨a, ha, by omega, hrest⟩
  · obtain rfl | hin := List.mem_cons.mp hu <;> obtain rfl | hin' := List.mem_cons.mp hu'
    · rfl
    · exact absurd (heq.symm.trans hfind) (hnew u' hin')
    · exact absurd (heq.trans hfind) (hnew u hin)
    · exact h.apart u hin u' hin' heq
  · rw [h.old u fun u' hu' => hu u' (List.mem_cons_of_mem _ hu'),
      Env.find?_bind_of_ne ρ _ (hu v List.mem_cons_self)]

theorem single (ρ : Env) (v : Var) (x : Value) (w : World) :
    Opens ρ [v] (fun _ => x) w (ρ.bind v w.slots.size) { w with slots := w.slots.push ⟨v.id, x⟩ } :=
  (nil _ _ _).cons (by simp)

theorem slot (h : Opens ρ vs val w ρ₁ w₁) (hv : v ∈ vs) {a : Nat} (ha : ρ₁.find? v = some a) :
    w.slots.size ≤ a ∧ a < w₁.slots.size ∧ w₁.inSlot a = val v := by
  obtain ⟨b, hb, hrest⟩ := h.new v hv
  obtain rfl : b = a := Option.some_inj.mp (hb.symm.trans ha)
  exact hrest

/-- Declaring variables brings them into scope with their zero values. -/
theorem declare (hvs : (vs.map Var.id).Nodup) (ρ : Env) (w : World) : ∃ ρ₁ w₁,
    vs.foldlM Run.declare ρ w = .ok ρ₁ w₁ ∧ Opens ρ vs (fun v => v.type.zero) w ρ₁ w₁ := by
  induction vs generalizing ρ w with
  | nil => exact ⟨ρ, w, rfl, nil ρ _ w⟩
  | cons v vs ih =>
    rw [List.map_cons, List.nodup_cons] at hvs
    obtain ⟨ρ₁, w₁, hrun, hopens⟩ := ih hvs.2 (ρ.bind v w.slots.size)
      { w with slots := w.slots.push ⟨v.id, v.type.zero⟩ }
    refine ⟨ρ₁, w₁, hrun, hopens.cons fun u hu heq => hvs.1 ?_⟩
    exact heq ▸ List.mem_map_of_mem hu

end Opens

/-- Two scopes that go together: the variables in `S` have slots that stand for one another, those in `L`
have loose slots of their own on the left, and those in `W` slots of their own on the right that wait. -/
structure Fits (B : Bond) (S L W : Var → Prop) (ρ ρ' : Env) : Prop where
  shared : ∀ {v}, S v → ∃ a a', ρ.find? v = some a ∧ ρ'.find? v = some a' ∧ B.pairs a a'
  loose : ∀ {v}, L v → ∃ a, ρ.find? v = some a ∧ B.Loose a
  apart : ∀ {v u}, L v → L u → ρ.find? v = ρ.find? u → v = u
  waiting : ∀ {v}, W v → ∃ a', ρ'.find? v = some a' ∧ B.Waits a'
  apart' : ∀ {v u}, W v → W u → ρ'.find? v = ρ'.find? u → v = u
  caught : ρ'.caught = ρ.caught

namespace Fits

variable {B : Bond} {S L W S' L' W' : Var → Prop} {ρ ρ' ρ₁ ρ₁' : Env} {vs vs' : List Var}
  {val : Var → Value} {w w' w₁ w₁' : World} {v : Var} {a a' : Nat}

theorem mono (h : Fits B S L W ρ ρ') (hS : ∀ v, S' v → S v) (hL : ∀ v, L' v → L v) (hW : ∀ v, W' v → W v) :
    Fits B S' L' W' ρ ρ' where
  shared hv := h.shared (hS _ hv)
  loose hv := h.loose (hL _ hv)
  apart hv hu := h.apart (hL _ hv) (hL _ hu)
  waiting hv := h.waiting (hW _ hv)
  apart' hv hu := h.apart' (hW _ hv) (hW _ hu)
  caught := h.caught

/-- The error that a handler is for is no matter of slots. -/
theorem catching (h : Fits B S L W ρ ρ') (err : Option Value) :
    Fits B S L W { ρ with caught := err } { ρ' with caught := err } :=
  ⟨h.shared, h.loose, h.apart, h.waiting, h.apart', rfl⟩

/-- A variable that waits and is loose becomes shared. -/
theorem join (h : Fits B S L W ρ ρ') (hL : L v) (hW : W v) (hv : ρ.find? v = some a)
    (hv' : ρ'.find? v = some a') (ha : B.Loose a) (ha' : B.Waits a') :
    Fits (B.join a a' ha ha') (fun u => S u ∨ u = v) (fun u => L u ∧ u ≠ v) (fun u => W u ∧ u ≠ v) ρ ρ' where
  shared {u} hu := by
    obtain hu | rfl := hu
    · obtain ⟨b, b', hb, hb', hp⟩ := h.shared hu
      exact ⟨b, b', hb, hb', Or.inl hp⟩
    · exact ⟨a, a', hv, hv', Or.inr ⟨rfl, rfl⟩⟩
  loose {u} hu := by
    obtain ⟨b, hb, hloose⟩ := h.loose hu.1
    refine ⟨b, hb, .join hloose fun heq => hu.2 (h.apart hu.1 hL ?_)⟩
    rw [hb, hv, heq]
  apart hu hu' := h.apart hu.1 hu'.1
  waiting {u} hu := by
    obtain ⟨b, hb, hwaits⟩ := h.waiting hu.1
    refine ⟨b, hb, .join hwaits fun heq => hu.2 (h.apart' hu.1 hW ?_)⟩
    rw [hb, hv', heq]
  apart' hu hu' := h.apart' hu.1 hu'.1
  caught := h.caught

/-- The slots that stand for one another once some variables more are in scope on both sides. -/
def opened (B : Bond) (hB : B.Holds w w') (hl : Opens ρ vs val w ρ₁ w₁) (hr : Opens ρ' vs' val w' ρ₁' w₁') :
    Bond where
  pairs a a' := B.pairs a a' ∨ ∃ v, v ∈ vs ∧ v ∈ vs' ∧ ρ₁.find? v = some a ∧ ρ₁'.find? v = some a'
  left := w₁.slots.size
  right := w₁'.slots.size
  bounded {a a'} h := by
    obtain h | ⟨v, hv, hv', ha, ha'⟩ := h
    · have := B.bounded h
      exact ⟨this.1.trans_le (hB.left.trans hl.grows), this.2.trans_le (hB.right.trans hr.grows)⟩
    · exact ⟨(hl.slot hv ha).2.1, (hr.slot hv' ha').2.1⟩
  injective {a a' b b'} h h' := by
    have hleft := hB.left
    have hright := hB.right
    obtain h | ⟨v, hv, hv', ha, ha'⟩ := h <;> obtain h' | ⟨u, hu, hu', hb, hb'⟩ := h'
    · exact B.injective h h'
    · have := B.bounded h
      have := hl.slot hu hb
      have := hr.slot hu' hb'
      omega
    · have := B.bounded h'
      have := hl.slot hv ha
      have := hr.slot hv' ha'
      omega
    · constructor
      · rintro rfl
        obtain rfl := hl.apart v hv u hu (ha.trans hb.symm)
        exact Option.some_inj.mp (ha'.symm.trans hb')
      · rintro rfl
        obtain rfl := hr.apart v hv' u hu' (ha'.trans hb'.symm)
        exact Option.some_inj.mp (ha.symm.trans hb)

/-- **Entering a scope on both sides.** A variable that both declare is shared; one that only the left
declares is loose, and one that only the right declares waits. -/
theorem enter (hB : B.Holds w w') (h : Fits B S L W ρ ρ') (hl : Opens ρ vs val w ρ₁ w₁)
    (hr : Opens ρ' vs' val w' ρ₁' w₁') : ∃ B₁ : Bond, B₁.Holds w₁ w₁' ∧
      (∀ u u', B₁.Holds u u' → B.Holds u u') ∧
      Fits B₁ (fun v => v ∈ vs ∧ v ∈ vs' ∨ S v ∧ ∀ u ∈ vs ++ vs', u.id ≠ v.id)
        (fun v => v ∈ vs ∧ v ∉ vs' ∨ L v ∧ ∀ u ∈ vs, u.id ≠ v.id) (fun v => v ∈ vs' ∧ v ∉ vs) ρ₁ ρ₁' := by
  have hleft := hB.left
  have hright := hB.right
  have hgrow := hl.grows
  have hgrow' := hr.grows
  refine ⟨opened B hB hl hr, ⟨?_, le_rfl, le_rfl, ?_⟩, fun u u' hu => ⟨hu.peer, ?_, ?_, fun hp => ?_⟩, ?_⟩
  · have hp := hB.peer.slots w₁.slots w₁'.slots w.trail w'.trail
    rw [hl.world, hr.world]
    exact hp
  · rintro a a' (hp | ⟨v, hv, hv', ha, ha'⟩)
    · have hlt := B.bounded hp
      rw [hl.keeps a (by omega), hr.keeps a' (by omega)]
      exact hB.values hp
    · rw [(hl.slot hv ha).2.2, (hr.slot hv' ha').2.2]
  · exact (hleft.trans hgrow).trans hu.left
  · exact (hright.trans hgrow').trans hu.right
  · exact hu.values (Or.inl hp)
  -- a new slot of one side only is in no pair: pairs are older, or both of their slots are new
  have hnew : ∀ v ∈ vs, v ∉ vs' → ∀ a, ρ₁.find? v = some a → (opened B hB hl hr).Loose a := by
    intro v hv hv' a ha
    refine ⟨(hl.slot hv ha).2.1, ?_⟩
    rintro a' (hp | ⟨u, hu, hu', hb, _⟩)
    · have := B.bounded hp
      have := hl.slot hv ha
      omega
    · exact hv' (hl.apart v hv u hu (ha.trans hb.symm) ▸ hu')
  have hnew' : ∀ v ∈ vs', v ∉ vs → ∀ a', ρ₁'.find? v = some a' → (opened B hB hl hr).Waits a' := by
    intro v hv' hv a' ha'
    refine ⟨(hr.slot hv' ha').2.1, ?_⟩
    rintro a (hp | ⟨u, hu, hu', _, hb'⟩)
    · have := B.bounded hp
      have := hr.slot hv' ha'
      omega
    · exact hv (hr.apart v hv' u hu' (ha'.trans hb'.symm) ▸ hu)
  -- an unpaired slot stays unpaired
  have hold : ∀ v, L v → (∀ u ∈ vs, u.id ≠ v.id) → ∃ a, ρ₁.find? v = some a ∧ a < w.slots.size ∧
      (opened B hB hl hr).Loose a := by
    intro v hv hvs
    obtain ⟨a, ha, hloose⟩ := h.loose hv
    have hlt := hloose.bounded
    refine ⟨a, (hl.old v hvs).trans ha, by omega, show a < w₁.slots.size by omega, ?_⟩
    rintro a' (hp | ⟨u, hu, _, hb, _⟩)
    · exact hloose.single a' hp
    · have := hl.slot hu hb
      omega
  refine ⟨?_, ?_, ?_, ?_, ?_, by rw [hl.caught, hr.caught, h.caught]⟩
  · rintro v (⟨hv, hv'⟩ | ⟨hv, hne⟩)
    · obtain ⟨a, ha, _⟩ := hl.new v hv
      obtain ⟨a', ha', _⟩ := hr.new v hv'
      exact ⟨a, a', ha, ha', Or.inr ⟨v, hv, hv', ha, ha'⟩⟩
    · obtain ⟨a, a', ha, ha', hp⟩ := h.shared hv
      refine ⟨a, a', (hl.old v fun u hu => hne u (List.mem_append_left _ hu)).trans ha,
        (hr.old v fun u hu => hne u (List.mem_append_right _ hu)).trans ha', Or.inl hp⟩
  · rintro v (⟨hv, hv'⟩ | ⟨hv, hne⟩)
    · obtain ⟨a, ha, _⟩ := hl.new v hv
      exact ⟨a, ha, hnew v hv hv' a ha⟩
    · obtain ⟨a, ha, _, hloose⟩ := hold v hv hne
      exact ⟨a, ha, hloose⟩
  · rintro v u (⟨hv, hv'⟩ | ⟨hv, hne⟩) (⟨hu, hu'⟩ | ⟨hu, hne'⟩) heq
    · -- no new name gets an old slot, nor two names one slot
      exact hl.apart v hv u hu heq
    · obtain ⟨a, ha, hlt, _⟩ := hold u hu hne'
      have := hl.slot hv (heq.trans ha)
      omega
    · obtain ⟨a, ha, hlt, _⟩ := hold v hv hne
      have := hl.slot hu (heq.symm.trans ha)
      omega
    · rw [hl.old v hne, hl.old u hne'] at heq
      exact h.apart hv hu heq
  · rintro v ⟨hv', hv⟩
    obtain ⟨a', ha', _⟩ := hr.new v hv'
    exact ⟨a', ha', hnew' v hv' hv a' ha'⟩
  · exact fun hv hu heq => hr.apart _ hv.1 _ hu.1 heq

end Fits

/-! ### Variables and places -/

section

variable {blamed : Stop → Prop} {B : Bond} {c c' : Calls} {ρ ρ' : Env} {e e' x x' t t' : Expr} {v : Var}
  {p p' : Place} {a a' i i' j j' r r' s s' : Nat} {ty ty' u u' : Ty}

/-- What is read in slots that stand for one another is the same. -/
theorem evalVar_tracks (ha : ρ.find? v = some a) (ha' : ρ'.find? v = some a') (hp : B.pairs a a') :
    Tracks blamed B.Holds (evalNode c (.node i r ty (.var v)) ρ) (evalNode c' (.node i r' ty (.var v)) ρ') := by
  intro w w' hw
  unfold evalNode
  dsimp only
  rw [ha, ha']
  exact ⟨_, w', rfl, congrArg some (hw.values hp), hw⟩

theorem readBase_agree {b b' : Base} (h : Base.Alike B.pairs b b') : Agree B.Holds (readBase b) (readBase b') := by
  cases h with
  | slot hp => exact ⟨fun w w' hw => ⟨_, w', rfl, hw.values hp, hw⟩⟩
  | object a => exact inferInstanceAs (Agree B.Holds (load a) (load a))

theorem writeBase_agree {b b' : Base} (h : Base.Alike B.pairs b b') (x : Value) :
    Agree B.Holds (writeBase b x) (writeBase b' x) := by
  cases h with
  | slot hp => exact ⟨fun w w' hw => ⟨_, _, rfl, rfl, hw.fill hp x⟩⟩
  | object a => exact inferInstanceAs (Agree B.Holds (store a x) (store a x))

theorem readPlace_agree (h : Place.Alike B.pairs p p') : Agree B.Holds (readPlace p) (readPlace p') := by
  have := readBase_agree h.base
  unfold readPlace
  rw [h.path, h.type]
  infer_instance

theorem writePlace_agree (h : Place.Alike B.pairs p p') (x : Value) :
    Agree B.Holds (writePlace p x) (writePlace p' x) := by
  unfold writePlace
  rw [h.path]
  exact (readBase_agree h.base).bind fun v => writeBase_agree h.base _

/-- Resolving the two targets leads to places that stand for one another. -/
def Resolves (blamed : Stop → Prop) (B : Bond) (c c' : Calls) (ρ ρ' : Env) (t t' : Expr) : Prop :=
  Follows (fun s => s = .exhausted ∨ blamed s) B.Holds (place c ρ t) (place c' ρ' t')
    (fun p p' w w' => Place.Alike B.pairs p p' ∧ B.Holds w w') B.Holds

theorem storeInto_agree (h : Place.Alike B.pairs p p') (u : Option Value) :
    Agree B.Holds (storeInto p u) (storeInto p' u) := by
  have := writePlace_agree h
  unfold storeInto
  split <;> infer_instance

theorem combinedWith_agree (he : Alias e e') (hx : Agree B.Holds (c.eval x ρ) (c'.eval x' ρ'))
    (op : AssignOp) (ty : Ty) :
    Agree B.Holds (combinedWith c e op x ty ρ) (combinedWith c' e' op x' ty ρ') := by
  unfold combinedWith
  simp only [he.unsupported]
  infer_instance

/-- A store follows its target and its value. -/
theorem evalAssign_tracks (he : Alias e e') (ht : Resolves blamed B c c' ρ ρ' t t')
    (hx : Agree B.Holds (c.eval x ρ) (c'.eval x' ρ')) (op : AssignOp) :
    Tracks blamed B.Holds (evalAssign c e op t x ρ) (evalAssign c' e' op t' x' ρ') := by
  unfold evalAssign
  refine Follows.bind ht fun p p' w w' hp => ?_
  obtain ⟨hp, hw⟩ := hp
  have := readPlace_agree hp
  have := storeInto_agree hp
  have := combinedWith_agree he hx op p.type
  refine Tracks.of_agree ?_ w w' hw
  unfold evalAs
  rw [hp.type]
  split <;> infer_instance

/-- A plain store into a variable in scope. -/
theorem evalNode_store (h : ρ.find? v = some a) :
    evalNode c (.node i r ty (.assign .plain (.node j s u (.var v)) x)) ρ =
      evalAs c x v.type ρ >>= fun y => some <$> storeInto ⟨.slot a, [], v.type⟩ y := by
  unfold evalNode
  dsimp only
  unfold evalAssign
  rw [place, h]
  rfl

/-- The first store into a variable that waits joins its slots. -/
theorem store_join (ha : ρ.find? v = some a) (ha' : ρ'.find? v = some a') (hloose : B.Loose a)
    (hwaits : B.Waits a') (hx : Agree B.Holds (c.eval x ρ) (c'.eval x' ρ')) :
    Follows (fun s => s = .exhausted ∨ blamed s) B.Holds
      (evalNode c (.node i r ty (.assign .plain (.node j s u (.var v)) x)) ρ)
      (evalNode c' (.node i' r' ty' (.assign .plain (.node j' s' u' (.var v)) x')) ρ')
      (fun y y' w w' => y = y' ∧ (B.join a a' hloose hwaits).Holds w w') B.Holds := by
  have hvalue : Agree B.Holds (evalAs c x v.type ρ) (evalAs c' x' v.type ρ') := by
    unfold evalAs
    infer_instance
  rw [evalNode_store ha, evalNode_store ha']
  refine hvalue.follows_bind (Or.inl rfl) fun y => ?_
  cases y with
  | none =>
    refine Follows.map (Q := fun _ _ _ _ => False) ?_ fun _ _ _ _ => False.elim
    exact Agree.follows_bind inferInstance (Or.inl rfl) fun e => Follows.throw _ fun _ _ => id
  | some y => exact fun w w' hw => ⟨some y, w'.fill a' y, rfl, rfl, hw.join y⟩

/-- A store into a loose slot is seen by nobody but for its value. -/
theorem store_loose {m : Run (Option Value)} (ha : ρ.find? v = some a) (hloose : B.Loose a)
    (hm : Follows (fun s => s = .exhausted ∨ blamed s) B.Holds (evalAs c x v.type ρ) m
      (fun y y' w w' => y = y' ∧ y.isSome = true ∧ B.Holds w w') B.Holds) :
    Tracks blamed B.Holds (evalNode c (.node i r ty (.assign .plain (.node j s u (.var v)) x)) ρ) m := by
  rw [evalNode_store ha, ← bind_pure m]
  refine Follows.bind hm fun y y' w w' hy => ?_
  obtain ⟨rfl, hsome, hw⟩ := hy
  obtain ⟨y, rfl⟩ := Option.isSome_iff_exists.mp hsome
  exact ⟨some y, w', rfl, rfl, hw.fill_loose hloose y⟩

end

end Resumable
