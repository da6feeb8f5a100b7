import Mathlib.Data.List.Rotate
import Mathlib.Data.Nat.ModEq
import Resumable.Trace.Tracer

/-!
# `Proofs.Latest`: a ring keeps the latest events

A ring is a circular buffer: a head that wraps around and a flag that it has done so stand for the whole
history of what was pushed. `Ring.Holds` reads the history off them: the `i`-th event is in slot `i` modulo
the size, as long as no later event came to the same slot. Every push keeps this, and a snapshot of such a
ring is the end of its history. A tracer numbers the events that its level admits before a ring takes them;
others may draw numbers from the same counter in between. The counter has 64 bits, so the numbers are told
apart from the draws: the draws of a run increase always, the numbers as long as the counter does not wrap
around.

**Contents**
* `Ring.Holds`, `Ring.Holds.push`, `Ring.Holds.snapshot`: a ring and its history.
* `Tracer.number`, `Tracer.deliver_eq`: the numbers to come, and what the sinks of a tracer take.
* `Emission`, `Tracer.draws`, `Tracer.Keeps`: a run of emissions, and what is true of a ring after it.
* `ring_keeps_latest`: a snapshot after any run.
-/

namespace Resumable.Trace

/-! ### A ring and its history -/

namespace Ring

variable {r : Ring} {past : List Event} {e : Event} {i : Nat}

/-- The number of events that a ring of the given size has room for. -/
def capacity (size : Int) : Nat := if size ≤ 0 then defaultSize else size.toNat

theorem capacity_pos (size : Int) : 0 < capacity size := by
  unfold capacity
  split
  · decide
  · omega

/-- The ring has been given these events, the oldest first, and still has those that no later event has
taken the place of. -/
structure Holds (r : Ring) (past : List Event) : Prop where
  head : r.head = past.length % r.slots.size
  full : r.full = true ↔ r.slots.size ≤ past.length
  slot : ∀ i < past.length, past.length ≤ i + r.slots.size → r.slots[i % r.slots.size]? = past[i]?

theorem size_empty (size : Int) : (empty size).slots.size = capacity size := by
  simp [empty, capacity]

theorem holds_empty (size : Int) : (empty size).Holds [] := by
  have hpos := size_empty size ▸ capacity_pos size
  refine ⟨(Nat.zero_mod _).symm, ?_, fun i hi => absurd hi (Nat.not_lt_zero i)⟩
  constructor
  · intro h
    cases h
  · intro h
    exact absurd h (Nat.not_le.mpr hpos)

theorem size_push (r : Ring) (e : Event) : (r.push e).slots.size = r.slots.size := by
  simp [push]

/-- The head is on its way back to the first slot exactly when another round is complete. -/
theorem succ_mod_eq_zero {n size : Nat} (hlt : n < size) : (n + 1) % size = 0 ↔ size ≤ n + 1 := by
  constructor
  · intro h
    exact Nat.le_of_dvd (Nat.succ_pos n) (Nat.dvd_of_mod_eq_zero h)
  · intro h
    rw [show size = n + 1 by omega, Nat.mod_self]

/-- Places that are less than a round apart are different. -/
theorem mod_ne_of_lt {i n size : Nat} (hlt : i < n) (hle : n < i + size) : i % size ≠ n % size := by
  intro h
  have hdvd : size ∣ n - i := (Nat.modEq_iff_dvd' hlt.le).mp h
  have := Nat.le_of_dvd (by omega) hdvd
  omega

/-- A push adds to the history. -/
theorem Holds.push (h : r.Holds past) (hpos : 0 < r.slots.size) : (r.push e).Holds (past ++ [e]) := by
  have hhead : (r.head + 1) % r.slots.size = (past.length + 1) % r.slots.size := by
    rw [h.head, Nat.mod_add_mod]
  refine ⟨?_, ?_, ?_⟩
  · rw [size_push, List.length_append]
    exact hhead
  · rw [size_push, List.length_append]
    show (r.full || (r.head + 1) % r.slots.size == 0) = true ↔ _
    rw [Bool.or_eq_true, beq_iff_eq, h.full, hhead]
    by_cases hlt : past.length < r.slots.size
    · rw [succ_mod_eq_zero hlt]
      exact ⟨fun h' => h'.elim (fun hle => Nat.le_succ_of_le hle) id, Or.inr⟩
    · exact iff_of_true (Or.inl (Nat.not_lt.mp hlt)) (by simp only [List.length_singleton]; omega)
  · intro i hi hle
    rw [size_push, List.length_append, List.length_singleton] at hle
    rw [List.length_append, List.length_singleton] at hi
    show (r.slots.setIfInBounds r.head e)[i % (r.push e).slots.size]? = _
    rw [size_push, h.head]
    -- the new event stands where the head was, and all that are still there stand elsewhere
    rcases Nat.lt_succ_iff_lt_or_eq.mp hi with hi | rfl
    · rw [Array.getElem?_setIfInBounds_ne (mod_ne_of_lt hi (by omega)).symm, h.slot i hi (by omega),
        List.getElem?_append_left hi]
    · rw [Array.getElem?_setIfInBounds_self_of_lt (Nat.mod_lt _ hpos), List.getElem?_concat_length]

/-- A snapshot is the end of the history. -/
theorem Holds.snapshot (h : r.Holds past) (hpos : 0 < r.slots.size) :
    r.snapshot = past.drop (past.length - r.slots.size) := by
  unfold Ring.snapshot
  rw [h.head]
  by_cases hfull : r.slots.size ≤ past.length
  · rw [if_pos (h.full.mpr hfull)]
    have hlt := Nat.mod_lt past.length hpos
    show List.drop _ _ ++ List.take _ _ = _
    rw [← List.rotate_eq_drop_append_take (by rw [Array.length_toList]; exact hlt.le)]
    -- slot `k` after the head is slot `k` after the last event but `size`
    refine List.ext_getElem? fun k => ?_
    by_cases hk : k < r.slots.size
    · have hmod : (k + past.length % r.slots.size) % r.slots.size =
          (past.length - r.slots.size + k) % r.slots.size := by
        rw [Nat.add_mod_mod, ← Nat.add_mod_right (past.length - r.slots.size + k)]
        congr 1
        omega
      rw [List.getElem?_rotate (by rw [Array.length_toList]; exact hk), @Array.length_toList _ r.slots, hmod,
        Array.getElem?_toList, h.slot _ (by omega) (by omega), List.getElem?_drop]
    · rw [List.getElem?_eq_none (by rw [List.length_rotate, Array.length_toList]; omega),
        List.getElem?_eq_none (by rw [List.length_drop]; omega)]
  · rw [if_neg (fun hf => hfull (h.full.mp hf)), Nat.sub_eq_zero_of_le (by omega), List.drop_zero]
    rw [Nat.mod_eq_of_lt (by omega)]
    refine List.ext_getElem? fun k => ?_
    by_cases hk : k < past.length
    · have hslot := h.slot k hk (by omega)
      rw [Nat.mod_eq_of_lt (by omega)] at hslot
      rw [List.getElem?_take_of_lt hk, Array.getElem?_toList, hslot]
    · rw [List.getElem?_eq_none (by rw [List.length_take]; omega), List.getElem?_eq_none (by omega)]

end Ring

/-! ### The numbers of a tracer -/

/-- The event with its number. -/
def Event.numbered (e : Event) (n : UInt64) : Event := { e with seq := n }

namespace Tracer

variable {t : Tracer} {e : Event} {i : Nat}

/-- The `n`-th number that the counter gives from now on. -/
def number (t : Tracer) (n : Nat) : UInt64 := t.seq + .ofNat n

/-- As long as the counter does not wrap around, its numbers count on. -/
theorem toNat_number {n : Nat} (h : t.seq.toNat + n < UInt64.size) : (t.number n).toNat = t.seq.toNat + n := by
  rw [number, UInt64.toNat_add, UInt64.toNat_ofNat_of_lt' (by omega), Nat.mod_eq_of_lt h]

/-- Later draws then get greater numbers. -/
theorem number_lt_number {m n : Nat} (hlt : m < n) (h : t.seq.toNat + n < UInt64.size) :
    t.number m < t.number n := by
  rw [UInt64.lt_iff_toNat_lt, toNat_number h, toNat_number (by omega)]
  omega

/-- What the counter gives after some draws is counted from where it was before them. -/
theorem number_of_seq_eq {t₀ : Tracer} {m : Nat} (h : t.seq = t₀.number m) (n : Nat) :
    t.number n = t₀.number (m + n) := by
  rw [number, h, number, number, UInt64.ofNat_add, UInt64.add_assoc]

/-! ### What the sinks of a tracer take -/

theorem add_one_add_ofNat (seq : UInt64) (n : Nat) : seq + 1 + .ofNat n = seq + .ofNat (n + 1) := by
  rw [Nat.add_comm n 1, UInt64.ofNat_add, UInt64.add_assoc]
  rfl

/-- Each sink takes the event with a number of its own. -/
theorem deliver_eq (e : Event) (ss : List Sink) (seq : UInt64) :
    deliver e ss seq =
      (ss.mapIdx fun i s => s.take (e.numbered (seq + .ofNat (i + 1))), seq + .ofNat ss.length) := by
  induction ss generalizing seq with
  | nil => exact Prod.ext rfl (UInt64.add_zero seq).symm
  | cons s ss ih =>
    unfold deliver
    rw [ih (seq + 1), List.mapIdx_cons, List.length_cons]
    refine Prod.ext (congrArg₂ List.cons rfl ?_) (add_one_add_ofNat seq ss.length)
    exact congrArg (fun f => List.mapIdx f ss) (funext fun i => funext fun s => by rw [add_one_add_ofNat])

theorem emit_of_not_admits (h : t.level.admits e.scope = false) : t.emit e = t := by
  unfold emit
  rw [if_neg (by simp [h])]

theorem emit_of_admits (h : t.level.admits e.scope = true) :
    t.emit e = { t with sinks := t.sinks.mapIdx fun i s => s.take (e.numbered (t.number (i + 1)))
                        seq := t.number t.sinks.length } := by
  unfold emit
  rw [if_pos h, deliver_eq]
  rfl

end Tracer

/-! ### Runs -/

/-- An event on its way to a tracer. -/
structure Emission where
  /-- How many numbers others have taken from the counter since the last one. -/
  gap : Nat := 0
  event : Event

namespace Tracer

variable {t t₀ : Tracer} {m : Emission} {ms : List Emission} {kept : List Event} {i taken : Nat} {size : Int}

/-- Takes an event, after others have taken their numbers. -/
def hear (t : Tracer) (m : Emission) : Tracer := { t with seq := t.number m.gap }.emit m.event

/-- The events that the level of a tracer admits, in the order in which they come. -/
def admitted (t : Tracer) (ms : List Emission) : List Event :=
  (ms.map (·.event)).filter (t.level.admits ·.scope)

/-- How many numbers are taken in a run of emissions: those of others, and for each event that is admitted one
by each sink. -/
def draws (t : Tracer) (ms : List Emission) : Nat :=
  (ms.map (·.gap)).sum + (t.admitted ms).length * t.sinks.length

theorem admitted_cons (m : Emission) (ms : List Emission) :
    t.admitted (m :: ms) = t.admitted [m] ++ t.admitted ms := by
  unfold admitted
  rw [← List.filter_append, ← List.map_append, List.singleton_append]

theorem draws_cons (m : Emission) (ms : List Emission) : t.draws (m :: ms) = t.draws [m] + t.draws ms := by
  unfold draws
  rw [admitted_cons, List.length_append, Nat.add_mul]
  simp only [List.map_cons, List.sum_cons, List.map_nil, List.sum_nil]
  omega

theorem admitted_of_admits (h : t.level.admits m.event.scope = true) : t.admitted [m] = [m.event] :=
  List.filter_cons_of_pos h

theorem admitted_of_not_admits (h : ¬t.level.admits m.event.scope = true) : t.admitted [m] = [] :=
  List.filter_cons_of_neg h

/-- The ring at a place among the sinks holds the events that were kept since a start, each with the number of
a later draw than those before; so many numbers have been taken altogether. -/
structure Keeps (t₀ : Tracer) (i : Nat) (size : Int) (kept : List Event) (taken : Nat) (t : Tracer) : Prop where
  level : t.level = t₀.level
  length : t.sinks.length = t₀.sinks.length
  ring : ∃ r ns, t.sinks[i]? = some (.ring r) ∧ r.slots.size = Ring.capacity size ∧
    r.Holds (List.zipWith (fun e n => e.numbered (t₀.number n)) kept ns) ∧ ns.length = kept.length ∧
    ns.Pairwise (· < ·) ∧ ∀ n ∈ ns, 0 < n ∧ n ≤ taken
  seq : t.seq = t₀.number taken

theorem keeps_start (h : t.sinks[i]? = some (.ring (.empty size))) : t.Keeps i size [] 0 t where
  level := rfl
  length := rfl
  ring := ⟨_, [], h, Ring.size_empty size, Ring.holds_empty size, rfl, .nil, fun _ hn => absurd hn List.not_mem_nil⟩
  seq := (UInt64.add_zero t.seq).symm

/-- Numbers that others take do not touch the ring. -/
theorem Keeps.skip (h : Keeps t₀ i size kept taken t) (gap : Nat) :
    Keeps t₀ i size kept (taken + gap) { t with seq := t.number gap } := by
  obtain ⟨r, ns, hr, hsize, hholds, hlen, hlt, hn⟩ := h.ring
  refine ⟨h.level, h.length, ⟨r, ns, hr, hsize, hholds, hlen, hlt, ?_⟩, number_of_seq_eq h.seq gap⟩
  intro n hmem
  exact ⟨(hn n hmem).1, Nat.le_add_right_of_le (hn n hmem).2⟩

/-- An event that is admitted is pushed with the ring's own of the numbers that the sinks draw. -/
theorem Keeps.emit (h : Keeps t₀ i size kept taken t) {e : Event} (he : t.level.admits e.scope = true) :
    Keeps t₀ i size (kept ++ [e]) (taken + t₀.sinks.length) (t.emit e) := by
  obtain ⟨r, ns, hr, hsize, hholds, hlen, hlt, hn⟩ := h.ring
  have hi : i < t₀.sinks.length := h.length ▸ (List.getElem?_eq_some_iff.mp hr).1
  rw [emit_of_admits he]
  refine ⟨h.level, ?_, ⟨r.push (e.numbered (t₀.number (taken + (i + 1)))), ns ++ [taken + (i + 1)],
    ?_, ?_, ?_, ?_, ?_, ?_⟩, ?_⟩
  · rw [List.length_mapIdx, h.length]
  · show (t.sinks.mapIdx _)[i]? = _
    rw [List.getElem?_mapIdx, hr, number_of_seq_eq h.seq]
    rfl
  · rw [Ring.size_push, hsize]
  · rw [List.zipWith_append hlen.symm]
    exact hholds.push (hsize ▸ Ring.capacity_pos size)
  · rw [List.length_append, List.length_append, hlen]
    rfl
  · rw [List.pairwise_append]
    refine ⟨hlt, List.pairwise_singleton _ _, ?_⟩
    intro n hmem n' hmem'
    rw [List.mem_singleton.mp hmem']
    have := (hn n hmem).2
    omega
  · intro n hmem
    rcases List.mem_append.mp hmem with hmem | hmem
    · exact ⟨(hn n hmem).1, Nat.le_add_right_of_le (hn n hmem).2⟩
    · rw [List.mem_singleton.mp hmem]
      omega
  · show t.number t.sinks.length = _
    rw [number_of_seq_eq h.seq, h.length]

/-- One emission keeps the event if the level admits it. -/
theorem Keeps.hear (h : Keeps t₀ i size kept taken t) (m : Emission) :
    Keeps t₀ i size (kept ++ t₀.admitted [m]) (taken + t₀.draws [m]) (t.hear m) := by
  have hskip := h.skip m.gap
  unfold Tracer.hear draws
  simp only [List.map_cons, List.map_nil, List.sum_singleton]
  rw [← Nat.add_assoc]
  by_cases hadmits : t₀.level.admits m.event.scope = true
  · rw [admitted_of_admits hadmits, List.length_singleton, Nat.one_mul]
    exact hskip.emit (h.level ▸ hadmits)
  · rw [admitted_of_not_admits hadmits, List.append_nil, List.length_nil, Nat.zero_mul, Nat.add_zero,
      emit_of_not_admits (by rw [hskip.level]; simpa using hadmits)]
    exact hskip

/-- So does a run of them. -/
theorem Keeps.run (h : Keeps t₀ i size kept taken t) (ms : List Emission) :
    Keeps t₀ i size (kept ++ t₀.admitted ms) (taken + t₀.draws ms) (ms.foldl Tracer.hear t) := by
  induction ms generalizing kept taken t with
  | nil => simpa [admitted, draws] using h
  | cons m ms ih =>
    have hrun := ih (h.hear m)
    rwa [List.append_assoc, ← admitted_cons, Nat.add_assoc, ← draws_cons] at hrun

end Tracer

/-- The numbers of the draws stand at the events that carry them. -/
theorem map_seq_zipWith_numbered {es : List Event} {ns : List Nat} (f : Nat → UInt64)
    (h : ns.length = es.length) :
    (List.zipWith (fun e n => e.numbered (f n)) es ns).map (·.seq) = ns.map f := by
  induction ns generalizing es with
  | nil => rw [List.eq_nil_of_length_eq_zero h.symm, List.zipWith_nil_right, List.map_nil, List.map_nil]
  | cons n ns ih =>
    obtain _ | ⟨e, es⟩ := es
    · cases h
    · exact congrArg (f n :: ·) (ih (Nat.succ.inj h))

/-- **A ring keeps the latest events.** After any run of emissions, a snapshot of a ring that was empty in the
beginning shows the latest events that the level of the tracer admits, as many as the ring has room for, the
oldest first. They are as they were emitted, each with the number of a later draw from the counter than those
before; so the numbers increase as long as the draws do not take the counter around its 64 bits. -/
theorem ring_keeps_latest (t : Tracer) (i : Nat) (size : Int) (ms : List Emission)
    (h : t.sinks[i]? = some (.ring (.empty size))) :
    ∃ r ns, (ms.foldl Tracer.hear t).sinks[i]? = some (.ring r) ∧
      r.snapshot.length = min (Ring.capacity size) (t.admitted ms).length ∧
      r.snapshot = List.zipWith (fun e n => e.numbered (t.number n))
        ((t.admitted ms).drop ((t.admitted ms).length - Ring.capacity size)) ns ∧
      ns.length = r.snapshot.length ∧ ns.Pairwise (· < ·) ∧ (∀ n ∈ ns, 0 < n ∧ n ≤ t.draws ms) ∧
      (t.seq.toNat + t.draws ms < UInt64.size →
        (t.seq :: r.snapshot.map (·.seq)).Pairwise (· < ·)) := by
  obtain ⟨r, ns, hr, hsize, hholds, hlen, hlt, hn⟩ := ((Tracer.keeps_start h).run ms).ring
  rw [List.nil_append] at hholds hlen
  rw [Nat.zero_add] at hn
  have hsnap := hholds.snapshot (hsize ▸ Ring.capacity_pos size)
  rw [List.length_zipWith, hlen, min_self, hsize, List.drop_zipWith] at hsnap
  have hcount : r.snapshot.length = min (Ring.capacity size) (t.admitted ms).length := by
    rw [hsnap, List.length_zipWith, List.length_drop, List.length_drop, hlen, min_self]
    omega
  have hsub := List.drop_sublist ((t.admitted ms).length - Ring.capacity size) ns
  have hdrawn (n : Nat) (hmem : n ∈ ns.drop ((t.admitted ms).length - Ring.capacity size)) :
      0 < n ∧ n ≤ t.draws ms := hn n (hsub.subset hmem)
  refine ⟨r, _, hr, hcount, hsnap, ?_, hlt.sublist hsub, hdrawn, ?_⟩
  · rw [hcount, List.length_drop, hlen]
    omega
  · intro hfits
    rw [hsnap, map_seq_zipWith_numbered t.number (by rw [List.length_drop, List.length_drop, hlen])]
    refine List.pairwise_cons.mpr ⟨?_, ?_⟩
    · intro s hs
      obtain ⟨n, hmem, rfl⟩ := List.mem_map.mp hs
      have := hdrawn n hmem
      rw [UInt64.lt_iff_toNat_lt, Tracer.toNat_number (by omega)]
      omega
    · refine List.pairwise_map.mpr ((hlt.sublist hsub).imp_of_mem ?_)
      intro m n _ hmem hmn
      exact Tracer.number_lt_number hmn (by have := hdrawn n hmem; omega)

/-- A ring for two events, behind a stream, at a counter that is twenty numbers before its end. Of four events
the level refuses the third, and somebody else takes five numbers before the last. -/
theorem ring_keeps_latest_two :
    ∃ r ns, ([⟨0, { kind := .point, scope := .pass, name := "a" }⟩,
          ⟨0, { kind := .point, scope := .lambda, name := "b" }⟩,
          ⟨0, { kind := .point, scope := .state, name := "c" }⟩,
          ⟨5, { kind := .point, scope := .batch, name := "d" }⟩].foldl Tracer.hear
        { level := .detail, sinks := [.stream .text [], .ring (.empty 2)], seq := 18446744073709551596 }).sinks[1]? =
          some (.ring r) ∧
      r.snapshot = List.zipWith (fun e n => Event.numbered e (18446744073709551596 + .ofNat n))
        [{ kind := .point, scope := .lambda, name := "b" }, { kind := .point, scope := .batch, name := "d" }] ns ∧
      ns.length = 2 ∧ ns.Pairwise (· < ·) ∧
      (18446744073709551596 :: r.snapshot.map (·.seq)).Pairwise (· < ·) := by
  obtain ⟨r, ns, hr, hcount, hsnap, hlen, hlt, -, hnumbers⟩ :=
    ring_keeps_latest { level := .detail, sinks := [.stream .text [], .ring (.empty 2)], seq := 18446744073709551596 } 1 2
      [⟨0, { kind := .point, scope := .pass, name := "a" }⟩,
        ⟨0, { kind := .point, scope := .lambda, name := "b" }⟩,
        ⟨0, { kind := .point, scope := .state, name := "c" }⟩,
        ⟨5, { kind := .point, scope := .batch, name := "d" }⟩] rfl
  exact ⟨r, ns, hr, hsnap, hlen.trans (hcount.trans rfl), hlt, hnumbers (by decide)⟩

/-- At the end of its 64 bits the counter starts again. -/
example : (⟨.phase, [], 18446744073709551614, 0⟩ : Tracer).number 2 = 0 := by decide

end Resumable.Trace
