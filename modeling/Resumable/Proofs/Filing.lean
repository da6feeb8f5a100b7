import Mathlib
import Resumable.Report.Codec
import Resumable.Report.Pack

/-!
# `Proofs.Filing`: reports survive being stored

A report is written tersely: of a record, its machines, its states and its timings, only what is not empty is
there. What is left out has to come back from its absence, on every level. The format that documents are stored
with may be any: of it is known that it gives back the document that it was given, and that it leaves out the
fields that are empty and no others.

A layout *restores* a value when reading its document over the zero gives it back, and when it is the zero if its
document is empty; a record does so when its fields do, one after the other. A duration of zero is left out, and
a zero has a sign: what comes back is the same number, which need not be the same float.

A report is refused as soon as a record of it has another layout than the current one.

**Contents**
* `Format.OmitsEmpty`, `Format.Carries`: what is known of a format.
* `Layout.Restores`, `Field.Restores`, `Restored`, `Layout.record_restores`: values, fields and records.
* `Record.settled`, `Record.reads`, `Record.Same`: what comes back of a record.
* `decode_encode`: reading what was written.
-/

namespace Resumable

/-! ### The bytes of a string -/

namespace Bytes

theorem ofString_injective : Function.Injective ofString := by
  intro s t h
  exact String.toByteArray_inj.mp (ByteArray.ext (Array.toList_inj.mp h))

end Bytes

namespace Pack

variable {α σ : Type} {fmt : Format}

/-! ### Formats -/

namespace Format

/-- Of a record, exactly the fields that are empty are left out. -/
def OmitsEmpty (fmt : Format) : Prop := ∀ d, fmt.omits d = d.isEmpty

/-- What is written of the document is read as the same scalars, texts, lists and maps. -/
def Carries (fmt : Format) (d : Doc) : Prop := fmt.read (fmt.write d) = some d

end Format

/-! ### Scalars and lists -/

namespace Layout

/-- What was written of the first value reads as the second. -/
def Reads (fmt : Format) (c : Layout α) (v v' : α) : Prop := c.unpack c.zero (c.pack fmt true v) = some v'

/-- The second value is what comes back of the first, also where it is left out for being empty. -/
structure Restores (fmt : Format) (c : Layout α) (v v' : α) : Prop where
  absent : (c.pack fmt true v).isEmpty = true → v' = c.zero
  present : (c.pack fmt true v).isEmpty = false → c.Reads fmt v v'

/-- An integer that has less than 64 bits is not cut down. -/
theorem int?_number {n : Int} (signed : Bool) (width : Nat) (hlo : -2 ^ 63 ≤ n) (hhi : n < 2 ^ 63) :
    (Doc.number signed width n).int? = some n := by
  show some (Int.bmod n (2 ^ 64)) = some n
  rw [Int.bmod_eq_of_le (by omega) (by omega)]

theorem text_restores (s : Bytes) : text.Restores fmt s s := ⟨List.isEmpty_iff.mp, fun _ => rfl⟩

theorem word16_restores (n : UInt16) : word16.Restores fmt n n := by
  have hlt := n.toNat_lt
  refine ⟨fun h => ?_, fun _ => ?_⟩
  · exact UInt16.toNat_inj.mp (Int.ofNat_inj.mp (eq_of_beq h))
  · show (Doc.number false 2 n.toNat).int?.map UInt16.ofInt = _
    have hmod : ((n.toNat : Int) % 2 ^ 16).toNat = n.toNat := by omega
    rw [int?_number _ _ (by omega) (by omega), Option.map_some, UInt16.ofInt, hmod, UInt16.ofNat_toNat]

theorem word32_restores (n : UInt32) : word32.Restores fmt n n := by
  have hlt := n.toNat_lt
  refine ⟨fun h => ?_, fun _ => ?_⟩
  · exact UInt32.toNat_inj.mp (Int.ofNat_inj.mp (eq_of_beq h))
  · show (Doc.number false 4 n.toNat).int?.map UInt32.ofInt = _
    have hmod : ((n.toNat : Int) % 2 ^ 32).toNat = n.toNat := by omega
    rw [int?_number _ _ (by omega) (by omega), Option.map_some, UInt32.ofInt, hmod, UInt32.ofNat_toNat]

theorem int32_restores (n : Int32) : int32.Restores fmt n n := by
  have hlo := n.le_toInt
  have hhi := n.toInt_lt
  refine ⟨fun h => ?_, fun _ => ?_⟩
  · exact Int32.toInt_inj.mp (eq_of_beq h)
  · show (Doc.number true 4 n.toInt).int?.map Int32.ofInt = _
    rw [int?_number _ _ (by omega) (by omega), Option.map_some, Int32.ofInt_toInt]

theorem bool_restores (b : Bool) : bool.Restores fmt b b := ⟨(Bool.not_eq_true' b).mp, fun _ => rfl⟩

/-- Zeros of either sign are left out, and come back as the positive one. -/
def settled (x : Float) : Float := if x == 0 then 0 else x

theorem double_restores (x : Float) : double.Restores fmt x (settled x) := by
  constructor
  · intro h
    exact if_pos h
  · intro h
    have hne : ¬(x == 0) = true := Bool.eq_false_iff.mp h
    rw [settled, if_neg hne]
    rfl

/-- Elements come back one after the other, whatever wrote them. -/
theorem unpackElems_map {β : Type} {c : Layout α} {pack : β → Doc} {f : β → α} {xs : List β}
    (h : ∀ x ∈ xs, c.unpack c.zero (pack x) = some (f x)) :
    unpackElems c (xs.map pack) [] = some (xs.map f) := by
  induction xs with
  | nil => rfl
  | cons x xs ih =>
    obtain ⟨hx, hxs⟩ := List.forall_mem_cons.mp h
    show (c.unpack c.zero (pack x)).bind (fun v => (unpackElems c (xs.map pack) []).bind _) = _
    rw [hx, ih hxs]
    rfl

theorem list_restores {c : Layout α} {f : α → α} {xs : List α} (h : ∀ x ∈ xs, c.Reads fmt x (f x)) :
    (list c).Restores fmt xs (xs.map f) := by
  cases xs with
  | nil => exact ⟨fun _ => rfl, fun _ => rfl⟩
  | cons x xs =>
    refine ⟨fun hempty => ?_, fun _ => unpackElems_map h⟩
    cases hempty

end Layout

/-! ### Records -/

/-- Read over the record `s`, the field comes back as it was in `v`, or is left as it is when it was left
out. -/
structure Field.Restores (fmt : Format) (f : Field σ) (v s s' : σ) : Prop where
  absent : (f.pack fmt true v).isEmpty = true → s' = s
  present : (f.pack fmt true v).isEmpty = false → f.unpack s (f.pack fmt true v) = some s'

/-- Fields come back one after the other. -/
inductive Restored (fmt : Format) (v : σ) : List (Field σ) → σ → σ → Prop where
  | nil {s : σ} : Restored fmt v [] s s
  | cons {f : Field σ} {fs : List (Field σ)} {s s₁ s₂ : σ} :
      f.Restores fmt v s s₁ → Restored fmt v fs s₁ s₂ → Restored fmt v (f :: fs) s s₂

namespace Layout

variable {fields fs : List (Field σ)} {f : Field σ} {v s s' zero : σ}

/-- A field restores what the layout of its values does. -/
theorem field_restores {c : Layout α} {key : String} {get : σ → α} {set : σ → α → σ} {optional : Bool}
    {x : α} (hzero : get s = c.zero) (hset : set s c.zero = s) (h : c.Restores fmt (get v) x) :
    (c.field key get set optional).Restores fmt v s (set s x) := by
  constructor
  · intro hempty
    rw [h.absent hempty, hset]
  · intro hfull
    show (c.unpack (get s) _).map (set s) = _
    rw [hzero]
    exact congrArg (Option.map (set s)) (h.present hfull)

/-- A field is found by its key when no two share one. -/
theorem find?_key (hkeys : (fields.map (·.key)).Nodup) (hf : f ∈ fields) :
    fields.find? (fun g => Bytes.ofString g.key == Bytes.ofString f.key) = some f := by
  induction fields with
  | nil => cases hf
  | cons g fields ih =>
    obtain ⟨hg, hkeys⟩ := List.nodup_cons.mp hkeys
    rcases List.mem_cons.mp hf with rfl | hf
    · exact List.find?_cons_of_pos (beq_self_eq_true _)
    · rw [List.find?_cons_of_neg, ih hkeys hf]
      intro heq
      have hkey : g.key = f.key := Bytes.ofString_injective (eq_of_beq heq)
      exact hg (List.mem_map.mpr ⟨f, hf, hkey.symm⟩)

/-- An entry is read by the field that it was written of. -/
theorem unpackEntry_of_mem (hkeys : (fields.map (·.key)).Nodup) (hf : f ∈ fields) (d : Doc) :
    unpackEntry fields s (.text (Bytes.ofString f.key), d) = f.unpack s d := by
  have htext : (Doc.text (Bytes.ofString f.key)).text? = some (Bytes.ofString f.key) := rfl
  simp only [unpackEntry, htext, Option.bind_eq_bind, Option.bind_some, find?_key hkeys hf]

/-- A field is written unless it is empty. -/
theorem entries_cons (homits : fmt.OmitsEmpty) : entries (f :: fs) fmt true v =
    if (f.pack fmt true v).isEmpty then entries fs fmt true v
    else (.text (Bytes.ofString f.key), f.pack fmt true v) :: entries fs fmt true v := by
  have hf : fmt.omits (f.pack fmt true v) = (f.pack fmt true v).isEmpty := homits _
  unfold entries
  rw [List.filterMap_cons]
  dsimp only
  rw [hf]
  cases (f.pack fmt true v).isEmpty <;> rfl

/-- The fields that are there are read, by their keys, and the others stay. -/
theorem foldlM_entries (homits : fmt.OmitsEmpty) (hkeys : (fields.map (·.key)).Nodup)
    (h : Restored fmt v fs s s') (hfs : fs ⊆ fields) :
    (entries fs fmt true v).foldlM (unpackEntry fields) s = some s' := by
  induction h with
  | nil => rfl
  | @cons f fs s s₁ s₂ hf _ ih =>
    obtain ⟨hmem, hfs⟩ := List.cons_subset.mp hfs
    rw [entries_cons homits]
    cases hempty : (f.pack fmt true v).isEmpty with
    | true =>
      rw [if_pos rfl, ← hf.absent hempty]
      exact ih hfs
    | false =>
      rw [if_neg Bool.false_ne_true, List.foldlM_cons, unpackEntry_of_mem hkeys hmem, hf.present hempty]
      exact ih hfs

/-- **A record comes back field by field**, whichever of them are there. -/
theorem record_reads (homits : fmt.OmitsEmpty) (hkeys : (fields.map (·.key)).Nodup)
    (h : Restored fmt v fields zero s') : (record zero fields).Reads fmt v s' :=
  foldlM_entries homits hkeys h (List.Subset.refl fields)

/-- A record of which nothing is there is the zero. -/
theorem eq_of_entries_nil (homits : fmt.OmitsEmpty) (h : Restored fmt v fs s s')
    (hempty : entries fs fmt true v = []) : s' = s := by
  induction h with
  | nil => rfl
  | @cons f fs s s₁ s₂ hf _ ih =>
    rw [entries_cons homits] at hempty
    split at hempty
    next hf' => rw [ih hempty, hf.absent hf']
    next => cases hempty

theorem record_restores (homits : fmt.OmitsEmpty) (hkeys : (fields.map (·.key)).Nodup)
    (h : Restored fmt v fields zero s') : (record zero fields).Restores fmt v s' :=
  ⟨fun hempty => eq_of_entries_nil homits h (List.isEmpty_iff.mp hempty), fun _ => record_reads homits hkeys h⟩

end Layout

end Pack

open Pack Layout

variable {fmt : Format}

/-! ### What comes back -/

/-- The phase without the sign of a zero. -/
def Phase.settled (p : Phase) : Phase := { p with ms := Layout.settled p.ms }

def Timings.settled (t : Timings) : Timings := ⟨Layout.settled t.total, t.phases.map Phase.settled⟩

def Record.settled (r : Record) : Record := { r with timings := r.timings.settled }

theorem Phase.reads (homits : fmt.OmitsEmpty) (p : Phase) : Phase.layout.Reads fmt p p.settled :=
  record_reads homits (by decide)
    (.cons (field_restores rfl rfl (text_restores p.name))
      (.cons (field_restores rfl rfl (double_restores p.ms))
        (.cons (field_restores rfl rfl (text_restores p.note)) .nil)))

theorem Timings.restores (homits : fmt.OmitsEmpty) (t : Timings) : Timings.layout.Restores fmt t t.settled :=
  record_restores homits (by decide)
    (.cons (field_restores rfl rfl (double_restores t.total))
      (.cons (field_restores rfl rfl (list_restores fun p _ => Phase.reads homits p)) .nil))

theorem StateRecord.reads (homits : fmt.OmitsEmpty) (s : StateRecord) : StateRecord.layout.Reads fmt s s :=
  record_reads homits (by decide)
    (.cons (field_restores rfl rfl (word16_restores s.id))
      (.cons (field_restores rfl rfl (text_restores s.name))
        (.cons (field_restores rfl rfl (int32_restores s.next))
          (.cons (field_restores rfl rfl (bool_restores s.terminal)) .nil))))

/-- What is written of a record is read as the record. -/
theorem MachineRecord.reads (homits : fmt.OmitsEmpty) (m : MachineRecord) :
    MachineRecord.layout.Reads fmt m m := by
  have hstates : (list StateRecord.layout).Restores fmt m.states (m.states.map id) :=
    list_restores fun s _ => StateRecord.reads homits s
  rw [List.map_id] at hstates
  exact record_reads homits (by decide)
    (.cons (field_restores rfl rfl (text_restores m.name))
      (.cons (field_restores rfl rfl (text_restores m.kind))
        (.cons (field_restores rfl rfl (bool_restores m.fast))
          (.cons (field_restores rfl rfl hstates) .nil))))

/-- A record is read back as it was settled, by every format that omits what is empty. -/
theorem Record.reads (homits : fmt.OmitsEmpty) (r : Record) : Record.layout.Reads fmt r r.settled := by
  have hmachines : (list MachineRecord.layout).Restores fmt r.machines (r.machines.map id) :=
    list_restores fun m _ => MachineRecord.reads homits m
  rw [List.map_id] at hmachines
  exact record_reads homits (by decide)
    (.cons (field_restores rfl rfl (word16_restores r.schema))
      (.cons (field_restores rfl rfl (text_restores r.name))
        (.cons (field_restores rfl rfl (text_restores r.title))
          (.cons (field_restores rfl rfl (text_restores r.kind))
            (.cons (field_restores rfl rfl hmachines)
              (.cons (field_restores rfl rfl (text_restores r.value))
                (.cons (field_restores rfl rfl (text_restores r.err))
                  (.cons (field_restores rfl rfl (text_restores r.failure))
                    (.cons (field_restores rfl rfl (word32_restores r.steps))
                      (.cons (field_restores rfl rfl (Timings.restores homits r.timings)) .nil))))))))))

/-! ### When two records are the same -/

/-- The same number: the same float, or zero without its sign. -/
def SameNumber (x y : Float) : Prop := y = x ∨ (x == 0) = true ∧ y = 0

structure Phase.Same (p q : Phase) : Prop where
  name : q.name = p.name
  ms : SameNumber p.ms q.ms
  note : q.note = p.note

structure Timings.Same (t u : Timings) : Prop where
  total : SameNumber t.total u.total
  phases : List.Forall₂ Phase.Same t.phases u.phases

/-- The records differ in nothing but the sign of durations of zero. -/
structure Record.Same (r q : Record) : Prop where
  timings : r.timings.Same q.timings
  others : q = { r with timings := q.timings }

theorem sameNumber_settled (x : Float) : SameNumber x (Layout.settled x) := by
  unfold Layout.settled
  by_cases h : (x == 0) = true
  · rw [if_pos h]
    exact Or.inr ⟨h, rfl⟩
  · rw [if_neg h]
    exact Or.inl rfl

theorem forall₂_map {α : Type} {R : α → α → Prop} {f : α → α} (h : ∀ x, R x (f x)) (xs : List α) :
    List.Forall₂ R xs (xs.map f) :=
  List.forall₂_map_right_iff.mpr (List.forall₂_same.mpr fun x _ => h x)

theorem Phase.same_settled (p : Phase) : p.Same p.settled := ⟨rfl, sameNumber_settled p.ms, rfl⟩

theorem Timings.same_settled (t : Timings) : t.Same t.settled :=
  ⟨sameNumber_settled t.total, forall₂_map Phase.same_settled t.phases⟩

theorem Record.same_settled (r : Record) : r.Same r.settled := ⟨r.timings.same_settled, rfl⟩

/-! ### Reading a report -/

namespace Report

variable {rs : List Record}

/-- What was written of a record is not null, so it is read as a record. -/
theorem unpack_nullable_record (homits : fmt.OmitsEmpty) (r : Record) :
    (Layout.nullable Record.layout).unpack none (Record.layout.pack fmt true r) = some (some r.settled) := by
  have hread := Record.reads homits r
  exact congrArg (Option.map some) hread

/-- Reading what was written gives the records to the check of their layouts. -/
theorem decode_encode_eq (homits : fmt.OmitsEmpty) (rs : Option (List Record)) (hcarries : fmt.Carries (doc fmt rs)) :
    decode fmt (encode fmt rs) = checked ((rs.getD []).map fun r => some r.settled) := by
  have hunpack : (Layout.list (Layout.nullable Record.layout)).unpack [] (doc fmt rs) =
      some ((rs.getD []).map fun r => some r.settled) := by
    cases rs with
    | none => rfl
    | some rs => exact unpackElems_map fun r _ => unpack_nullable_record homits r
  unfold decode encode
  rw [hcarries, Option.bind_some, hunpack]

theorem checked_cons_of_eq {r : Record} {rs : List (Option Record)}
    (h : r.schema = Record.currentSchema) : checked (some r :: rs) = (r :: ·) <$> checked rs := by
  show (if _ then _ else _) = _
  rw [if_pos (beq_iff_eq.mpr h)]
  cases checked rs <;> rfl

theorem checked_cons_of_ne {r : Record} {rs : List (Option Record)}
    (h : r.schema ≠ Record.currentSchema) :
    checked (some r :: rs) = .error (.schema r.name r.schema) :=
  if_neg fun heq => h (beq_iff_eq.mp heq)

theorem checked_current (h : ∀ r ∈ rs, r.schema = Record.currentSchema) :
    checked (rs.map fun r => some r.settled) = .ok (rs.map Record.settled) := by
  induction rs with
  | nil => rfl
  | cons r rs ih =>
    obtain ⟨hr, hrs⟩ := List.forall_mem_cons.mp h
    rw [List.map_cons, checked_cons_of_eq (r := r.settled) hr, ih hrs]
    rfl

/-- The first record of another layout is named. -/
theorem checked_other (h : ∃ r ∈ rs, r.schema ≠ Record.currentSchema) :
    ∃ q ∈ rs, q.schema ≠ Record.currentSchema ∧
      checked (rs.map fun r => some r.settled) = .error (.schema q.name q.schema) := by
  induction rs with
  | nil =>
    obtain ⟨r, hr, _⟩ := h
    cases hr
  | cons r rs ih =>
    rw [List.map_cons]
    by_cases hr : r.schema = Record.currentSchema
    · obtain ⟨q, hq, hother, hrest⟩ := ih <| by
        obtain ⟨q, hq, hother⟩ := h
        rcases List.mem_cons.mp hq with rfl | hq
        · exact absurd hr hother
        · exact ⟨q, hq, hother⟩
      refine ⟨q, List.mem_cons_of_mem r hq, hother, ?_⟩
      rw [checked_cons_of_eq (r := r.settled) hr, hrest]
      rfl
    · exact ⟨r, List.mem_cons_self .., hr, checked_cons_of_ne (r := r.settled) hr⟩

/-- **Reports survive being stored** with any format that leaves out just the empty fields and gives back the
document of the report. What was written reads back as the same records when all of them have the current
layout; it is refused, for a record of another layout, when there is one. -/
theorem decode_encode (fmt : Format) (rs : Option (List Record)) (homits : fmt.OmitsEmpty)
    (hcarries : fmt.Carries (doc fmt rs)) :
    ((∀ r ∈ rs.getD [], r.schema = Record.currentSchema) →
      ∃ rs', decode fmt (encode fmt rs) = .ok rs' ∧ List.Forall₂ Record.Same (rs.getD []) rs') ∧
    ((∃ r ∈ rs.getD [], r.schema ≠ Record.currentSchema) →
      ∃ q ∈ rs.getD [], q.schema ≠ Record.currentSchema ∧
        decode fmt (encode fmt rs) = .error (.schema q.name q.schema)) := by
  rw [decode_encode_eq homits rs hcarries]
  constructor
  · intro hcurrent
    exact ⟨(rs.getD []).map Record.settled, checked_current hcurrent, forall₂_map Record.same_settled _⟩
  · exact checked_other

/-- A run of which almost everything is empty: a state `0` that no state follows, in a machine without a
name. -/
def bare (schema : UInt16) : Record :=
  { schema
    machines := [{ states := [{ next := -1, terminal := true }, {}] }]
    timings := { total := 1.5, phases := [{ note := [0x6F, 0x6B] }] } }

set_option maxRecDepth 8000 in
theorem carries_bare : messagePack.Carries (doc messagePack (some [bare 1, bare 1])) ∧
    messagePack.Carries (doc messagePack (some [bare 1, bare 2])) :=
  ⟨rfl, rfl⟩

theorem decode_encode_bare :
    (messagePack.OmitsEmpty ∧ messagePack.Carries (doc messagePack (some [bare 1, bare 1])) ∧
      ∃ rs', decode messagePack (encode messagePack (some [bare 1, bare 1])) = .ok rs' ∧
        List.Forall₂ Record.Same [bare 1, bare 1] rs') ∧
    ∃ q ∈ [bare 1, bare 2], q.schema ≠ Record.currentSchema ∧
      decode messagePack (encode messagePack (some [bare 1, bare 2])) = .error (.schema q.name q.schema) := by
  have homits : messagePack.OmitsEmpty := fun _ => rfl
  refine ⟨⟨homits, carries_bare.1, ?_⟩, ?_⟩
  · refine (decode_encode messagePack (some [bare 1, bare 1]) homits (carries_bare.1)).1 ?_
    exact List.forall_mem_cons.mpr ⟨rfl, List.forall_mem_singleton.mpr rfl⟩
  · refine (decode_encode messagePack (some [bare 1, bare 2]) homits (carries_bare.2)).2 ?_
    exact ⟨bare 2, List.mem_cons_of_mem _ (List.mem_singleton_self _), by decide⟩

end Report

end Resumable
