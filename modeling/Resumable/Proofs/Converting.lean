import Resumable.Run.Convert

/-!
# `Proofs.Converting`: conversion gives the very type that is asked for and looks through boxes

Values pass through places of interface type wherever machines park them. What goes into such a place is a
box around the value; what comes out has to be what a conversion without the detour had given. The key is that
a value and its content convert alike (`convertTo_content`), to every type and with the same faults.

**Contents**
* `Ty.implements_trans`: interfaces that are implemented by way of others.
* `Ty.Lone`, `Ty.Lone.eq_of_assignableTo`, `Ty.Lone.eq_of_convertibleTo`: types that only one kind of value is of.
* `Value.typeOf_widen`, `Value.typeOf_recast`, `Ty.typeOf_zero`: what conversions result in.
* `Value.Plain`, `Value.Sound`: values outside boxes, and boxes that hold what their type asks for.
* `convertTo_typeOf`, `convertTo_returns`, `convertPlain_sound`: what a conversion returns.
* `convertTo_content`, `convertTo_implements`: boxes do not matter.
* `convertTo_exact`: all of it together.
-/

namespace Resumable

namespace Ty

variable {s t i : Ty}

/-! ### What stands behind a name -/

/-- Behind a name stands the name itself, a scalar, a slice or a function. -/
theorem underlying_cases (t : Ty) : t.underlying = t ∨ (∃ s, t.underlying = .scalar s) ∨
    (∃ e, t.underlying = .slice e) ∨ ∃ ins v outs, t.underlying = .func ins v outs := by
  cases t with
  | named n =>
    cases n with
    | myInt | myStr | timerId | code | nodeId | exprKind => exact .inr (.inl ⟨_, rfl⟩)
    | sliceErr => exact .inr (.inr (.inl ⟨_, rfl⟩))
    | gen => exact .inr (.inr (.inr ⟨_, _, _, rfl⟩))
    | _ => exact .inl rfl
  | applied g args =>
    show (g.underlying? args).getD _ = _ ∨ (∃ s, (g.underlying? args).getD _ = _) ∨
      (∃ e, (g.underlying? args).getD _ = _) ∨ ∃ ins v outs, (g.underlying? args).getD _ = _
    unfold Generic.underlying?
    split
    · exact .inr (.inr (.inr ⟨_, _, _, rfl⟩))
    · exact .inr (.inr (.inr ⟨_, _, _, rfl⟩))
    · exact .inl rfl
  | _ => exact .inl rfl

/-- Only a type that is written as a pointer stands for a pointer. -/
theorem eq_of_underlying_eq_pointer (h : t.underlying = .pointer s) : t = .pointer s := by
  obtain heq | ⟨_, heq⟩ | ⟨_, heq⟩ | ⟨_, _, _, heq⟩ := underlying_cases t <;> rw [heq] at h
  · exact h
  all_goals cases h

/-- Only a declared name stands for itself. -/
theorem eq_of_underlying_eq_named {n : TypeName} (h : t.underlying = .named n) : t = .named n := by
  obtain heq | ⟨_, heq⟩ | ⟨_, heq⟩ | ⟨_, _, _, heq⟩ := underlying_cases t <;> rw [heq] at h
  · exact h
  all_goals cases h

/-- Only interfaces and the structs of one list share a layout. -/
theorem layout_cases (t : Ty) : t.layout = t ∨ (∃ ms, t.layout = .interface "" ms) ∨
    (∃ args, t.layout = .applied .task args) ∨ t.layout = .named .valueFuture := by
  unfold layout
  split
  · exact .inr (.inl ⟨_, rfl⟩)
  · rename_i n
    cases n.interface? with
    | some ms => exact .inr (.inl ⟨ms, rfl⟩)
    | none => exact .inl rfl
  · exact .inr (.inl ⟨_, rfl⟩)
  · exact .inr (.inr (.inl ⟨_, rfl⟩))
  · exact .inr (.inr (.inr rfl))
  · exact .inl rfl

/-! ### Interfaces -/

/-- An interface is the one without methods, or it is declared. -/
theorem isInterface_cases (h : i.isInterface = true) : i = .any ∨ (∃ n l, i = .named n ∧ n.interface? = some l) ∨
    ∃ name l, i = .interface name l := by
  unfold isInterface kind at h
  obtain heq | ⟨s, heq⟩ | ⟨_, heq⟩ | ⟨_, _, _, heq⟩ := underlying_cases i <;> rw [heq] at h
  · cases i with
    | any => exact .inl rfl
    | interface name l => exact .inr (.inr ⟨name, l, rfl⟩)
    | named n =>
      cases hl : n.interface? with
      | some l => exact .inr (.inl ⟨n, l, rfl, hl⟩)
      | none => simp [hl] at h
    | scalar s => cases s <;> cases h
    | _ => cases h
  · cases s <;> cases h
  · cases h
  · cases h

theorem not_isVoid_of_isInterface (h : i.isInterface = true) : i.isVoid = false := by
  obtain rfl | ⟨n, l, rfl, hl⟩ | ⟨name, l, rfl⟩ := isInterface_cases h
  · rfl
  · by_cases hn : n = .void
    · subst hn
      cases hl
    · exact beq_eq_false_iff_ne.mpr fun heq => hn (Ty.named.inj heq)
  · exact beq_eq_false_iff_ne.mpr nofun

/-- An interface has the methods that it asks for, and no others. -/
theorem methods_of_isInterface (h : i.isInterface = true) : i.methods = i.required := by
  obtain rfl | ⟨n, l, rfl, hl⟩ | ⟨name, l, rfl⟩ := isInterface_cases h
  · rfl
  · unfold methods required
    simp only [hl, Option.getD_some]
  · rfl

theorem isInterface_of_implements (h : s.implements i = true) : i.isInterface = true :=
  (Bool.and_eq_true_iff.mp h).1

theorem method_of_implements (h : s.implements i = true) {q : MethodDecl} (hmem : q ∈ i.required) :
    s.method? q.1 = some q.2 :=
  eq_of_beq (List.all_eq_true.mp (Bool.and_eq_true_iff.mp h).2 q hmem)

/-- What implements an interface implements those that the interface implements. -/
theorem implements_trans (hs : s.implements t = true) (ht : t.implements i = true) : s.implements i = true := by
  refine Bool.and_eq_true_iff.mpr ⟨isInterface_of_implements ht, List.all_eq_true.mpr fun q hmem => ?_⟩
  -- the method stands in the list of the interface between
  have hbetween : q ∈ t.required := by
    have hmethod := method_of_implements ht hmem
    unfold method? at hmethod
    rw [methods_of_isInterface (isInterface_of_implements hs)] at hmethod
    obtain ⟨p, hfind, hsig⟩ := Option.map_eq_some_iff.mp hmethod
    have hname : p.1 = q.1 := by simpa using List.find?_some hfind
    rw [show q = p from Prod.ext hname.symm hsig.symm]
    exact List.mem_of_find?_eq_some hfind
  show (s.method? q.1 == some q.2) = true
  rw [method_of_implements hs hbetween, beq_self_eq_true]

/-- Interfaces of clients may ask for some of the same methods. -/
example :
    let failing := Ty.interface "Failing" [method "Err" [] [.error], method "Fail" [.error] [.bool]]
    let awaited := Ty.interface "Awaited" [method "Err" [] [.error], method "IsCompleted" [] [.bool]]
    (Ty.implements .future failing && Ty.implements .future awaited && !Ty.implements failing awaited) = true := by
  decide

theorem assignableTo_of_implements (h : s.implements i = true) : s.assignableTo i = true := by
  unfold assignableTo
  rw [h, Bool.or_true, Bool.true_or]

/-- What may be stored as it is in a place of interface type implements the interface. -/
theorem implements_of_assignableTo (hi : i.isInterface = true) (hs : s.isInterface = false)
    (h : s.assignableTo i = true) : s.implements i = true := by
  have hkind : (s.kind == i.kind) = false := by
    rw [beq_eq_false_iff_ne]
    intro heq
    unfold isInterface at hi hs
    rw [heq, hi] at hs
    cases hs
  have hne : (s == i) = false := by
    rw [beq_eq_false_iff_ne]
    rintro rfl
    rw [hi] at hs
    cases hs
  unfold assignableTo at h
  rwa [hkind, hne, Bool.false_or, Bool.and_false, Bool.false_and, Bool.or_false] at h

/-! ### Types of which there is one kind of value -/

/-- A struct that stands for itself and is like no other one. -/
structure Lone (n : TypeName) : Prop where
  self : n.underlying? = none
  concrete : n.interface? = none
  nonempty : n.isEmptyStruct = false
  unlike : ∀ m : TypeName, m.fields.map (·.name) = n.fields.map (·.name) → n.fields = [] ∨ m = n
  unshared : n ≠ .valueFuture

theorem lone_typeRep : Lone .typeRep := ⟨rfl, rfl, rfl, fun _ _ => .inl rfl, nofun⟩

theorem lone_evalError : Lone .evalError := by
  refine ⟨rfl, rfl, rfl, fun m h => ?_, nofun⟩
  cases m with
  | evalError => exact .inr rfl
  | _ => simp [TypeName.fields, TypeName.openField, TypeName.hiddenField] at h

/-- No other type has the fields of such a struct. -/
theorem Lone.eq_of_sameUnderlying {n : TypeName} (hn : Lone n) (h : sameUnderlying (.named n) t = true) :
    t = .named n := by
  refine Decidable.byContradiction fun hne => ?_
  have hself : (Ty.named n).underlying = .named n := by
    show n.underlying?.getD _ = _
    rw [hn.self]
    rfl
  unfold sameUnderlying at h
  rw [if_neg (by simpa using Ne.symm hne), hself] at h
  split at h
  · rename_i k l hk hl
    cases hk
    obtain rfl := eq_of_underlying_eq_named hl
    simp only [hn.nonempty, Bool.false_and, Bool.false_or, Bool.and_eq_true, Bool.not_eq_true',
      List.isEmpty_eq_false_iff] at h
    obtain ⟨⟨⟨-, hfields⟩, heq⟩, -⟩ := h
    have hnames := congrArg (List.map Prod.fst) (eq_of_beq heq)
    rw [List.map_map, List.map_map] at hnames
    obtain hnil | rfl := hn.unlike l hnames.symm
    · exact hfields hnil
    · exact hne rfl
  · rename_i k hk _
    cases hk
    rw [hn.nonempty] at h
    cases h
  · rename_i hk _
    cases hk
  · have hown : (Ty.named n).layout = .named n := by
      show (n.interface?.map _).getD _ = _
      rw [hn.concrete]
      rfl
    -- neither side is declared over another type, so the layouts decide
    have hlayout : t.underlying.layout = .named n := (hown ▸ eq_of_beq h).symm
    obtain heq | ⟨_, heq⟩ | ⟨_, heq⟩ | heq := layout_cases t.underlying
    · exact hne (eq_of_underlying_eq_named (heq.symm.trans hlayout))
    · cases heq.symm.trans hlayout
    · cases heq.symm.trans hlayout
    · exact hn.unshared (Ty.named.inj (heq.symm.trans hlayout)).symm

/-- A pointer type stands for itself only. -/
theorem eq_of_sameUnderlying_pointer (h : sameUnderlying (.pointer s) t = true) : t = .pointer s := by
  refine Decidable.byContradiction fun hne => ?_
  unfold sameUnderlying at h
  rw [if_neg (by simpa using Ne.symm hne)] at h
  split at h
  · rename_i hs _
    cases hs
  · rename_i hs _
    cases hs
  · rename_i hs _
    cases hs
  · have hlayout : t.underlying.layout = .pointer s := (eq_of_beq h).symm
    obtain heq | ⟨_, heq⟩ | ⟨_, heq⟩ | heq := layout_cases t.underlying
    · exact hne (eq_of_underlying_eq_pointer (heq.symm.trans hlayout))
    · cases heq.symm.trans hlayout
    · cases heq.symm.trans hlayout
    · cases heq.symm.trans hlayout

theorem not_channelAssignable_pointer : ¬ channelAssignable (.pointer s) t = true := by
  simp [channelAssignable, underlying]

/-- A pointer to such a struct is stored as it is in places of its own type only, interfaces apart. -/
theorem Lone.eq_of_assignableTo {n : TypeName} (ht : t.isInterface = false)
    (h : (Ty.pointer (.named n)).assignableTo t = true) : t = .pointer (.named n) := by
  unfold assignableTo at h
  simp only [Bool.or_eq_true, Bool.and_eq_true] at h
  obtain (heq | himp) | ⟨-, hchan | hsame⟩ := h
  · exact (eq_of_beq heq).symm
  · rw [isInterface_of_implements himp] at ht
    cases ht
  · exact (not_channelAssignable_pointer hchan).elim
  · exact eq_of_sameUnderlying_pointer hsame

/-- And nothing else is made of it. -/
theorem Lone.eq_of_convertibleTo {n : TypeName} (hn : Lone n) (ht : t.isInterface = false)
    (h : (Ty.pointer (.named n)).convertibleTo t = true) : t = .pointer (.named n) := by
  unfold convertibleTo at h
  simp only [Bool.or_eq_true, Bool.and_eq_true] at h
  obtain (((((((((⟨hs | hs, -⟩ | ⟨hs, -⟩) | ⟨hs, -⟩) | ⟨hs, -⟩) | ⟨hs, -⟩) | harray) | hchan) | hsame) | hinner) |
    himp) := h
  -- a pointer is no number, no text and no slice
  iterate 6 cases hs
  · split at harray
    · rename_i hs _
      cases hs
    · rename_i hs _
      cases hs
    · cases harray
  · exact (not_channelAssignable_pointer hchan).elim
  · exact eq_of_sameUnderlying_pointer hsame
  · split at hinner
    · rename_i a b ha
      cases ha
      rw [hn.eq_of_sameUnderlying hinner]
    · cases hinner
  · rw [isInterface_of_implements himp] at ht
    cases ht

/-! ### Zeros -/

theorem typeOf_zero (t : Ty) : t.zero.typeOf = t := by
  unfold zero zeroAt
  split
  all_goals first | rfl | split <;> rfl

end Ty

namespace Value

variable {v x : Value} {t i : Ty}

/-! ### What conversions result in -/

/-- A value under another type is of that type, unless there is one kind of value of its type only. -/
theorem typeOf_retype (h : ∀ n, Ty.Lone n → v.typeOf = .pointer (.named n) → t = .pointer (.named n)) :
    (v.retype t).typeOf = t := by
  cases v with
  | type u => exact (h _ Ty.lone_typeRep rfl).symm
  | refusal r => exact (h _ Ty.lone_evalError rfl).symm
  | _ => rfl

theorem typeOf_widen (h : v.typeOf.assignableTo t = true) : (v.widen t).typeOf = t := by
  unfold widen
  by_cases ht : t.isInterface = true
  · rw [if_pos ht]
    rfl
  · rw [if_neg ht]
    apply typeOf_retype
    intro n _ hs
    exact Ty.Lone.eq_of_assignableTo (Bool.eq_false_iff.mpr ht) (hs ▸ h)

theorem typeOf_explode (t : Ty) (s : Bytes) : (explode t s).typeOf = t := by
  unfold explode
  split <;> rfl

/-- A value that is converted is of the target type. -/
theorem typeOf_recast (ht : t.isInterface = false) (h : v.typeOf.convertibleTo t = true) :
    (v.recast t).typeOf = t := by
  have hretype : (v.retype t).typeOf = t := by
    apply typeOf_retype
    intro n hn hs
    exact hn.eq_of_convertibleTo ht (hs ▸ h)
  unfold recast
  split
  · split
    · rfl
    · split
      · rfl
      · split
        · rfl
        · exact hretype
  · split <;> rfl
  · rfl
  · split
    · rfl
    · exact typeOf_explode t _
  · split
    · rfl
    · exact hretype
  · split
    · rfl
    · exact hretype
  · exact hretype

/-! ### Values there can be -/

/-- A value outside a box. -/
structure Plain (v : Value) : Prop where
  bare : ∀ t c, v ≠ .box t c
  concrete : v.typeOf.isInterface = false

/-- A value there can be: a box is of an interface type, and what it holds is a value outside a box that
implements the interface. -/
inductive Sound : Value → Prop where
  | plain {v : Value} (h : v.Plain) : Sound v
  | empty {t : Ty} (h : t.isInterface = true) : Sound (.box t none)
  | filled {t : Ty} {x : Value} (hx : x.Plain) (h : x.typeOf.implements t = true) : Sound (.box t (some x))

theorem Plain.content_eq (h : v.Plain) : v.content = some v := by
  cases v with
  | box t c => exact absurd rfl (h.bare t c)
  | _ => rfl

theorem Plain.typeOf_ne (h : v.Plain) (hi : i.isInterface = true) : (v.typeOf == i) = false := by
  rw [beq_eq_false_iff_ne]
  rintro rfl
  rw [h.concrete] at hi
  cases hi

/-- What a value implements may hold its content. -/
theorem Sound.boxed (h : v.Sound) (hi : v.typeOf.implements i = true) : Sound (.box i v.content) := by
  cases h with
  | plain h =>
    rw [h.content_eq]
    exact .filled h hi
  | empty _ => exact .empty (Ty.isInterface_of_implements hi)
  | filled hx h => exact .filled hx (Ty.implements_trans h hi)

theorem zero_of_isInterface (h : t.isInterface = true) : t.zero = .box t none := by
  have hkind : t.kind = .interface := eq_of_beq h
  unfold Ty.zero Ty.zeroAt
  rw [hkind]

/-- Only the zero of an interface is a box. -/
theorem bare_zero (h : t.isInterface = false) (u : Ty) (c : Option Value) : t.zero ≠ .box u c := by
  have hkind : t.kind ≠ .interface := fun heq => by
    unfold Ty.isInterface at h
    rw [heq] at h
    cases h
  unfold Ty.zero Ty.zeroAt
  split
  all_goals first
    | exact absurd ‹_› hkind
    | exact fun h => by cases h
    | split <;> exact fun h => by cases h

theorem sound_zero (t : Ty) : t.zero.Sound := by
  by_cases ht : t.isInterface = true
  · rw [zero_of_isInterface ht]
    exact .empty ht
  · rw [Bool.not_eq_true] at ht
    exact .plain ⟨bare_zero ht, by rwa [Ty.typeOf_zero]⟩

theorem Plain.bare_retype (h : v.Plain) (u : Ty) (c : Option Value) : v.retype t ≠ .box u c := by
  cases v with
  | box s c => exact absurd rfl (h.bare s c)
  | _ => exact fun h => by cases h

theorem Plain.bare_recast (h : v.Plain) (u : Ty) (c : Option Value) : v.recast t ≠ .box u c := by
  have hretype := h.bare_retype (t := t) u c
  unfold recast explode
  repeat' split
  all_goals first
    | exact hretype
    | exact fun h => by cases h

/-- A value stays sound in a place that takes it. -/
theorem Plain.sound_widen (h : v.Plain) (ha : v.typeOf.assignableTo t = true) : (v.widen t).Sound := by
  by_cases ht : t.isInterface = true
  · unfold widen
    rw [if_pos ht, h.content_eq]
    exact .filled h (Ty.implements_of_assignableTo ht h.concrete ha)
  · refine .plain ⟨fun u c => ?_, ?_⟩
    · unfold widen
      rw [if_neg ht]
      exact h.bare_retype u c
    · rw [typeOf_widen ha]
      exact Bool.eq_false_iff.mpr ht

theorem Plain.sound_recast (h : v.Plain) (ht : t.isInterface = false) (hc : v.typeOf.convertibleTo t = true) :
    (v.recast t).Sound :=
  .plain ⟨h.bare_recast, by rw [typeOf_recast ht hc]; exact ht⟩

end Value

/-! ### Conversion -/

namespace Run

variable {v x r : Value} {t i : Ty} {w w' : World}

/-- A value of the type it is given stays what it is. -/
theorem convertTo_typeOf {u : Value} (hu : u.typeOf = t) (ht : t.isVoid = false) (w : World) :
    convertTo (some u) t w = .ok (some u) w := by
  unfold convertTo
  rw [if_neg (by simp [ht])]
  dsimp only
  rw [if_pos (by simp [hu])]
  rfl

/-- A plain value is converted by storing it as it is, by recasting it, or not at all. -/
theorem convertPlain_cases (h : convertPlain v t w = .ok r w') : w' = w ∧
    ((v.typeOf.assignableTo t = true ∧ r = v.widen t) ∨
      (t.isInterface = false ∧ v.typeOf.convertibleTo t = true ∧ r = v.recast t)) := by
  unfold convertPlain at h
  split at h
  · rename_i ha
    cases h
    exact ⟨rfl, .inl ⟨ha, rfl⟩⟩
  · split at h
    · rename_i hc
      simp only [Bool.and_eq_true, Bool.not_eq_true'] at hc
      cases h
      exact ⟨rfl, .inr ⟨hc.1.1, hc.1.2, rfl⟩⟩
    · cases h

theorem typeOf_convertPlain (h : convertPlain v t w = .ok r w') : r.typeOf = t := by
  obtain ⟨-, ⟨ha, rfl⟩ | ⟨ht, hc, rfl⟩⟩ := convertPlain_cases h
  · exact Value.typeOf_widen ha
  · exact Value.typeOf_recast ht hc

theorem convertPlain_sound (hv : v.Plain) (h : convertPlain v t w = .ok r w') : r.Sound := by
  obtain ⟨-, ⟨ha, rfl⟩ | ⟨ht, hc, rfl⟩⟩ := convertPlain_cases h
  · exact hv.sound_widen ha
  · exact hv.sound_recast ht hc

theorem convertPlain_implements (hv : v.Plain) (hi : v.typeOf.implements i = true) :
    convertPlain v i = pure (.box i (some v)) := by
  unfold convertPlain Value.widen
  rw [if_pos (Ty.assignableTo_of_implements hi), if_pos (Ty.isInterface_of_implements hi), hv.content_eq]

/-- A plain value that is not of the type yet. -/
theorem convertTo_plain (hv : v.Plain) (ht : t.isVoid = false) :
    convertTo (some v) t = if v.typeOf == t then pure (some v) else some <$> convertPlain v t := by
  unfold convertTo
  rw [if_neg (by simp [ht])]
  cases v with
  | box s c => exact absurd rfl (hv.bare s c)
  | _ => rfl

/-- **A value and its content convert alike**, to every type and with the same faults. -/
theorem convertTo_content (hv : v.Sound) (t : Ty) : convertTo (some v) t = convertTo v.content t := by
  by_cases hvoid : t.isVoid = true
  · unfold convertTo
    rw [if_pos hvoid, if_pos hvoid]
  rw [Bool.not_eq_true] at hvoid
  cases hv with
  | plain h => rw [h.content_eq]
  | @empty j hj =>
    show convertTo _ t = convertTo none t
    unfold convertTo
    rw [if_neg (by simp [hvoid]), if_neg (by simp [hvoid])]
    dsimp only
    split
    · -- an empty box is the zero of its type
      rename_i heq
      rw [← Value.zero_of_isInterface hj, show j = t from eq_of_beq heq]
    · rfl
  | @filled j x hx himp =>
    show convertTo _ t = convertTo (some x) t
    rw [convertTo_plain hx hvoid]
    unfold convertTo
    rw [if_neg (by simp [hvoid])]
    dsimp only
    split
    · -- what it holds is put into a box of the same type
      rename_i heq
      obtain rfl : j = t := eq_of_beq heq
      rw [if_neg (by simp [hx.typeOf_ne (Ty.isInterface_of_implements himp)]), convertPlain_implements hx himp]
      rfl
    · rfl

/-- Whatever implements an interface is converted to it by putting its content into a box. -/
theorem convertTo_implements (hv : v.Sound) (hi : v.typeOf.implements i = true) :
    convertTo (some v) i = pure (some (.box i v.content)) := by
  have hinterface := Ty.isInterface_of_implements hi
  have hvoid := Ty.not_isVoid_of_isInterface hinterface
  rw [convertTo_content hv]
  cases hv with
  | plain h =>
    rw [h.content_eq, convertTo_plain h hvoid, if_neg (by simp [h.typeOf_ne hinterface]),
      convertPlain_implements h hi]
    rfl
  | empty _ =>
    show convertTo none i = _
    unfold convertTo
    rw [if_neg (by simp [hvoid]), Value.zero_of_isInterface hinterface]
    rfl
  | @filled j x hx himp =>
    show convertTo (some x) i = _
    rw [convertTo_plain hx hvoid, if_neg (by simp [hx.typeOf_ne hinterface]),
      convertPlain_implements hx (Ty.implements_trans himp hi)]
    rfl

/-- What the conversion of a plain value returns. -/
theorem convertTo_plain_returns {o : Option Value} (hv : v.Plain) (ht : t.isVoid = false)
    (h : convertTo (some v) t w = .ok o w') : w' = w ∧ ∃ x, o = some x ∧ x.typeOf = t ∧ x.Sound := by
  rw [convertTo_plain hv ht] at h
  split at h
  · rename_i heq
    cases h
    exact ⟨rfl, v, rfl, eq_of_beq heq, .plain hv⟩
  · change EStateM.map some (convertPlain v t) w = _ at h
    unfold EStateM.map at h
    cases hrun : convertPlain v t w with
    | error e s =>
      rw [hrun] at h
      cases h
    | ok x s =>
      rw [hrun] at h
      cases h
      exact ⟨(convertPlain_cases hrun).1, x, rfl, typeOf_convertPlain hrun, convertPlain_sound hv hrun⟩

/-- **What conversion returns** is a value of the type that was asked for, and the world is as it was. -/
theorem convertTo_returns {o a : Option Value} (hv : ∀ v, o = some v → v.Sound) (ht : t.isVoid = false)
    (h : convertTo o t w = .ok a w') : w' = w ∧ ∃ x, a = some x ∧ x.typeOf = t ∧ x.Sound := by
  have hzero : convertTo none t w = .ok a w' → w' = w ∧ ∃ x, a = some x ∧ x.typeOf = t ∧ x.Sound := by
    intro h
    unfold convertTo at h
    rw [if_neg (by simp [ht])] at h
    cases h
    exact ⟨rfl, _, rfl, Ty.typeOf_zero t, Value.sound_zero t⟩
  cases o with
  | none => exact hzero h
  | some v =>
    have hsound := hv v rfl
    rw [convertTo_content hsound] at h
    cases hsound with
    | plain hplain =>
      rw [hplain.content_eq] at h
      exact convertTo_plain_returns hplain ht h
    | empty _ => exact hzero h
    | filled hx _ => exact convertTo_plain_returns hx ht h

/-- **Conversion is exact and does not see boxes.** When the conversion of a value, or of no value, to a type
that has values returns, then it returns a value of just this type, changes nothing else, and converting that
value once more returns it. To convert a value to an interface that it implements, and the result to any type,
is to convert the value to that type, with the same result or the same fault; so what is widened to an
interface and taken out again is the value it was. -/
theorem convertTo_exact (o : Option Value) (ho : ∀ v, o = some v → v.Sound) (t : Ty) :
    (t.isVoid = false → ∀ a w w', convertTo o t w = .ok a w' →
      w' = w ∧ (∃ x, a = some x ∧ x.typeOf = t ∧ x.Sound) ∧ convertTo a t = pure a) ∧
    ∀ v i, o = some v → v.typeOf.implements i = true →
      (convertTo (some v) i >>= fun a => convertTo a t) = convertTo (some v) t ∧
      (v.typeOf.isVoid = false → (convertTo (some v) i >>= fun a => convertTo a v.typeOf) = pure (some v)) := by
  refine ⟨fun ht a w w' h => ?_, fun v i hv hi => ?_⟩
  · obtain ⟨hw, x, rfl, hx, hsound⟩ := convertTo_returns ho ht h
    exact ⟨hw, ⟨x, rfl, hx, hsound⟩, funext fun _ => convertTo_typeOf hx ht _⟩
  · have hsound := ho v hv
    have hthrough : ∀ t, (convertTo (some v) i >>= fun a => convertTo a t) = convertTo (some v) t := by
      intro t
      rw [convertTo_implements hsound hi, pure_bind, convertTo_content (hsound.boxed hi), convertTo_content hsound]
      rfl
    refine ⟨hthrough t, fun hvoid => ?_⟩
    rw [hthrough]
    exact funext fun _ => convertTo_typeOf rfl hvoid _

/-- A number of a declared type goes into a place of the interface that the type implements, and comes out as a
plain number or as it was. -/
theorem convertTo_exact_speaker :
    convertTo (some (.int (.named .myInt) 5)) .int .initial = .ok (some (.int .int 5)) .initial ∧
      convertTo (some (.int .int 5)) .int = pure (some (.int .int 5)) ∧
      (convertTo (some (.int (.named .myInt) 5)) (.named .speaker) >>= fun a => convertTo a .int) =
        convertTo (some (.int (.named .myInt) 5)) .int ∧
      (convertTo (some (.int (.named .myInt) 5)) (.named .speaker) >>= fun a => convertTo a (.named .myInt)) =
        pure (some (.int (.named .myInt) 5)) := by
  have hrun : convertTo (some (.int (.named .myInt) 5)) .int .initial = .ok (some (.int .int 5)) .initial := rfl
  have hplain : (Value.int (.named .myInt) 5).Plain := ⟨fun _ _ h => (by cases h), rfl⟩
  obtain ⟨hreturns, hboxed⟩ := convertTo_exact (some (.int (.named .myInt) 5))
    (fun v hv => Option.some.inj hv ▸ .plain hplain) .int
  obtain ⟨-, -, hagain⟩ := hreturns rfl _ _ _ hrun
  obtain ⟨hthrough, hback⟩ := hboxed _ (.named .speaker) rfl rfl
  exact ⟨hrun, hagain, hthrough, hback rfl⟩

end Run

end Resumable
