import Mathlib
import Resumable.Proofs.Stores

/-!
# `Proofs.Arithmetic`: integer operators on words

The operators on integers compute in words of 64 bits and cut the result to the width of the type. Here that
is compared with arithmetic on integers that have no width: an operator either fails, for a zero divisor or a
negative shift count and for nothing else, or it gives the one word of the type that is congruent to the
exact result. So a shift by the width or more, a sum that overflows and the least word divided by `-1` need no
exception.

**Contents**
* `IsWord`, `wrap_isWord`, `wrap_modEq`, `IsWord.eq_of_modEq`: words of a width, one for each residue.
* `bitwise_modEq`: the bits of the sum of powers below `2 ^ w` are those of the integer.
* `BinaryOp.exact?`, `BinaryOp.fault?`: what an operator means, and when it has no result.
* `binaryOp_gives`, `binaryOp_faults`: what the evaluator makes of it.
* `readPlace_writePlace`: a place holds what was stored into it.
* `integers_wrap`: operators, quotients with their remainders, and stores that combine.
-/

namespace Resumable

/-! ### Words -/

/-- The integers that a word of `w` bits stands for. -/
def IsWord (w : Nat) (signed : Bool) (n : Int) : Prop :=
  if signed then -2 ^ (w - 1) ≤ n ∧ n < 2 ^ (w - 1) else 0 ≤ n ∧ n < 2 ^ w

section
variable {w : Nat} {signed : Bool} {a b x : Int}

theorem two_pow_succ (hw : 0 < w) : (2 : Int) ^ w = 2 ^ (w - 1) * 2 := by
  obtain ⟨m, rfl⟩ : ∃ m, w = m + 1 := ⟨w - 1, by omega⟩
  exact pow_succ 2 m

/-- Wrapping around gives a word of the width. -/
theorem wrap_isWord (hw : 0 < w) (x : Int) : IsWord w signed (wrap w signed x) := by
  have hpos : (0 : Int) < 2 ^ (w - 1) := by positivity
  have htwo := two_pow_succ hw
  have hcast : ((Nat.pow 2 w : Nat) : Int) = 2 ^ w := by simp
  cases signed with
  | true =>
    show -2 ^ (w - 1) ≤ Int.bmod x (Nat.pow 2 w) ∧ Int.bmod x (Nat.pow 2 w) < 2 ^ (w - 1)
    have hnat : 0 < Nat.pow 2 w := Nat.pow_pos (by decide)
    have hlow := Int.le_bmod (x := x) hnat
    have hhigh := Int.bmod_lt (x := x) hnat
    omega
  | false =>
    show 0 ≤ x % (Nat.pow 2 w : Nat) ∧ x % (Nat.pow 2 w : Nat) < 2 ^ w
    rw [hcast]
    exact ⟨Int.emod_nonneg x (by omega), Int.emod_lt_of_pos x (by omega)⟩

/-- Wrapping around changes a number by a multiple of the modulus. -/
theorem wrap_modEq (x : Int) : wrap w signed x ≡ x [ZMOD 2 ^ w] := by
  have hcast : ((Nat.pow 2 w : Nat) : Int) = 2 ^ w := by simp
  cases signed with
  | true =>
    show Int.bmod x (Nat.pow 2 w) % 2 ^ w = x % 2 ^ w
    rw [← hcast]
    exact Int.bmod_emod
  | false =>
    show x % (Nat.pow 2 w : Nat) ≡ x [ZMOD 2 ^ w]
    rw [hcast]
    exact Int.mod_modEq x _

/-- A residue has one word. -/
theorem IsWord.eq_of_modEq (hw : 0 < w) (ha : IsWord w signed a) (hb : IsWord w signed b)
    (h : a ≡ b [ZMOD 2 ^ w]) : a = b := by
  have htwo := two_pow_succ hw
  have hdiff : a - b < 2 ^ w ∧ -2 ^ w < a - b := by
    unfold IsWord at ha hb
    cases signed
    · simp only [Bool.false_eq_true, ↓reduceIte] at ha hb
      omega
    · simp only [↓reduceIte] at ha hb
      omega
  have hzero : b - a = 0 := Int.eq_zero_of_abs_lt_dvd (Int.modEq_iff_dvd.mp h) (by rw [abs_lt]; omega)
  omega

theorem wrap_of_isWord (hw : 0 < w) (h : IsWord w signed x) : wrap w signed x = x :=
  (wrap_isWord hw x).eq_of_modEq hw h (wrap_modEq x)

/-- Computing in 64 bits first loses nothing that a narrower word keeps. -/
theorem narrow_modEq (hw : w ≤ 64) (x : Int) : wrap w signed (wrap 64 signed x) ≡ x [ZMOD 2 ^ w] :=
  (wrap_modEq _).trans ((wrap_modEq x).of_dvd (pow_dvd_pow 2 hw))

end

/-! ### Bits -/

section
variable {w i : Nat}

theorem getElem_ofNat (m : Nat) (hi : i < w) : (BitVec.ofNat w m)[i] = m.testBit i := by
  rw [BitVec.getElem_eq_testBit_toNat, BitVec.toNat_ofNat, Nat.testBit_mod_two_pow, decide_eq_true hi,
    Bool.true_and]

theorem getElem_ofInt (x : Int) (hi : i < w) : (BitVec.ofInt w x)[i] = x.testBit i := by
  cases x with
  | ofNat m =>
    show (BitVec.ofNat w m)[i] = m.testBit i
    exact getElem_ofNat m hi
  | negSucc m =>
    show _ = !m.testBit i
    rw [BitVec.ofInt_negSucc_eq_not_ofNat, BitVec.getElem_not, getElem_ofNat m hi]

theorem ofInt_land (a b : Int) : BitVec.ofInt w (a.land b) = BitVec.ofInt w a &&& BitVec.ofInt w b := by
  ext i hi
  rw [BitVec.getElem_and, getElem_ofInt _ hi, getElem_ofInt _ hi, getElem_ofInt _ hi, Int.testBit_land]

theorem ofInt_lor (a b : Int) : BitVec.ofInt w (a.lor b) = BitVec.ofInt w a ||| BitVec.ofInt w b := by
  ext i hi
  rw [BitVec.getElem_or, getElem_ofInt _ hi, getElem_ofInt _ hi, getElem_ofInt _ hi, Int.testBit_lor]

theorem ofInt_xor (a b : Int) : BitVec.ofInt w (a.xor b) = BitVec.ofInt w a ^^^ BitVec.ofInt w b := by
  ext i hi
  rw [BitVec.getElem_xor, getElem_ofInt _ hi, getElem_ofInt _ hi, getElem_ofInt _ hi, Int.testBit_lxor]

/-- Integers have the same lowest bits when they are congruent. -/
theorem ofInt_eq_iff {x y : Int} : BitVec.ofInt w x = BitVec.ofInt w y ↔ x ≡ y [ZMOD 2 ^ w] := by
  rw [← BitVec.toNat_inj, BitVec.toNat_ofInt, BitVec.toNat_ofInt, Int.ModEq]
  have := Int.emod_nonneg x (b := 2 ^ w) (by positivity)
  have := Int.emod_nonneg y (b := 2 ^ w) (by positivity)
  push_cast
  omega

/-- An operation `h` on bits that `f` does on naturals and `g` on integers: working on the residues of the
operands gives the residue of the result. -/
theorem bitwise_modEq {f : Nat → Nat → Nat} {g : Int → Int → Int} {h : BitVec w → BitVec w → BitVec w}
    (hf : ∀ x y, BitVec.ofNat w (f x y) = h (BitVec.ofNat w x) (BitVec.ofNat w y))
    (hg : ∀ x y, BitVec.ofInt w (g x y) = h (BitVec.ofInt w x) (BitVec.ofInt w y)) (a b : Int) :
    ((f (wrap w false a).toNat (wrap w false b).toNat : Nat) : Int) ≡ g a b [ZMOD 2 ^ w] := by
  have hword : ∀ x : Int, BitVec.ofNat w (wrap w false x).toNat = BitVec.ofInt w x := by
    intro x
    have hnonneg : 0 ≤ wrap w false x := Int.emod_nonneg x (by simp)
    rw [← BitVec.ofInt_natCast, Int.toNat_of_nonneg hnonneg, ofInt_eq_iff]
    exact wrap_modEq x
  rw [← ofInt_eq_iff, hg, BitVec.ofInt_natCast, hf, hword, hword]

end

/-! ### What the operators mean -/

/-- The result of an integer operator when words are unbounded; none for operators that compare. -/
def BinaryOp.exact? (op : BinaryOp) (a b : Int) : Option Int :=
  match op with
  | .add => some (a + b)
  | .sub => some (a - b)
  | .mul => some (a * b)
  | .div => some (a.tdiv b)
  | .mod => some (a.tmod b)
  | .and => some (a.land b)
  | .or => some (a.lor b)
  | .xor => some (a.xor b)
  | .shl => some (a * 2 ^ b.toNat)
  | .shr => some (a / 2 ^ b.toNat)
  | _ => none

/-- Why an integer operator has no result, by its right operand. -/
def BinaryOp.fault? (op : BinaryOp) (b : Int) : Option String :=
  match op with
  | .div | .mod => if b = 0 then some "integer divide by zero" else none
  | .shl | .shr => if b < 0 then some "negative shift amount" else none
  | _ => none

/-- The value `v`, or what its box holds, is the word `n` of type `t`. -/
structure Operand (v : Value) (t : Ty) (n : Int) : Prop where
  content : v.content = some (.int t n)
  word : ∃ w signed, t.kind.integer? = some (w, signed) ∧ IsWord w signed n

/-- The right operand has a type that the operator takes beside a left one of type `t`: one of the same
kind, or of any kind for a shift. -/
def BinaryOp.Takes (op : BinaryOp) (t u : Ty) : Prop := op.isShift = true ∨ u.kind = t.kind

namespace Run

section
variable {t u : Ty} {w : Nat} {signed : Bool} {a b x : Int} {op : BinaryOp} {world : World}

theorem integer?_width {k : Kind} (h : k.integer? = some (w, signed)) : 8 ≤ w ∧ w ≤ 64 := by
  cases k <;> cases h <;> decide

theorem shiftLeft_modEq (hw : w ≤ 64) (n : Nat) : shiftLeft a n ≡ a * 2 ^ n [ZMOD 2 ^ w] := by
  unfold shiftLeft
  split
  · have hdvd : (2 : Int) ^ w ∣ a * 2 ^ n := (pow_dvd_pow 2 (by omega)).mul_left a
    exact (Int.modEq_zero_iff_dvd.mpr hdvd).symm
  · simp only [Nat.pow_eq, Nat.cast_pow, Nat.cast_ofNat]
    exact Int.ModEq.refl _

/-- From 64 on only the sign of a word is left. -/
theorem shiftRight_eq (hw : w ≤ 64) (ha : IsWord w signed a) (n : Nat) : shiftRight a n = a / 2 ^ n := by
  unfold shiftRight
  split
  · have hwide : (2 : Int) ^ w ≤ 2 ^ n := pow_le_pow_right₀ (by decide) (by omega)
    have hhalf : (2 : Int) ^ (w - 1) ≤ 2 ^ w := pow_le_pow_right₀ (by decide) (by omega)
    have hbounds : -2 ^ n ≤ a ∧ a < 2 ^ n := by
      unfold IsWord at ha
      split at ha <;> omega
    split
    · exact (Int.ediv_eq_neg_one_of_neg_of_le (by omega) (by omega)).symm
    · exact (Int.ediv_eq_zero_of_lt (by omega) hbounds.2).symm
  · simp only [Nat.pow_eq, Nat.cast_pow, Nat.cast_ofNat]

/-! ### Operators -/

/-- The result of an operator in a word of its type. -/
theorem integerOp_gives (hk : t.kind.integer? = some (w, signed)) (ha : IsWord w signed a)
    (hx : op.exact? a b = some x) (hf : op.fault? b = none) :
    ∃ n, IsWord w signed n ∧ n ≡ x [ZMOD 2 ^ w] ∧
      ∀ world, integerOp op t a (.int u b) world = .ok (.int t n) world := by
  obtain ⟨hlow, hhigh⟩ := integer?_width hk
  -- the result at 64 bits is narrowed to the width, which does not change it modulo the width
  have hof : ∀ m, m ≡ x [ZMOD 2 ^ w] →
      (∀ world, integerOp op t a (.int u b) world =
        .ok (.int t (wrap w signed (wrap 64 signed m))) world) →
      ∃ n, IsWord w signed n ∧ n ≡ x [ZMOD 2 ^ w] ∧
        ∀ world, integerOp op t a (.int u b) world = .ok (.int t n) world := fun m hm hrun =>
    ⟨_, wrap_isWord (by omega) _, (narrow_modEq hhigh m).trans hm, hrun⟩
  have hbits : ∀ {m y : Int}, m ≡ y [ZMOD 2 ^ 64] → m ≡ y [ZMOD 2 ^ w] := fun h =>
    h.of_dvd (pow_dvd_pow 2 hhigh)
  cases op <;> cases hx
  case add => exact hof _ (Int.ModEq.refl _) fun world => by simp only [integerOp, hk]; rfl
  case sub => exact hof _ (Int.ModEq.refl _) fun world => by simp only [integerOp, hk]; rfl
  case mul => exact hof _ (Int.ModEq.refl _) fun world => by simp only [integerOp, hk]; rfl
  case div =>
    have hb : b ≠ 0 := fun h => by simp [BinaryOp.fault?, h] at hf
    exact hof _ (Int.ModEq.refl _) fun world => by
      simp only [integerOp, hk, beq_iff_eq, if_neg hb]
      rfl
  case mod =>
    have hb : b ≠ 0 := fun h => by simp [BinaryOp.fault?, h] at hf
    exact hof _ (Int.ModEq.refl _) fun world => by
      simp only [integerOp, hk, beq_iff_eq, if_neg hb]
      rfl
  case and =>
    exact hof _ (hbits (bitwise_modEq (fun _ _ => BitVec.ofNat_and) ofInt_land a b)) fun world => by
      simp only [integerOp, hk]
      rfl
  case or =>
    exact hof _ (hbits (bitwise_modEq (fun _ _ => BitVec.ofNat_or) ofInt_lor a b)) fun world => by
      simp only [integerOp, hk]
      rfl
  case xor =>
    exact hof _ (hbits (bitwise_modEq (fun _ _ => BitVec.ofNat_xor) ofInt_xor a b)) fun world => by
      simp only [integerOp, hk]
      rfl
  case shl =>
    have hb : ¬b < 0 := fun h => by simp [BinaryOp.fault?, h] at hf
    exact hof _ (shiftLeft_modEq hhigh b.toNat) fun world => by
      simp only [integerOp, shiftCount, hk, if_neg hb]
      rfl
  case shr =>
    have hb : ¬b < 0 := fun h => by simp [BinaryOp.fault?, h] at hf
    exact hof (shiftRight a b.toNat) (by rw [shiftRight_eq hhigh ha]) fun world => by
      simp only [integerOp, shiftCount, hk, if_neg hb]
      rfl

/-- An operator without a result raises its fault. -/
theorem integerOp_faults {text : String} (hf : op.fault? b = some text) :
    integerOp op t a (.int u b) world = raiseFault text world := by
  cases op <;> simp only [BinaryOp.fault?, reduceCtorEq, Option.ite_none_right_eq_some,
    Option.some.injEq] at hf <;> obtain ⟨hb, rfl⟩ := hf
  case div | mod => simp only [integerOp, hb, beq_self_eq_true, ↓reduceIte]
  case shl | shr =>
    simp only [integerOp, shiftCount, hb, ↓reduceIte]
    exact bind_error rfl

theorem unwrap_word {v : Value} (h : Operand v t a) : unwrap (some v) world = .ok (.int t a) world := by
  have hcontent := h.content
  cases v <;> cases hcontent <;> rfl

theorem convertibleTo_of_integer (hu : u.kind.integer?.isSome = true) (ht : t.kind.integer?.isSome = true) :
    u.convertibleTo t = true := by
  unfold Ty.convertibleTo
  simp only [hu, ht, Bool.true_or, Bool.and_self]

/-- A right operand of another type of the same kind is the same word of the left one's type. -/
theorem alignNumber_word (hk : t.kind.integer? = some (w, signed)) (hu : u.kind = t.kind)
    (hb : IsWord w signed b) (world : World) :
    ∃ u', u'.kind = t.kind ∧ alignNumber (.int t a) (.int u b) world = .ok (.int u' b) world := by
  unfold alignNumber
  split
  · have hinteger : t.kind.integer?.isSome = true := by rw [hk]; rfl
    have hconv : (Value.int u b).typeOf.convertibleTo t = true :=
      convertibleTo_of_integer (hu ▸ hinteger) hinteger
    refine ⟨t, rfl, ?_⟩
    show convertNumber (.int u b) t world = _
    have hrecast : (Value.int u b).recast t = .int t b := by
      simp only [Value.recast, hk, wrap_of_isWord (by have := integer?_width hk; omega) hb]
    unfold convertNumber
    rw [hrecast, if_pos hconv]
    rfl
  · exact ⟨u, hu, rfl⟩

/-- The operands of an operator reach it as words. -/
theorem operands_words {l r : Value} (hl : Operand l t a) (hr : Operand r u b) (htakes : op.Takes t u)
    (world : World) : ∃ u', operands op (some l) (some r) world = .ok (.int t a, .int u' b) world := by
  unfold operands
  rw [bind_ok (unwrap_word hl), bind_ok (unwrap_word hr)]
  cases hshift : op.isShift with
  | true => exact ⟨u, rfl⟩
  | false =>
    obtain ⟨w, signed, hk, hb⟩ := hr.word
    have hu : u.kind = t.kind := htakes.resolve_left (by simp [hshift])
    obtain ⟨u', hu', hrun⟩ := alignNumber_word (a := a) (hu ▸ hk) hu hb world
    refine ⟨u', ?_⟩
    simp only [Bool.false_eq_true, ↓reduceIte]
    show (alignNumber (.int t a) (.int u b) >>= _) world = _
    rw [bind_ok hrun]
    have hsame : ((Value.int u' b).kind != (Value.int t a).kind) = false := by
      show (u'.kind != t.kind) = false
      simp [hu']
    simp only [hsame, Bool.false_eq_true, ↓reduceIte]
    rfl

/-- An operator on integers is the integer operator of the type of its left operand. -/
theorem binaryOp_run {l r : Value} (hl : Operand l t a) (hr : Operand r u b) (htakes : op.Takes t u)
    (hx : op.exact? a b = some x) (world : World) :
    ∃ u', binaryOp op (some l) (some r) world = integerOp op t a (.int u' b) world := by
  obtain ⟨u', hrun⟩ := operands_words hl hr htakes world
  refine ⟨u', ?_⟩
  have hne : (op == .equal || op == .notEqual) = false := by cases op <;> first | rfl | cases hx
  unfold binaryOp
  simp only [hne, Bool.false_eq_true, ↓reduceIte]
  show (operands op (some l) (some r) >>= _) world = _
  rw [bind_ok hrun]

/-- An operator on words gives the word of its exact result. -/
theorem binaryOp_gives {l r : Value} (hk : t.kind.integer? = some (w, signed)) (hl : Operand l t a)
    (hr : Operand r u b) (htakes : op.Takes t u) (hx : op.exact? a b = some x) (hf : op.fault? b = none) :
    ∃ n, IsWord w signed n ∧ n ≡ x [ZMOD 2 ^ w] ∧
      ∀ world, binaryOp op (some l) (some r) world = .ok (.int t n) world := by
  obtain ⟨w', signed', hk', ha⟩ := hl.word
  obtain ⟨rfl, rfl⟩ : w' = w ∧ signed' = signed := by
    rw [hk] at hk'
    cases hk'
    exact ⟨rfl, rfl⟩
  obtain ⟨n, hn, hmod, -⟩ := integerOp_gives (u := u) hk ha hx hf
  refine ⟨n, hn, hmod, fun world => ?_⟩
  obtain ⟨u', hrun⟩ := binaryOp_run hl hr htakes hx world
  obtain ⟨n', hn', hmod', hint⟩ := integerOp_gives (u := u') hk ha hx hf
  have hpos : 0 < w' := by have := integer?_width hk; omega
  rw [hrun, hint, hn'.eq_of_modEq hpos hn (hmod'.trans hmod.symm)]

theorem binaryOp_faults {l r : Value} {text : String} (hl : Operand l t a) (hr : Operand r u b)
    (htakes : op.Takes t u) (hx : op.exact? a b = some x) (hf : op.fault? b = some text) :
    binaryOp op (some l) (some r) world = raiseFault text world := by
  obtain ⟨u', hrun⟩ := binaryOp_run hl hr htakes hx world
  rw [hrun, integerOp_faults hf]

/-- A quotient and its remainder make up the dividend again, also where the quotient wraps around. -/
theorem quotient_remainder {l r : Value} (hk : t.kind.integer? = some (w, signed)) (hl : Operand l t a)
    (hr : Operand r u b) (hu : u.kind = t.kind) (hb : b ≠ 0) :
    ∃ q m, (∀ world, binaryOp .div (some l) (some r) world = .ok (.int t q) world) ∧
      (∀ world, binaryOp .mod (some l) (some r) world = .ok (.int t m) world) ∧
      q * b + m ≡ a [ZMOD 2 ^ w] := by
  have hquot : BinaryOp.exact? .div a b = some (a.tdiv b) := rfl
  have hrest : BinaryOp.exact? .mod a b = some (a.tmod b) := rfl
  obtain ⟨q, -, hq, hdiv⟩ := binaryOp_gives hk hl hr (.inr hu) hquot (if_neg hb)
  obtain ⟨m, -, hm, hmod⟩ := binaryOp_gives hk hl hr (.inr hu) hrest (if_neg hb)
  refine ⟨q, m, hdiv, hmod, ?_⟩
  calc q * b + m ≡ a.tdiv b * b + a.tmod b [ZMOD 2 ^ w] := (hq.mul_right b).add hm
    _ = a := Int.tdiv_mul_add_tmod a b

end

/-! ### Places -/

/-- A path leads through structs to a part of a value. -/
def Leads : List Nat → Value → Prop
  | [], _ => True
  | i :: path, v => ∃ t fs f, v = .struct t fs ∧ fs[i]? = some f ∧ Leads path f

/-- What a place begins in is there and holds the value `v`. -/
def Base.Holds (world : World) (v : Value) : Base → Prop
  | .slot a => ∃ s, world.slots[a]? = some s ∧ s.value = v
  | .object a => world.store[a]? = some (.value v)

/-- A place is there. -/
def Place.Stands (p : Place) (world : World) : Prop := ∃ v, p.base.Holds world v ∧ Leads p.path v

section
variable {base : Base} {p : Place} {v x : Value} {world : World}

theorem readPath_writePath : ∀ {path : List Nat} {v : Value}, Leads path v →
    readPath (writePath v path x) path = x
  | [], _, _ => rfl
  | i :: path, _, ⟨t, fs, f, rfl, hf, h⟩ => by
    obtain ⟨hi, rfl⟩ := List.getElem?_eq_some_iff.mp hf
    have hget : (fs.set i (writePath fs[i] path x)).getD i (.null .any) = writePath fs[i] path x := by
      simp [hi]
    have hdefault : fs.getD i (.null .any) = fs[i] := by simp [hi]
    simp only [writePath, readPath, hdefault, hget]
    exact readPath_writePath h

theorem readBase_run (base : Base) (world : World) : ∃ v, readBase base world = .ok v world := by
  cases base with
  | slot a => exact ⟨_, rfl⟩
  | object a =>
    show ∃ v, load a world = .ok v world
    unfold load
    rw [bind_ok (show Run.object a world = .ok _ world from rfl)]
    generalize world.store.getD a _ = o
    cases o <;> exact ⟨_, rfl⟩

/-- What a place holds can be read. -/
theorem Base.Holds.readBase (h : base.Holds world v) : readBase base world = .ok v world := by
  cases base with
  | slot a =>
    obtain ⟨s, hs, rfl⟩ := h
    show (slotAt a >>= fun s => pure s.value) world = _
    rw [bind_ok (slotAt_of_some hs)]
    rfl
  | object a =>
    have hobject : Run.object a world = .ok (.value v) world := by
      show EStateM.Result.ok (world.store.getD a (.value (.null .any))) world = _
      rw [Array.getD_eq_getD_getElem?, show world.store[a]? = some (.value v) from h]
      rfl
    show load a world = _
    unfold load
    rw [bind_ok hobject]
    rfl

/-- Storing always works; where the place begins in something that is there, that holds the value then. -/
theorem writeBase_run (base : Base) (x : Value) (world : World) :
    ∃ world', writeBase base x world = .ok () world' ∧
      ∀ v, base.Holds world v → base.Holds world' x := by
  cases base with
  | slot a =>
    refine ⟨_, fillSlot_run a x world, ?_⟩
    rintro v ⟨s, hs, -⟩
    obtain ⟨ha, -⟩ := Array.getElem?_eq_some_iff.mp hs
    exact ⟨_, by simp [ha]; rfl, rfl⟩
  | object a =>
    refine ⟨_, rfl, fun v hv => ?_⟩
    obtain ⟨ha, -⟩ := Array.getElem?_eq_some_iff.mp (show world.store[a]? = some (.value v) from hv)
    show (world.store.setIfInBounds a (.value x))[a]? = some (.value x)
    simp [ha]

/-- A place holds what was stored into it. -/
theorem readPlace_writePlace (p : Place) (x : Value) (world : World) :
    ∃ world', writePlace p x world = .ok () world' ∧
      (p.Stands world → readPlace p world' = .ok (x.retype p.type) world') := by
  obtain ⟨v, hread⟩ := readBase_run p.base world
  obtain ⟨world', hwrite, hholds⟩ := writeBase_run p.base (writePath v p.path x) world
  refine ⟨world', ?_, ?_⟩
  · unfold writePlace
    rw [bind_ok hread, hwrite]
  · rintro ⟨v', hv', hleads⟩
    obtain rfl : v = v' := by
      rw [hv'.readBase] at hread
      cases hread
      rfl
    unfold readPlace
    rw [bind_ok (hholds v hv').readBase, readPath_writePath hleads]
    rfl

end

/-! ### Stores that combine -/

/-- What a compound store combines the old value of type `t` with, the integer `b`: one for an increment, and
what the right-hand side evaluates to for the other forms. -/
inductive Supplied (c : Calls) (env : Env) (op : AssignOp) (bin : BinaryOp) (value : Expr) (t : Ty)
    (world : World) : Int → World → Prop
  | one (h : op.isIncrement = true) : Supplied c env op bin value t world 1 world
  | operand {r u b world'} (h : op.isIncrement = false) (hrun : c.eval value env world = .ok (some r) world')
      (hr : Operand r u b) (htakes : bin.Takes t u) : Supplied c env op bin value t world b world'

section
variable {c : Calls} {env : Env} {e target value : Expr} {op : AssignOp} {bin : BinaryOp} {t : Ty} {w : Nat}
  {signed : Bool} {a b x : Int} {p : Place} {world world₁ world₂ : World}

theorem isWord_one (hw : 8 ≤ w) : IsWord w signed 1 := by
  have htwo : (2 : Int) ≤ 2 ^ (w - 1) := le_self_pow₀ (by decide) (by omega)
  have hhalf := two_pow_succ (show 0 < w by omega)
  cases signed
  · exact ⟨by decide, by omega⟩
  · exact ⟨by omega, by omega⟩

/-- A compound store combines what is in the place with the operand. -/
theorem Supplied.combinedWith (hk : t.kind.integer? = some (w, signed))
    (h : Supplied c env op bin value t world b world₁) :
    ∃ r u, combinedWith c e op value t env world = .ok (some r) world₁ ∧ Operand r u b ∧ bin.Takes t u := by
  cases h with
  | one hop =>
    have hwidth := (integer?_width hk).1
    have hone : IsWord w signed 1 := isWord_one hwidth
    refine ⟨.int t 1, t, ?_, ⟨rfl, w, signed, hk, hone⟩, .inr rfl⟩
    have hnumber : t.kind.isNumber = true := by simp [Kind.isNumber, hk]
    have hrecast : (Value.ofInt 1).recast t = .int t 1 := by
      simp only [Value.ofInt, Value.recast, hk, wrap_of_isWord (by omega) hone]
    have hconv : (Value.ofInt 1).typeOf.convertibleTo t = true :=
      convertibleTo_of_integer rfl (by rw [hk]; rfl)
    unfold Run.combinedWith
    simp only [hop, hnumber, ↓reduceIte]
    unfold convertNumber
    rw [hrecast, if_pos hconv]
    rfl
  | operand hop hrun hr htakes =>
    refine ⟨_, _, ?_, hr, htakes⟩
    unfold Run.combinedWith
    simp only [hop, Bool.false_eq_true, ↓reduceIte]
    exact hrun

/-- A compound store evaluates its operator. -/
theorem evalAssign_combines {r : Value} (hbin : op.binary? = some bin)
    (hp : place c env target world = .ok p world₁) (hold : readPlace p world₁ = .ok (.int p.type a) world₁)
    (hr : combinedWith c e op value p.type env world₁ = .ok (some r) world₂) :
    evalAssign c e op target value env world =
      (binaryOp bin (some (.int p.type a)) (some r) >>= fun v => do
        let v ← storeInto p (← convertTo (some v) p.type)
        return some (if op.isPost then .int p.type a else v)) world₂ := by
  unfold evalAssign
  rw [bind_ok hp]
  simp only [hbin]
  rw [bind_ok hold, bind_ok hr]

/-- A word stays as it is in its own type. -/
theorem convertTo_word (hk : t.kind.integer? = some (w, signed)) (n : Int) :
    convertTo (some (.int t n)) t = pure (some (.int t n)) := by
  have hvoid : t.isVoid = false := by
    unfold Ty.isVoid
    rw [beq_eq_false_iff_ne]
    rintro rfl
    cases hk
  have hsame : ((Value.int t n).typeOf == t) = true := beq_self_eq_true t
  unfold convertTo
  simp only [hvoid, Bool.false_eq_true, ↓reduceIte, hsame]

/-- A compound store stores the word of the exact result; a post form gives the word that was there. -/
theorem evalAssign_gives (hk : p.type.kind.integer? = some (w, signed)) (hbin : op.binary? = some bin)
    (hp : place c env target world = .ok p world₁) (hold : readPlace p world₁ = .ok (.int p.type a) world₁)
    (ha : IsWord w signed a) (hb : Supplied c env op bin value p.type world₁ b world₂)
    (hx : bin.exact? a b = some x) (hf : bin.fault? b = none) :
    ∃ n world₃, IsWord w signed n ∧ n ≡ x [ZMOD 2 ^ w] ∧ writePlace p (.int p.type n) world₂ = .ok () world₃ ∧
      (p.Stands world₂ → readPlace p world₃ = .ok (.int p.type n) world₃) ∧
      evalAssign c e op target value env world =
        .ok (some (.int p.type (if op.isPost then a else n))) world₃ := by
  obtain ⟨r, u, hrun, hr, htakes⟩ := hb.combinedWith (e := e) hk
  have hl : Operand (.int p.type a) p.type a := ⟨rfl, w, signed, hk, ha⟩
  obtain ⟨n, hn, hmod, hgives⟩ := binaryOp_gives hk hl hr htakes hx hf
  obtain ⟨world₃, hwrite, hread⟩ := readPlace_writePlace p (.int p.type n) world₂
  refine ⟨n, world₃, hn, hmod, hwrite, hread, ?_⟩
  rw [evalAssign_combines hbin hp hold hrun, bind_ok (hgives world₂), convertTo_word hk, pure_bind]
  have hstore : storeInto p (some (.int p.type n)) world₂ = .ok (.int p.type n) world₃ := by
    show (writePlace p (.int p.type n) >>= fun _ => pure (Value.int p.type n)) world₂ = _
    rw [bind_ok hwrite]
    rfl
  rw [bind_ok hstore]
  cases op.isPost <;> rfl

/-- A compound store raises the fault of its operator, and stores nothing. -/
theorem evalAssign_faults {text : String} (hk : p.type.kind.integer? = some (w, signed))
    (hbin : op.binary? = some bin) (hp : place c env target world = .ok p world₁)
    (hold : readPlace p world₁ = .ok (.int p.type a) world₁) (ha : IsWord w signed a)
    (hb : Supplied c env op bin value p.type world₁ b world₂)
    (hx : bin.exact? a b = some x) (hf : bin.fault? b = some text) :
    evalAssign c e op target value env world = raiseFault text world₂ := by
  obtain ⟨r, u, hrun, hr, htakes⟩ := hb.combinedWith (e := e) hk
  have hl : Operand (.int p.type a) p.type a := ⟨rfl, w, signed, hk, ha⟩
  rw [evalAssign_combines hbin hp hold hrun, bind_error (binaryOp_faults hl hr htakes hx hf)]
  rfl

end

/-- **Integer operators are arithmetic on words.** For a type `t` of integers of `w` bits, operands of its kind
and shift counts of any integer kind, an operator raises a fault for a zero divisor or a negative count, and
gives the word of the exact result otherwise. A quotient and a remainder make up the dividend. A compound
store or an increment stores what its operator gives and gives it, or the old word in a post form. -/
theorem integers_wrap {t : Ty} {w : Nat} {signed : Bool} (hk : t.kind.integer? = some (w, signed)) :
    (∀ {op : BinaryOp} {l r : Value} {u : Ty} {a b x : Int}, Operand l t a → Operand r u b → op.Takes t u →
      op.exact? a b = some x →
      (∀ text, op.fault? b = some text →
        ∀ world, binaryOp op (some l) (some r) world = raiseFault text world) ∧
      (op.fault? b = none → ∃ n, IsWord w signed n ∧ n ≡ x [ZMOD 2 ^ w] ∧
        ∀ world, binaryOp op (some l) (some r) world = .ok (.int t n) world)) ∧
    (∀ {l r : Value} {u : Ty} {a b : Int}, Operand l t a → Operand r u b → u.kind = t.kind → b ≠ 0 →
      ∃ q m, (∀ world, binaryOp .div (some l) (some r) world = .ok (.int t q) world) ∧
        (∀ world, binaryOp .mod (some l) (some r) world = .ok (.int t m) world) ∧
        q * b + m ≡ a [ZMOD 2 ^ w]) ∧
    ∀ {c : Calls} {env : Env} {e target value : Expr} {op : AssignOp} {bin : BinaryOp} {p : Place}
      {a b x : Int} {world world₁ world₂ : World}, op.binary? = some bin → p.type = t →
      place c env target world = .ok p world₁ → readPlace p world₁ = .ok (.int t a) world₁ →
      IsWord w signed a → Supplied c env op bin value t world₁ b world₂ → bin.exact? a b = some x →
      (∀ text, bin.fault? b = some text →
        evalAssign c e op target value env world = raiseFault text world₂) ∧
      (bin.fault? b = none → ∃ n world₃, IsWord w signed n ∧ n ≡ x [ZMOD 2 ^ w] ∧
        writePlace p (.int t n) world₂ = .ok () world₃ ∧
        (p.Stands world₂ → readPlace p world₃ = .ok (.int t n) world₃) ∧
        evalAssign c e op target value env world =
          .ok (some (.int t (if op.isPost then a else n))) world₃) := by
  refine ⟨fun hl hr htakes hx => ⟨fun text hf world => binaryOp_faults hl hr htakes hx hf,
    fun hf => binaryOp_gives hk hl hr htakes hx hf⟩, fun hl hr hu hb => quotient_remainder hk hl hr hu hb, ?_⟩
  rintro c env e target value op bin p a b x world world₁ world₂ hbin rfl hp hold ha hb hx
  exact ⟨fun text hf => evalAssign_faults hk hbin hp hold ha hb hx hf,
    fun hf => evalAssign_gives hk hbin hp hold ha hb hx hf⟩

/-- A world with one variable, the greatest integer of eight bits. -/
def brimming : World := { World.initial with slots := #[⟨1, .int (.scalar .int8) 127⟩] }

/-- The least `int8` divided by −1 is itself. -/
theorem integers_wrap_int8 :
    (∃ n, IsWord 8 true n ∧ n ≡ 128 [ZMOD 2 ^ 8] ∧ ∀ world,
      binaryOp .div (some (.int (.scalar .int8) (-128))) (some (.int (.scalar .int8) (-1))) world =
        .ok (.int (.scalar .int8) n) world) ∧
    (∃ q m, (∀ world, binaryOp .div (some (.int (.scalar .int8) (-128))) (some (.int (.scalar .int8) (-1))) world =
        .ok (.int (.scalar .int8) q) world) ∧
      (∀ world, binaryOp .mod (some (.int (.scalar .int8) (-128))) (some (.int (.scalar .int8) (-1))) world =
        .ok (.int (.scalar .int8) m) world) ∧ q * -1 + m ≡ -128 [ZMOD 2 ^ 8]) ∧
    ∃ n world, IsWord 8 true n ∧ n ≡ 128 [ZMOD 2 ^ 8] ∧
      writePlace ⟨.slot 0, [], .scalar .int8⟩ (.int (.scalar .int8) n) brimming = .ok () world ∧
      (Place.Stands ⟨.slot 0, [], .scalar .int8⟩ brimming →
        readPlace ⟨.slot 0, [], .scalar .int8⟩ world = .ok (.int (.scalar .int8) n) world) ∧
      evalAssign (Calls.level 1) .absent .postIncrement
          (.node 1 1 (.scalar .int8) (.var ⟨1, "i", .scalar .int8⟩)) .absent { slots := [(1, 0)] } brimming =
        .ok (some (.int (.scalar .int8) 127)) world := by
  have hword : ∀ n : Int, -128 ≤ n → n < 128 → IsWord 8 true n := fun n hlow hhigh => ⟨hlow, hhigh⟩
  have hk : (Ty.scalar .int8).kind.integer? = some (8, true) := rfl
  have hl : Operand (.int (.scalar .int8) (-128)) (.scalar .int8) (-128) :=
    ⟨rfl, 8, true, rfl, hword _ (by decide) (by decide)⟩
  have hr : Operand (.int (.scalar .int8) (-1)) (.scalar .int8) (-1) :=
    ⟨rfl, 8, true, rfl, hword _ (by decide) (by decide)⟩
  have hbin : AssignOp.binary? .postIncrement = some .add := rfl
  have hp : place (Calls.level 1) { slots := [(1, 0)] }
      (.node 1 1 (.scalar .int8) (.var ⟨1, "i", .scalar .int8⟩)) brimming =
        .ok ⟨.slot 0, [], .scalar .int8⟩ brimming := place_var _ rfl
  have hold : readPlace ⟨.slot 0, [], .scalar .int8⟩ brimming = .ok (.int (.scalar .int8) 127) brimming := rfl
  have hsum : BinaryOp.exact? .add 127 1 = some 128 := rfl
  exact ⟨((integers_wrap hk).1 hl hr (.inr rfl) rfl).2 rfl,
    (integers_wrap hk).2.1 hl hr rfl (by decide),
    ((integers_wrap hk).2.2 hbin rfl hp hold (hword 127 (by decide) (by decide)) (.one rfl) hsum).2 rfl⟩

end Run

end Resumable
