import ZeroSet.Proofs.FloatLaws
import ZeroSet.Proofs.FloatOrder
import ZeroSet.Scalar.Binary64

/-!
# The laws of machine floats

Every operation takes its operands apart into signs, mantissas and exponents, computes with these,
and puts the result together again.  Most laws hold of the parts up to the sign of a zero, whatever
rounding does; that one multiplies and divides by nothing is a law of rounding.

* `UnpackedFloat.unsigned` — a float without the sign of its zero.
* `UnpackedFloat.roundWithAccuracy_two_pow_mul` — rounding finds a float that it is given.
* `Binary64.unpack_neg` — the parts of an opposite.
* `Binary64.floatLaws` — machine floats have the laws of floats.
-/

namespace ZeroSet

open Float.Model

namespace UnpackedFloat

/-! ## The parts up to the sign of a zero -/

/-- The parts without the sign of a zero. -/
def unsigned : UnpackedFloat → UnpackedFloat
  | .zero _ => .zero .positive
  | a => a

section

variable (spec : Format) (a b : UnpackedFloat) (s : UnpackedFloat.Sign)

theorem unsigned_neg : unsigned a.neg = unsigned (unsigned a).neg := by
  cases a <;> rfl

theorem unsigned_add :
    unsigned (UnpackedFloat.add spec a b) =
      unsigned (UnpackedFloat.add spec (unsigned a) (unsigned b)) := by
  cases a with
  | zero s =>
    cases b with
    | zero t => cases s <;> cases t <;> rfl
    | _ => rfl
  | _ => cases b <;> rfl

theorem unsigned_mul :
    unsigned (UnpackedFloat.mul spec a b) =
      unsigned (UnpackedFloat.mul spec (unsigned a) (unsigned b)) := by
  cases a <;> cases b <;> rfl

/-- A quotient sees the sign of the zero that it is divided by. -/
theorem unsigned_div (h : unsigned b ≠ .zero .positive) :
    unsigned (UnpackedFloat.div spec a b) =
      unsigned (UnpackedFloat.div spec (unsigned a) (unsigned b)) := by
  cases b with
  | zero s => exact absurd rfl h
  | _ => cases a <;> rfl

theorem unsigned_zero_add : unsigned (UnpackedFloat.add spec (.zero s) a) = unsigned a := by
  cases a with
  | zero t => cases s <;> cases t <;> rfl
  | _ => rfl

theorem unsigned_add_zero : unsigned (UnpackedFloat.add spec a (.zero s)) = unsigned a := by
  cases a with
  | zero t => cases s <;> cases t <;> rfl
  | _ => rfl

/-! ## Signs -/

theorem neg_neg : a.neg.neg = a := by
  cases a with
  | notANumber => rfl
  | infinity s => cases s <;> rfl
  | zero s => cases s <;> rfl
  | finite s m e hm => cases s <;> rfl

/-- To subtract is to add the opposite, with one rounding. -/
theorem sub_eq_add_neg : UnpackedFloat.sub spec a b = UnpackedFloat.add spec a b.neg := by
  have hsign : ∀ (s : UnpackedFloat.Sign) (n : ℤ), (-s).apply n = -s.apply n := by
    intro s n
    cases s
    · exact (Int.neg_neg n).symm
    · rfl
  cases a with
  | finite s m e hm =>
    cases b with
    | finite t n f hn =>
      simp only [UnpackedFloat.sub, UnpackedFloat.add, UnpackedFloat.neg, hsign, Int.sub_eq_add_neg]
    | _ => rfl
  | _ => cases b <;> rfl

theorem neg_mul_neg : UnpackedFloat.mul spec a.neg b.neg = UnpackedFloat.mul spec a b := by
  have hsigns : ∀ s t : UnpackedFloat.Sign, -s * -t = s * t := by
    intro s t
    cases s <;> cases t <;> rfl
  cases a <;> cases b <;> simp [UnpackedFloat.neg, UnpackedFloat.mul, hsigns]

theorem mul_comm : UnpackedFloat.mul spec a b = UnpackedFloat.mul spec b a := by
  have hsigns : ∀ s t : UnpackedFloat.Sign, s * t = t * s := by
    intro s t
    cases s <;> cases t <;> rfl
  cases a <;> cases b <;> simp [UnpackedFloat.mul, hsigns, Nat.mul_comm, Int.add_comm]

end

/-! ## Rounding what needs no rounding -/

theorem log2_two_pow_mul {m : ℕ} (hm : m ≠ 0) (k : ℕ) : (2 ^ k * m).log2 = k + m.log2 := by
  induction k with
  | zero => simp
  | succ k ih =>
    have hpos : 2 ^ k * m ≠ 0 := by positivity
    rw [pow_succ', Nat.mul_assoc, Nat.log2_two_mul hpos, ih]
    omega

/-- Shifting out zeros loses nothing. -/
theorem shiftRight_two_pow_mul (m k : ℕ) :
    (⟨2 ^ k * m, false, false⟩ : UnpackedFloat.ExtendedMantissa) >>> k = ⟨m, false, false⟩ := by
  show k.repeat UnpackedFloat.ExtendedMantissa.shiftRightOne _ = _
  induction k generalizing m with
  | zero => simp [Nat.repeat]
  | succ k ih =>
    have hrearranged : 2 ^ (k + 1) * m = 2 ^ k * (2 * m) := by
      rw [pow_succ, Nat.mul_assoc]
    rw [Nat.repeat, hrearranged, ih]
    simp [UnpackedFloat.ExtendedMantissa.shiftRightOne]

variable {spec : Format} {m : ℕ} {e : ℤ}

/-- The exponent is the one that the format wants for the number. -/
def IsTarget (spec : Format) (m : ℕ) (e : ℤ) : Prop :=
  spec.targetExponent (totalExponent m e) = e

/-- A number with zeros to spare is shifted to the exponent of its format. -/
theorem shiftToTargetExponent_two_pow_mul (hm : m ≠ 0) (he : IsTarget spec m e) (k : ℕ) :
    UnpackedFloat.shiftToTargetExponent spec (2 ^ k * m) (e - k) .exact =
      (⟨m, false, false⟩, e) := by
  have htarget : spec.targetExponent (totalExponent (2 ^ k * m) (e - k)) = e := by
    have htotal : totalExponent (2 ^ k * m) (e - k) = totalExponent m e := by
      rw [totalExponent, totalExponent, log2_two_pow_mul hm]
      omega
    rw [htotal]
    exact he
  have hamount : (e - (e - k)).toNat = k := by omega
  rw [UnpackedFloat.shiftToTargetExponent, htarget, UnpackedFloat.shiftToExponent, hamount]
  exact Prod.ext (shiftRight_two_pow_mul m k) (Int.sub_add_cancel e k)

/-- A float with zeros to spare is rounded to itself. -/
theorem roundWithAccuracy_two_pow_mul (hm : 0 < m) (he : IsTarget spec m e) (k : ℕ)
    (s : UnpackedFloat.Sign) :
    UnpackedFloat.roundWithAccuracy spec s (2 ^ k * m) (e - k) .exact = .finite s m e hm := by
  have hagain := shiftToTargetExponent_two_pow_mul hm.ne' he 0
  rw [pow_zero, Nat.one_mul, Nat.cast_zero, Int.sub_zero] at hagain
  rw [UnpackedFloat.roundWithAccuracy, shiftToTargetExponent_two_pow_mul hm.ne' he k]
  show (match UnpackedFloat.shiftToTargetExponent spec m e .exact with
    | (em, e) => if h : em.mantissa = 0 then UnpackedFloat.zero s
      else .finite s em.mantissa e (Nat.pos_of_ne_zero h)) = _
  rw [hagain]
  exact dif_neg hm.ne'

/-! ## One multiplies and divides by nothing -/

/-- The parts of one, in a format with `k` bits behind the point. -/
def one (k : ℕ) : UnpackedFloat := .finite .positive (2 ^ k) (-k) (Nat.two_pow_pos k)

theorem one_mul_finite (hm : 0 < m) (he : IsTarget spec m e) (k : ℕ) (s : UnpackedFloat.Sign) :
    UnpackedFloat.mul spec (one k) (.finite s m e hm) = .finite s m e hm := by
  have hsign : UnpackedFloat.Sign.positive * s = s := by cases s <;> rfl
  have hround := roundWithAccuracy_two_pow_mul hm he k s
  rw [one, UnpackedFloat.mul, hsign, Int.add_comm, ← Int.sub_eq_add_neg]
  exact hround

/-- The quotient by one is computed with zeros to spare. -/
theorem exists_divCore_two_pow (he : IsTarget spec m e) (k : ℕ) :
    ∃ j : ℕ, UnpackedFloat.divCore spec m e (2 ^ k) (-k) = (2 ^ j * m, e - j, .exact) := by
  have htotal : totalExponent (2 ^ k) (-k) = 1 := by
    rw [totalExponent, Nat.log2_two_pow]
    omega
  obtain ⟨t, ht⟩ : ∃ t, t = min (e - -(k : ℤ)) (spec.targetExponent (totalExponent m e - 1)) :=
    ⟨_, rfl⟩
  have hle : t ≤ e := by
    rw [IsTarget, Format.targetExponent] at he
    rw [Format.targetExponent] at ht
    omega
  obtain ⟨j, hj⟩ : ∃ j : ℕ, (j : ℤ) = e - t := ⟨(e - t).toNat, by omega⟩
  have hamount : (e - -(k : ℤ) - t).toNat = k + j := by omega
  have hshift : m <<< (k + j) = 2 ^ k * (2 ^ j * m) := by
    rw [Nat.shiftLeft_eq, Nat.mul_comm, pow_add, Nat.mul_assoc]
  refine ⟨j, ?_⟩
  rw [UnpackedFloat.divCore, htotal, ← ht, hamount, hshift]
  rw [Nat.mul_div_cancel_left _ (Nat.two_pow_pos k), Nat.mul_mod_right, hj, Int.sub_sub_self]
  rfl

theorem finite_div_one (hm : 0 < m) (he : IsTarget spec m e) (k : ℕ) (s : UnpackedFloat.Sign) :
    UnpackedFloat.div spec (.finite s m e hm) (one k) = .finite s m e hm := by
  have hsign : s / UnpackedFloat.Sign.positive = s := by cases s <;> rfl
  obtain ⟨j, hj⟩ := exists_divCore_two_pow he k
  rw [one, UnpackedFloat.div, hsign, hj]
  exact roundWithAccuracy_two_pow_mul hm he j s

/-! ## Bit patterns -/

/-- The exponent that leaves 53 digits, unless it is too small. -/
theorem targetExponent_eq (t : ℤ) :
    Format.binary64.targetExponent t = max (t - 53) (-1074) := rfl

/-- What a bit pattern stands for has the exponent that the format wants. -/
theorem isTarget_of_unpack {bits : BitVec Format.binary64.numBits} {s : UnpackedFloat.Sign}
    {hm : 0 < m} (h : UnpackedFloat.unpack .binary64 bits = .finite s m e hm) :
    IsTarget .binary64 m e := by
  have hbias : Format.binary64.exponentBias = 1023 := rfl
  rw [IsTarget, targetExponent_eq, totalExponent]
  unfold UnpackedFloat.unpack at h
  dsimp only at h
  split_ifs at h with hinfinite hnan hsmall hzero
  · -- below the normal numbers
    cases h
    have hlog : (UnpackedFloat.unpackMantissa bits).toNat.log2 < 52 :=
      (Nat.log2_lt hm.ne').2 (BitVec.isLt _)
    have hfield : (UnpackedFloat.unpackExponent bits).toNat = 0 := congrArg BitVec.toNat hsmall
    omega
  · cases h
    have hlog : (1#1 ++ UnpackedFloat.unpackMantissa bits).toNat.log2 = 52 := by
      have hlt : (UnpackedFloat.unpackMantissa bits).toNat < 2 ^ 52 := BitVec.isLt _
      rw [Nat.log2_eq_iff hm.ne', BitVec.toNat_append, ← Nat.shiftLeft_add_eq_or_of_lt hlt]
      exact ⟨Nat.le_add_right _ _, Nat.add_lt_add_left hlt (2 ^ 52)⟩
    have hexponent : 0 < (UnpackedFloat.unpackExponent bits).toNat :=
      Nat.pos_of_ne_zero fun h => hsmall (BitVec.eq_of_toNat_eq h)
    omega

/-- What a bit pattern stands for survives packing. -/
theorem unpack_pack_unpack (bits : BitVec Format.binary64.numBits) :
    UnpackedFloat.unpack .binary64
        (UnpackedFloat.pack .binary64 (UnpackedFloat.unpack .binary64 bits)) =
      UnpackedFloat.unpack .binary64 bits := by
  rw [UnpackedFloat.pack_unpack]
  split
  · rename_i hnan
    obtain ⟨hexponent, hmantissa⟩ := of_decide_eq_true hnan
    rw [UnpackedFloat.unpack_packedNaN, UnpackedFloat.unpack, if_pos hexponent, if_neg hmantissa]
  · rfl

/-- So does its opposite, which has the other sign bit. -/
theorem unpack_pack_neg (bits : BitVec Format.binary64.numBits) :
    UnpackedFloat.unpack .binary64
        (UnpackedFloat.pack .binary64 (UnpackedFloat.unpack .binary64 bits).neg) =
      (UnpackedFloat.unpack .binary64 bits).neg := by
  have hneg : UnpackedFloat.unpack .binary64 (UnpackedFloat.packComponents .binary64
        (-UnpackedFloat.Sign.ofBitVec (UnpackedFloat.unpackSign bits))
        (UnpackedFloat.unpackExponent bits) (UnpackedFloat.unpackMantissa bits)) =
      (UnpackedFloat.unpack .binary64 bits).neg := by
    unfold UnpackedFloat.unpack
    simp only [UnpackedFloat.unpackExponent_packComponents,
      UnpackedFloat.unpackMantissa_packComponents, UnpackedFloat.unpackSign_packComponents,
      UnpackedFloat.Sign.ofBitVec_toBitVec]
    split_ifs <;> rfl
  rw [← hneg, unpack_pack_unpack]

end UnpackedFloat

/-! ## Floats -/

namespace Binary64

open Scalar UnpackedFloat

/-- The float with the given parts. -/
def ofParts (a : UnpackedFloat) : Float := ⟨Float.Model.pack a⟩

variable (x y : Float)

/-- The parts of a float. -/
def unpack : UnpackedFloat := x.toModel.unpack

theorem ofParts_unpack : ofParts (unpack x) = x := by
  refine eq_of_unpack_eq ?_
  exact unpack_pack_unpack _

theorem unpack_neg : unpack (-x) = (unpack x).neg := unpack_pack_neg _

theorem neg_def : -x = ofParts (unpack x).neg := rfl

theorem add_def : x + y = ofParts (UnpackedFloat.add .binary64 (unpack x) (unpack y)) := rfl

theorem sub_def : x - y = ofParts (UnpackedFloat.sub .binary64 (unpack x) (unpack y)) := rfl

theorem mul_def : x * y = ofParts (UnpackedFloat.mul .binary64 (unpack x) (unpack y)) := rfl

theorem div_def : x / y = ofParts (UnpackedFloat.div .binary64 (unpack x) (unpack y)) := rfl

theorem sub_eq_add_neg : x - y = x + -y := by
  rw [sub_def, add_def, unpack_neg, UnpackedFloat.sub_eq_add_neg]

theorem neg_neg : - -x = x := by
  rw [neg_def, unpack_neg, UnpackedFloat.neg_neg, ofParts_unpack]

theorem neg_mul_neg : -x * -y = x * y := by
  rw [mul_def, unpack_neg, unpack_neg, UnpackedFloat.neg_mul_neg, ← mul_def]

theorem mul_comm : x * y = y * x := by
  rw [mul_def, UnpackedFloat.mul_comm, ← mul_def]

theorem one_mul : 1 * x = x := by
  have hone : unpack 1 = one 52 := rfl
  have hproduct : UnpackedFloat.mul .binary64 (one 52) (unpack x) = unpack x := by
    cases h : unpack x with
    | finite s m e hm => exact one_mul_finite hm (isTarget_of_unpack h) 52 s
    | infinity s => cases s <;> rfl
    | zero s => cases s <;> rfl
    | notANumber => rfl
  rw [mul_def, hone, hproduct, ofParts_unpack]

theorem div_one : x / 1 = x := by
  have hone : unpack 1 = one 52 := rfl
  have hquotient : UnpackedFloat.div .binary64 (unpack x) (one 52) = unpack x := by
    cases h : unpack x with
    | finite s m e hm => exact finite_div_one hm (isTarget_of_unpack h) 52 s
    | infinity s => cases s <;> rfl
    | zero s => cases s <;> rfl
    | notANumber => rfl
  rw [div_def, hone, hquotient, ofParts_unpack]

/-! ## The sign of a zero -/

variable {x y} {x' y' : Float} {a b : UnpackedFloat}

theorem isNaN_iff : Scalar.isNaN x = true ↔ unpack x = .notANumber := by
  have hself : (x == x) = true ↔ unpack x ≠ .notANumber := by
    refine (UnpackedFloat.beq_iff_ne_notANumber_and_eq _ _).trans ?_
    exact ⟨fun h => h.1, fun h => ⟨h, h, .inl rfl⟩⟩
  rw [Scalar.isNaN, Bool.not_eq_true', ← Bool.not_eq_true, hself, not_not]

theorem beq_iff : (x == y) = true ↔
    unpack x ≠ .notANumber ∧ unsigned (unpack x) = unsigned (unpack y) := by
  refine (UnpackedFloat.beq_iff_ne_notANumber_and_eq (unpack x) (unpack y)).trans ?_
  cases unpack x with
  | zero s => cases unpack y with
    | zero t => cases s <;> cases t <;> simp [unsigned]
    | _ => simp [unsigned]
  | _ => cases unpack y <;> simp [unsigned]

theorem same_iff : Same x y ↔ unsigned (unpack x) = unsigned (unpack y) := by
  rw [Same, beq_iff, isNaN_iff, isNaN_iff]
  cases unpack x <;> cases unpack y <;> simp [unsigned]

theorem same_ofParts (h : unsigned a = unsigned b) : Same (ofParts a) (ofParts b) := by
  have hzero : ∀ s, unpack (ofParts (.zero s)) = .zero s := fun s => unpack_packedZero
  cases a with
  | zero s =>
    cases b with
    | zero t =>
      rw [same_iff, hzero, hzero]
      rfl
    | _ => cases h
  | _ =>
    cases b with
    | zero t => cases h
    | _ => exact .of_eq (congrArg ofParts h)

theorem same_ofParts_left (h : unsigned a = unsigned (unpack x)) : Same (ofParts a) x := by
  have hsame := same_ofParts h
  rwa [ofParts_unpack] at hsame

theorem beq_zero_iff : (x == 0) = true ↔ unsigned (unpack x) = .zero .positive := by
  have hzero : unpack 0 = .zero .positive := rfl
  rw [beq_iff, hzero]
  refine ⟨fun h => h.2, fun h => ⟨?_, h⟩⟩
  intro hnan
  rw [hnan] at h
  cases h

/-! ## The laws -/

/-- A finite float is a zero or has a mantissa. -/
theorem unpack_of_isFinite (h : Scalar.isFinite x = true) :
    (∃ s, unpack x = .zero s) ∨ ∃ s m e hm, unpack x = .finite s m e hm := by
  have hnan : unpack (ofParts .notANumber) = .notANumber := @unpack_packedNaN .binary64
  have hdifference : (x - x == 0) = true := h
  rw [sub_def, beq_iff] at hdifference
  cases hx : unpack x with
  | zero s => exact .inl ⟨s, rfl⟩
  | finite s m e hm => exact .inr ⟨s, m, e, hm, rfl⟩
  | infinity s =>
    have hnone : UnpackedFloat.sub .binary64 (.infinity s) (.infinity s) = .notANumber := by
      cases s <;> rfl
    rw [hx, hnone] at hdifference
    exact absurd hnan hdifference.1
  | notANumber =>
    rw [hx] at hdifference
    exact absurd hnan hdifference.1

theorem neg_congr (hx : Same x x') : Same (-x) (-x') := by
  refine same_ofParts ?_
  show unsigned (unpack x).neg = unsigned (unpack x').neg
  rw [unsigned_neg, same_iff.1 hx, ← unsigned_neg]

theorem add_congr (hx : Same x x') (hy : Same y y') : Same (x + y) (x' + y') := by
  rw [add_def, add_def]
  refine same_ofParts ?_
  rw [unsigned_add, same_iff.1 hx, same_iff.1 hy, ← unsigned_add]

theorem mul_congr (hx : Same x x') (hy : Same y y') : Same (x * y) (x' * y') := by
  rw [mul_def, mul_def]
  refine same_ofParts ?_
  rw [unsigned_mul, same_iff.1 hx, same_iff.1 hy, ← unsigned_mul]

theorem div_congr (hzero : (y == 0) = false) (hx : Same x x') (hy : Same y y') :
    Same (x / y) (x' / y') := by
  have hdivisor : unsigned (unpack y) ≠ .zero .positive := by
    rw [Ne, ← beq_zero_iff, hzero]
    exact Bool.false_ne_true
  rw [div_def, div_def]
  refine same_ofParts ?_
  rw [unsigned_div _ _ _ hdivisor, same_iff.1 hx, same_iff.1 hy, ← unsigned_div]
  rwa [← same_iff.1 hy]

theorem same_zero_add (x : Float) : Same (0 + x) x := by
  rw [add_def]
  exact same_ofParts_left (unsigned_zero_add _ _ _)

theorem same_add_zero (x : Float) : Same (x + 0) x := by
  rw [add_def]
  exact same_ofParts_left (unsigned_add_zero _ _ _)

theorem same_neg_zero : Same (-0 : Float) 0 := by
  rw [neg_def]
  exact same_ofParts_left rfl

theorem same_zero_mul (h : Scalar.isFinite x = true) : Same (0 * x) 0 := by
  rw [mul_def]
  refine same_ofParts_left ?_
  rcases unpack_of_isFinite h with ⟨s, hx⟩ | ⟨s, m, e, hm, hx⟩ <;> rw [hx] <;> rfl

theorem same_zero_div (hzero : (x == 0) = false) (hnan : Scalar.isNaN x = false) :
    Same (0 / x) 0 := by
  rw [div_def]
  refine same_ofParts_left ?_
  cases hx : unpack x with
  | zero s =>
    rw [beq_zero_iff.2 (by rw [hx]; rfl)] at hzero
    cases hzero
  | notANumber =>
    rw [isNaN_iff.2 hx] at hnan
    cases hnan
  | _ => rfl

instance floatLaws : FloatLaws Float where
  beq_symm := PartialEquivBEq.symm
  beq_trans := PartialEquivBEq.trans
  neg_congr := neg_congr
  add_congr := add_congr
  sub_congr hx hy := by
    rw [sub_eq_add_neg, sub_eq_add_neg]
    exact add_congr hx (neg_congr hy)
  mul_congr := mul_congr
  div_congr := div_congr
  neg_neg x := .of_eq (neg_neg x)
  neg_zero := same_neg_zero
  zero_add := same_zero_add
  add_zero := same_add_zero
  sub_zero x := by
    rw [sub_eq_add_neg]
    exact same_iff.2 ((same_iff.1 (add_congr (.refl x) same_neg_zero)).trans
      (same_iff.1 (same_add_zero x)))
  zero_sub x := by
    rw [sub_eq_add_neg]
    exact same_zero_add (-x)
  add_neg x y := .of_eq (sub_eq_add_neg x y).symm
  sub_neg x y := .of_eq (by rw [sub_eq_add_neg, neg_neg])
  neg_mul_neg x y := .of_eq (neg_mul_neg x y)
  one_mul x := .of_eq (one_mul x)
  mul_one x := .of_eq ((mul_comm x 1).trans (one_mul x))
  div_one x := .of_eq (div_one x)
  one_ne_zero := by decide +kernel
  zero_mul := same_zero_mul
  mul_zero h := by
    rw [mul_comm]
    exact same_zero_mul h
  zero_div := same_zero_div

end Binary64

end ZeroSet
