import ZeroSet.Proofs.Extended

/-!
# What rounding leaves of arithmetic

Machine floats are no field: a product with a zero need not be zero, and nothing divides out.  What
is left are laws of single operations, up to the sign of a zero.  An operation does not see that
sign, save where it divides by a zero or raises one to a power that is not finite.

* `Scalar.Same` — one value, up to the sign of a zero; all that is not a number counts as one.
* `FloatLaws` — the laws of sums, differences, products and quotients.
* `PowerLaws` — the laws of powers.
* `Extended.floatLaws`, `Extended.powerLaws` — floats without rounding have them.
-/

namespace ZeroSet

/-! ## The laws -/

section

variable {K : Type} [Scalar K]

/-- The values are equal, or neither of them is a number. -/
def Scalar.Same (x y : K) : Prop :=
  (x == y) = true ∨ Scalar.isNaN x = true ∧ Scalar.isNaN y = true

open Scalar

/-- Arithmetic as far as rounding, infinities, two zeros and what is not a number leave it. -/
class FloatLaws (K : Type) [Scalar K] : Prop where
  /-- Equality goes both ways. -/
  beq_symm : ∀ {x y : K}, (x == y) = true → (y == x) = true
  /-- Equality is passed on. -/
  beq_trans : ∀ {x y z : K}, (x == y) = true → (y == z) = true → (x == z) = true
  /-- An opposite does not see the sign of a zero. -/
  neg_congr : ∀ {x x' : K}, Same x x' → Same (-x) (-x')
  /-- Nor does a sum. -/
  add_congr : ∀ {x x' y y' : K}, Same x x' → Same y y' → Same (x + y) (x' + y')
  /-- Nor does a difference. -/
  sub_congr : ∀ {x x' y y' : K}, Same x x' → Same y y' → Same (x - y) (x' - y')
  /-- Nor does a product. -/
  mul_congr : ∀ {x x' y y' : K}, Same x x' → Same y y' → Same (x * y) (x' * y')
  /-- Nor does a quotient, unless a zero is what is divided by. -/
  div_congr : ∀ {x x' y y' : K}, (y == 0) = false → Same x x' → Same y y' → Same (x / y) (x' / y')
  /-- Opposites undo each other. -/
  neg_neg : ∀ x : K, Same (- -x) x
  /-- Zero is its own opposite. -/
  neg_zero : Same (-0 : K) 0
  /-- Zero adds nothing on the left. -/
  zero_add : ∀ x : K, Same (0 + x) x
  /-- Zero adds nothing on the right. -/
  add_zero : ∀ x : K, Same (x + 0) x
  /-- Zero takes nothing away. -/
  sub_zero : ∀ x : K, Same (x - 0) x
  /-- Taken away from zero is the opposite. -/
  zero_sub : ∀ x : K, Same (0 - x) (-x)
  /-- To add an opposite is to take away. -/
  add_neg : ∀ x y : K, Same (x + -y) (x - y)
  /-- To take away an opposite is to add. -/
  sub_neg : ∀ x y : K, Same (x - -y) (x + y)
  /-- Two signs in a product cancel. -/
  neg_mul_neg : ∀ x y : K, Same (-x * -y) (x * y)
  /-- One multiplies by nothing on the left. -/
  one_mul : ∀ x : K, Same (1 * x) x
  /-- One multiplies by nothing on the right. -/
  mul_one : ∀ x : K, Same (x * 1) x
  /-- One divides by nothing. -/
  div_one : ∀ x : K, Same (x / 1) x
  /-- One is not zero. -/
  one_ne_zero : ((1 : K) == 0) = false
  /-- Zero times a finite value is zero. -/
  zero_mul : ∀ {x : K}, isFinite x = true → Same (0 * x) 0
  /-- A finite value times zero is zero. -/
  mul_zero : ∀ {x : K}, isFinite x = true → Same (x * 0) 0
  /-- Zero divided by a number other than zero is zero. -/
  zero_div : ∀ {x : K}, (x == 0) = false → isNaN x = false → Same (0 / x) 0

/-- Powers of floats.  A power of a zero sees its sign if it is not finite. -/
class PowerLaws (K : Type) [Scalar K] : Prop where
  /-- A power does not see the sign of a zero, unless it is not finite. -/
  pow_congr : ∀ {x x' y y' : K}, ((x == 0) = true → isFinite (pow x y) = true) → Same x x' →
    Same y y' → Same (pow x y) (pow x' y')
  /-- The first power is the base. -/
  pow_one : ∀ {x y : K}, (y == 1) = true → Same (pow x y) x
  /-- With the exponent zero a power is one, whatever the base is. -/
  pow_zero : ∀ {x y : K}, (y == 0) = true → Same (pow x y) 1
  /-- With the base one a power is one, whatever the exponent is. -/
  one_pow : ∀ {x y : K}, (x == 1) = true → Same (pow x y) 1

namespace Scalar.Same

theorem refl (x : K) : Same x x := by
  cases h : (x == x) with
  | true => exact .inl h
  | false =>
    have hnan : isNaN x = true := by rw [isNaN, h]; rfl
    exact .inr ⟨hnan, hnan⟩

theorem of_eq {x y : K} (h : x = y) : Same x y := h ▸ refl x

variable [FloatLaws K] {x y z : K}

theorem symm (h : Same x y) : Same y x := by
  rcases h with h | ⟨hx, hy⟩
  · exact .inl (FloatLaws.beq_symm h)
  · exact .inr ⟨hy, hx⟩

/-- What is equal to something is a number. -/
theorem isNaN_eq_false (h : (x == y) = true) : isNaN x = false := by
  rw [isNaN, FloatLaws.beq_trans h (FloatLaws.beq_symm h)]
  rfl

theorem trans (hxy : Same x y) (hyz : Same y z) : Same x z := by
  rcases hxy with hxy | ⟨hx, hy⟩
  · rcases hyz with hyz | ⟨hy, -⟩
    · exact .inl (FloatLaws.beq_trans hxy hyz)
    · rw [isNaN_eq_false (FloatLaws.beq_symm hxy)] at hy
      cases hy
  · rcases hyz with hyz | ⟨-, hz⟩
    · rw [isNaN_eq_false hyz] at hy
      cases hy
    · exact .inr ⟨hx, hz⟩

theorem beq_eq (h : Same x y) (z : K) : (x == z) = (y == z) := by
  rw [Bool.eq_iff_iff]
  have hforward : ∀ {x y : K}, Same x y → (x == z) = true → (y == z) = true := by
    intro x y h hx
    rcases h with h | ⟨hnan, -⟩
    · exact FloatLaws.beq_trans (FloatLaws.beq_symm h) hx
    · rw [isNaN_eq_false hx] at hnan
      cases hnan
  exact ⟨hforward h, hforward h.symm⟩

end Scalar.Same

end

/-! ## Floats without rounding -/

namespace Extended

open Scalar

variable {a a' b b' : Extended}

theorem same_iff : Same a b ↔ a.value? = b.value? := by
  rw [Same, isNaN_iff, isNaN_iff]
  cases ha : a.value? with
  | none =>
    have hbeq : (a == b) = false := by
      show decide (∃ p ∈ a.value?, p ∈ b.value?) = false
      simp [ha]
    simp [hbeq, eq_comm]
  | some p =>
    cases hb : b.value? with
    | none =>
      have hbeq : (a == b) = false := by
        show decide (∃ p ∈ a.value?, p ∈ b.value?) = false
        simp [hb]
      simp [hbeq]
    | some q => simp [beq_iff ha hb]

theorem same_of_is {x : ℝ} (ha : a.Is x) (hb : b.Is x) : Same a b := same_iff.2 (ha.trans hb.symm)

/-- Values that stand at one place are one value, or they are the zeros. -/
theorem eq_or_of_same (h : Same a b) : a = b ∨ a.Is 0 ∧ b.Is 0 := by
  rw [same_iff] at h
  rcases exists_is_or a with ⟨x, hx⟩ | ⟨s, rfl⟩ | rfl
  · have hb : b.Is x := h.symm.trans hx
    by_cases hzero : x = 0
    · subst hzero
      exact .inr ⟨hx, hb⟩
    · exact .inl ((hx.eq_number hzero).trans (hb.eq_number hzero).symm)
  · rcases exists_is_or b with ⟨y, hy⟩ | ⟨t, rfl⟩ | rfl
    · exact absurd (h.trans hy) (not_is_infinite s y)
    · refine .inl ?_
      cases s <;> cases t <;> simp [value?] at h ⊢
    · cases h
  · rcases exists_is_or b with ⟨y, hy⟩ | ⟨t, rfl⟩ | rfl
    · exact absurd (h.trans hy) (not_is_nan y)
    · cases h
    · exact .inl rfl

/-- An operation that gives one result at both zeros, on either side, does not see their sign. -/
theorem congr_of_zeros {f : Extended → Extended → Extended}
    (hleft : ∀ {a a'} b, a.Is 0 → a'.Is 0 → Same (f a b) (f a' b))
    (hright : ∀ {b b'} a, b.Is 0 → b'.Is 0 → Same (f a b) (f a b')) (ha : Same a a')
    (hb : Same b b') : Same (f a b) (f a' b') := by
  have hfirst : Same (f a b) (f a' b) := by
    rcases eq_or_of_same ha with rfl | ⟨ha, ha'⟩
    · exact .refl _
    · exact hleft b ha ha'
  have hsecond : Same (f a' b) (f a' b') := by
    rcases eq_or_of_same hb with rfl | ⟨hb, hb'⟩
    · exact .refl _
    · exact hright a' hb hb'
  exact same_iff.2 ((same_iff.1 hfirst).trans (same_iff.1 hsecond))

/-! ### Sums -/

theorem sum_comm (a b : Extended) : a + b = b + a := by
  show sum a b = sum b a
  cases a with
  | number x => cases b <;> simp [sum, real, add_comm]
  | minusZero => cases b <;> simp [sum, real]
  | infinite s =>
    cases b with
    | infinite t => cases s <;> cases t <;> rfl
    | _ => rfl
  | nan => cases b <;> rfl

theorem same_zero_add (ha : a.Is 0) (b : Extended) : Same (a + b) b := by
  rcases exists_is_or b with ⟨y, hy⟩ | ⟨t, rfl⟩ | rfl
  · have hsum := ha.add hy
    rw [zero_add] at hsum
    exact same_of_is hsum hy
  · rcases is_iff.1 ha with rfl | ⟨rfl, -⟩ <;> exact .refl _
  · rcases is_iff.1 ha with rfl | ⟨rfl, -⟩ <;> exact .refl _

theorem same_add_zero (hb : b.Is 0) (a : Extended) : Same (a + b) a := by
  rw [sum_comm]
  exact same_zero_add hb a

theorem same_add (ha : Same a a') (hb : Same b b') : Same (a + b) (a' + b') := by
  refine congr_of_zeros (f := (· + ·)) (fun b ha ha' => ?_) (fun a hb hb' => ?_) ha hb
  · rw [same_iff, same_iff.1 (same_zero_add ha b), same_iff.1 (same_zero_add ha' b)]
  · rw [same_iff, same_iff.1 (same_add_zero hb a), same_iff.1 (same_add_zero hb' a)]

/-! ### Opposites -/

theorem same_neg (h : Same a b) : Same (-a) (-b) := by
  rcases eq_or_of_same h with rfl | ⟨ha, hb⟩
  · exact .refl _
  · exact same_of_is ha.neg hb.neg

theorem same_neg_neg (a : Extended) : Same (- -a) a := by
  rcases exists_is_or a with ⟨x, hx⟩ | ⟨s, rfl⟩ | rfl
  · have hneg := hx.neg.neg
    rw [neg_neg] at hneg
    exact same_of_is hneg hx
  · cases s <;> exact .refl _
  · exact .refl _

/-! ### Products -/

theorem product_comm (a b : Extended) : a * b = b * a := by
  show product a b = product b a
  cases a with
  | infinite s =>
    cases b with
    | infinite t => cases s <;> cases t <;> simp [product, value?, isNegative]
    | _ => simp [product, bne_comm]
  | _ => cases b <;> simp [product, mul_comm, bne_comm]

theorem same_mul (ha : Same a a') (hb : Same b b') : Same (a * b) (a' * b') := by
  have hleft : ∀ {a a' : Extended} (b), a.Is 0 → a'.Is 0 → Same (a * b) (a' * b) := by
    intro a a' b ha ha'
    rcases exists_is_or b with ⟨y, hy⟩ | ⟨t, rfl⟩ | rfl
    · exact same_of_is (ha.mul hy) (ha'.mul hy)
    · rw [mul_infinite_of_zero ha, mul_infinite_of_zero ha']
      exact .refl _
    · rcases is_iff.1 ha with rfl | ⟨rfl, -⟩ <;> rcases is_iff.1 ha' with rfl | ⟨rfl, -⟩ <;>
        exact .refl _
  refine congr_of_zeros (f := (· * ·)) hleft (fun a hb hb' => ?_) ha hb
  show Same (a * _) (a * _)
  rw [product_comm a, product_comm a]
  exact hleft a hb hb'

theorem infinite_mul_infinite (s t : Bool) : infinite s * infinite t = infinite (s != t) := by
  show product (infinite s) (infinite t) = _
  cases t <;> simp [product, value?, isNegative]

theorem same_one_mul (a : Extended) : Same (1 * a) a := by
  rcases exists_is_or a with ⟨x, hx⟩ | ⟨s, rfl⟩ | rfl
  · have hproduct := (is_number 1).mul hx
    rw [one_mul] at hproduct
    exact same_of_is hproduct hx
  · exact .of_eq (mul_infinite_of_pos (is_number 1) one_pos s)
  · exact .refl _

theorem neg_infinite (s : Bool) : -infinite s = infinite !s := rfl

/-- Two signs cancel in a product with an infinity. -/
theorem neg_infinite_mul_neg (s : Bool) (b : Extended) : -infinite s * -b = infinite s * b := by
  rcases exists_is_or b with ⟨y, hy⟩ | ⟨t, rfl⟩ | rfl
  · rw [neg_infinite, product_comm, product_comm (infinite s)]
    rcases lt_trichotomy y 0 with hlt | rfl | hgt
    · rw [mul_infinite_of_neg hy hlt, mul_infinite_of_pos hy.neg (neg_pos.2 hlt)]
    · have hneg := hy.neg
      rw [neg_zero] at hneg
      rw [mul_infinite_of_zero hy, mul_infinite_of_zero hneg]
    · rw [mul_infinite_of_pos hy hgt, mul_infinite_of_neg hy.neg (neg_neg_of_pos hgt),
        Bool.not_not]
  · rw [neg_infinite, neg_infinite, infinite_mul_infinite, infinite_mul_infinite]
    simp
  · rfl

theorem same_neg_mul_neg (a b : Extended) : Same (-a * -b) (a * b) := by
  rcases exists_is_or a with ⟨x, hx⟩ | ⟨s, rfl⟩ | rfl
  · rcases exists_is_or b with ⟨y, hy⟩ | ⟨t, rfl⟩ | rfl
    · have hproduct := hx.neg.mul hy.neg
      rw [neg_mul_neg] at hproduct
      exact same_of_is hproduct (hx.mul hy)
    · rw [product_comm a, product_comm (-a), neg_infinite_mul_neg]
      exact .refl _
    · rw [product_comm a, product_comm (-a)]
      exact .refl _
  · exact .of_eq (neg_infinite_mul_neg s b)
  · exact .refl _

theorem same_zero_mul {x : ℝ} (hb : b.Is x) : Same (0 * b) 0 := by
  have hproduct := (is_number 0).mul hb
  rw [zero_mul] at hproduct
  exact same_of_is hproduct (is_number 0)

/-! ### Quotients -/

/-- A zero divided by a number other than zero is a zero. -/
theorem zero_div_is (ha : a.Is 0) (hzero : ¬b.Is 0) (hnan : b ≠ nan) : (a / b).Is 0 := by
  rcases exists_is_or b with ⟨y, hy⟩ | ⟨t, rfl⟩ | rfl
  · have hne : y ≠ 0 := by
      rintro rfl
      exact hzero hy
    have hquotient := ha.div hy hne
    rwa [zero_div] at hquotient
  · rcases is_iff.1 ha with rfl | ⟨rfl, -⟩ <;> exact is_signed _ _
  · exact absurd rfl hnan

theorem same_div (hzero : ¬b.Is 0) (ha : Same a a') (hb : Same b b') : Same (a / b) (a' / b') := by
  obtain rfl : b = b' := (eq_or_of_same hb).resolve_right fun h => hzero h.1
  rcases eq_or_of_same ha with rfl | ⟨ha, ha'⟩
  · exact .refl _
  · by_cases hnan : b = nan
    · subst hnan
      rcases is_iff.1 ha with rfl | ⟨rfl, -⟩ <;> rcases is_iff.1 ha' with rfl | ⟨rfl, -⟩ <;>
        exact .refl _
    · exact same_of_is (zero_div_is ha hzero hnan) (zero_div_is ha' hzero hnan)

theorem same_div_one (a : Extended) : Same (a / 1) a := by
  rcases exists_is_or a with ⟨x, hx⟩ | ⟨s, rfl⟩ | rfl
  · have hquotient := hx.div (is_number 1) one_ne_zero
    rw [div_one] at hquotient
    exact same_of_is hquotient hx
  · refine .of_eq ?_
    show quotient (infinite s) (number 1) = _
    cases s <;> simp [quotient, isNegative]
  · exact .refl _

/-! ### Powers -/

theorem power_of_is_zero (hb : b.Is 0) (a : Extended) : power a b = number 1 := if_pos (.inr hb)

theorem power_of_is_one (ha : a.Is 1) (b : Extended) : power a b = number 1 := if_pos (.inl ha)

open Classical in
/-- A power of finite values, if neither operand decides it alone. -/
theorem power_of_is {x y : ℝ} (ha : a.Is x) (hb : b.Is y) (hx : x ≠ 1) (hy : y ≠ 0) :
    power a b =
      if x = 0 then
        if 0 < y then signed (a.isNegative && decide (IsOdd y)) 0
        else infinite (a.isNegative && decide (IsOdd y))
      else if x < 0 ∧ ¬∃ n : ℤ, y = n then nan else number (x ^ y) := by
  have hdecided : ¬(a.value? = some 1 ∨ b.value? = some 0) := by
    rintro (h | h)
    · exact hx (ha.unique h)
    · exact hy (hb.unique h)
  obtain rfl := hb.eq_number hy
  rcases is_iff.1 ha with rfl | ⟨rfl, rfl⟩ <;> exact if_neg hdecided

theorem same_power_one (a : Extended) : Same (power a 1) a := by
  show Same (power a (number 1)) a
  have hdecided : ∀ {b : Extended}, b.value? ≠ some 1 →
      ¬(b.value? = some 1 ∨ (number 1).value? = some 0) := by
    rintro b hb (h | h)
    · exact hb h
    · exact one_ne_zero ((is_number 1).unique h)
  rcases exists_is_or a with ⟨x, hx⟩ | ⟨s, rfl⟩ | rfl
  · by_cases hone : x = 1
    · subst hone
      rw [power_of_is_one hx]
      exact same_of_is (is_number 1) hx
    · have hwhole : ∃ n : ℤ, (1 : ℝ) = n := ⟨1, Int.cast_one.symm⟩
      rw [power_of_is hx (is_number 1) hone one_ne_zero]
      split_ifs with hzero hpos hroot
      · subst hzero
        exact same_of_is (is_signed _ 0) hx
      · exact absurd one_pos hpos
      · exact absurd hwhole hroot.2
      · rw [Real.rpow_one]
        exact same_of_is (is_number x) hx
  · have hodd : IsOdd 1 := ⟨1, odd_one, Int.cast_one.symm⟩
    refine .of_eq ((if_neg (hdecided (not_is_infinite s 1))).trans ?_)
    simp [real, hodd]
  · exact .of_eq (if_neg (hdecided (not_is_nan 1)))

/-- A power of a zero does not see its sign, if it is finite or the exponent not a number. -/
theorem same_power_of_zero (ha : a.Is 0) (ha' : a'.Is 0) {x : ℝ} (hfinite : (power a b).Is x) :
    Same (power a b) (power a' b) := by
  rcases exists_is_or b with ⟨y, hy⟩ | ⟨t, rfl⟩ | rfl
  · by_cases hzero : y = 0
    · subst hzero
      rw [power_of_is_zero hy, power_of_is_zero hy]
      exact .refl _
    · rw [power_of_is ha hy zero_ne_one hzero, if_pos rfl] at hfinite ⊢
      rw [power_of_is ha' hy zero_ne_one hzero, if_pos rfl]
      split_ifs at hfinite ⊢ with hpos
      · exact same_of_is (is_signed _ 0) (is_signed _ 0)
      · exact absurd hfinite (not_is_infinite _ x)
  · rcases is_iff.1 ha with rfl | ⟨rfl, -⟩ <;> rcases is_iff.1 ha' with rfl | ⟨rfl, -⟩ <;>
      exact .refl _
  · rcases is_iff.1 ha with rfl | ⟨rfl, -⟩ <;> rcases is_iff.1 ha' with rfl | ⟨rfl, -⟩ <;>
      exact .refl _

theorem same_power (hfinite : a.Is 0 → ∃ x, (power a b).Is x) (ha : Same a a') (hb : Same b b') :
    Same (power a b) (power a' b') := by
  rcases eq_or_of_same hb with rfl | ⟨hb, hb'⟩
  · rcases eq_or_of_same ha with rfl | ⟨ha, ha'⟩
    · exact .refl _
    · obtain ⟨x, hx⟩ := hfinite ha
      exact same_power_of_zero ha ha' hx
  · rw [power_of_is_zero hb, power_of_is_zero hb']
    exact .refl _

/-! ### All laws -/

theorem beq_number_iff {x : ℝ} : (a == number x) = true ↔ a.Is x := by
  show decide (∃ p ∈ a.value?, p ∈ some (x : EReal)) = true ↔ _
  simp [Is]

theorem zero_beq_zero : ((0 : Extended) == 0) = true := beq_number_iff.2 (is_number 0)

theorem number_beq_eq_false {x y : ℝ} (h : x ≠ y) : (number x == number y) = false := by
  rw [← Bool.not_eq_true, beq_number_iff]
  exact fun hx => h ((is_number x).unique hx)

theorem not_is_zero_of_beq (h : (a == 0) = false) : ¬a.Is 0 := by
  rw [← beq_number_iff]
  exact fun hzero => Bool.false_ne_true (h.symm.trans hzero)

theorem is_neg_zero : (-number 0).Is 0 := by
  have hneg := (is_number 0).neg
  rwa [neg_zero] at hneg

instance floatLaws : FloatLaws Extended where
  beq_symm h := by
    obtain ⟨p, hx, hy⟩ := of_decide_eq_true h
    exact decide_eq_true ⟨p, hy, hx⟩
  beq_trans hxy hyz := by
    obtain ⟨p, hx, hy⟩ := of_decide_eq_true hxy
    obtain ⟨q, hy', hz⟩ := of_decide_eq_true hyz
    cases Option.mem_unique hy hy'
    exact decide_eq_true ⟨p, hx, hz⟩
  neg_congr := same_neg
  add_congr := same_add
  sub_congr ha hb := same_add ha (same_neg hb)
  mul_congr := same_mul
  div_congr hzero := same_div (not_is_zero_of_beq hzero)
  neg_neg := same_neg_neg
  neg_zero := same_of_is is_neg_zero (is_number 0)
  zero_add := same_zero_add (is_number 0)
  add_zero := same_add_zero (is_number 0)
  sub_zero x := same_add_zero is_neg_zero x
  zero_sub x := same_zero_add (is_number 0) (-x)
  add_neg x y := .refl _
  sub_neg x y := same_add (.refl x) (same_neg_neg y)
  neg_mul_neg := same_neg_mul_neg
  one_mul := same_one_mul
  mul_one x := by
    rw [product_comm]
    exact same_one_mul x
  div_one := same_div_one
  one_ne_zero := number_beq_eq_false one_ne_zero
  zero_mul h := by
    obtain ⟨x, hx⟩ := isFinite_iff.1 h
    exact same_zero_mul hx
  mul_zero h := by
    obtain ⟨x, hx⟩ := isFinite_iff.1 h
    rw [product_comm]
    exact same_zero_mul hx
  zero_div hzero hnan := by
    refine same_of_is (zero_div_is (is_number 0) (not_is_zero_of_beq hzero) ?_) (is_number 0)
    rintro rfl
    rw [isNaN_iff.2 rfl] at hnan
    cases hnan

instance powerLaws : PowerLaws Extended where
  pow_congr hfinite := same_power fun h => isFinite_iff.1 (hfinite (beq_number_iff.2 h))
  pow_one h := by
    obtain rfl := (beq_number_iff.1 h).eq_number one_ne_zero
    exact same_power_one _
  pow_zero h := .of_eq (power_of_is_zero (beq_number_iff.1 h) _)
  one_pow h := .of_eq (power_of_is_one (beq_number_iff.1 h) _)

end Extended

end ZeroSet
