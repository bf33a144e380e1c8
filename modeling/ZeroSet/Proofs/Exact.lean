import Mathlib
import ZeroSet.Scalar

/-!
# Exact arithmetic

What the library computes is stated over any `Scalar`.  Here are the scalars that compute
exactly, so that the algorithms can be read apart from rounding.

* `ExactScalar` — an ordered field whose comparisons, decimals and halvings mean what they say.
* `ElementaryScalar` — an exact scalar whose elementary functions obey their usual laws.
* `InverseScalar` — an elementary scalar on which the exponential function and the logarithm undo
  each other.
* `PowerScalar` — an exact scalar on which powers with natural exponents are products.
* `RootScalar` — an exact scalar on which square roots undo squaring.
* `ShadingScalar` — a root scalar on which a power is positive where its base is.
* The real numbers are all of these.

A module about exact scalars imports this one before the algorithms: the operations found on an
exact scalar are then those of its `Scalar`, which the algorithms use.
-/

namespace ZeroSet

/-- The number that a decimal literal stands for. -/
def Scalar.decimal {K : Type} [Scalar K] (digits : ℕ) (shrink : Bool) (places : ℕ) : K :=
  OfScientific.ofScientific digits shrink places

/-- An ordered field with the operations of a scalar. -/
class ExactScalar (K : Type) extends Field K, LinearOrder K, IsStrictOrderedRing K, Scalar K where
  /-- Comparing for equality decides equality. -/
  eq_of_beq_iff : ∀ x y : K, (x == y) = true ↔ x = y
  /-- A decimal literal is a whole number shifted by some places. -/
  decimal_eq : ∀ (digits : ℕ) (shrink : Bool) (places : ℕ),
    (Scalar.decimal digits shrink places : K) =
      if shrink then (digits : K) / 10 ^ places else (digits : K) * 10 ^ places
  /-- As many halvings as `Scalar.halvings` says do bring a width below a tolerance. -/
  lt_halvings : ∀ width tolerance : K, 0 < tolerance →
    width < tolerance * 2 ^ Scalar.halvings width tolerance

/-- An exact scalar on which the elementary functions obey the laws that hold of them as
functions of a real number. -/
class ElementaryScalar (K : Type) extends ExactScalar K where
  /-- A power is the exponential of a multiple of the logarithm. -/
  exp_mul_ln : ∀ a b : K, 0 < a → Scalar.exp (b * Scalar.ln a) = Scalar.pow a b
  /-- One factor less is one division by the base. -/
  pow_sub_one : ∀ a b : K, 0 < a → Scalar.pow a (b - 1) = Scalar.pow a b / a
  /-- The second power is the square, whatever the sign of the base. -/
  pow_two : ∀ a : K, Scalar.pow a 2 = a * a
  /-- Square roots of positive numbers are positive. -/
  sqrt_pos : ∀ a : K, 0 < a → 0 < Scalar.sqrt a
  /-- Among the positive numbers only one has the logarithm zero. -/
  ln_ne_zero : ∀ a : K, 0 < a → a ≠ 1 → Scalar.ln a ≠ 0

/-- An elementary scalar on which the exponential function and the logarithm undo each other and
powers obey the laws of the exponents zero and one and of the base one. -/
class InverseScalar (K : Type) extends ElementaryScalar K where
  /-- The exponential of a logarithm is what the logarithm was taken of. -/
  exp_ln : ∀ a : K, 0 < a → Scalar.exp (Scalar.ln a) = a
  /-- The logarithm of an exponential is the exponent. -/
  ln_exp : ∀ a : K, Scalar.ln (Scalar.exp a) = a
  /-- The power with exponent zero is one, whatever the base. -/
  pow_zero : ∀ a : K, Scalar.pow a 0 = 1
  /-- The power with exponent one is the base. -/
  pow_one : ∀ a : K, Scalar.pow a 1 = a
  /-- Every power of one is one. -/
  one_pow : ∀ b : K, Scalar.pow 1 b = 1

/-- An exact scalar on which powers with natural exponents are products. -/
class PowerScalar (K : Type) extends ExactScalar K where
  /-- A power with a natural exponent is a product of so many factors, whatever the base. -/
  pow_natCast : ∀ (a : K) (n : ℕ), Scalar.pow a n = a ^ n

/-- An exact scalar on which square roots undo squaring. -/
class RootScalar (K : Type) extends ExactScalar K where
  /-- Square roots are not negative. -/
  sqrt_nonneg : ∀ a : K, 0 ≤ a → 0 ≤ Scalar.sqrt a
  /-- The square of the square root is what the root was taken of. -/
  sqrt_mul_sqrt : ∀ a : K, 0 ≤ a → Scalar.sqrt a * Scalar.sqrt a = a

/-- A root scalar on which a power tells whether its base is positive. -/
class ShadingScalar (K : Type) extends RootScalar K where
  /-- Powers of zero with positive exponents vanish. -/
  zero_pow : ∀ b : K, 0 < b → Scalar.pow 0 b = 0
  /-- Powers of positive numbers are positive. -/
  pow_pos : ∀ a b : K, 0 < a → 0 < Scalar.pow a b

/-- Halving a width as often as it holds the tolerance, rounded up, brings it below the
tolerance. -/
theorem lt_mul_two_pow_ceil (width tolerance : ℝ) (h : 0 < tolerance) :
    width < tolerance * 2 ^ ⌈width / tolerance⌉₊ := by
  rw [← div_lt_iff₀' h]
  calc width / tolerance ≤ (⌈width / tolerance⌉₊ : ℝ) := Nat.le_ceil _
    _ < 2 ^ ⌈width / tolerance⌉₊ := by exact_mod_cast Nat.lt_two_pow_self

/-- The real numbers.  None of them is beyond all others, and no law mentions `infinity`. -/
noncomputable instance : ExactScalar ℝ where
  beq x y := decide (x = y)
  ofScientific digits shrink places :=
    if shrink then (digits : ℝ) / 10 ^ places else (digits : ℝ) * 10 ^ places
  decideLE := Classical.decRel _
  decideLT := Classical.decRel _
  infinity := 0
  exp := Real.exp
  ln := Real.log
  sqrt := Real.sqrt
  pow := fun x y => x ^ y
  halvings width tolerance := ⌈width / tolerance⌉₊
  eq_of_beq_iff _ _ := decide_eq_true_iff
  decimal_eq _ _ _ := rfl
  lt_halvings := lt_mul_two_pow_ceil

theorem rpow_two_eq_mul_self (a : ℝ) : a ^ (2 : ℝ) = a * a := by
  rw [Real.rpow_two, sq]

noncomputable instance : ElementaryScalar ℝ where
  exp_mul_ln a b h := by
    show Real.exp (b * Real.log a) = a ^ b
    rw [Real.rpow_def_of_pos h, mul_comm]
  pow_sub_one a b h := Real.rpow_sub_one h.ne' b
  pow_two := rpow_two_eq_mul_self
  sqrt_pos a h := Real.sqrt_pos.2 h
  ln_ne_zero a h hne := Real.log_ne_zero_of_pos_of_ne_one h hne

noncomputable instance : InverseScalar ℝ where
  exp_ln _ h := Real.exp_log h
  ln_exp := Real.log_exp
  pow_zero := Real.rpow_zero
  pow_one := Real.rpow_one
  one_pow := Real.one_rpow

noncomputable instance : PowerScalar ℝ where
  pow_natCast := Real.rpow_natCast

noncomputable instance : RootScalar ℝ where
  sqrt_nonneg a _ := Real.sqrt_nonneg a
  sqrt_mul_sqrt _ h := Real.mul_self_sqrt h

noncomputable instance : ShadingScalar ℝ where
  zero_pow _ h := Real.zero_rpow h.ne'
  pow_pos _ b h := Real.rpow_pos_of_pos h b

namespace ExactScalar

variable {K : Type} [ExactScalar K]

@[simp] theorem beq_eq_true {x y : K} : (x == y) = true ↔ x = y := eq_of_beq_iff x y

@[simp] theorem beq_self (x : K) : (x == x) = true := beq_eq_true.2 rfl

@[simp] theorem isNaN_eq_false (x : K) : Scalar.isNaN x = false := by
  simp [Scalar.isNaN]

@[simp] theorem isFinite_eq_true (x : K) : Scalar.isFinite x = true := by
  simp [Scalar.isFinite]

theorem lesser_eq_min (x y : K) : Scalar.lesser x y = min x y := by
  simp [Scalar.lesser, min_def]

theorem greater_eq_max (x y : K) : Scalar.greater x y = max x y := by
  simp [Scalar.greater, max_comm x y, max_def]

theorem ofNat_eq_natCast (n : ℕ) : (Scalar.ofNat n : K) = n := by
  have h : (Scalar.ofNat n : K) = Scalar.decimal n false 0 := rfl
  rw [h, decimal_eq, if_neg (by decide), pow_zero, mul_one]

/-- The literal behind the quotient rule and the derivative of the square root. -/
theorem decimal_two : (Scalar.decimal 20 true 1 : K) = 2 := by
  rw [decimal_eq, if_pos rfl]
  norm_num

end ExactScalar

end ZeroSet
