import ZeroSet.Proofs.IntervalArithmetic

/-!
# Interval operators are tight

Enclosing is one half of interval arithmetic.  The other half is that no operator is wider than it
has to be: over exact scalars both bounds of a result are themselves results for members of the
operands, so the interval is the hull of the results.

* `Interval.IsHullOf` — the least interval around some values.
* `Interval.isHullOf_add`, `Interval.isHullOf_sub`, `Interval.isHullOf_mul`,
  `Interval.isHullOf_neg` — the total operators.
* `Interval.inverse_eq_error_iff`, `Interval.divide_eq_error_iff` — when there are no quotients.
* `Interval.operators_exactHull` — all of them together.
-/

namespace ZeroSet

open Set

variable {K : Type} [ExactScalar K]

namespace Interval

/-- The numbers in an interval. -/
def members (a : Interval K) : Set K := {x | x ∈ a}

/-- The interval holds the values and reaches no further: its bounds are in order, and both are
among the values. -/
structure IsHullOf (c : Interval K) (values : Set K) : Prop where
  /-- The bounds are in order. -/
  ordered : c.lo ≤ c.hi
  /-- Every value lies between the bounds. -/
  mem : ∀ z ∈ values, z ∈ c
  /-- The lower bound is a value. -/
  lo_mem : c.lo ∈ values
  /-- The upper bound is a value. -/
  hi_mem : c.hi ∈ values

/-- An interval that holds the values is their hull if its bounds are values. -/
theorem IsHullOf.of_bounds {c : Interval K} {values : Set K} (hmem : ∀ z ∈ values, z ∈ c)
    (hlo : c.lo ∈ values) (hhi : c.hi ∈ values) : c.IsHullOf values :=
  ⟨(hmem _ hhi).1, hmem, hlo, hhi⟩

section

variable {a b c : Interval K}

theorem lo_mem_members (ha : a.lo ≤ a.hi) : a.lo ∈ a.members := ⟨le_refl _, ha⟩

theorem hi_mem_members (ha : a.lo ≤ a.hi) : a.hi ∈ a.members := ⟨ha, le_refl _⟩

/-! ## Total operators -/

theorem isHullOf_add (ha : a.lo ≤ a.hi) (hb : b.lo ≤ b.hi) :
    (a + b).IsHullOf (image2 (· + ·) a.members b.members) := by
  refine .of_bounds ?_ ?_ ?_
  · rintro _ ⟨x, hx, y, hy, rfl⟩
    exact mem_add hx hy
  · exact mem_image2_of_mem (lo_mem_members ha) (lo_mem_members hb)
  · exact mem_image2_of_mem (hi_mem_members ha) (hi_mem_members hb)

theorem isHullOf_sub (ha : a.lo ≤ a.hi) (hb : b.lo ≤ b.hi) :
    (a - b).IsHullOf (image2 (· - ·) a.members b.members) := by
  refine .of_bounds ?_ ?_ ?_
  · rintro _ ⟨x, hx, y, hy, rfl⟩
    exact mem_sub hx hy
  · exact mem_image2_of_mem (lo_mem_members ha) (hi_mem_members hb)
  · exact mem_image2_of_mem (hi_mem_members ha) (lo_mem_members hb)

theorem isHullOf_neg (ha : a.lo ≤ a.hi) : (-a).IsHullOf ((- ·) '' a.members) := by
  refine .of_bounds ?_ ?_ ?_
  · rintro _ ⟨x, hx, rfl⟩
    exact mem_neg hx
  · exact mem_image_of_mem _ (hi_mem_members ha)
  · exact mem_image_of_mem _ (lo_mem_members ha)

theorem mul_eq (a b : Interval K) : a * b =
    ⟨min (min (min (a.lo * b.lo) (a.lo * b.hi)) (a.hi * b.lo)) (a.hi * b.hi),
      max (max (max (a.lo * b.lo) (a.lo * b.hi)) (a.hi * b.lo)) (a.hi * b.hi)⟩ := by
  rw [← lo_mul, ← hi_mul]

/-- Of four products of bounds the least and the greatest are among them. -/
theorem bounds_mul_mem (a b : Interval K) {values : Set K} (hll : a.lo * b.lo ∈ values)
    (hlh : a.lo * b.hi ∈ values) (hhl : a.hi * b.lo ∈ values) (hhh : a.hi * b.hi ∈ values) :
    (a * b).lo ∈ values ∧ (a * b).hi ∈ values := by
  have hmin : ∀ s ∈ values, ∀ t ∈ values, min s t ∈ values :=
    fun s hs t ht => min_rec' (· ∈ values) hs ht
  have hmax : ∀ s ∈ values, ∀ t ∈ values, max s t ∈ values :=
    fun s hs t ht => max_rec' (· ∈ values) hs ht
  rw [mul_eq]
  exact ⟨hmin _ (hmin _ (hmin _ hll _ hlh) _ hhl) _ hhh,
    hmax _ (hmax _ (hmax _ hll _ hlh) _ hhl) _ hhh⟩

theorem isHullOf_mul (ha : a.lo ≤ a.hi) (hb : b.lo ≤ b.hi) :
    (a * b).IsHullOf (image2 (· * ·) a.members b.members) := by
  obtain ⟨hlo, hhi⟩ := bounds_mul_mem a b
    (mem_image2_of_mem (lo_mem_members ha) (lo_mem_members hb))
    (mem_image2_of_mem (lo_mem_members ha) (hi_mem_members hb))
    (mem_image2_of_mem (hi_mem_members ha) (lo_mem_members hb))
    (mem_image2_of_mem (hi_mem_members ha) (hi_mem_members hb))
  refine .of_bounds ?_ hlo hhi
  rintro _ ⟨x, hx, y, hy, rfl⟩
  exact mem_mul hx hy

/-! ## Quotients -/

theorem inverse_eq_error_iff : b.inverse = .error .divisionByZero ↔ (0 : K) ∈ b := by
  rw [← containsZero_iff, inverse]
  split
  · rename_i hzero
    exact iff_of_true rfl hzero
  · rename_i hzero
    exact iff_of_false nofun hzero

theorem inverse_eq_ok (hzero : (0 : K) ∉ b) : b.inverse = .ok ⟨1 / b.hi, 1 / b.lo⟩ := by
  rw [inverse, if_neg (containsZero_iff.not.2 hzero)]

theorem divide_eq_error_iff : a.divide b = .error .divisionByZero ↔ (0 : K) ∈ b := by
  rw [← inverse_eq_error_iff, divide]
  cases hinverse : b.inverse with
  | error err => exact Iff.rfl
  | ok c => exact iff_of_false nofun nofun

theorem divide_eq_ok (h : b.inverse = .ok c) : a.divide b = .ok (a * c) := by
  rw [divide, h]
  rfl

/-- Reciprocals swap the bounds. -/
theorem isHullOf_inverse (hb : b.lo ≤ b.hi) (hzero : (0 : K) ∉ b) :
    (⟨1 / b.hi, 1 / b.lo⟩ : Interval K).IsHullOf ((1 / ·) '' b.members) := by
  refine .of_bounds ?_ ?_ ?_
  · rintro _ ⟨y, hy, rfl⟩
    exact (mem_inverse (inverse_eq_ok hzero) hy).2
  · exact mem_image_of_mem _ (hi_mem_members hb)
  · exact mem_image_of_mem _ (lo_mem_members hb)

/-- A quotient is the product with a reciprocal, so its bounds are quotients of bounds. -/
theorem isHullOf_divide (ha : a.lo ≤ a.hi) (hb : b.lo ≤ b.hi) (hzero : (0 : K) ∉ b) :
    (a * ⟨1 / b.hi, 1 / b.lo⟩).IsHullOf (image2 (· / ·) a.members b.members) := by
  have hcorner : ∀ x ∈ a.members, ∀ y ∈ b.members,
      x * (1 / y) ∈ image2 (· / ·) a.members b.members := by
    intro x hx y hy
    rw [← div_eq_mul_one_div]
    exact mem_image2_of_mem hx hy
  obtain ⟨hlo, hhi⟩ := bounds_mul_mem (a := a) (b := ⟨1 / b.hi, 1 / b.lo⟩)
    (hcorner _ (lo_mem_members ha) _ (hi_mem_members hb))
    (hcorner _ (lo_mem_members ha) _ (lo_mem_members hb))
    (hcorner _ (hi_mem_members ha) _ (hi_mem_members hb))
    (hcorner _ (hi_mem_members ha) _ (lo_mem_members hb))
  refine .of_bounds ?_ hlo hhi
  rintro _ ⟨x, hx, y, hy, rfl⟩
  exact (mem_divide (divide_eq_ok (inverse_eq_ok hzero)) hx hy).2

end

/-! ## All operators -/

/-- Every operator yields the hull of its results on the members of its operands: the bounds are in
order, they hold every result, and each of them is one.  Reciprocals and quotients fail exactly if
the divisor holds zero, with the error of a division by zero. -/
theorem operators_exactHull {a b : Interval K} (ha : a.lo ≤ a.hi) (hb : b.lo ≤ b.hi) :
    (a + b).IsHullOf (image2 (· + ·) a.members b.members) ∧
    (a - b).IsHullOf (image2 (· - ·) a.members b.members) ∧
    (a * b).IsHullOf (image2 (· * ·) a.members b.members) ∧
    (-a).IsHullOf ((- ·) '' a.members) ∧
    (b.inverse = .error .divisionByZero ↔ (0 : K) ∈ b) ∧
    (a.divide b = .error .divisionByZero ↔ (0 : K) ∈ b) ∧
    ((0 : K) ∉ b → ∃ reciprocals quotients : Interval K,
      b.inverse = .ok reciprocals ∧ reciprocals.IsHullOf ((1 / ·) '' b.members) ∧
      a.divide b = .ok quotients ∧
      quotients.IsHullOf (image2 (· / ·) a.members b.members)) := by
  refine ⟨isHullOf_add ha hb, isHullOf_sub ha hb, isHullOf_mul ha hb, isHullOf_neg ha,
    inverse_eq_error_iff, divide_eq_error_iff, fun hzero => ?_⟩
  have hinverse := inverse_eq_ok hzero
  exact ⟨_, _, hinverse, isHullOf_inverse hb hzero, divide_eq_ok hinverse,
    isHullOf_divide ha hb hzero⟩

/-- A factor on both sides of zero and a negative one: the least product is that of the upper bound
with the lower one, and the quotients swap the sides. -/
theorem operators_exactHull_acrossZero :
    (-1 : ℝ) ≤ 2 ∧ (-4 : ℝ) ≤ -2 ∧
      (⟨-8, 4⟩ : Interval ℝ).IsHullOf
        (image2 (· * ·) (⟨-1, 2⟩ : Interval ℝ).members (⟨-4, -2⟩ : Interval ℝ).members) ∧
      (⟨-1, 2⟩ : Interval ℝ).divide ⟨-4, -2⟩ = .ok ⟨-1, 1 / 2⟩ ∧
      (⟨-1, 1 / 2⟩ : Interval ℝ).IsHullOf
        (image2 (· / ·) (⟨-1, 2⟩ : Interval ℝ).members (⟨-4, -2⟩ : Interval ℝ).members) := by
  have hproduct : (⟨-1, 2⟩ * ⟨-4, -2⟩ : Interval ℝ) = ⟨-8, 4⟩ := by
    rw [mul_eq]
    norm_num
  have ha : (⟨-1, 2⟩ : Interval ℝ).lo ≤ (⟨-1, 2⟩ : Interval ℝ).hi := by norm_num
  have hb : (⟨-4, -2⟩ : Interval ℝ).lo ≤ (⟨-4, -2⟩ : Interval ℝ).hi := by norm_num
  have hzero : (0 : ℝ) ∉ (⟨-4, -2⟩ : Interval ℝ) := by
    rw [mem_iff]
    norm_num
  obtain ⟨-, -, hmul, -, -, -, hquotients⟩ := operators_exactHull ha hb
  obtain ⟨_, quotients, -, -, hdivide, hdiv⟩ := hquotients hzero
  have hquotient : quotients = ⟨-1, 1 / 2⟩ := by
    obtain rfl := Except.ok.inj (hdivide.symm.trans (divide_eq_ok (inverse_eq_ok hzero)))
    rw [mul_eq]
    norm_num
  rw [hquotient] at hdivide hdiv
  rw [hproduct] at hmul
  exact ⟨ha, hb, hmul, hdivide, hdiv⟩

end Interval

end ZeroSet
