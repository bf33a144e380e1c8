import ZeroSet.Proofs.Exact
import ZeroSet.Interval
import ZeroSet.Value

/-!
# Interval arithmetic encloses arithmetic

Over exact scalars every operation on intervals yields an interval that holds the results of
the operation on all members of its operands.

* `Interval.mem_add`, `Interval.mem_sub`, `Interval.mem_mul`, `Interval.mem_neg` — the total
  operations.
* `Interval.mem_divide` — a quotient of intervals exists only where no divisor is zero.
* `BinOp.onReals_mem` — the four operators at once.
-/

namespace ZeroSet

variable {K : Type} [ExactScalar K]

namespace Interval

/-- A number is a member of an interval if it is between the bounds. -/
instance : Membership K (Interval K) := ⟨fun a x => a.lo ≤ x ∧ x ≤ a.hi⟩

theorem mem_iff {x : K} {a : Interval K} : x ∈ a ↔ a.lo ≤ x ∧ x ≤ a.hi := Iff.rfl

theorem lo_le_hi_of_mem {x : K} {a : Interval K} (h : x ∈ a) : a.lo ≤ a.hi := h.1.trans h.2

theorem mem_point (x : K) : x ∈ point x := ⟨le_refl x, le_refl x⟩

theorem containsZero_iff {a : Interval K} : a.containsZero = true ↔ (0 : K) ∈ a := by
  simp only [containsZero, Bool.and_eq_true, decide_eq_true_eq]
  exact Iff.rfl

theorem midpoint_eq (a : Interval K) : a.midpoint = (a.lo + a.hi) / 2 := by
  have h : a.midpoint = a.lo + Scalar.decimal 5 true 1 * (a.hi - a.lo) := rfl
  rw [h, ExactScalar.decimal_eq, if_pos rfl]
  norm_num
  ring

theorem length_lowerHalf (a : Interval K) : a.lowerHalf.length = a.length / 2 := by
  show a.midpoint - a.lo = (a.hi - a.lo) / 2
  rw [midpoint_eq]
  ring

theorem length_upperHalf (a : Interval K) : a.upperHalf.length = a.length / 2 := by
  show a.hi - a.midpoint = (a.hi - a.lo) / 2
  rw [midpoint_eq]
  ring

/-! ## Operations -/

section

variable {x y : K} {a b c : Interval K}

theorem mem_add (hx : x ∈ a) (hy : y ∈ b) : x + y ∈ a + b :=
  ⟨add_le_add hx.1 hy.1, add_le_add hx.2 hy.2⟩

theorem mem_sub (hx : x ∈ a) (hy : y ∈ b) : x - y ∈ a - b :=
  ⟨sub_le_sub hx.1 hy.2, sub_le_sub hx.2 hy.1⟩

theorem mem_neg (hx : x ∈ a) : -x ∈ -a := ⟨neg_le_neg hx.2, neg_le_neg hx.1⟩

/-- A multiple of a number between two others lies between their multiples. -/
theorem mul_between {lo hi : K} (hlo : lo ≤ x) (hhi : x ≤ hi) (y : K) :
    min (lo * y) (hi * y) ≤ x * y ∧ x * y ≤ max (lo * y) (hi * y) := by
  rcases le_total 0 y with hy | hy
  · exact ⟨(min_le_left _ _).trans (mul_le_mul_of_nonneg_right hlo hy),
      (mul_le_mul_of_nonneg_right hhi hy).trans (le_max_right _ _)⟩
  · exact ⟨(min_le_right _ _).trans (mul_le_mul_of_nonpos_right hhi hy),
      (mul_le_mul_of_nonpos_right hlo hy).trans (le_max_left _ _)⟩

theorem lo_mul (a b : Interval K) :
    (a * b).lo = min (min (min (a.lo * b.lo) (a.lo * b.hi)) (a.hi * b.lo)) (a.hi * b.hi) := by
  show Scalar.lesser (Scalar.lesser (Scalar.lesser _ _) _) _ = _
  simp only [ExactScalar.lesser_eq_min]

theorem hi_mul (a b : Interval K) :
    (a * b).hi = max (max (max (a.lo * b.lo) (a.lo * b.hi)) (a.hi * b.lo)) (a.hi * b.hi) := by
  show Scalar.greater (Scalar.greater (Scalar.greater _ _) _) _ = _
  simp only [ExactScalar.greater_eq_max]

/-- A product is affine in either factor, so its extremes over two intervals are at corners. -/
theorem mem_mul (hx : x ∈ a) (hy : y ∈ b) : x * y ∈ a * b := by
  have houter := mul_between hx.1 hx.2 y
  have hlo := mul_between hy.1 hy.2 a.lo
  have hhi := mul_between hy.1 hy.2 a.hi
  simp only [mul_comm _ a.lo] at hlo
  simp only [mul_comm _ a.hi] at hhi
  constructor
  · rw [lo_mul, min_assoc]
    exact (min_le_min hlo.1 hhi.1).trans houter.1
  · rw [hi_mul, max_assoc]
    exact houter.2.trans (max_le_max hlo.2 hhi.2)

/-- An interval with a reciprocal lies on one side of zero. -/
theorem mem_inverse (h : b.inverse = .ok c) (hy : y ∈ b) : y ≠ 0 ∧ 1 / y ∈ c := by
  unfold inverse at h
  split at h
  · cases h
  · rename_i hzero
    cases h
    rw [containsZero_iff, mem_iff, not_and_or, not_le, not_le] at hzero
    rcases hzero with hpos | hneg
    · exact ⟨(hpos.trans_le hy.1).ne', one_div_le_one_div_of_le (hpos.trans_le hy.1) hy.2,
        one_div_le_one_div_of_le hpos hy.1⟩
    · have hy0 : y < 0 := hy.2.trans_lt hneg
      exact ⟨hy0.ne, one_div_le_one_div_of_neg_of_le hneg hy.2,
        one_div_le_one_div_of_neg_of_le hy0 hy.1⟩

theorem mem_divide (h : a.divide b = .ok c) (hx : x ∈ a) (hy : y ∈ b) : y ≠ 0 ∧ x / y ∈ c := by
  unfold divide at h
  cases hinv : b.inverse with
  | error err =>
    rw [hinv] at h
    cases h
  | ok d =>
    rw [hinv] at h
    cases h
    obtain ⟨hne, hmem⟩ := mem_inverse hinv hy
    refine ⟨hne, ?_⟩
    rw [div_eq_mul_one_div]
    exact mem_mul hx hmem

end

end Interval

/-- Where an operator is defined on intervals, it is defined on their members and encloses what
it yields there. -/
theorem BinOp.onReals_mem {op : BinOp} {x y : K} {a b c : Interval K}
    (h : op.onIntervals a b = .ok c) (hx : x ∈ a) (hy : y ∈ b) :
    ∃ z, op.onReals x y = .ok z ∧ z ∈ c := by
  cases op with
  | add =>
    cases h
    exact ⟨x + y, rfl, Interval.mem_add hx hy⟩
  | sub =>
    cases h
    exact ⟨x - y, rfl, Interval.mem_sub hx hy⟩
  | mul =>
    cases h
    exact ⟨x * y, rfl, Interval.mem_mul hx hy⟩
  | div =>
    obtain ⟨hne, hmem⟩ := Interval.mem_divide h hx hy
    exact ⟨x / y, by simp [onReals, hne], hmem⟩

end ZeroSet
