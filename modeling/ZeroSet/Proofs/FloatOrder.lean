import Mathlib

/-!
# Floats in their order

No float is below itself, and what is below something below a float is below the float.  That much
is true with infinities, with two zeros and with values that are not numbers, which are not
comparable to anything, and it is all that keeping the nearest of several hits takes.

* `UnpackedFloat.place` — where a number stands among the others, first by its sign, then by its
  exponent, then by its mantissa.
* `UnpackedFloat.lt_iff` — comparing floats is comparing their places.
* `Binary64.isStrictOrder` — floats are strictly ordered.
* `Binary64.lt_trichotomy_of_pos` — positive floats are comparable.
* `Binary64.lt_infinity_or_eq_of_lt` — nothing is beyond the positive infinity.
-/

namespace ZeroSet

open Float.Model

namespace UnpackedFloat

/-- Where a number stands among the others.  Zeros stand at the same place, and what is not a
number stands nowhere. -/
def place : UnpackedFloat → Option (ℤ ×ₗ ℤ ×ₗ ℤ)
  | .infinity .negative => some (toLex (-2, toLex (0, 0)))
  | .finite .negative mantissa exponent _ => some (toLex (-1, toLex (-exponent, -mantissa)))
  | .zero _ => some (toLex (0, toLex (0, 0)))
  | .finite .positive mantissa exponent _ => some (toLex (1, toLex (exponent, mantissa)))
  | .infinity .positive => some (toLex (2, toLex (0, 0)))
  | .notANumber => none

theorem compare_signs :
    compare UnpackedFloat.Sign.negative UnpackedFloat.Sign.positive = Ordering.lt := rfl

theorem compare_signs' :
    compare UnpackedFloat.Sign.positive UnpackedFloat.Sign.negative = Ordering.gt := rfl

theorem compare_sign_self (s : UnpackedFloat.Sign) : compare s s = Ordering.eq := by
  cases s <;> rfl

/-- Two numbers of the same sign compare by their exponents first. -/
theorem then_eq_lt_iff {e f : ℤ} {m n : ℕ} :
    (compare e f).then (compare m n) = .lt ↔ e < f ∨ e = f ∧ m < n := by
  simp [Ordering.then_eq_lt, Int.compare_eq_lt, Nat.compare_eq_lt]

theorem then_eq_gt_iff {e f : ℤ} {m n : ℕ} :
    (compare e f).then (compare m n) = .gt ↔ f < e ∨ e = f ∧ n < m := by
  simp [Ordering.then_eq_gt, Int.compare_eq_gt, Nat.compare_eq_gt]

theorem isLE_then_iff {e f : ℤ} {m n : ℕ} :
    ((compare e f).then (compare m n)).isLE = true ↔ e < f ∨ e = f ∧ m ≤ n := by
  rw [Ordering.isLE_iff_ne_gt, then_eq_gt_iff]
  omega

theorem isGE_then_iff {e f : ℤ} {m n : ℕ} :
    ((compare e f).then (compare m n)).isGE = true ↔ f < e ∨ e = f ∧ n ≤ m := by
  rw [Ordering.isGE_iff_ne_lt, then_eq_lt_iff]
  omega

/-- A float is less than another one if both are numbers and stand in this order. -/
theorem lt_iff (a b : UnpackedFloat) :
    a.lt b = true ↔ ∃ p ∈ place a, ∃ q ∈ place b, p < q := by
  rcases a with (_ | _) | _ | _ | ⟨_ | _, m, e, _⟩ <;>
    rcases b with (_ | _) | _ | _ | ⟨_ | _, n, f, _⟩ <;>
    simp [UnpackedFloat.lt, UnpackedFloat.compare, place, Prod.Lex.toLex_lt_toLex, compare_signs,
      then_eq_lt_iff, then_eq_gt_iff]

/-- A float is at most another one if both are numbers and stand in this order or at one place. -/
theorem le_iff (a b : UnpackedFloat) :
    a.le b = true ↔ ∃ p ∈ place a, ∃ q ∈ place b, p ≤ q := by
  rcases a with (_ | _) | _ | _ | ⟨_ | _, m, e, _⟩ <;>
    rcases b with (_ | _) | _ | _ | ⟨_ | _, n, f, _⟩ <;>
    simp [UnpackedFloat.le, UnpackedFloat.compare, place, Prod.Lex.toLex_le_toLex, compare_signs,
      compare_signs', compare_sign_self, isLE_then_iff, isGE_then_iff]

/-- Beyond zero no two numbers stand at the same place. -/
theorem eq_of_mem_place {a b : UnpackedFloat} {p : ℤ ×ₗ ℤ ×ₗ ℤ} (ha : p ∈ place a)
    (hb : p ∈ place b) (hp : toLex (0, toLex (0, 0)) < p) : a = b := by
  rcases a with (_ | _) | _ | _ | ⟨_ | _, m, e, hm⟩ <;>
    rcases b with (_ | _) | _ | _ | ⟨_ | _, n, f, hn⟩ <;>
    simp only [place, Option.mem_def, Option.some.injEq, reduceCtorEq] at ha hb <;>
    subst ha <;> simp_all [Prod.Lex.toLex_lt_toLex]

/-- The positive infinity stands behind all other numbers. -/
theorem lt_or_eq_infinity {a : UnpackedFloat} {p : ℤ ×ₗ ℤ ×ₗ ℤ} (ha : p ∈ place a) :
    p < toLex (2, toLex (0, 0)) ∨ a = .infinity .positive := by
  rcases a with (_ | _) | _ | _ | ⟨_ | _, m, e, hm⟩ <;>
    simp only [place, Option.mem_def, Option.some.injEq, reduceCtorEq] at ha <;>
    subst ha <;> simp [Prod.Lex.toLex_lt_toLex]

end UnpackedFloat

namespace Binary64

theorem lt_iff_lt_unpack {x y : Float} :
    x < y ↔ x.toModel.unpack.lt y.toModel.unpack = true := by
  show decide (x.toModel < y.toModel) = true ↔ _
  rw [decide_eq_true_iff]
  rfl

theorem le_iff_le_unpack {x y : Float} :
    x ≤ y ↔ x.toModel.unpack.le y.toModel.unpack = true := by
  show decide (x.toModel ≤ y.toModel) = true ↔ _
  rw [decide_eq_true_iff]
  rfl

theorem not_le_of_lt {x y : Float} (h : x < y) : ¬y ≤ x := by
  intro hle
  obtain ⟨p, hp, q, hq, hlt⟩ := (UnpackedFloat.lt_iff _ _).1 (lt_iff_lt_unpack.1 h)
  obtain ⟨q', hq', p', hp', hle⟩ := (UnpackedFloat.le_iff _ _).1 (le_iff_le_unpack.1 hle)
  cases Option.mem_unique hp hp'
  cases Option.mem_unique hq hq'
  exact hle.not_gt hlt

theorem le_of_lt {x y : Float} (h : x < y) : x ≤ y := by
  obtain ⟨p, hp, q, hq, hlt⟩ := (UnpackedFloat.lt_iff _ _).1 (lt_iff_lt_unpack.1 h)
  exact le_iff_le_unpack.2 ((UnpackedFloat.le_iff _ _).2 ⟨p, hp, q, hq, hlt.le⟩)

instance isStrictOrder : IsStrictOrder Float (· < ·) where
  irrefl x h := by
    obtain ⟨p, hp, q, hq, hlt⟩ := (UnpackedFloat.lt_iff _ _).1 (lt_iff_lt_unpack.1 h)
    cases Option.mem_unique hp hq
    exact lt_irrefl p hlt
  trans x y z hxy hyz := by
    obtain ⟨p, hp, q, hq, hpq⟩ := (UnpackedFloat.lt_iff _ _).1 (lt_iff_lt_unpack.1 hxy)
    obtain ⟨q', hq', r, hr, hqr⟩ := (UnpackedFloat.lt_iff _ _).1 (lt_iff_lt_unpack.1 hyz)
    cases Option.mem_unique hq hq'
    exact lt_iff_lt_unpack.2 ((UnpackedFloat.lt_iff _ _).2 ⟨p, hp, r, hr, hpq.trans hqr⟩)

theorem eq_of_unpack_eq {x y : Float} (h : x.toModel.unpack = y.toModel.unpack) : x = y := by
  rcases x with ⟨bits, hvalid⟩
  rcases y with ⟨bits', hvalid'⟩
  have hbits : bits.toBitVec = bits'.toBitVec :=
    (Float.Model.UnpackedFloat.unpack_inj_of_valid hvalid hvalid').1 h
  obtain rfl : bits = bits' := UInt64.toBitVec_inj.1 hbits
  rfl

/-- A positive float stands behind zero. -/
theorem exists_place_of_pos {x : Float} (hx : 0 < x) :
    ∃ p ∈ UnpackedFloat.place x.toModel.unpack, toLex (0, toLex (0, 0)) < p := by
  obtain ⟨zero, hzero, p, hp, hlt⟩ := (UnpackedFloat.lt_iff _ _).1 (lt_iff_lt_unpack.1 hx)
  have hunpack : (0 : Float).toModel.unpack = .zero .positive := rfl
  rw [hunpack] at hzero
  cases hzero
  exact ⟨p, hp, hlt⟩

/-- Two positive floats are the same, or one is less. -/
theorem lt_trichotomy_of_pos {x y : Float} (hx : 0 < x) (hy : 0 < y) : x < y ∨ x = y ∨ y < x := by
  obtain ⟨p, hp, hpos⟩ := exists_place_of_pos hx
  obtain ⟨q, hq, -⟩ := exists_place_of_pos hy
  rcases lt_trichotomy p q with hlt | rfl | hlt
  · exact .inl (lt_iff_lt_unpack.2 ((UnpackedFloat.lt_iff _ _).2 ⟨p, hp, q, hq, hlt⟩))
  · exact .inr (.inl (eq_of_unpack_eq (UnpackedFloat.eq_of_mem_place hp hq hpos)))
  · exact .inr (.inr (lt_iff_lt_unpack.2 ((UnpackedFloat.lt_iff _ _).2 ⟨q, hq, p, hp, hlt⟩)))

theorem unpack_infinity : (1.0 / 0.0 : Float).toModel.unpack = .infinity .positive := rfl

/-- No number is beyond the positive infinity. -/
theorem lt_infinity_or_eq_of_lt {x y : Float} (h : x < y) : y < 1.0 / 0.0 ∨ y = 1.0 / 0.0 := by
  obtain ⟨-, -, q, hq, -⟩ := (UnpackedFloat.lt_iff _ _).1 (lt_iff_lt_unpack.1 h)
  rcases UnpackedFloat.lt_or_eq_infinity hq with hlt | heq
  · refine .inl (lt_iff_lt_unpack.2 ((UnpackedFloat.lt_iff _ _).2 ⟨q, hq, _, ?_, hlt⟩))
    rw [unpack_infinity]
    rfl
  · exact .inr (eq_of_unpack_eq (heq.trans unpack_infinity.symm))

/-- What stands somewhere among the numbers is one. -/
theorem beq_self_of_mem_place {x : Float} {p : ℤ ×ₗ ℤ ×ₗ ℤ}
    (hp : p ∈ UnpackedFloat.place x.toModel.unpack) : (x == x) = true := by
  have hnumber : x.toModel.unpack ≠ .notANumber := by
    intro h
    rw [h] at hp
    cases hp
  exact (Float.Model.UnpackedFloat.beq_iff_ne_notANumber_and_eq _ _).2
    ⟨hnumber, hnumber, .inl rfl⟩

/-- A positive float is a number. -/
theorem beq_self_of_pos {x : Float} (hx : 0 < x) : (x == x) = true := by
  obtain ⟨p, hp, -⟩ := exists_place_of_pos hx
  exact beq_self_of_mem_place hp

/-- What is below a float is a number. -/
theorem beq_self_of_lt {x y : Float} (h : x < y) : (x == x) = true := by
  obtain ⟨p, hp, -⟩ := (UnpackedFloat.lt_iff _ _).1 (lt_iff_lt_unpack.1 h)
  exact beq_self_of_mem_place hp

end Binary64

end ZeroSet
