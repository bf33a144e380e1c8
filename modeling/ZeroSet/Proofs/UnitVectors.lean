import ZeroSet.Proofs.Exact
import ZeroSet.Space

/-!
# Lengths and directions

Over a scalar with exact square roots the unit vector in the direction of a vector is a multiple of
the vector by a number that is not negative, and zero only for the zero vector.  On which side of
another vector it points is therefore decided without taking a root.

* `RootScalar.sqrt_eq_iff` — square roots are told by their squares.
* `Vec3.lengthSquared_normalize` — normalised vectors have length one.
* `Vec3.unitOrZero_eq_scale` — the unit vector as a multiple.
* `Vec3.dot_unitOrZero_nonpos_iff` — a unit vector points to the same side as the vector.
* `Vec3.dot_unitOrZero_le` — the product with a unit vector is no more than the length.
* `Vec3.unitOrZero_of_lengthSquared` — the unit vector of a vector whose length is known.
-/

namespace ZeroSet

variable {K : Type} [RootScalar K]

/-- A number that is not negative is the root if its square is what the root was taken of. -/
theorem RootScalar.sqrt_eq_iff {a r : K} (ha : 0 ≤ a) (hr : 0 ≤ r) :
    Scalar.sqrt a = r ↔ a = r * r := by
  have hnonneg := RootScalar.sqrt_nonneg a ha
  have hsquare : Scalar.sqrt a * Scalar.sqrt a = a := RootScalar.sqrt_mul_sqrt a ha
  constructor
  · intro h
    rw [← hsquare, h]
  · intro h
    rw [h] at hsquare
    rw [h]
    exact (mul_self_inj (h ▸ hnonneg) hr).1 hsquare

namespace Vec3

variable {u v w : Vec3 K} {a : K}

/-! ## Components -/

omit [RootScalar K] in
theorem eq_of_get {v w : Vec3 K} (h : ∀ axis, v.get axis = w.get axis) : v = w := by
  obtain ⟨x, y, z⟩ := v
  obtain ⟨x', y', z'⟩ := w
  obtain rfl : x = x' := h .x
  obtain rfl : y = y' := h .y
  obtain rfl : z = z' := h .z
  rfl

@[simp] theorem get_zero (axis : Axis) : (0 : Vec3 K).get axis = 0 := by
  cases axis <;> rfl

@[simp] theorem get_add (v w : Vec3 K) (axis : Axis) :
    (v + w).get axis = v.get axis + w.get axis := by
  cases axis <;> rfl

@[simp] theorem get_sub (v w : Vec3 K) (axis : Axis) :
    (v - w).get axis = v.get axis - w.get axis := by
  cases axis <;> rfl

@[simp] theorem get_mul (v w : Vec3 K) (axis : Axis) :
    (v * w).get axis = v.get axis * w.get axis := by
  cases axis <;> rfl

@[simp] theorem get_scale (v : Vec3 K) (a : K) (axis : Axis) :
    (v.scale a).get axis = v.get axis * a := by
  cases axis <;> rfl

theorem sub_origin (v : Vec3 K) : v - 0 = v :=
  eq_of_get fun axis => by rw [get_sub, get_zero, sub_zero]

/-! ## Products -/

theorem dot_comm (v w : Vec3 K) : v.dot w = w.dot v := by
  show v.x * w.x + v.y * w.y + v.z * w.z = w.x * v.x + w.y * v.y + w.z * v.z
  ring

theorem dot_add (u v w : Vec3 K) : u.dot (v + w) = u.dot v + u.dot w := by
  show u.x * (v.x + w.x) + u.y * (v.y + w.y) + u.z * (v.z + w.z) =
    u.x * v.x + u.y * v.y + u.z * v.z + (u.x * w.x + u.y * w.y + u.z * w.z)
  ring

theorem dot_scale (v w : Vec3 K) (a : K) : v.dot (w.scale a) = v.dot w * a := by
  show v.x * (w.x * a) + v.y * (w.y * a) + v.z * (w.z * a) = (v.x * w.x + v.y * w.y + v.z * w.z) * a
  ring

@[simp] theorem dot_zero (v : Vec3 K) : v.dot 0 = 0 := by
  show v.x * 0 + v.y * 0 + v.z * 0 = 0
  ring

@[simp] theorem scale_zero (v : Vec3 K) : v.scale 0 = 0 :=
  eq_of_get fun axis => by rw [get_scale, get_zero, mul_zero]

@[simp] theorem zero_scale (a : K) : (0 : Vec3 K).scale a = 0 :=
  eq_of_get fun axis => by rw [get_scale, get_zero, zero_mul]

/-- The product of two vectors is no more than the product of their lengths. -/
theorem dot_mul_dot_le (v w : Vec3 K) :
    v.dot w * v.dot w ≤ v.lengthSquared * w.lengthSquared := by
  have hlagrange : v.lengthSquared * w.lengthSquared = v.dot w * v.dot w +
      ((v.y * w.z - v.z * w.y) * (v.y * w.z - v.z * w.y) +
        (v.z * w.x - v.x * w.z) * (v.z * w.x - v.x * w.z) +
        (v.x * w.y - v.y * w.x) * (v.x * w.y - v.y * w.x)) := by
    show (v.x * v.x + v.y * v.y + v.z * v.z) * (w.x * w.x + w.y * w.y + w.z * w.z) =
      (v.x * w.x + v.y * w.y + v.z * w.z) * (v.x * w.x + v.y * w.y + v.z * w.z) + _
    ring
  rw [hlagrange, le_add_iff_nonneg_right]
  exact add_nonneg (add_nonneg (mul_self_nonneg _) (mul_self_nonneg _)) (mul_self_nonneg _)

/-! ## Lengths -/

theorem lengthSquared_nonneg (v : Vec3 K) : 0 ≤ v.lengthSquared :=
  add_nonneg (add_nonneg (mul_self_nonneg v.x) (mul_self_nonneg v.y)) (mul_self_nonneg v.z)

theorem eq_zero_of_lengthSquared (h : v.lengthSquared = 0) : v = 0 := by
  obtain ⟨x, y, z⟩ := v
  have hx := mul_self_nonneg x
  have hy := mul_self_nonneg y
  have hz := mul_self_nonneg z
  have hsum : x * x + y * y + z * z = 0 := h
  have hzero : x * x = 0 ∧ y * y = 0 ∧ z * z = 0 := by
    refine ⟨?_, ?_, ?_⟩ <;> linarith
  rw [mul_self_eq_zero, mul_self_eq_zero, mul_self_eq_zero] at hzero
  obtain ⟨rfl, rfl, rfl⟩ := hzero
  rfl

theorem lengthSquared_scale (v : Vec3 K) (a : K) :
    (v.scale a).lengthSquared = v.lengthSquared * (a * a) := by
  rw [lengthSquared, dot_scale, dot_comm, dot_scale, mul_assoc, lengthSquared]

/-- A vector of any length but zero is normalised. -/
theorem lengthSquared_normalize (h : 0 < v.lengthSquared) : v.normalize.lengthSquared = 1 := by
  have hroot : Scalar.sqrt v.lengthSquared * Scalar.sqrt v.lengthSquared = v.lengthSquared :=
    RootScalar.sqrt_mul_sqrt _ h.le
  rw [normalize, lengthSquared_scale, inverseLength, div_mul_div_comm, hroot, mul_one, mul_one_div,
    div_self h.ne']

theorem inverseLength_nonneg (v : Vec3 K) : 0 ≤ v.inverseLength :=
  one_div_nonneg.2 (RootScalar.sqrt_nonneg _ v.lengthSquared_nonneg)

theorem eq_zero_of_inverseLength (h : v.inverseLength = 0) : v = 0 := by
  have hroot : Scalar.sqrt v.lengthSquared = 0 := by
    rwa [inverseLength, one_div, inv_eq_zero] at h
  rw [RootScalar.sqrt_eq_iff v.lengthSquared_nonneg le_rfl, mul_zero] at hroot
  exact eq_zero_of_lengthSquared hroot

/-! ## Unit vectors -/

/-- The unit vector in the direction of a vector is a multiple of it, also where there is none. -/
theorem unitOrZero_eq_scale (v : Vec3 K) : v.unitOrZero = v.scale v.inverseLength := by
  by_cases hpos : 0 < v.inverseLength
  · simp [unitOrZero, unit?, normalize, hpos]
  · have hzero : v = 0 :=
      eq_zero_of_inverseLength (le_antisymm (not_lt.1 hpos) v.inverseLength_nonneg)
    rw [unitOrZero, unit?, if_neg (by simp [hpos]), hzero, zero_scale]
    rfl

/-- A unit vector points to the same side of another vector as what it was taken of. -/
theorem dot_unitOrZero_nonpos_iff : v.dot w.unitOrZero ≤ 0 ↔ v.dot w ≤ 0 := by
  rw [unitOrZero_eq_scale, dot_scale]
  rcases w.inverseLength_nonneg.eq_or_lt with hzero | hpos
  · rw [eq_zero_of_inverseLength hzero.symm, dot_zero, zero_mul]
  · rw [← not_lt, mul_pos_iff_of_pos_right hpos, not_lt]

theorem unitOrZero_dot_nonpos_iff : v.unitOrZero.dot w ≤ 0 ↔ v.dot w ≤ 0 := by
  rw [dot_comm, dot_unitOrZero_nonpos_iff, dot_comm]

theorem lengthSquared_unitOrZero_le (v : Vec3 K) : v.unitOrZero.lengthSquared ≤ 1 := by
  rw [unitOrZero_eq_scale]
  rcases v.lengthSquared_nonneg.eq_or_lt with hzero | hpos
  · rw [eq_zero_of_lengthSquared hzero.symm, zero_scale, lengthSquared, dot_zero]
    exact zero_le_one
  · exact (lengthSquared_normalize hpos).le

/-- The product with a unit vector is no more than the length. -/
theorem dot_unitOrZero_le (v w : Vec3 K) : v.dot w.unitOrZero ≤ Scalar.sqrt v.lengthSquared := by
  have hnonneg := v.lengthSquared_nonneg
  have hroot : Scalar.sqrt v.lengthSquared * Scalar.sqrt v.lengthSquared = v.lengthSquared :=
    RootScalar.sqrt_mul_sqrt _ hnonneg
  refine (abs_le_of_sq_le_sq' ?_ (RootScalar.sqrt_nonneg _ hnonneg)).2
  calc v.dot w.unitOrZero ^ 2 = v.dot w.unitOrZero * v.dot w.unitOrZero := sq _
    _ ≤ v.lengthSquared * w.unitOrZero.lengthSquared := dot_mul_dot_le v w.unitOrZero
    _ ≤ v.lengthSquared := mul_le_of_le_one_right hnonneg w.lengthSquared_unitOrZero_le
    _ = Scalar.sqrt v.lengthSquared ^ 2 := by rw [sq, hroot]

/-- A vector whose length is known is divided by it. -/
theorem unitOrZero_of_lengthSquared (ha : 0 < a) (h : v.lengthSquared = a * a) :
    v.unitOrZero = v.scale (1 / a) := by
  have hroot : Scalar.sqrt v.lengthSquared = a :=
    (RootScalar.sqrt_eq_iff v.lengthSquared_nonneg ha.le).2 h
  rw [unitOrZero_eq_scale, inverseLength, hroot]

/-- The unit vector in the opposite direction takes away the whole length. -/
theorem dot_unitOrZero_scale_neg (v : Vec3 K) (ha : 0 < a) :
    v.dot (v.scale (-a)).unitOrZero = -Scalar.sqrt v.lengthSquared := by
  set length := Scalar.sqrt v.lengthSquared
  have hsquare : length * length = v.lengthSquared :=
    RootScalar.sqrt_mul_sqrt _ v.lengthSquared_nonneg
  have hnonneg : 0 ≤ length := RootScalar.sqrt_nonneg _ v.lengthSquared_nonneg
  rcases hnonneg.eq_or_lt with hzero | hpos
  · have hv : v = 0 := by
      rw [← hzero, mul_zero] at hsquare
      exact eq_zero_of_lengthSquared hsquare.symm
    rw [← hzero, hv, dot_comm, dot_zero, neg_zero]
  · have hscaled : (v.scale (-a)).lengthSquared = a * length * (a * length) := by
      rw [lengthSquared_scale, ← hsquare]
      ring
    rw [unitOrZero_of_lengthSquared (mul_pos ha hpos) hscaled, dot_scale, dot_scale,
      ← lengthSquared, ← hsquare]
    field_simp

end Vec3

end ZeroSet
